import FileGuard.Files.Intact

/-! The calls of `create_file`, each done or failed: until the rename only the construction name is touched. -/

namespace FileGuard.Construction

open Store Files CrashLogic Durable

variable {host : Host} {faults : Prop} {name : String} {P R T : Inode → Prop} {d₀ d : Disk} {file : ObjectId}
  {B B' : Disk → Prop} {α β : Type}

/-- The staging directory stays intact at every call; a value of the program comes with `Q`, an error of it with `B`. -/
def KeepsIntact (host : Host) (faults : Prop) (name : String) (P : Inode → Prop) (d₀ : Disk) (B : Disk → Prop)
    (p : Program α) (Q : α → Disk → Prop) (d : Disk) : Prop :=
  wp (machine host faults) (fun _ d' => Intact name P d₀ d') p (onOk (fun _ : IoResult Unit => B) Q) d

namespace KeepsIntact

variable {p : Program α} {Q Q' : α → Disk → Prop} {f : α → Program β} {Q₂ : β → Disk → Prop}

theorem mono (h : KeepsIntact host faults name P d₀ B p Q d) (hq : ∀ a d', Q a d' → Q' a d') (hb : ∀ d', B d' → B' d') :
    KeepsIntact host faults name P d₀ B' p Q' d := by
  refine wp_mono h ?_
  rintro (error | a) d' hr
  · exact hb d' hr
  · exact hq a d' hr

theorem weaken (h : KeepsIntact host faults name (fun _ => False) d₀ B p Q d) :
    KeepsIntact host faults name P d₀ B p Q d :=
  wp_guarantee h fun _ _ => Intact.weaken

theorem bind (h : KeepsIntact host faults name P d₀ B p Q d)
    (hf : ∀ a d', Q a d' → KeepsIntact host faults name P d₀ B (f a) Q₂ d') :
    KeepsIntact host faults name P d₀ B (p.bind f) Q₂ d := by
  refine wp_bind.mpr (wp_mono h ?_)
  rintro (error | a) d' hr
  · exact hr
  · exact hf a d' hr

theorem attempt {g : IoResult α → Program β} (h : KeepsIntact host faults name P d₀ B' p Q d)
    (hok : ∀ a d', Q a d' → KeepsIntact host faults name P d₀ B (g (.ok a)) Q₂ d')
    (herror : ∀ error d', B' d' → KeepsIntact host faults name P d₀ B (g (.error error)) Q₂ d') :
    KeepsIntact host faults name P d₀ B (p.attempt.bind g) Q₂ d := by
  refine wp_bind.mpr (wp_attempt.mpr (wp_mono h ?_))
  rintro (error | a) d' hr
  · exact herror error d' hr
  · exact hok a d' hr

theorem attempted {g : IoResult α → Program β} (h : KeepsIntact host faults name P d₀ B' p (fun _ => B') d)
    (hg : ∀ r d', B' d' → KeepsIntact host faults name P d₀ B (g r) Q₂ d') :
    KeepsIntact host faults name P d₀ B (p.attempt.bind g) Q₂ d :=
  h.attempt (fun a => hg (.ok a)) fun error => hg (.error error)

theorem pure {a : α} (h : Q a d) : KeepsIntact host faults name P d₀ B (.pure a) Q d := h

theorem fail {e : IoError} (h : B d) : KeepsIntact host faults name P d₀ B (.fail e : Program α) Q d := h

theorem ofExcept {x : IoResult α} (hok : ∀ a, x = .ok a → Q a d) (herror : ∀ e, x = .error e → B d) :
    KeepsIntact host faults name P d₀ B (Prog.ofExcept x) Q d := by
  refine wp_ofExcept.mpr ?_
  cases x with
  | error e => exact herror e rfl
  | ok a => exact hok a rfl

theorem otherIf {c : Prop} [Decidable c] {message : String} {Q : Unit → Disk → Prop} (hok : ¬ c → Q () d)
    (herror : c → B d) : KeepsIntact host faults name P d₀ B (Construction.otherIf c message) Q d := by
  unfold Construction.otherIf
  by_cases h : c
  · rw [if_pos h]
    exact herror h
  · rw [if_neg h]
    exact hok h

/-- A system call, from what it may answer and do. -/
theorem syscall {o : Syscall} {k : o.Resp → Program α}
    (h : ∀ r d', step host faults o d r d' → Intact name P d₀ d' ∧ KeepsIntact host faults name P d₀ B (k r) Q d') :
    KeepsIntact host faults name P d₀ B (.call o k) Q d := by
  rintro _ rfl r d' hs
  exact h r d' hs

theorem observe (h : Intact name P d₀ d) {x : String} {Q : Option ObjectIdentity → Disk → Prop}
    (hok : Q ((d.file x).map (Inode.identity host)) d) (herror : faults → B d) :
    KeepsIntact host faults name P d₀ B (Construction.observe x) Q d := by
  refine syscall fun r d' hs => ?_
  obtain ⟨rfl, rfl | ⟨hf, error, rfl⟩⟩ := hs
  · exact ⟨h, hok⟩
  · exact ⟨h, herror hf⟩

theorem fstat (h : Intact name P d₀ d) {Q : Stat → Disk → Prop} (hok : ∀ stat, Q stat d) (herror : faults → B d) :
    KeepsIntact host faults name P d₀ B (Construction.fstat file) Q d := by
  refine syscall fun r d' hs => ?_
  obtain ⟨rfl, rfl | ⟨hf, error, rfl⟩⟩ := hs
  · exact ⟨h, hok _⟩
  · exact ⟨h, herror hf⟩

theorem syncDirectory (h : Intact name P d₀ d) {Q : Unit → Disk → Prop} (hok : Q () d.syncDirectory)
    (herror : faults → B d) : KeepsIntact host faults name P d₀ B Construction.syncDirectory Q d := by
  refine syscall fun r d' hs => ?_
  obtain ⟨rfl, rfl⟩ | ⟨⟨hf, error, rfl⟩, rfl⟩ := hs
  · exact ⟨h.syncDirectory, hok⟩
  · exact ⟨h, herror hf⟩

theorem unlink (h : Intact name P d₀ d) (hP : ∀ i j, Same i j → P i → P j) {Q : Unit → Disk → Prop}
    (hnamed : ∃ object, d.entries (constructionEntryName name) = some object)
    (hok : ∀ c object, Intact name P d₀ (d.remove c (constructionEntryName name) object) →
      Q () (d.remove c (constructionEntryName name) object))
    (herror : ∀ d', faults → Intact name P d₀ d' → B d') :
    KeepsIntact host faults name P d₀ B (Construction.unlink (constructionEntryName name)) Q d := by
  have hremoved (c : Choice) (object : ObjectId) : Intact name P d₀ (d.remove c (constructionEntryName name) object) := by
    have htouched : Intact name P d₀ (d.touch object fun i => { i with links := i.links - 1, ctime := c.now }) :=
      h.touch hP fun i => rfl
    exact htouched.record (by simp)
  refine syscall fun r d' hs => ?_
  obtain ⟨c, object, -, rfl, rfl | ⟨hf, error, rfl⟩⟩ | ⟨rfl, ⟨hnone, -⟩ | ⟨hf, error, rfl⟩⟩ := hs
  · exact ⟨hremoved c object, hok c object (hremoved c object)⟩
  · exact ⟨hremoved c object, herror _ hf (hremoved c object)⟩
  · obtain ⟨object, hobject⟩ := hnamed
    rw [hnone] at hobject
    cases hobject
  · exact ⟨h, herror _ hf h⟩

end KeepsIntact

/-- The construction entry is gone for good. -/
def Gone (name : String) (d : Disk) : Prop := ∀ left, d.directory.Leaves left → left (constructionEntryName name) = none

theorem Gone.of_sync (h : d.entries (constructionEntryName name) = none) : Gone name d.syncDirectory := by
  intro left hleft
  rw [Directory.leaves_sync.mp hleft]
  exact h

theorem keeps_discardEntry (h : Intact name P d₀ d) (hP : ∀ i j, Same i j → P i → P j) :
    KeepsIntact host faults name P d₀ (fun d' => Intact name P d₀ d' ∧ faults) (discardEntry (constructionEntryName name))
      (fun _ d' => Intact name P d₀ d' ∧ d'.entries (constructionEntryName name) = none ∧
        (d.entries (constructionEntryName name) ≠ none → Gone name d')) d := by
  refine (KeepsIntact.observe h (Q := fun observed d' => d' = d ∧ observed = (d.file (constructionEntryName name)).map
    (Inode.identity host)) ⟨rfl, rfl⟩ fun hf => ⟨h, hf⟩).bind ?_
  rintro observed d' ⟨rfl, rfl⟩
  cases hentry : d'.entries (constructionEntryName name) with
  | none =>
    rw [Disk.file_none hentry]
    exact KeepsIntact.pure ⟨h, hentry, fun hvisible => (hvisible rfl).elim⟩
  | some object =>
    rw [Disk.file_some hentry]
    refine (KeepsIntact.unlink h hP (Q := fun _ d' => Intact name P d₀ d' ∧
      d'.entries (constructionEntryName name) = none) ⟨object, hentry⟩ ?_ fun d' hf hd => ⟨hd, hf⟩).bind ?_
    · intro c object hd
      refine ⟨hd, ?_⟩
      rw [Disk.remove, Disk.entries_record]
      exact Function.update_self ..
    · rintro _ d' ⟨hd, hnone⟩
      exact KeepsIntact.syncDirectory hd ⟨hd.syncDirectory, hnone, fun _ => Gone.of_sync hnone⟩ fun hf => ⟨hd, hf⟩

/-- The new file under its construction name, every other name as it was. -/
structure Draft (name : String) (d₀ : Disk) (file : ObjectId) (R : Inode → Prop) (d : Disk) : Prop where
  intact : Intact name (fun _ => False) d₀ d
  fresh : d₀.next ≤ file
  allocated : file < d.next
  entry : d.entries (constructionEntryName name) = some file
  shape : R (d.inodes file)

theorem Draft.change (h : Draft name d₀ file R d) {f : Inode → Inode} (hf : T (f (d.inodes file))) :
    Draft name d₀ file T (d.change file f) where
  intact := by
    refine h.intact.beyond h.fresh rfl le_rfl ?_ ?_
    · intro other hne
      exact Function.update_of_ne hne _ _
    · intro other hne
      exact Function.update_of_ne hne _ _
  fresh := h.fresh
  allocated := h.allocated
  entry := h.entry
  shape := by
    have hinode : (d.change file f).inodes file = f (d.inodes file) := Function.update_self ..
    rw [hinode]
    exact hf

theorem Intact.create (h : Intact name (fun _ => False) d₀ d) (c : Choice) (hR : R (World.newInode host c)) :
    Draft name d₀ d.next R (d.create host c (constructionEntryName name)) where
  intact := by
    have hallocated : Intact name (fun _ => False) d₀ (d.allocate host c) := by
      refine h.beyond h.next rfl (Nat.le_succ _) ?_ ?_
      · intro other hne
        exact Function.update_of_ne hne _ _
      · intro other hne
        exact Function.update_of_ne hne _ _
    refine hallocated.record fun other hother => ?_
    cases hother
    exact Nat.lt_succ_self _
  fresh := h.next
  allocated := Nat.lt_succ_self _
  entry := by
    rw [Disk.create, Disk.entries_record]
    exact Function.update_self ..
  shape := by
    have hinode : (d.create host c (constructionEntryName name)).inodes d.next = World.newInode host c :=
      Function.update_self ..
    rw [hinode]
    exact hR

section draft

variable (h : Draft name d₀ file R d)
include h

theorem keeps_alter {a : Alteration} (hshape : ∀ t i, R i → T (a.apply t i)) :
    KeepsIntact host faults name P d₀ (Intact name P d₀) (alter file a) (fun _ d' => Draft name d₀ file T d') d := by
  have hchanged (c : Choice) : Draft name d₀ file T (d.change file fun i => a.apply c.now i) :=
    h.change (hshape c.now _ h.shape)
  refine KeepsIntact.syscall fun r d' hs => ?_
  obtain ⟨c, rfl, rfl | ⟨-, error, rfl⟩⟩ | ⟨rfl, -, error, rfl⟩ := hs
  · exact ⟨(hchanged c).intact.weaken, hchanged c⟩
  · exact ⟨(hchanged c).intact.weaken, (hchanged c).intact.weaken⟩
  · exact ⟨h.intact.weaken, h.intact.weaken⟩

theorem keeps_writeAll {contents : Bytes}
    (hshape : ∀ t i, R i → T { i with contents := i.contents ++ contents, mtime := t, ctime := t }) :
    KeepsIntact host faults name P d₀ (Intact name P d₀) (writeAll file contents)
      (fun _ d' => Draft name d₀ file T d') d := by
  refine KeepsIntact.syscall fun r d' hs => ?_
  obtain ⟨c, rfl, rfl⟩ | ⟨c, written, ⟨-, error, rfl⟩, -, rfl⟩ := hs
  · have hchanged : Draft name d₀ file T (d.append c file contents) := h.change (hshape c.now _ h.shape)
    exact ⟨hchanged.intact.weaken, hchanged⟩
  · have hchanged : Draft name d₀ file (fun _ => True) (d.append c file written) := h.change trivial
    exact ⟨hchanged.intact.weaken, hchanged.intact.weaken⟩

theorem keeps_syncFile :
    KeepsIntact host faults name P d₀ (Intact name P d₀) (syncFile file)
      (fun _ d' => Draft name d₀ file R d' ∧ d'.dirty file = false) d := by
  refine KeepsIntact.syscall fun r d' hs => ?_
  obtain ⟨rfl, rfl⟩ | ⟨⟨-, error, rfl⟩, rfl⟩ := hs
  · have hintact : Intact name (fun _ => False) d₀ (d.syncFile file) := by
      refine h.intact.beyond h.fresh rfl le_rfl ?_ ?_
      · intro other _
        rfl
      · intro other hne
        exact Function.update_of_ne hne _ _
    exact ⟨hintact.weaken, ⟨hintact, h.fresh, h.allocated, h.entry, h.shape⟩, Function.update_self ..⟩
  · exact ⟨h.intact.weaken, h.intact.weaken⟩

end draft

end FileGuard.Construction
