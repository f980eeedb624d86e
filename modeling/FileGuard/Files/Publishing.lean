import FileGuard.Files.Drafting

/-! A new file is filled and synced under its construction name before it gets its own. -/

namespace FileGuard.Construction

open Store Files CrashLogic Durable

variable {host : Host} {faults : Prop} {name : String} {contents : Bytes} {metadata : RestoreMetadata}
  {restoreExactMetadata : Bool} {P : Inode → Prop} {d₀ d : Disk} {file : ObjectId}

theorem lookup_map_set (xattrs : List (Bytes × Bytes)) (label value other : Bytes) :
    (xattrs.map fun x => if x.1 = label then (label, value) else x).lookup other =
      if other = label then (xattrs.lookup label).map fun _ => value else xattrs.lookup other := by
  induction xattrs with
  | nil => simp
  | cons x rest ih =>
    rw [List.map_cons, List.lookup_cons, List.lookup_cons, List.lookup_cons, ih]
    by_cases hother : other = label
    · subst hother
      by_cases hx : x.1 = other
      · simp [hx]
      · have hne : (other == x.1) = false := beq_false_of_ne (Ne.symm hx)
        simp [hx, hne]
    · have hlabel : (other == label) = false := beq_false_of_ne hother
      by_cases hx : x.1 = label
      · simp [hx, hother, hlabel]
      · simp [hx, hother]

theorem lookup_setXattr (xattrs : List (Bytes × Bytes)) (label value other : Bytes) :
    (setXattr xattrs label value).lookup other = if other = label then some value else xattrs.lookup other := by
  unfold setXattr
  by_cases hset : xattrs.any (fun x => x.1 == label) = true
  · rw [if_pos hset, lookup_map_set]
    have hfound : (xattrs.lookup label).isSome = true := by
      obtain ⟨x, hx, he⟩ := List.any_eq_true.mp hset
      exact List.lookup_isSome_iff.mpr ⟨x, hx, beq_iff_eq.mpr (beq_iff_eq.mp he).symm⟩
    obtain ⟨old, hold⟩ := Option.isSome_iff_exists.mp hfound
    rw [hold, Option.map_some]
  · rw [if_neg hset, List.lookup_append]
    by_cases hother : other = label
    · subst hother
      have hnone : xattrs.lookup other = none := by
        refine List.lookup_eq_none_iff.mpr fun x hx => bne_iff_ne.mpr fun he => ?_
        exact hset (List.any_eq_true.mpr ⟨x, hx, beq_iff_eq.mpr he.symm⟩)
      simp [hnone]
    · have hlabel : (other == label) = false := beq_false_of_ne hother
      simp [List.lookup_cons, hother, hlabel]

def decodeXattrs : List ExtendedAttribute → IoResult (List (Bytes × Bytes))
  | [] => .ok []
  | xattr :: rest => do
    let name ← StagingArea.decodeXattrHex xattr.nameHex
    let value ← StagingArea.decodeXattrHex xattr.valueHex
    let given ← decodeXattrs rest
    .ok ((name, value) :: given)

/-- The labels of a file are these, the last one of each name. -/
def Carries (given : List (Bytes × Bytes)) (i : Inode) : Prop :=
  ∀ label, i.xattrs.lookup label = given.reverse.lookup label

/-- A file as the caller asked for it. -/
structure Complete (contents : Bytes) (metadata : RestoreMetadata) (restoreExactMetadata : Bool) (i : Inode) : Prop where
  type : i.mode &&& fileTypeMask = regularType
  contents : i.contents = contents
  uid : i.uid = metadata.uid
  gid : i.gid = metadata.gid
  mode : i.mode &&& 0o7777 = metadata.mode &&& 0o7777
  xattrs : restoreExactMetadata = true → ∃ given, decodeXattrs metadata.xattrs = .ok given ∧ Carries given i
  times : restoreExactMetadata = true → i.atime = metadata.atime ∧ i.mtime = metadata.mtime

theorem Complete.same {i j : Inode} (hsame : Same i j) (h : Complete contents metadata restoreExactMetadata i) :
    Complete contents metadata restoreExactMetadata j := by
  unfold Same at hsame
  rw [hsame]
  exact { h with }

/-- What is fixed of a new file once its owner and mode are set. -/
structure Sketch (contents : Bytes) (metadata : RestoreMetadata) (given : List (Bytes × Bytes)) (i : Inode) : Prop where
  type : i.mode &&& fileTypeMask = regularType
  contents : i.contents = contents
  uid : i.uid = metadata.uid
  gid : i.gid = metadata.gid
  mode : i.mode &&& 0o7777 = metadata.mode &&& 0o7777
  xattrs : Carries given i

theorem Carries.snoc {given : List (Bytes × Bytes)} {i : Inode} (h : Carries given i) (label value : Bytes) (t : Timestamp) :
    Carries (given ++ [(label, value)]) { i with xattrs := setXattr i.xattrs label value, ctime := t } := by
  intro other
  rw [List.reverse_append, List.reverse_singleton, List.singleton_append, List.lookup_cons]
  change (setXattr i.xattrs label value).lookup other = _
  rw [lookup_setXattr, h other]
  by_cases hother : other = label
  · simp [hother]
  · have hlabel : (other == label) = false := beq_false_of_ne hother
    simp [hother, hlabel]

theorem keeps_applyXattrs {given : List (Bytes × Bytes)} {xattrs : List ExtendedAttribute}
    (h : Draft name d₀ file (Sketch contents metadata given) d) :
    KeepsIntact host faults name P d₀ (Intact name P d₀) (applyXattrs file xattrs)
      (fun _ d' => ∃ rest, decodeXattrs xattrs = .ok rest ∧
        Draft name d₀ file (Sketch contents metadata (given ++ rest)) d') d := by
  induction xattrs generalizing given d with
  | nil =>
    refine KeepsIntact.pure ⟨[], rfl, ?_⟩
    rw [List.append_nil]
    exact h
  | cons xattr others ih =>
    have hintact : Intact name P d₀ d := h.intact.weaken
    cases hname : StagingArea.decodeXattrHex xattr.nameHex with
    | error e =>
      rw [applyXattrs, hname]
      exact KeepsIntact.fail hintact
    | ok label =>
      cases hvalue : StagingArea.decodeXattrHex xattr.valueHex with
      | error e =>
        rw [applyXattrs, hname, hvalue]
        exact KeepsIntact.fail hintact
      | ok value =>
        by_cases hnul : 0 ∈ label
        · have hcstring : cstring label = .error (.other "path contains a NUL byte") := if_pos hnul
          rw [applyXattrs, hname, hvalue]
          simp only [Prog.bind_eq, Prog.ofExcept_ok, Prog.pure_bind, hcstring]
          exact KeepsIntact.fail hintact
        · have hcstring : cstring label = .ok label := if_neg hnul
          rw [applyXattrs, hname, hvalue]
          simp only [Prog.bind_eq, Prog.ofExcept_ok, Prog.pure_bind, hcstring]
          refine (keeps_alter h (T := Sketch contents metadata (given ++ [(label, value)])) ?_).bind ?_
          · intro t i hi
            exact { hi with xattrs := hi.xattrs.snoc label value t }
          · intro _ d' hd'
            refine (ih hd').mono ?_ fun _ hb => hb
            rintro _ d'' ⟨rest, hrest, hdraft⟩
            rw [List.append_assoc, List.singleton_append] at hdraft
            refine ⟨(label, value) :: rest, ?_, hdraft⟩
            rw [decodeXattrs, hname, hvalue, hrest]
            rfl

theorem keeps_applyOwnershipAndMode (h : Draft name d₀ file (fun i => i.mode &&& fileTypeMask = regularType ∧
      i.xattrs = [] ∧ i.contents = contents) d) :
    KeepsIntact host faults name P d₀ (Intact name P d₀) (applyOwnershipAndMode file metadata)
      (fun _ d' => Draft name d₀ file (Sketch contents metadata []) d') d := by
  refine (KeepsIntact.otherIf (Q := fun _ d' => d' = d) (fun _ => rfl) fun _ => h.intact.weaken).bind ?_
  rintro _ _ rfl
  refine (keeps_alter h (T := fun i => (i.mode &&& fileTypeMask = regularType ∧ i.xattrs = [] ∧
    i.contents = contents) ∧ i.uid = metadata.uid ∧ i.gid = metadata.gid) ?_).bind fun _ d₁ h₁ => ?_
  · rintro t i hi
    exact ⟨hi, rfl, rfl⟩
  refine keeps_alter h₁ ?_
  rintro t i ⟨⟨htype, hxattrs, hcontents⟩, huid, hgid⟩
  refine ⟨chmod_type metadata.mode htype, hcontents, huid, hgid, chmod_permissions metadata.mode htype, ?_⟩
  intro label
  change i.xattrs.lookup label = none
  rw [hxattrs]
  rfl

theorem keeps_fill (h : Draft name d₀ file (fun i => i.mode &&& fileTypeMask = regularType ∧ i.xattrs = [] ∧
      i.contents = []) d) :
    KeepsIntact host faults name P d₀ (Intact name P d₀) (fill file contents metadata restoreExactMetadata)
      (fun _ d' => Draft name d₀ file (Complete contents metadata restoreExactMetadata) d' ∧ d'.dirty file = false) d := by
  unfold fill
  refine (keeps_writeAll h (T := fun i => i.mode &&& fileTypeMask = regularType ∧ i.xattrs = [] ∧
    i.contents = contents) ?_).bind fun _ d₁ h₁ => (keeps_applyOwnershipAndMode h₁).bind fun _ d₂ h₂ => ?_
  · rintro t i ⟨htype, hxattrs, hcontents⟩
    exact ⟨htype, hxattrs, by rw [hcontents, List.nil_append]⟩
  cases restoreExactMetadata with
  | false =>
    refine (keeps_syncFile h₂).mono (fun _ d' hd' => ⟨?_, hd'.2⟩) fun _ hb => hb
    have hshape := hd'.1.shape
    exact { hd'.1 with
      shape := ⟨hshape.type, hshape.contents, hshape.uid, hshape.gid, hshape.mode, by simp, by simp⟩ }
  | true =>
    refine (keeps_applyXattrs h₂).bind ?_
    rintro _ d₃ ⟨given, hgiven, h₃⟩
    refine (keeps_alter h₃ (T := Complete contents metadata true) fun t i hi => ?_).bind fun _ d₄ h₄ =>
      keeps_syncFile h₄
    exact ⟨hi.type, hi.contents, hi.uid, hi.gid, hi.mode, fun _ => ⟨given, hgiven, hi.xattrs⟩, fun _ => ⟨rfl, rfl⟩⟩

/-- Such a file is under the name and stays there. -/
def Installed (name : String) (P : Inode → Prop) (d : Disk) : Prop :=
  ∃ file, d.dirty file = false ∧ P (d.inodes file) ∧ ∀ left, d.directory.Leaves left → left name = some file

/-- Where the construction name is free, the file has been renamed. -/
def Renamed (name : String) (P : Inode → Prop) (d₀ : Disk) (file : ObjectId) (d : Disk) : Prop :=
  Intact name P d₀ d ∧ (d.entries (constructionEntryName name) = none →
    d.entries name = some file ∧ d.dirty file = false ∧ P (d.inodes file))

/-- Until the rename the new file has only its construction name; then it has only its own. -/
theorem keeps_publish (hP : ∀ i j, Same i j → P i → P j) (h : Draft name d₀ file P d) (hclean : d.dirty file = false) :
    KeepsIntact host faults name P d₀ (Intact name P d₀) (publish file (constructionEntryName name) name)
      (fun _ d' => Intact name P d₀ d' ∧ Gone name d' ∧ Installed name P d') d := by
  have hrenamed (c : Choice) (hfree : d.syncDirectory.entries name = none) :
      Renamed name P d₀ file (d.syncDirectory.rename c (constructionEntryName name) name file) := by
    have htouched : Intact name (fun _ => False) d₀ (d.syncDirectory.touch file fun i => { i with ctime := c.now }) :=
      h.intact.syncDirectory.touch (fun _ _ _ => id) fun i => rfl
    have hshape : P ((d.syncDirectory.touch file fun i => { i with ctime := c.now }).inodes file) := by
      have hinode : (d.syncDirectory.touch file fun i => { i with ctime := c.now }).inodes file =
          { d.inodes file with ctime := c.now } := Function.update_self ..
      rw [hinode]
      exact hP (d.inodes file) _ rfl h.shape
    refine ⟨htouched.renamed hfree h.allocated hclean hshape, fun _ => ⟨?_, hclean, hshape⟩⟩
    rw [Disk.rename, Disk.entries_record]
    exact Function.update_self ..
  have hdraft : Renamed name P d₀ file d.syncDirectory := by
    refine ⟨h.intact.syncDirectory.weaken, fun hnone => ?_⟩
    cases h.entry.symm.trans hnone
  have hrename : KeepsIntact host faults name P d₀ (Renamed name P d₀ file)
      (renameNoreplace (constructionEntryName name) name) (fun _ => Renamed name P d₀ file) d.syncDirectory := by
    refine KeepsIntact.syscall fun r d' hs => ?_
    obtain ⟨c, object, hentry, hfree, rfl, hr⟩ | ⟨rfl, hr⟩ := hs
    · cases h.entry.symm.trans hentry
      exact ⟨(hrenamed c hfree).1, KeepsIntact.ofExcept (fun _ _ => hrenamed c hfree) fun _ _ => hrenamed c hfree⟩
    · exact ⟨hdraft.1, KeepsIntact.ofExcept (fun _ _ => hdraft) fun _ _ => hdraft⟩
  have hintact : Intact name P d₀ d := h.intact.weaken
  unfold publish
  refine (KeepsIntact.fstat hintact (Q := fun _ d' => d = d') (fun _ => rfl) fun _ => hintact).bind ?_
  rintro beforeRename _ rfl
  refine (KeepsIntact.syncDirectory hintact (Q := fun _ d' => d.syncDirectory = d') rfl fun _ => hintact).bind ?_
  rintro _ _ rfl
  -- a rename that failed may have moved the file; what follows looks at the names only
  refine hrename.attempted fun operation d₁ h₁ => ?_
  refine (KeepsIntact.observe h₁.1 (Q := fun constructed d' => d₁ = d' ∧
    constructed = (d₁.file (constructionEntryName name)).map (Inode.identity host)) ⟨rfl, rfl⟩ fun _ => h₁.1).bind ?_
  rintro constructed _ ⟨rfl, hconstructed⟩
  refine (KeepsIntact.observe h₁.1 (Q := fun _ d' => d₁ = d') rfl fun _ => h₁.1).bind ?_
  rintro installed _ rfl
  cases haccepted : installed.filter fun actual =>
      constructed.isNone && sameFileAfterRename beforeRename.identity actual with
  | none => cases operation <;> exact KeepsIntact.fail h₁.1
  | some accepted =>
    have hnone : d₁.entries (constructionEntryName name) = none := by
      obtain ⟨-, haccept⟩ := Option.filter_eq_some_iff.mp haccepted
      rw [Bool.and_eq_true, hconstructed, Option.isNone_iff_eq_none, Option.map_eq_none_iff, Disk.file,
        Option.map_eq_none_iff] at haccept
      exact haccept.1
    obtain ⟨hname, hdirty, hshape⟩ := h₁.2 hnone
    refine (KeepsIntact.syncDirectory h₁.1 (Q := fun _ d' => d₁.syncDirectory = d') rfl fun _ => h₁.1).bind ?_
    rintro _ _ rfl
    refine KeepsIntact.pure ⟨h₁.1.syncDirectory, Gone.of_sync hnone, file, hdirty, hshape, fun left hleft => ?_⟩
    rw [Directory.leaves_sync.mp hleft]
    exact hname

theorem keeps_createFile (hnamed : d₀.Named) (hlen : contents.length ≤ maxCredentialSize) (hname : entryName name = .ok name) :
    KeepsIntact host faults name (Complete contents metadata restoreExactMetadata) d₀
      (fun d' => Intact name (Complete contents metadata restoreExactMetadata) d₀ d' ∧
        (faults ∨ d'.entries (constructionEntryName name) = none))
      (createFile name contents metadata restoreExactMetadata)
      (fun _ d' => Gone name d' ∧ Installed name (Complete contents metadata restoreExactMetadata) d') d₀ := by
  have hsame : ∀ i j, Same i j → Complete contents metadata restoreExactMetadata i →
      Complete contents metadata restoreExactMetadata j := fun _ _ => Complete.same
  have hstart : Intact name (fun _ => False) d₀ d₀ := Intact.refl hnamed
  unfold createFile
  refine (KeepsIntact.otherIf (Q := fun _ d' => d₀ = d') (fun _ => rfl) fun hlong => ?_).bind ?_
  · omega
  rintro _ _ rfl
  rw [hname]
  refine ((keeps_discardEntry hstart fun _ _ _ => id).weaken.mono (fun _ _ hd => hd) ?_).bind ?_
  · rintro d' ⟨hd, hf⟩
    exact ⟨hd.weaken, Or.inl hf⟩
  rintro _ d₁ ⟨h₁, hnone, -⟩
  refine (KeepsIntact.syscall (Q := fun file d' => Draft name d₀ file (fun i => i.mode &&& fileTypeMask = regularType ∧
    i.xattrs = [] ∧ i.contents = []) d') fun r d' hs => ?_).bind fun file d₂ h₂ => ?_
  · have hcreated (c : Choice) : Draft name d₀ d₁.next (fun i => i.mode &&& fileTypeMask = regularType ∧
        i.xattrs = [] ∧ i.contents = []) (d₁.create host c (constructionEntryName name)) :=
      h₁.create c ⟨(by decide : (regularType ||| 0o600) &&& fileTypeMask = regularType), rfl, rfl⟩
    obtain ⟨c, -, rfl, rfl | ⟨hf, error, rfl⟩⟩ | ⟨rfl, ⟨⟨object, hentry⟩, -⟩ | ⟨hf, error, rfl⟩⟩ := hs
    · exact ⟨(hcreated c).intact.weaken, KeepsIntact.pure (hcreated c)⟩
    · exact ⟨(hcreated c).intact.weaken, KeepsIntact.fail ⟨(hcreated c).intact.weaken, Or.inl hf⟩⟩
    · cases hnone.symm.trans hentry
    · exact ⟨h₁.weaken, KeepsIntact.fail ⟨h₁.weaken, Or.inl hf⟩⟩
  refine ((keeps_fill h₂).bind fun _ d₃ h₃ => keeps_publish hsame h₃.1 h₃.2).attempt (fun identity d₄ h₄ => ?_)
    fun error d₄ h₄ => ?_
  · exact KeepsIntact.pure h₄.2
  · exact (keeps_discardEntry h₄ hsame).attempt (fun _ d₅ h₅ => KeepsIntact.fail ⟨h₅.1, Or.inr h₅.2.1⟩)
      fun _ d₅ h₅ => KeepsIntact.fail ⟨h₅.1, Or.inl h₅.2⟩

end FileGuard.Construction
