import FileGuard.Files.Faults

/-! What a call for a name may make of the staging directory. -/

namespace FileGuard.Construction

open Store Files CrashLogic Durable

theorem Same.refl (i : Inode) : Same i i := rfl

theorem Same.trans {i j k : Inode} (h : Same i j) (h' : Same j k) : Same i k := by
  unfold Same at *
  rw [h', h]

theorem constructionEntryName_ne (name : String) : constructionEntryName name ≠ name := by
  intro h
  have hlen := congrArg String.length h
  rw [constructionEntryName, String.length_append] at hlen
  have hten : (".building-" : String).length = 10 := by decide
  omega

/-- All names stand as before but for the construction name, or a free name has got a synced file of this kind. -/
def NamesStand (name : String) (P : Inode → Prop) (d₀ d : Disk) (before after : String → Option ObjectId) : Prop :=
  (∀ x, x ≠ constructionEntryName name → x ≠ name → after x = before x) ∧
    (after name = before name ∨
      d₀.entries name = none ∧ ∃ file, after name = some file ∧ d.dirty file = false ∧ P (d.inodes file))

/-- What a call for this name may make of the staging directory at any point, in memory and on the disk. -/
structure Intact (name : String) (P : Inode → Prop) (d₀ d : Disk) : Prop where
  next : d₀.next ≤ d.next
  inodes : ∀ file < d₀.next, Same (d₀.inodes file) (d.inodes file) ∧ d.dirty file = d₀.dirty file
  named : ∀ left, d.directory.Leaves left → ∀ x file, left x = some file → file < d.next
  left : ∀ left, d.directory.Leaves left → ∃ before, d₀.directory.Leaves before ∧ NamesStand name P d₀ d before left
  entries : NamesStand name P d₀ d d₀.entries d.entries

/-- The names of a disk are names of files it has. -/
def Disk.Named (d : Disk) : Prop := ∀ left, d.directory.Leaves left → ∀ x file, left x = some file → file < d.next

section invariant

variable {name : String} {P : Inode → Prop} {d₀ d d' : Disk} {before after : String → Option ObjectId} {file : ObjectId}

theorem NamesStand.refl (before : String → Option ObjectId) : NamesStand name P d₀ d before before :=
  ⟨fun _ _ _ => rfl, Or.inl rfl⟩

theorem NamesStand.inodes (h : NamesStand name P d₀ d before after)
    (hP : ∀ file, after name = some file → d.dirty file = false → P (d.inodes file) →
      d'.dirty file = false ∧ P (d'.inodes file)) : NamesStand name P d₀ d' before after := by
  refine ⟨h.1, h.2.imp_right ?_⟩
  rintro ⟨hfree, file, hname, hdirty, hp⟩
  exact ⟨hfree, file, hname, hP file hname hdirty hp⟩

theorem NamesStand.construction (h : NamesStand name P d₀ d before after) (v : Option ObjectId) :
    NamesStand name P d₀ d before (Function.update after (constructionEntryName name) v) := by
  have hname : Function.update after (constructionEntryName name) v name = after name :=
    Function.update_of_ne (constructionEntryName_ne name).symm _ _
  refine ⟨fun x hc hx => ?_, ?_⟩
  · rw [Function.update_of_ne hc]
    exact h.1 x hc hx
  · rw [hname]
    exact h.2

theorem NamesStand.name_eq (h : NamesStand name (fun _ => False) d₀ d before after) : after name = before name := by
  rcases h.2 with hname | ⟨-, file, -, -, hfalse⟩
  · exact hname
  · exact hfalse.elim

theorem NamesStand.weaken (h : NamesStand name (fun _ => False) d₀ d before after) :
    NamesStand name P d₀ d before after :=
  ⟨h.1, Or.inl h.name_eq⟩

namespace Intact

theorem refl (h : d₀.Named) : Intact name P d₀ d₀ where
  next := le_rfl
  inodes _ _ := ⟨Same.refl _, rfl⟩
  named := h
  left left hleft := ⟨left, hleft, NamesStand.refl left⟩
  entries := NamesStand.refl _

theorem weaken (h : Intact name (fun _ => False) d₀ d) : Intact name P d₀ d where
  next := h.next
  inodes := h.inodes
  named := h.named
  left left hleft := by
    obtain ⟨before, hbefore, hkept⟩ := h.left left hleft
    exact ⟨before, hbefore, hkept.weaken⟩
  entries := h.entries.weaken

/-- A change of files that are in no name, or that leaves what counts of them. -/
theorem change (h : Intact name P d₀ d) (hdir : d'.directory = d.directory) (hnext : d.next ≤ d'.next)
    (hold : ∀ file < d₀.next, Same (d.inodes file) (d'.inodes file) ∧ d'.dirty file = d.dirty file)
    (hP : ∀ file < d.next, d.dirty file = false → P (d.inodes file) → d'.dirty file = false ∧ P (d'.inodes file)) :
    Intact name P d₀ d' where
  next := h.next.trans hnext
  inodes file hfile := ⟨(h.inodes file hfile).1.trans (hold file hfile).1,
    (hold file hfile).2.trans (h.inodes file hfile).2⟩
  named left hleft x file hx := (h.named left (hdir ▸ hleft) x file hx).trans_le hnext
  left left hleft := by
    obtain ⟨before, hbefore, hkept⟩ := h.left left (hdir ▸ hleft)
    exact ⟨before, hbefore, hkept.inodes fun file hname => hP file (h.named left (hdir ▸ hleft) name file hname)⟩
  entries := by
    have hentries : d'.entries = d.entries := congrArg Directory.entries hdir
    rw [hentries]
    exact h.entries.inodes fun file hname => hP file (h.named _ (Directory.leaves_entries _) name file hname)

/-- A change of one file that came after the start. -/
theorem beyond (h : Intact name (fun _ => False) d₀ d) (hfresh : d₀.next ≤ file) (hdir : d'.directory = d.directory)
    (hnext : d.next ≤ d'.next) (hinodes : ∀ other, other ≠ file → d'.inodes other = d.inodes other)
    (hdirty : ∀ other, other ≠ file → d'.dirty other = d.dirty other) : Intact name (fun _ => False) d₀ d' := by
  refine h.change hdir hnext (fun other hother => ?_) fun other _ _ => False.elim
  have hne : other ≠ file := (hother.trans_le hfresh).ne
  rw [hinodes other hne]
  exact ⟨Same.refl _, hdirty other hne⟩

theorem touch (h : Intact name P d₀ d) (hP : ∀ i j, Same i j → P i → P j) {f : Inode → Inode}
    (hf : ∀ i, Same i (f i)) : Intact name P d₀ (d.touch file f) := by
  have hsame (other : ObjectId) : Same (d.inodes other) ((d.touch file f).inodes other) := by
    by_cases hother : other = file
    · subst hother
      simpa [Disk.touch] using hf (d.inodes other)
    · simpa [Disk.touch, hother] using Same.refl (d.inodes other)
  refine h.change rfl le_rfl (fun other _ => ⟨hsame other, rfl⟩) ?_
  intro other _ hdirty hp
  exact ⟨hdirty, hP _ _ (hsame other) hp⟩

theorem record (h : Intact name P d₀ d) {v : Option ObjectId} (hv : ∀ file, v = some file → file < d.next) :
    Intact name P d₀ (d.record [(constructionEntryName name, v)]) where
  next := h.next
  inodes := h.inodes
  named left hleft x file hx := by
    obtain ⟨before, hbefore, rfl | rfl⟩ := Directory.leaves_record.mp hleft
    · exact h.named left hbefore x file hx
    · change Function.update before (constructionEntryName name) v x = some file at hx
      by_cases hc : x = constructionEntryName name
      · subst hc
        rw [Function.update_self] at hx
        exact hv file hx
      · rw [Function.update_of_ne hc] at hx
        exact h.named before hbefore x file hx
  left left hleft := by
    obtain ⟨middle, hmiddle, happlied⟩ := Directory.leaves_record.mp hleft
    obtain ⟨before, hbefore, hkept⟩ := h.left middle hmiddle
    refine ⟨before, hbefore, ?_⟩
    rcases happlied with rfl | rfl
    · exact hkept
    · exact hkept.construction v
  entries := by
    rw [Disk.entries_record]
    exact h.entries.construction v

theorem syncDirectory (h : Intact name P d₀ d) : Intact name P d₀ d.syncDirectory where
  next := h.next
  inodes := h.inodes
  named left hleft := by
    rw [Directory.leaves_sync.mp hleft]
    exact h.named _ (Directory.leaves_entries _)
  left left hleft := by
    rw [Directory.leaves_sync.mp hleft]
    exact h.left _ (Directory.leaves_entries _)
  entries := h.entries

/-- The rename of a synced file onto a name that was free all along. -/
theorem renamed (h : Intact name (fun _ => False) d₀ d) (hfree : d.entries name = none) (hlt : file < d.next)
    (hdirty : d.dirty file = false) (hp : P (d.inodes file)) :
    Intact name P d₀ (d.record [(constructionEntryName name, none), (name, some file)]) where
  next := h.next
  inodes := h.inodes
  named left hleft x other hx := by
    obtain ⟨before, hbefore, rfl | rfl⟩ := Directory.leaves_record.mp hleft
    · exact h.named left hbefore x other hx
    · change Function.update (Function.update before (constructionEntryName name) none) name (some file) x =
        some other at hx
      rw [Function.update_apply, Function.update_apply] at hx
      split_ifs at hx
      · cases hx
        exact hlt
      · exact h.named before hbefore x other hx
  left left hleft := by
    obtain ⟨middle, hmiddle, happlied⟩ := Directory.leaves_record.mp hleft
    obtain ⟨before, hbefore, hkept⟩ := h.left middle hmiddle
    refine ⟨before, hbefore, ?_⟩
    rcases happlied with rfl | rfl
    · exact hkept.weaken
    · have hfree₀ : d₀.entries name = none := h.entries.name_eq.symm.trans hfree
      have hconstruction := (hkept.construction none).1
      refine ⟨fun x hc hx => ?_, Or.inr ⟨hfree₀, file, Function.update_self .., hdirty, hp⟩⟩
      exact (Function.update_of_ne hx _ _).trans (hconstruction x hc hx)
  entries := by
    have hfree₀ : d₀.entries name = none := h.entries.name_eq.symm.trans hfree
    have hconstruction := (h.entries.construction none).1
    rw [Disk.entries_record]
    refine ⟨fun x hc hx => ?_, Or.inr ⟨hfree₀, file, Function.update_self .., hdirty, hp⟩⟩
    exact (Function.update_of_ne hx _ _).trans (hconstruction x hc hx)

end Intact

end invariant

end FileGuard.Construction
