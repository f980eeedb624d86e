import FileGuard.Files.Publishing

/-! What `create_file` leaves wherever it is cut short: the whole file, or no new one. -/

namespace FileGuard.Construction

open Store Files CrashLogic Durable

variable {host : Host} {name : String} {contents : Bytes} {metadata : RestoreMetadata} {restoreExactMetadata : Bool}
  {P : Inode → Prop} {d₀ d : Disk}

theorem entryName_eq {value entry : String} (h : entryName value = .ok entry) : entry = value := by
  unfold entryName at h
  split_ifs at h
  exact (Except.ok.inj h).symm

theorem discardConstruction_eq (hname : entryName name = .ok name) :
    discardConstruction name = discardEntry (constructionEntryName name) := by
  rw [discardConstruction, hname]
  rfl

theorem createFile_refused (h : ¬ (contents.length ≤ maxCredentialSize ∧ entryName name = .ok name)) :
    ∃ e, createFile name contents metadata restoreExactMetadata = .fail e := by
  by_cases hlen : maxCredentialSize < contents.length
  · rw [createFile, Construction.otherIf, if_pos hlen]
    exact ⟨_, rfl⟩
  · rw [createFile, Construction.otherIf, if_neg hlen]
    cases hname : entryName name with
    | error e => exact ⟨e, rfl⟩
    | ok entry =>
      obtain rfl := entryName_eq hname
      exact (h ⟨Nat.not_lt.mp hlen, hname⟩).elim

theorem reaches_createFile (hnamed : d₀.Named)
    (hreach : Reaches (machine host True) (createFile name contents metadata restoreExactMetadata) d₀ d) :
    Intact name (Complete contents metadata restoreExactMetadata) d₀ d := by
  have hstart : Intact name (Complete contents metadata restoreExactMetadata) d₀ d₀ := Intact.refl hnamed
  by_cases h : contents.length ≤ maxCredentialSize ∧ entryName name = .ok name
  · exact wp_reaches (keeps_createFile hnamed h.1 h.2) hstart hreach
  · obtain ⟨e, he⟩ := createFile_refused h
    rw [he] at hreach
    cases hreach
    exact hstart

theorem finishes_createFile (hnamed : d₀.Named) {identity : ObjectIdentity}
    (hrun : Finishes (machine host True) (createFile name contents metadata restoreExactMetadata) d₀ (.ok identity) d) :
    Installed name (Complete contents metadata restoreExactMetadata) d := by
  by_cases h : contents.length ≤ maxCredentialSize ∧ entryName name = .ok name
  · exact (wp_finishes (keeps_createFile hnamed h.1 h.2) hrun).2
  · obtain ⟨e, he⟩ := createFile_refused h
    rw [he] at hrun
    cases hrun

/-- The entry under this name is the same in both. -/
structure Unchanged (before after : Disk) (x : String) : Prop where
  entry : after.entries x = before.entries x
  inode : ∀ file, before.entries x = some file → Same (before.inodes file) (after.inodes file)

/-- But for the construction entry all is as before, or a name that was free has got a file of this kind. -/
structure Outcome (name : String) (P : Inode → Prop) (free : Prop) (before after : Disk) : Prop where
  others : ∀ x, x ≠ constructionEntryName name → x ≠ name → Unchanged before after x
  name : Unchanged before after name ∨ free ∧ ∃ i, after.file name = some i ∧ P i

theorem NamesStand.outcome {before after : Disk} {free : Prop}
    (h : NamesStand name P d₀ after before.entries after.entries)
    (hfree : d₀.entries name = none → free)
    (hinodes : ∀ x file, before.entries x = some file → Same (before.inodes file) (after.inodes file)) :
    Outcome name P free before after where
  others x hc hx := ⟨h.1 x hc hx, hinodes x⟩
  name := by
    rcases h.2 with hname | ⟨hnone, file, hname, -, hp⟩
    · exact Or.inl ⟨hname, hinodes name⟩
    · exact Or.inr ⟨hfree hnone, after.inodes file, Disk.file_some hname, hp⟩

theorem Intact.outcome (h : Intact name P d₀ d) (hnamed : d₀.Named) :
    Outcome name P (d₀.entries name = none) d₀ d :=
  h.entries.outcome id fun x file hx => (h.inodes file (hnamed _ (Directory.leaves_entries _) x file hx)).1

theorem PowerLoss.named {d' : Disk} (h : PowerLoss d d') (hd : d.Named) : d'.Named := by
  rintro left ⟨kept, hkept, rfl⟩ x file hx
  rw [h.pending, List.sublist_nil] at hkept
  subst hkept
  rw [h.next]
  exact hd _ h.directory x file hx

/-- What is left of a disk where a call was cut short is what could be left of the disk before it, but for that call. -/
theorem Intact.powerLoss (h : Intact name P d₀ d) (hnamed : d₀.Named) (hP : ∀ i j, Same i j → P i → P j) {d' : Disk}
    (hloss : PowerLoss d d') : ∃ d₀', PowerLoss d₀ d₀' ∧ Outcome name P (d₀.entries name = none) d₀' d' := by
  obtain ⟨before, hbefore, hkept⟩ := h.left _ hloss.directory
  let inodes (file : ObjectId) : Inode := if file < d₀.next then d'.inodes file else d₀.inodes file
  have hentries : d'.entries = d'.directory.durable := by
    rw [Disk.entries, Directory.entries, hloss.pending]
    rfl
  refine ⟨⟨⟨before, []⟩, inodes, fun _ => false, d₀.next⟩, ⟨hbefore, rfl, fun file hclean => ?_, fun _ => rfl, rfl⟩, ?_⟩
  · by_cases hold : file < d₀.next
    · obtain ⟨hsame, hdirty⟩ := h.inodes file hold
      have hinode : inodes file = d'.inodes file := if_pos hold
      simp only [hinode]
      exact hsame.trans (hloss.synced file (hdirty.trans hclean))
    · have hinode : inodes file = d₀.inodes file := if_neg hold
      simp only [hinode]
      exact Same.refl _
  · have hkept' : NamesStand name P d₀ d' before d'.entries := by
      rw [hentries]
      exact hkept.inodes fun file _ hclean hp => ⟨hloss.clean file, hP _ _ (hloss.synced file hclean) hp⟩
    refine hkept'.outcome id fun x file hx => ?_
    have hinode : inodes file = d'.inodes file := if_pos (hnamed before hbefore x file hx)
    simp only [hinode]
    exact Same.refl _

/-- A call removes the construction entry: if it succeeds, and also if it fails where nothing of the machine does. -/
structure Removes {α : Type} (host : Host) (name : String) (p : Program α) (d : Disk) : Prop where
  ends : ∃ result d', Finishes (machine host False) p d result d'
  faultless : ∀ result d', Finishes (machine host False) p d result d' → d'.entries (constructionEntryName name) = none
  succeeds : ∀ a d', Finishes (machine host True) p d (.ok a) d' → d'.entries (constructionEntryName name) = none ∧
    (d.entries (constructionEntryName name) ≠ none → Gone name d')

theorem exists_step (faults : Prop) (d : Disk) (o : Syscall) : ∃ r d', step host faults o d r d' := by
  have c : Choice := ⟨⟨0, 0⟩, 0, "", .acknowledged, none⟩
  cases o with
  | observe x => exact ⟨_, d, rfl, Or.inl rfl⟩
  | createExclusive x =>
    cases hentry : d.entries x with
    | none => exact ⟨_, _, Or.inl ⟨c, hentry, rfl, Or.inl rfl⟩⟩
    | some object => exact ⟨_, d, Or.inr ⟨rfl, Or.inl ⟨⟨object, hentry⟩, rfl⟩⟩⟩
  | writeAll file contents => exact ⟨_, _, Or.inl ⟨c, rfl, rfl⟩⟩
  | alter file alteration => exact ⟨_, _, Or.inl ⟨c, rfl, Or.inl rfl⟩⟩
  | syncFile file => exact ⟨_, _, Or.inl ⟨rfl, rfl⟩⟩
  | fstat file => exact ⟨_, d, rfl, Or.inl rfl⟩
  | syncDirectory => exact ⟨_, _, Or.inl ⟨rfl, rfl⟩⟩
  | renameNoreplace old new =>
    cases hold : d.entries old with
    | none => exact ⟨_, d, Or.inr ⟨rfl, Or.inl ⟨hold, rfl⟩⟩⟩
    | some object =>
      cases hnew : d.entries new with
      | none => exact ⟨_, _, Or.inl ⟨c, object, hold, hnew, rfl, Or.inl rfl⟩⟩
      | some other => exact ⟨_, d, Or.inr ⟨rfl, Or.inr (Or.inl ⟨⟨other, hnew⟩, rfl⟩)⟩⟩
  | unlink x =>
    cases hentry : d.entries x with
    | none => exact ⟨_, d, Or.inr ⟨rfl, Or.inl ⟨hentry, rfl⟩⟩⟩
    | some object => exact ⟨_, _, Or.inl ⟨c, object, hentry, rfl, Or.inl rfl⟩⟩

theorem Removes.of_keeps {α : Type} {p : Program α} {B : Prop → Disk → Prop} {Q : α → Disk → Prop}
    (h : ∀ faults, KeepsIntact host faults name P d (B faults) p Q d)
    (hb : ∀ d', B False d' → d'.entries (constructionEntryName name) = none)
    (hq : ∀ a d', Q a d' → d'.entries (constructionEntryName name) = none ∧
      (d.entries (constructionEntryName name) ≠ none → Gone name d')) : Removes host name p d where
  ends := exists_finishes (I := fun _ => True) (fun d _ o => exists_step False d o) (fun _ _ _ => trivial) trivial
    (wp_trivial p d)
  faultless result d' hrun := by
    have hend := wp_finishes (h False) hrun
    cases result with
    | error error => exact hb d' hend
    | ok a => exact (hq a d' hend).1
  succeeds a d' hrun := hq a d' (wp_finishes (h True) hrun)

theorem removes_discardConstruction (hnamed : d.Named) (hname : entryName name = .ok name) :
    Removes host name (discardConstruction name) d := by
  rw [discardConstruction_eq hname]
  have hstart : Intact name (fun _ => False) d d := Intact.refl hnamed
  exact Removes.of_keeps (fun faults => keeps_discardEntry hstart fun _ _ _ => id) (fun _ hd => hd.2.elim)
    fun _ _ hd => hd.2

theorem removes_createFile (hnamed : d.Named) (hlen : contents.length ≤ maxCredentialSize) (hname : entryName name = .ok name) :
    Removes host name (createFile name contents metadata restoreExactMetadata) d := by
  refine Removes.of_keeps (fun faults => keeps_createFile hnamed hlen hname) ?_ ?_
  · rintro d' ⟨-, hf | hnone⟩
    · exact hf.elim
    · exact hnone
  · rintro _ d' ⟨hgone, -⟩
    exact ⟨hgone _ (Directory.leaves_entries _), fun _ => hgone⟩

/-- Wherever a call of `create_file` is cut short, by errors or by the loss of the process or of power, the name has the
whole file or is as it was, and no name but the construction name is another, which the next call frees again. -/
theorem complete_or_absent (host : Host) (name : String) (contents : Bytes) (metadata : RestoreMetadata)
    (restoreExactMetadata : Bool) {d₀ d : Disk} (hnamed : d₀.Named)
    (hreach : Reaches (machine host True) (createFile name contents metadata restoreExactMetadata) d₀ d) :
    Outcome name (Complete contents metadata restoreExactMetadata) (d₀.entries name = none) d₀ d ∧
      (∀ d', PowerLoss d d' → ∃ d₀', PowerLoss d₀ d₀' ∧
        Outcome name (Complete contents metadata restoreExactMetadata) (d₀.entries name = none) d₀' d') ∧
      (∀ identity, Finishes (machine host True) (createFile name contents metadata restoreExactMetadata) d₀ (.ok identity) d →
        Installed name (Complete contents metadata restoreExactMetadata) d) ∧
      (∀ d', d' = d ∨ PowerLoss d d' → entryName name = .ok name → Removes host name (discardConstruction name) d' ∧
        ∀ (contents' : Bytes) (metadata' : RestoreMetadata) (exactly : Bool), contents'.length ≤ maxCredentialSize →
          Removes host name (createFile name contents' metadata' exactly) d') := by
  have hintact := reaches_createFile hnamed hreach
  refine ⟨hintact.outcome hnamed, fun d' hloss => hintact.powerLoss hnamed (fun _ _ => Complete.same) hloss,
    fun identity hrun => finishes_createFile hnamed hrun, ?_⟩
  intro d' hd' hname
  have hnamed' : d'.Named := by
    rcases hd' with rfl | hloss
    · exact hintact.named
    · exact hloss.named hintact.named
  exact ⟨removes_discardConstruction hnamed' hname, fun _ _ _ hlen => removes_createFile hnamed' hlen hname⟩

section sample

/-- A directory where an earlier call for the name was cut short. -/
def Disk.sample : Disk where
  directory := ⟨Function.update (fun _ => none) (constructionEntryName "restore") (some 0), []⟩
  inodes := fun _ => World.newInode .sample ⟨⟨0, 0⟩, 0, "", .acknowledged, none⟩
  dirty := fun _ => true
  next := 1

def RestoreMetadata.sample : RestoreMetadata := ⟨0, 0, 0o600, ⟨0, 0⟩, ⟨0, 0⟩, []⟩

theorem Disk.sample_entry : Disk.sample.entries (constructionEntryName "restore") = some 0 := by
  change Function.update (fun _ => none) (constructionEntryName "restore") (some 0) (constructionEntryName "restore") = _
  rw [Function.update_self]

theorem Disk.sample_named : Disk.sample.Named := by
  rintro left ⟨kept, hkept, rfl⟩ x file hx
  cases List.sublist_nil.mp hkept
  change Function.update (fun _ => none) (constructionEntryName "restore") (some 0) x = some file at hx
  rw [Function.update_apply] at hx
  split_ifs at hx
  cases hx
  decide

/-- The call finds an old construction file, removes it and is cut short in its write. -/
def Disk.torn (c : Choice) : Disk :=
  ((Disk.sample.remove c (constructionEntryName "restore") 0).syncDirectory.create Host.sample c
    (constructionEntryName "restore")).append c 1 [1]

theorem Disk.torn_file (c : Choice) :
    ((Disk.torn c).file (constructionEntryName "restore")).map Inode.contents = some [1] := by
  have hentry : (Disk.torn c).entries (constructionEntryName "restore") = some 1 := by
    change Function.update (Disk.sample.remove c (constructionEntryName "restore") 0).entries
      (constructionEntryName "restore") (some 1) (constructionEntryName "restore") = _
    rw [Function.update_self]
  rw [Disk.file_some hentry]
  rfl

theorem reaches_call {faults : Prop} {α : Type} {o : Syscall} {k : o.Resp → Program α} {r : o.Resp} {d' d'' : Disk}
    (made : step host faults o d r d') (rest : Reaches (machine host faults) (k r) d' d'') :
    Reaches (machine host faults) (.call o k) d d'' :=
  .call rfl made rest

theorem reaches_torn (c : Choice) : Reaches (machine Host.sample True)
    (createFile "restore" [1, 2] RestoreMetadata.sample false) Disk.sample (Disk.torn c) := by
  have hremoved : (Disk.sample.remove c (constructionEntryName "restore") 0).syncDirectory.entries
      (constructionEntryName "restore") = none := by
    rw [Disk.entries_syncDirectory, Disk.remove, Disk.entries_record]
    exact Function.update_self (constructionEntryName "restore") none Disk.sample.entries
  apply reaches_call (o := Syscall.observe (constructionEntryName "restore")) ⟨rfl, Or.inl rfl⟩
  rw [Disk.file_some Disk.sample_entry]
  apply reaches_call (o := Syscall.unlink (constructionEntryName "restore"))
    (Or.inl ⟨c, 0, Disk.sample_entry, rfl, Or.inl rfl⟩)
  apply reaches_call (o := Syscall.syncDirectory) (Or.inl ⟨rfl, rfl⟩)
  apply reaches_call (o := Syscall.createExclusive (constructionEntryName "restore"))
    (Or.inl ⟨c, hremoved, rfl, Or.inl rfl⟩)
  apply reaches_call (o := Syscall.writeAll 1 [1, 2]) (Or.inr ⟨c, [1], ⟨trivial, .os .tooBig, rfl⟩, ⟨[2], rfl⟩, rfl⟩)
  exact .cut _ _

theorem complete_or_absent_torn : ∃ d : Disk,
    Reaches (machine Host.sample True) (createFile "restore" [1, 2] RestoreMetadata.sample false) Disk.sample d ∧
      (d.file (constructionEntryName "restore")).map Inode.contents = some [1] ∧
      Outcome "restore" (Complete [1, 2] RestoreMetadata.sample false) (Disk.sample.entries "restore" = none)
        Disk.sample d ∧
      ∀ d', PowerLoss d d' → Removes Host.sample "restore" (discardConstruction "restore") d' := by
  let c : Choice := ⟨⟨1, 0⟩, 7, "", .acknowledged, none⟩
  have hreach := reaches_torn c
  obtain ⟨hcrash, -, -, hnext⟩ := complete_or_absent Host.sample "restore" [1, 2] RestoreMetadata.sample false
    Disk.sample_named hreach
  exact ⟨Disk.torn c, hreach, Disk.torn_file c, hcrash, fun d' hloss => (hnext d' (Or.inr hloss) rfl).1⟩

end sample

end FileGuard.Construction
