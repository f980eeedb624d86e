import FileGuard.Recovery.Restore

/-! From the restored file to the final copy that alone is left in the staging directory. -/

namespace FileGuard.Recovery

open Store Files Transaction CrashLogic

variable {S : Site} {w w' : World} {r next : SnapshotRecord} {E : Prop} {v v' : View}
  {origin : RestoreOrigin} {restored displaced detached : Option ObjectIdentity}
  {displacedName detachedName : Option String}

/-- What a row says once the restoration is in place. -/
structure Finished (r : SnapshotRecord) (origin : RestoreOrigin) (restored : Option ObjectIdentity)
    (displacedName : Option String) (displaced : Option ObjectIdentity) (detachedName : Option String)
    (detached : Option ObjectIdentity) : Prop where
  present : r.header.logicalPresent = restored.isSome
  displaced : displacedName.isSome = displaced.isSome
  detached : validateRestoreDetached r.header origin detachedName detached = .ok ()

theorem finished_of_valid
    (h : validateFinished r.header origin restored displacedName displaced detachedName detached = .ok ()) :
    Finished r origin restored displacedName displaced detachedName detached := by
  unfold validateFinished at h
  obtain ⟨hl, h⟩ := check_eq_ok.mp h
  obtain ⟨-, h⟩ := check_eq_ok.mp h
  have hl := not_not.mp (corruptIf_eq_ok.mp hl)
  cases origin with
  | installed =>
    obtain ⟨n, hn, h⟩ := bind_eq_ok.mp h
    obtain ⟨-, h⟩ := check_eq_ok.mp h
    obtain ⟨d, hd, h⟩ := bind_eq_ok.mp h
    have hdetached := (check_eq_ok.mp h).2
    cases displacedName with
    | none => cases hn
    | some name =>
      cases displaced with
      | none => cases hd
      | some identity => exact ⟨hl, rfl, hdetached⟩
  | stored =>
    obtain ⟨hd, h⟩ := check_eq_ok.mp h
    rw [corruptIf_eq_ok, not_or, Bool.not_eq_true, Bool.not_eq_true] at hd
    exact ⟨hl, hd.1.trans hd.2.symm, h⟩

theorem detached_home (hs : Sound S r)
    (h : validateRestoreDetached r.header origin detachedName detached = .ok ()) :
    detachedName = none ∧ detached = none ∨
      ∃ d identity metadata, detachedName = some (homeName origin) ∧ detached = some d ∧
        r.header.original = .present identity metadata := by
  cases origin with
  | installed =>
    cases ho : r.header.original with
    | absent presentation =>
      have he : r.header.original.existed = false := by rw [ho]; rfl
      simp only [validateRestoreDetached, he, corruptIf_eq_ok, not_or, Bool.not_eq_true,
        Option.isSome_eq_false_iff, Option.isNone_iff_eq_none] at h
      exact .inl h
    | present identity metadata =>
      have he : r.header.original.existed = true := by rw [ho]; rfl
      simp only [validateRestoreDetached, he] at h
      have hn := (check_eq_ok.mp h).1
      rw [corruptIf_eq_ok, not_or, not_not] at hn
      obtain ⟨d, hd⟩ := Option.ne_none_iff_exists'.mp hn.2
      exact .inr ⟨d, identity, metadata, hn.1.trans (congrArg some hs.swapName), hd, rfl⟩
  | stored =>
    simp only [validateRestoreDetached] at h
    obtain ⟨hp, h⟩ := check_eq_ok.mp h
    obtain ⟨identity, metadata, ho⟩ := existed_of_requirePresent hp
    have hn := (check_eq_ok.mp h).1
    rw [corruptIf_eq_ok, not_or, not_not] at hn
    obtain ⟨d, hd⟩ := Option.ne_none_iff_exists'.mp hn.2
    exact .inr ⟨d, identity, metadata, hn.1.trans (congrArg some hs.storedName), hd, ho⟩

/-- The row waits for its recovery data to be removed. -/
structure Deleting (S : Site) (w : World) (r : SnapshotRecord) (origin : RestoreOrigin)
    (restored : Option ObjectIdentity) (displacedName : Option String) (displaced : Option ObjectIdentity)
    (detachedName : Option String) (detached : Option ObjectIdentity) : Prop where
  now : Now S w r
  phase : r.header.lifecycle =
    .deleteIntent origin restored displacedName displaced detachedName detached
  finished : Finished r origin restored displacedName displaced detachedName detached
  files : DeletingFiles S r (view S.path w) origin restored displacedName displaced detached

namespace Deleting

theorem of_now (h : Now S w r)
    (hc : r.header.lifecycle = .deleteIntent origin restored displacedName displaced detachedName detached) :
    Deleting S w r origin restored displacedName displaced detachedName detached := by
  refine ⟨h, hc, finished_of_valid ?_, ?_⟩
  · have := h.sound.structural
    rwa [hc] at this
  · have := h.files
    rwa [hc] at this

variable (h : Deleting S w r origin restored displacedName displaced detachedName detached)
include h

theorem fits (hf : DeletingFiles S r v origin restored displacedName displaced detached) : Fits S w v := by
  apply h.now.fits
  rw [h.phase]
  exact hf

theorem moved (hm : Moved S w w' v)
    (hf : DeletingFiles S r v origin restored displacedName displaced detached) :
    Deleting S w' r origin restored displacedName displaced detachedName detached :=
  ⟨h.now.moved hm, h.phase, h.finished, hm.view ▸ hf⟩

theorem directory : stagingOf r ∈ w.directories := h.now.directory (by simp [h.phase])

end Deleting

/-- Where the restored file is while it leaves the path. -/
def Retiring (S : Site) (r : SnapshotRecord) (v : View) (restored : Option ObjectIdentity) : Prop :=
  layoutOf S r v retiredName = (none, none) ∨
    AroundRename S r v retiredName (restored, none) (none, restored) (targetSlot S) (stagedSlot r retiredName)

theorem Retiring.congr (h : Retiring S r v restored) (ht : v' (targetSlot S) = v (targetSlot S))
    (hs : v' (stagedSlot r retiredName) = v (stagedSlot r retiredName)) : Retiring S r v' restored := by
  have hlayout : layoutOf S r v' retiredName = layoutOf S r v retiredName := by
    rw [layoutOf, layoutOf, ident, ident, ident, ident, ht, hs]
  unfold Retiring AroundRename AllIntact at *
  rwa [hlayout, ht, hs]

theorem DeletingFiles.retiring (h : DeletingFiles S r v origin restored displacedName displaced detached) :
    Retiring S r v restored := h.2.2.2

theorem DeletingFiles.shrink
    (h : DeletingFiles S r v origin restored displacedName displaced detached)
    (hv : ∀ name, v' (stagedSlot r name) = none ∨ v' (stagedSlot r name) = v (stagedSlot r name))
    (hother : ∀ d n, d ≠ stagingOf r → v' (.staged d n) = v (.staged d n)) (hr : Retiring S r v' restored) :
    DeletingFiles S r v' origin restored displacedName displaced detached := by
  obtain ⟨honly, hdisplaced, hhome, -⟩ := h
  have hident (name : String) (expected : Option ObjectIdentity)
      (hn : NoneOr (ident S v (stagedSlot r name)) expected) :
      NoneOr (ident S v' (stagedSlot r name)) expected := by
    rcases hv name with he | he
    · left
      rw [ident, he]
      rfl
    · rwa [ident, he]
  refine ⟨fun d n hne => ?_, fun name hname => ?_, hident _ _ hhome, hr⟩
  · by_cases hd : d = stagingOf r
    · rcases hv n with he | he
      · rw [hd] at hne
        exact absurd he hne
      · rw [hd] at hne ⊢
        exact honly _ _ (he ▸ hne)
    · rw [hother d n hd] at hne
      exact honly d n hne
  · exact ⟨(hdisplaced name hname).1, hident _ _ (hdisplaced name hname).2⟩

theorem DeletingFiles.update (h : DeletingFiles S r v origin restored displacedName displaced detached)
    (name : String) (hname : name ≠ retiredName) :
    DeletingFiles S r (Function.update v (stagedSlot r name) none) origin restored displacedName displaced
      detached := by
  apply h.shrink
  · intro other
    by_cases he : other = name
    · left
      rw [he, Function.update_self]
    · right
      exact Function.update_of_ne (by simpa [stagedSlot] using he) _ _
  · intro d n hd
    exact Function.update_of_ne (by simp [stagedSlot, hd]) _ _
  · apply h.retiring.congr
    · exact Function.update_of_ne (target_ne_staged r name) _ _
    · exact Function.update_of_ne (by simpa [stagedSlot] using hname.symm) _ _

theorem DeletingFiles.loose (h : DeletingFiles S r v origin restored displacedName displaced detached)
    (hl : r.header.logicalPresent = true)
    (hv : ∀ t, t ≠ stagedSlot r (constructionEntryName finalName) → t ≠ stagedSlot r finalName → v' t = v t) :
    DeletingFiles S r v' origin restored displacedName displaced detached := by
  have hretiring := h.retiring
  obtain ⟨honly, hdisplaced, hhome, -⟩ := h
  have hsame (name : String) (hb : name ≠ constructionEntryName finalName) (hf : name ≠ finalName) :
      v' (stagedSlot r name) = v (stagedSlot r name) :=
    hv _ (by simpa [stagedSlot] using hb) (by simpa [stagedSlot] using hf)
  refine ⟨honly.of_agree fun d n => ?_, fun name hname => ?_, ?_, ?_⟩
  · by_cases hb : Slot.staged d n = stagedSlot r (constructionEntryName finalName)
    · simp only [stagedSlot, Slot.staged.injEq] at hb
      exact .inr ⟨hb.1, by simp [cleanupNames, hl, hb.2]⟩
    · by_cases hf : Slot.staged d n = stagedSlot r finalName
      · simp only [stagedSlot, Slot.staged.injEq] at hf
        exact .inr ⟨hf.1, by simp [cleanupNames, hl, hf.2]⟩
      · exact .inl (hv _ hb hf)
  · obtain ⟨hc, hn⟩ := hdisplaced name hname
    refine ⟨hc, ?_⟩
    rwa [ident, hsame name hc.ne_constructionFinal hc.ne_final]
  · rwa [ident, hsame (homeName origin) (by cases origin <;> decide) (by cases origin <;> decide)]
  · apply hretiring.congr
    · exact hv _ (target_ne_staged r _) (target_ne_staged r _)
    · exact hsame retiredName (by decide) (by decide)

/-- The final copy is complete, or there is none to be made. -/
structure FinalCopy (S : Site) (r : SnapshotRecord) (v : View) (final : Option ObjectIdentity) : Prop where
  construction : v (stagedSlot r (constructionEntryName finalName)) = none
  present : final.isSome = r.header.logicalPresent
  identity : ident S v (stagedSlot r finalName) = final
  intact : AllIntact S r v (stagedSlot r finalName)

theorem runs_prepareFinal (h : Deleting S w r origin restored displacedName displaced detachedName detached) :
    Runs S E (Manager.prepareFinal ⟨stagingOf r⟩ r) (fun final w' =>
      Deleting S w' r origin restored displacedName displaced detachedName detached ∧
        FinalCopy S r (view S.path w') final) w := by
  unfold Manager.prepareFinal
  have hcleared := h.files.update (constructionEntryName finalName) (by decide)
  apply Runs.andThen (runs_discardConstruction h.now entryName_final (by rw [h.phase]; exact hcleared))
  intro _ w₁ hm₁
  have h₁ := h.moved hm₁ hcleared
  have hb : view S.path w₁ (stagedSlot r (constructionEntryName finalName)) = none := by
    rw [hm₁.view]
    exact Function.update_self ..
  cases hl : r.header.logicalPresent with
  | true =>
    apply Runs.andThen (runs_ensureRestorationEntry h₁.now entryName_final h₁.directory hb ?_)
    · rintro _ w₂ ⟨i, hexact, rfl, hm₂⟩
      have hloose : DeletingFiles S r (Function.update (view S.path w₁) (stagedSlot r finalName) (some i)) origin
          restored displacedName displaced detached :=
        h₁.files.loose hl fun t _ ht => Function.update_of_ne ht _ _
      refine Runs.pure ⟨h₁.moved hm₂ hloose, ?_, hl.symm, ?_, ?_⟩
      · rw [hm₂.view, Function.update_of_ne (by simp [stagedSlot, constructionEntryName_ne])]
        exact hb
      · rw [hm₂.view]
        exact ident_update_self
      · intro j hj
        rw [hm₂.view, Function.update_self] at hj
        cases hj
        exact hexact.intact
    · intro v hv
      rw [h.phase]
      exact h₁.files.loose hl hv
  | false =>
    have hnone : view S.path w₁ (stagedSlot r finalName) = none := by
      by_contra hne
      obtain ⟨-, hmem⟩ := h₁.files.1 _ _ hne
      simp only [cleanupNames, hl, Bool.false_eq_true, ↓reduceIte, List.append_nil, List.mem_cons,
        Option.mem_toList] at hmem
      rcases hmem with hmem | hmem
      · exact absurd hmem (by cases origin <;> decide)
      · exact (h₁.files.2.1 _ hmem).1.ne_final rfl
    have hident : ident S (view S.path w₁) ((⟨stagingOf r⟩ : StagingArea).slot finalName) = none := by
      rw [slot_eq, ident, hnone]
      rfl
    apply (reads_ofIo (reads_stagingObserve h₁.now.inv entryName_final)).runs_bind
    rw [hident]
    refine Runs.pure ⟨h₁, hb, hl.symm, hident, fun i hi => ?_⟩
    rw [hnone] at hi
    cases hi

theorem layoutMatches_iff {layout : Layout} {a b : Option ObjectIdentity} {after : Bool} :
    layoutMatches layout (a, b) after = true ↔
      objectMatches layout.1 a after = true ∧ objectMatches layout.2 b after = true := by
  rw [layoutMatches, Bool.and_eq_true]

theorem targetRetired_of_matches {layout : Layout} {expected : ObjectIdentity}
    (h : layoutMatches layout (none, some expected) true = true) :
    Manager.targetRetired expected layout = true ∧ layout.1 = none := by
  obtain ⟨target, staged⟩ := layout
  obtain ⟨ht, hs⟩ := layoutMatches_iff.mp h
  obtain rfl : target = none := objectMatches_none_right ht
  cases staged with
  | none => cases hs
  | some actual => exact ⟨hs, rfl⟩

/-- The files after the restored file has left the path. -/
structure Left (S : Site) (r : SnapshotRecord) (v v' : View) : Prop where
  target : v' (targetSlot S) = none
  frame : ∀ s, s ≠ targetSlot S → s ≠ stagedSlot r retiredName → v' s = v s

theorem DeletingFiles.swap {t : Timestamp}
    (h : DeletingFiles S r v origin restored displacedName displaced detached)
    (hl : r.header.logicalPresent = true) (hbefore : layoutOf S r v retiredName = (restored, none))
    (ha : AllIntact S r v (targetSlot S)) :
    DeletingFiles S r (swapped t (targetSlot S) (stagedSlot r retiredName) v) origin restored displacedName
      displaced detached := by
  obtain ⟨honly, hdisplaced, hhome, -⟩ := h
  have hsame (name : String) (hne : name ≠ retiredName) :
      ident S (swapped t (targetSlot S) (stagedSlot r retiredName) v) (stagedSlot r name) =
        ident S v (stagedSlot r name) := by
    rw [ident, ident, swapped_of_ne (target_ne_staged r name).symm (by simpa [stagedSlot] using hne)]
  refine ⟨honly.of_agree fun d n => ?_, fun name hname => ?_, ?_, .inr (.inr (AroundRename.after .out hbefore ha))⟩
  · by_cases hs : Slot.staged d n = stagedSlot r retiredName
    · simp only [stagedSlot, Slot.staged.injEq] at hs
      exact .inr ⟨hs.1, by simp [cleanupNames, hl, hs.2]⟩
    · exact .inl (swapped_of_ne (by simp [targetSlot]) hs)
  · obtain ⟨hc, hn⟩ := hdisplaced name hname
    exact ⟨hc, by rwa [hsame name hc.ne_retired]⟩
  · rwa [hsame (homeName origin) (by cases origin <;> decide)]

theorem runs_moveRetired {expected : ObjectIdentity}
    (h : Deleting S w r origin (some expected) displacedName displaced detachedName detached)
    (ha : AroundRename S r (view S.path w) retiredName (some expected, none) (none, some expected) (targetSlot S)
      (stagedSlot r retiredName)) :
    Runs S E (Manager.moveRetired S.target ⟨stagingOf r⟩ expected (layoutOf S r (view S.path w) retiredName))
      (fun layout w' => Deleting S w' r origin (some expected) displacedName displaced detachedName detached ∧
        Manager.targetRetired expected layout = true ∧ Left S r (view S.path w) (view S.path w')) w := by
  unfold Manager.moveRetired
  rcases ha with ⟨hbefore, hintact⟩ | ⟨hafter, hintact⟩
  · rw [layoutMatches_exact] at hbefore
    rw [if_pos hbefore]
    have hl := h.finished.present
    have hbefore' := hbefore
    simp only [layoutOf, Prod.mk.injEq] at hbefore'
    obtain ⟨i, hi, -⟩ := ident_some hbefore'.1
    have hnone := Option.map_eq_none_iff.mp hbefore'.2
    have hswap (t : Timestamp) := h.files.swap (t := t) hl hbefore hintact
    refine Runs.andThen (P := fun answer w' => answer = .ok () ∧ ∃ t, Moved S w w'
      (swapped t (targetSlot S) (stagedSlot r retiredName) (view S.path w))) (Runs.attempt (Runs.mapError
        ((runs_moveToStaging h.now.inv entryName_retired hi hnone fun t => h.fits (hswap t)).mono
          fun _ w' hm => ⟨rfl, hm⟩))) ?_
    rintro _ w' ⟨rfl, t, hm⟩
    have h' := h.moved hm (hswap t)
    apply (reads_observeLayout h'.now.inv entryName_retired).runs
    refine ⟨h', ?_, ?_, fun s ht hs => ?_⟩
    · rw [hm.view]
      exact (targetRetired_of_matches (AroundRename.after (t := t) .out hbefore hintact).1).1
    · rw [hm.view, swapped_left, hnone]
      rfl
    · rw [hm.view, swapped_of_ne ht hs]
  · obtain ⟨hretired, hnone⟩ := targetRetired_of_matches hafter
    rw [if_neg fun he => by rw [he] at hnone; cases hnone]
    exact Runs.pure ⟨h, hretired, Option.map_eq_none_iff.mp hnone, fun _ _ _ => rfl⟩

theorem runs_retireRestoredTarget
    (h : Deleting S w r origin restored displacedName displaced detachedName detached) :
    Runs S E (Manager.retireRestoredTarget r S.target ⟨stagingOf r⟩ restored) (fun _ w' =>
      Deleting S w' r origin restored displacedName displaced detachedName detached ∧
        Left S r (view S.path w) (view S.path w')) w := by
  unfold Manager.retireRestoredTarget
  simp only [recordPath_eq h.now.sound.bound, Prog.bind_eq, Prog.pure_bind]
  apply (reads_observeLayout h.now.inv entryName_retired).runs_bind
  by_cases hgone : layoutOf S r (view S.path w) retiredName = (none, none)
  · rw [if_pos hgone]
    exact Runs.pure ⟨h, Option.map_eq_none_iff.mp (Prod.ext_iff.mp hgone).1, fun _ _ _ => rfl⟩
  · rw [if_neg hgone]
    have haround := h.files.retiring.resolve_left hgone
    cases restored with
    | none =>
      rcases haround with ⟨hm, -⟩ | ⟨hm, -⟩
      · exact absurd (layoutMatches_exact.mp hm) hgone
      · obtain ⟨ht, hs⟩ := layoutMatches_iff.mp hm
        exact absurd (Prod.ext (objectMatches_none_right ht) (objectMatches_none_right hs)) hgone
    | some expected =>
      apply (runs_moveRetired h haround).andThen
      rintro layout w' ⟨h', hretired, hleft⟩
      simp only [hretired, ↓reduceIte]
      exact Runs.pure ⟨h', hleft⟩

/-- The files without the one that is recorded under a name, if one is. -/
def without (r : SnapshotRecord) (name : Option String) (v : View) : View :=
  name.elim v fun n => Function.update v (stagedSlot r n) none

theorem without_some {name : String} : without r (some name) v (stagedSlot r name) = none :=
  Function.update_self ..

theorem without_of_ne {name : Option String} {slot : Slot} (h : ∀ n, name = some n → slot ≠ stagedSlot r n) :
    without r name v slot = v slot := by
  cases name with
  | none => rfl
  | some n => exact Function.update_of_ne (h n rfl) _ _

theorem without_mem {name : Option String} {slot : Slot} (h : without r name v slot ≠ none) :
    without r name v slot = v slot ∧ ∀ n, name = some n → slot ≠ stagedSlot r n := by
  have hne : ∀ n, name = some n → slot ≠ stagedSlot r n := by
    rintro n rfl rfl
    exact h without_some
  exact ⟨without_of_ne hne, hne⟩

theorem FinalCopy.congr {final : Option ObjectIdentity} (h : FinalCopy S r v final)
    (hv : ∀ name, name = constructionEntryName finalName ∨ name = finalName →
      v' (stagedSlot r name) = v (stagedSlot r name)) : FinalCopy S r v' final := by
  have hfinal := hv finalName (.inr rfl)
  refine ⟨(hv _ (.inl rfl)).trans h.construction, h.present, ?_, fun i hi => h.intact i (hfinal ▸ hi)⟩
  rw [ident, hfinal]
  exact h.identity

theorem runs_stagedRemove {name : String} {i : Inode} (hi : Inv S w) (hn : EntryName name)
    (hv : view S.path w (stagedSlot r name) = some i)
    (hf : Fits S w (Function.update (view S.path w) (stagedSlot r name) none)) :
    Runs S E (ofIo ((⟨stagingOf r⟩ : StagingArea).removeVerified name (i.identity S.host)))
      (fun _ w' => Moved S w w' (Function.update (view S.path w) (stagedSlot r name) none)) w := by
  unfold StagingArea.removeVerified
  rw [hn.entryName]
  apply Runs.mapError
  apply (Reads.pure _).runs_bind
  apply (runs_unlinkVerified hi (watched_slot _ name) hv hf).andThen
  intro _ w' hm
  exact (reads_sync hm.inv _).runs hm

theorem runs_removeRecorded {name replaced : String} {expected : ObjectIdentity} (hi : Inv S w)
    (hn : EntryName name) (hno : NoneOr (ident S (view S.path w) (stagedSlot r name)) (some expected))
    (hf : Fits S w (Function.update (view S.path w) (stagedSlot r name) none)) :
    Runs S E (Manager.removeRecorded ⟨stagingOf r⟩ r name expected replaced)
      (fun _ w' => Moved S w w' (Function.update (view S.path w) (stagedSlot r name) none)) w := by
  unfold Manager.removeRecorded
  apply (reads_ofIo (reads_stagingObserve hi hn)).runs_bind
  rw [slot_eq]
  rcases hno with hnone | hsome
  · rw [hnone]
    apply Runs.pure
    rw [← Option.map_eq_none_iff.mp hnone, Function.update_eq_self]
    exact .refl hi
  · obtain ⟨i, hv, rfl⟩ := ident_some hsome
    rw [hsome]
    simp only [↓reduceIte]
    exact runs_stagedRemove hi hn hv hf

theorem runs_removeDisplaced
    (h : Deleting S w r origin restored displacedName displaced detachedName detached) :
    Runs S E (Manager.removeDisplaced ⟨stagingOf r⟩ r displacedName displaced) (fun _ w' =>
      Deleting S w' r origin restored displacedName displaced detachedName detached ∧
        view S.path w' = without r displacedName (view S.path w)) w := by
  unfold Manager.removeDisplaced
  have hboth := h.finished.displaced
  cases displacedName with
  | none =>
    cases displaced with
    | none => exact Runs.pure ⟨h, rfl⟩
    | some expected => cases hboth
  | some name =>
    cases displaced with
    | none => cases hboth
    | some expected =>
      obtain ⟨hc, hno⟩ := h.files.2.1 name rfl
      have hcleared := h.files.update _ hc.ne_retired
      apply (runs_removeRecorded h.now.inv hc.entryName hno (h.fits hcleared)).mono
      intro _ w' hm
      exact ⟨h.moved hm hcleared, hm.view⟩

theorem runs_removeDetached
    (h : Deleting S w r origin restored displacedName displaced detachedName detached) :
    Runs S E (Manager.removeDetached ⟨stagingOf r⟩ r detachedName detached) (fun _ w' =>
      Deleting S w' r origin restored displacedName displaced detachedName detached ∧
        view S.path w' = without r detachedName (view S.path w)) w := by
  unfold Manager.removeDetached
  rcases detached_home h.now.sound h.finished.detached with
    ⟨rfl, rfl⟩ | ⟨expected, identity, metadata, rfl, rfl, ho⟩
  · exact Runs.pure ⟨h, rfl⟩
  · simp only [ho]
    have hcleared := h.files.update (homeName origin) (by cases origin <;> decide)
    apply (runs_removeRecorded h.now.inv (entryName_home origin) h.files.2.2.1 (h.fits hcleared)).mono
    intro _ w' hm
    exact ⟨h.moved hm hcleared, hm.view⟩

theorem runs_removeRetired
    (h : Deleting S w r origin restored displacedName displaced detachedName detached)
    (htarget : view S.path w (targetSlot S) = none) :
    Runs S E (Manager.removeRetired ⟨stagingOf r⟩ r restored) (fun _ w' =>
      Deleting S w' r origin restored displacedName displaced detachedName detached ∧
        view S.path w' = without r (some retiredName) (view S.path w)) w := by
  unfold Manager.removeRetired
  have hobserve := reads_ofIo (reads_stagingObserve (s := ⟨stagingOf r⟩) h.now.inv entryName_retired)
  rw [slot_eq] at hobserve
  have hgone : ident S (view S.path w) (targetSlot S) = none := by
    rw [ident, htarget]
    rfl
  have hkept (hnone : ident S (view S.path w) (stagedSlot r retiredName) = none) :
      view S.path w = without r (some retiredName) (view S.path w) := by
    rw [without, Option.elim_some, ← Option.map_eq_none_iff.mp hnone, Function.update_eq_self]
  cases restored with
  | none =>
    have hnone : ident S (view S.path w) (stagedSlot r retiredName) = none := by
      rcases h.files.retiring with hl | ⟨hm, -⟩ | ⟨hm, -⟩
      · exact (Prod.ext_iff.mp hl).2
      · exact (Prod.ext_iff.mp (layoutMatches_exact.mp hm)).2
      · exact objectMatches_none_right (layoutMatches_iff.mp hm).2
    apply hobserve.runs_bind
    rw [hnone]
    exact Runs.pure ⟨h, hkept hnone⟩
  | some expected =>
    apply hobserve.runs_bind
    rcases h.files.retiring with hl | ⟨hm, -⟩ | ⟨hm, hintact⟩
    · have hnone := (Prod.ext_iff.mp hl).2
      simp only [layoutOf] at hnone
      rw [hnone]
      exact Runs.pure ⟨h, hkept hnone⟩
    · have hthere := (Prod.ext_iff.mp (layoutMatches_exact.mp hm)).1
      simp only [layoutOf, hgone] at hthere
      cases hthere
    · have hstaged := (layoutMatches_iff.mp hm).2
      cases hv : view S.path w (stagedSlot r retiredName) with
      | none => simp only [layoutOf, ident, hv] at hstaged; cases hstaged
      | some i =>
        have hident : ident S (view S.path w) (stagedSlot r retiredName) = some (i.identity S.host) := by
          rw [ident, hv]
          rfl
        simp only [layoutOf, hident] at hstaged
        have hsame : sameFileAfterRename expected (i.identity S.host) = true := hstaged
        rw [hident, h.now.sound.digest]
        simp only [hsame, ↓reduceIte]
        apply (reads_ofIo (reads_verifyFinalization h.now.inv entryName_retired hv (hintact i hv))).runs_bind
        have hcleared : DeletingFiles S r (without r (some retiredName) (view S.path w)) origin (some expected)
            displacedName displaced detached := by
          apply h.files.shrink
          · intro name
            by_cases hne : name = retiredName
            · left
              rw [hne, without_some]
            · right
              exact without_of_ne fun n hn => by cases hn; simpa [stagedSlot] using hne
          · intro d n hd
            exact without_of_ne fun _ _ => by simp [stagedSlot, hd]
          · left
            refine Prod.ext ?_ ?_
            · change ident S _ (targetSlot S) = none
              rw [ident, without_of_ne fun _ _ => target_ne_staged r _, htarget]
              rfl
            · change ident S _ (stagedSlot r retiredName) = none
              rw [ident, without_some]
              rfl
        apply (runs_stagedRemove h.now.inv entryName_retired hv (h.fits hcleared)).mono
        intro _ w' hm'
        exact ⟨h.moved hm' hcleared, hm'.view⟩

end FileGuard.Recovery
