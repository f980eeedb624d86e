import FileGuard.Recovery.Offline

/-! From the installed placeholder, or the stored original, to the restored file. -/

namespace FileGuard.Recovery

open Store Files Transaction CrashLogic

variable {S : Site} {w w' : World} {r next : SnapshotRecord} {E : Prop} {v v' : View}

theorem Later.le {m n : ℕ} (h : Later m r next) (hle : m ≤ n) : Later n r next :=
  ⟨h.contents, h.present, h.original, h.staging, fun k hr => h.room k (hr.le (by omega))⟩

section restoring

variable {origin : RestoreOrigin} {name : String} {restored detached : Option ObjectIdentity}
  {detachedName : Option String}

/-- The row waits for its restoring rename, with everything built that the rename needs. -/
structure Restoring (S : Site) (w : World) (r : SnapshotRecord) (origin : RestoreOrigin) (name : String)
    (restored : Option ObjectIdentity) (detachedName : Option String) (detached : Option ObjectIdentity) :
    Prop where
  now : Now S w r
  phase : r.header.lifecycle = .restoreIntent origin (some name) restored detachedName detached
  candidate : CandidateName name
  built : r.header.logicalPresent = true → restored ≠ none
  files : RestoringFiles S r (view S.path w) origin name restored detached

theorem restoreIntent_valid (hs : Sound S r)
    (h : r.header.lifecycle = .restoreIntent origin (some name) restored detachedName detached) :
    (∀ i, restored = some i → validateIdentity i regularType "restoration" = .ok ()) ∧
      (r.header.logicalPresent = false → restored = none) ∧
      validateRestoreDetached r.header origin detachedName detached = .ok () := by
  have hv := hs.structural
  simp only [h, validateLifecycleStructure, requireSome, Option.elim_some] at hv
  obtain ⟨_, hn, hv⟩ := bind_eq_ok.mp hv
  cases hn
  obtain ⟨-, hv⟩ := check_eq_ok.mp hv
  obtain ⟨hid, hv⟩ := check_eq_ok.mp hv
  obtain ⟨hl, hv⟩ := check_eq_ok.mp hv
  refine ⟨fun i hi => ?_, fun hl' => ?_, hv⟩
  · rw [hi] at hid
    exact hid
  · rw [corruptIf_eq_ok, hl'] at hl
    cases restored with
    | none => rfl
    | some i => exact absurd ⟨rfl, rfl⟩ hl

theorem validateLifecycleStructure_restoreIntent {header : RecordHeader} (hn : CandidateName name)
    (hid : ∀ i, restored = some i → validateIdentity i regularType "restoration" = .ok ())
    (hl : header.logicalPresent = false → restored = none)
    (hd : validateRestoreDetached header origin detachedName detached = .ok ()) :
    validateLifecycleStructure header
      (.restoreIntent origin (some name) restored detachedName detached) = .ok () := by
  unfold validateLifecycleStructure
  refine bind_eq_ok.mpr ⟨name, rfl, check_eq_ok.mpr ⟨hn.entryName.validate, check_eq_ok.mpr ⟨?_,
    check_eq_ok.mpr ⟨corruptIf_eq_ok.mpr ?_, hd⟩⟩⟩⟩
  · cases restored with
    | none => rfl
    | some i => exact hid i rfl
  · rintro ⟨hl', hs⟩
    rw [hl hl'] at hs
    cases hs

theorem stored_facts (hs : Sound S r)
    (h : r.header.lifecycle = .restoreIntent .stored (some name) restored detachedName detached) :
    r.header.placeholder = none ∧ r.header.logicalPresent = true := by
  refine ⟨hs.no_placeholder (by rw [h]; rfl), ?_⟩
  obtain ⟨-, -, hd⟩ := restoreIntent_valid hs h
  have hp := (check_eq_ok.mp hd).1
  rw [requirePresentOriginal, corruptIf_eq_ok, not_not] at hp
  exact hp.2

theorem detachedName_known (hs : Sound S r)
    (hd : validateRestoreDetached r.header origin detachedName detached = .ok ()) :
    ∀ n ∈ detachedName.toList, n = "swap" ∨ n = "stored" ∨ CandidateName n := by
  intro n hmem
  cases detachedName with
  | none => cases hmem
  | some other =>
    obtain rfl : n = other := by simpa using hmem
    cases origin with
    | installed =>
      cases ho : r.header.original.existed with
      | false => simp [validateRestoreDetached, ho, corruptIf, corrupt] at hd
      | true =>
        simp only [validateRestoreDetached, ho] at hd
        have := (check_eq_ok.mp hd).1
        rw [corruptIf_eq_ok, not_or, not_not] at this
        exact .inl ((Option.some.inj this.1).trans hs.swapName)
    | stored =>
      simp only [validateRestoreDetached] at hd
      have := (check_eq_ok.mp (check_eq_ok.mp hd).2).1
      rw [corruptIf_eq_ok, not_or, not_not] at this
      exact .inr (.inl ((Option.some.inj this.1).trans hs.storedName))

theorem BuildingFiles.loose (hn : CandidateName name) (h : BuildingFiles S r v origin name detached)
    (hv : ∀ t, t ≠ stagedSlot r (constructionEntryName name) → t ≠ stagedSlot r name → v' t = v t) :
    BuildingFiles S r v' origin name detached := by
  obtain ⟨honly, hlayout⟩ := h
  refine ⟨honly.of_agree fun d n => ?_, ?_⟩
  · by_cases hb : Slot.staged d n = stagedSlot r (constructionEntryName name)
    · simp only [stagedSlot, Slot.staged.injEq] at hb
      exact .inr ⟨hb.1, by simp [hb.2]⟩
    · by_cases hs : Slot.staged d n = stagedSlot r name
      · simp only [stagedSlot, Slot.staged.injEq] at hs
        exact .inr ⟨hs.1, by simp [hs.2]⟩
      · exact .inl (hv _ hb hs)
  · have ht : v' (targetSlot S) = v (targetSlot S) := hv _ (target_ne_staged r _) (target_ne_staged r _)
    have hh : v' (stagedSlot r (homeName origin)) = v (stagedSlot r (homeName origin)) := by
      refine hv _ ?_ ?_
      · simpa [stagedSlot] using (constructionEntryName_ne_home name origin hn).symm
      · simpa [stagedSlot] using (hn.ne_home origin).symm
    rw [layoutOf, ident, ident, ht, hh]
    exact hlayout

theorem RestoringFiles.clear (hn : CandidateName name)
    (h : RestoringFiles S r v origin name restored detached) :
    RestoringFiles S r (Function.update v (stagedSlot r (constructionEntryName name)) none) origin name
      restored detached := by
  have hb : v (stagedSlot r (constructionEntryName name)) = none := by
    by_contra hne
    obtain ⟨-, hmem⟩ := h.1 _ _ hne
    rcases List.mem_pair.mp hmem with he | he
    · exact constructionEntryName_ne_home name origin hn he
    · exact constructionEntryName_ne name he
  rwa [← hb, Function.update_eq_self]

theorem runs_discardConstruction {steps : String} (h : Now S w r) (hn : EntryName steps)
    (hf : PhaseFiles S r (Function.update (view S.path w) (stagedSlot r (constructionEntryName steps)) none)
      r.header.lifecycle) :
    Runs S E (ofIo ((⟨stagingOf r⟩ : StagingArea).discardConstruction steps)) (fun _ w' => Moved S w w'
      (Function.update (view S.path w) (stagedSlot r (constructionEntryName steps)) none)) w := by
  refine Runs.mapError ?_
  unfold StagingArea.discardConstruction
  rw [hn.entryName]
  exact (Reads.pure _).runs_bind (runs_discardEntry h.inv (h.fits hf))

theorem runs_ensureRestorationEntry {steps : String} (h : Now S w r) (hn : EntryName steps)
    (hdir : stagingOf r ∈ w.directories)
    (hb : view S.path w (stagedSlot r (constructionEntryName steps)) = none)
    (hf : ∀ v, (∀ t, t ≠ stagedSlot r (constructionEntryName steps) → t ≠ stagedSlot r steps →
      v t = view S.path w t) → PhaseFiles S r v r.header.lifecycle) :
    Runs S E (ensureEntry ⟨stagingOf r⟩ steps
        ((⟨stagingOf r⟩ : StagingArea).verifyRestoration steps r.contents r.header.original.metadata)
        ((⟨stagingOf r⟩ : StagingArea).createRestoration steps r.contents r.header.original.metadata))
      (fun identity w' => ∃ i, Exactly S r.contents r.header.original.metadata i ∧
        identity = i.identity S.host ∧
          Moved S w w' (Function.update (view S.path w) (stagedSlot r steps) (some i))) w := by
  obtain ⟨xattrs, hwritable⟩ := h.sound.writable
  refine runs_ensureEntry (s := ⟨stagingOf r⟩) h.inv hn ?_ ?_ ?_
  · exact h.fits (hf _ fun t _ ht => Function.update_of_ne ht _ _)
  · exact fun i hv => verifies_restoration h.inv hn hv
  · intro w₁ hm₁
    have h₁ := h.moved hm₁
    refine (runs_createFile (s := ⟨stagingOf r⟩) hm₁.inv (hm₁.directories ▸ hdir) hn.entryName ?_ hwritable
      h.sound.length fun v hv => ?_).mono ?_
    · rw [hm₁.view]
      exact Function.update_self ..
    · refine h₁.fits (hf v fun t hb hs => ?_)
      rw [hv t hb hs, hm₁.view]
      exact Function.update_of_ne hs _ _
    · rintro _ w₂ ⟨i, hbuilt, rfl, hm₂⟩
      refine ⟨i, ⟨hbuilt.plain, hbuilt.contents, hbuilt.metadata rfl⟩, rfl, hm₁.trans ?_⟩
      have hb₁ : view S.path w₁ ((⟨stagingOf r⟩ : StagingArea).slot (constructionEntryName steps)) = none := by
        rw [hm₁.view, Function.update_of_ne (construction_slot_ne _ _)]
        exact hb
      rwa [published_eq hb₁, hm₁.view, Function.update_idem] at hm₂

theorem Exactly.intact {i : Inode} (h : Exactly S r.contents r.header.original.metadata i) : Intact S r i := by
  obtain ⟨hp, hc, hm⟩ := h
  refine ⟨hp, hc, ?_⟩
  rw [hm]
  exact ⟨rfl, rfl, rfl, rfl, rfl⟩

/-- What `ensureRestoration` leaves behind, in one commit or none. -/
theorem runs_ensureRestoration {k : ℕ} (h : Now S w r)
    (hc : r.header.lifecycle = .restoreIntent origin (some name) restored detachedName detached)
    (hn : CandidateName name) (hb : view S.path w (stagedSlot r (constructionEntryName name)) = none)
    (hroom : E ∨ Room (k + 1) r) :
    Runs S E (Manager.ensureRestoration ⟨stagingOf r⟩ r origin name restored detachedName detached)
      (fun out w' => Restoring S w' out.1 origin name out.2 detachedName detached ∧ Later 1 r out.1) w := by
  have hs := h.sound
  obtain ⟨name', hname, -, hfiles⟩ : ∃ name', some name = some name' ∧ CandidateName name' ∧
      if r.header.logicalPresent = true ∧ restored = none then
        BuildingFiles S r (view S.path w) origin name' detached
      else RestoringFiles S r (view S.path w) origin name' restored detached := by
    have := h.files
    rwa [hc] at this
  cases hname
  have hdir := h.directory (by simp [hc])
  obtain ⟨hid, hl, hd⟩ := restoreIntent_valid hs hc
  unfold Manager.ensureRestoration
  by_cases hcond : r.header.logicalPresent = true ∧ restored = none
  · rw [if_pos hcond] at hfiles ⊢
    refine (runs_ensureRestorationEntry h hn.entryName hdir hb fun v hv => ?_).andThen ?_
    · rw [hc]
      refine ⟨name, rfl, hn, ?_⟩
      rw [if_pos hcond]
      exact hfiles.loose hn hv
    · rintro _ w₁ ⟨i, hexact, rfl, hm₁⟩
      have h₁ := h.moved hm₁
      have hv₁ : view S.path w₁ (stagedSlot r name) = some i := by
        rw [hm₁.view]
        exact Function.update_self ..
      have hstamped := hm₁.inv.sane.tidy.stamped hv₁
      have hnext : PhaseValid (advance r (.restoreIntent origin (some name) (some (i.identity S.host))
          detachedName detached) r.header.placeholder) := by
        refine ⟨?_, rfl, validateLifecycleStructure_restoreIntent hn ?_ ?_ hd⟩
        · have := (validateSnapshot_facts hs.valid).placeholder
          rw [validatePlaceholder, hc] at this
          exact this
        · intro j hj
          cases hj
          exact valid_of_plain hexact.1 hstamped
        · intro hl'
          rw [advance_present, hcond.1] at hl'
          cases hl'
      have hrestoring : RestoringFiles S r (view S.path w₁) origin name (some (i.identity S.host))
          detached := by
        have hloose : BuildingFiles S r (view S.path w₁) origin name detached :=
          hfiles.loose hn fun t hb' hs' => by rw [hm₁.view, Function.update_of_ne hs']
        obtain ⟨honly, hlayout⟩ := hloose
        simp only [layoutOf, Prod.mk.injEq] at hlayout
        refine ⟨fun d n hne => ?_, hlayout.2, .inl ⟨?_, fun j hj => ?_⟩⟩
        · obtain ⟨hd', hmem⟩ := honly d n hne
          refine ⟨hd', ?_⟩
          rcases List.mem_cons.mp hmem with rfl | hmem
          · simp
          · rcases List.mem_pair.mp hmem with rfl | rfl
            · refine absurd ?_ hne
              rw [hd', hm₁.view, Function.update_of_ne (by simp [stagedSlot, constructionEntryName_ne])]
              exact hb
            · simp
        · rw [layoutMatches_exact, layoutOf, hlayout.1, ident, hv₁]
          rfl
        · rw [hv₁] at hj
          cases hj
          exact hexact.intact
      have hnames : ∀ n ∈ lifecycleNames (.restoreIntent origin (some name) (some (i.identity S.host))
          detachedName detached), n = "swap" ∨ n = "stored" ∨ CandidateName n := by
        intro n hmem
        rcases List.mem_append.mp hmem with hmem | hmem
        · obtain rfl : n = name := by simpa using hmem
          exact .inr (.inr hn)
        · exact detachedName_known hs hd n hmem
      refine Runs.andThen (runs_transition hm₁.inv hs h₁.entry hnext ?_ hnames hroom ?_
        (hm₁.directories ▸ hdir)) ?_
      · simp [lifecycleTransitionIsValid, hc, hcond.1, hcond.2]
      · refine ⟨name, rfl, hn, ?_⟩
        rw [if_neg (by simp)]
        obtain ⟨honly, hhome, haround⟩ := hrestoring
        exact ⟨honly, hhome, haround.imp (And.imp_right AllIntact.advance) (And.imp_right AllIntact.advance)⟩
      · rintro _ w₂ ⟨rfl, hcommitted⟩
        refine Runs.pure ⟨⟨hcommitted.now, rfl, hn, by simp, ?_⟩, .advance hs hnames⟩
        rw [hcommitted.view]
        obtain ⟨honly, hhome, haround⟩ := hrestoring
        exact ⟨honly, hhome, haround.imp (And.imp_right AllIntact.advance) (And.imp_right AllIntact.advance)⟩
  · rw [if_neg hcond] at hfiles ⊢
    refine Runs.pure ⟨⟨h, hc, hn, fun hp hr => hcond ⟨hp, hr⟩, hfiles⟩, (Later.refl r).le (by omega)⟩

/-- The rename of a restoration, and where it leaves the placeholder. -/
def displacedBy (origin : RestoreOrigin) (name : String) : Option String :=
  match origin with
  | .installed => some name
  | .stored => none

theorem reads_restoreLayouts (h : Restoring S w r origin name restored detachedName detached) :
    Reads S (Manager.restoreLayouts r origin name restored)
      (.ok ((r.header.placeholder, restored), (restored, r.header.placeholder), displacedBy origin name))
      w := by
  cases origin with
  | installed =>
    obtain ⟨placeholder, hp, -⟩ := h.now.sound.placeholder (by rw [h.phase]; rfl)
    unfold Manager.restoreLayouts
    rw [hp]
    exact .pure _
  | stored =>
    obtain ⟨hp, hl⟩ := stored_facts h.now.sound h.phase
    cases restored with
    | none => exact absurd rfl (h.built hl)
    | some identity =>
      unfold Manager.restoreLayouts
      rw [hp]
      exact .pure _

theorem RestoringFiles.swap {t : Timestamp} (h : RestoringFiles S r v origin name restored detached)
    (hn : CandidateName name) (hl : layoutOf S r v name = (r.header.placeholder, restored))
    (ha : AllIntact S r v (stagedSlot r name)) :
    RestoringFiles S r (swapped t (targetSlot S) (stagedSlot r name) v) origin name restored detached := by
  refine ⟨h.1.of_agree fun d n => ?_, ?_, .inr (AroundRename.after .back hl ha)⟩
  · by_cases hs : Slot.staged d n = stagedSlot r name
    · simp only [stagedSlot, Slot.staged.injEq] at hs
      exact .inr ⟨hs.1, by simp [hs.2]⟩
    · exact .inl (swapped_of_ne (by simp [targetSlot]) hs)
  · rw [ident, swapped_of_ne (target_ne_staged r _).symm
      (by simpa [stagedSlot] using (hn.ne_home origin).symm)]
    exact h.2.1

theorem Restoring.moved (h : Restoring S w r origin name restored detachedName detached)
    (hm : Moved S w w' v) (hf : RestoringFiles S r v origin name restored detached) :
    Restoring S w' r origin name restored detachedName detached :=
  ⟨h.now.moved hm, h.phase, h.candidate, h.built, hm.view ▸ hf⟩

theorem Restoring.fits (h : Restoring S w r origin name restored detachedName detached)
    (hf : RestoringFiles S r v origin name restored detached) : Fits S w v := by
  refine h.now.fits ?_
  rw [h.phase]
  refine ⟨name, rfl, h.candidate, ?_⟩
  rw [if_neg fun hc => h.built hc.1 hc.2]
  exact hf

theorem runs_restoreRename (h : Restoring S w r origin name restored detachedName detached)
    (hl : layoutOf S r (view S.path w) name = (r.header.placeholder, restored))
    (ha : AllIntact S r (view S.path w) (stagedSlot r name)) :
    Runs S False (Manager.restoreRename S.target ⟨stagingOf r⟩ origin restored name) (fun _ w' => ∃ t,
      Moved S w w' (swapped t (targetSlot S) (stagedSlot r name) (view S.path w))) w := by
  have hf (t : Timestamp) : Fits S w (swapped t (targetSlot S) (stagedSlot r name) (view S.path w)) :=
    h.fits (h.files.swap h.candidate hl ha)
  have hl' := hl
  simp only [layoutOf, Prod.mk.injEq] at hl'
  cases origin with
  | installed =>
    obtain ⟨placeholder, hp, -⟩ := h.now.sound.placeholder (by rw [h.phase]; rfl)
    obtain ⟨i, hi, -⟩ := ident_some (hl'.1.trans hp)
    cases restored with
    | none => exact runs_moveToStaging h.now.inv h.candidate.entryName hi (Option.map_eq_none_iff.mp hl'.2) hf
    | some identity =>
      obtain ⟨j, hj, -⟩ := ident_some hl'.2
      exact runs_exchangeWith h.now.inv h.candidate.entryName hi hj hf
  | stored =>
    obtain ⟨hp, hpresent⟩ := stored_facts h.now.sound h.phase
    cases restored with
    | none => exact absurd rfl (h.built hpresent)
    | some identity =>
      obtain ⟨j, hj, -⟩ := ident_some hl'.2
      exact runs_installAbsent h.now.inv h.candidate.entryName
        (Option.map_eq_none_iff.mp (hl'.1.trans hp)) hj hf

theorem objectMatches_none_right {x : Option ObjectIdentity} {b : Bool}
    (h : objectMatches x none b = true) : x = none := by
  cases x with
  | none => rfl
  | some i => cases h

theorem objectMatches_isSome {x y : Option ObjectIdentity} {b : Bool} (h : objectMatches x y b = true) :
    x.isSome = y.isSome := by
  cases x <;> cases y <;> first | rfl | cases h

theorem reads_confirmRestored (h : Restoring S w r origin name restored detachedName detached)
    (hm : objectMatches (ident S (view S.path w) (targetSlot S)) restored true = true)
    (ha : AllIntact S r (view S.path w) (targetSlot S)) :
    Reads S (Manager.confirmRestored S.target r (layoutOf S r (view S.path w) name) restored)
      (.ok (layoutOf S r (view S.path w) name)) w := by
  unfold Manager.confirmRestored
  cases hl : r.header.logicalPresent with
  | true =>
    cases restored with
    | none => exact absurd rfl (h.built hl)
    | some expected =>
      cases hv : view S.path w (targetSlot S) with
      | none => rw [ident, hv] at hm; cases hm
      | some i =>
        have hident : ident S (view S.path w) (targetSlot S) = some (i.identity S.host) := by
          rw [ident, hv]
          rfl
        rw [hident] at hm
        have hsame : sameFileAfterRename expected (i.identity S.host) = true := hm
        refine Reads.bind (.pure _) ((reads_ofIo (reads_verifyTarget h.now.inv hv (ha i hv))).attempt.bind ?_)
        simp only [hsame, ↓reduceIte, layoutOf, hident]
        exact .pure _
  | false =>
    obtain ⟨-, hnone, -⟩ := restoreIntent_valid h.now.sound h.phase
    rw [hnone hl] at hm
    refine (reads_targetObserve h.now.inv).bind ?_
    rw [objectMatches_none_right hm]
    exact .pure _

theorem validateFinished_ok {header : RecordHeader} {placeholder displaced : Option ObjectIdentity}
    (hn : CandidateName name) (hl : header.logicalPresent = restored.isSome)
    (hr : ∀ i, restored = some i → validateIdentity i regularType "restored target" = .ok ())
    (hm : objectMatches displaced placeholder true = true)
    (hp : placeholder.isSome = true ↔ origin = .installed)
    (hd : ∀ i, displaced = some i → validateIdentity i regularType "displaced placeholder" = .ok ())
    (hdetached : validateRestoreDetached header origin detachedName detached = .ok ()) :
    validateFinished header origin restored (displacedBy origin name) displaced detachedName detached =
      .ok () := by
  unfold validateFinished
  refine check_eq_ok.mpr ⟨corruptIf_eq_ok.mpr (not_not.mpr hl), check_eq_ok.mpr ⟨?_, ?_⟩⟩
  · cases restored with
    | none => rfl
    | some i => exact hr i rfl
  · cases origin with
    | installed =>
      have hsome : displaced.isSome = true := (objectMatches_isSome hm).trans (hp.mpr rfl)
      obtain ⟨i, rfl⟩ := Option.isSome_iff_exists.mp hsome
      exact bind_eq_ok.mpr ⟨name, rfl, check_eq_ok.mpr ⟨hn.entryName.validate, bind_eq_ok.mpr
        ⟨i, rfl, check_eq_ok.mpr ⟨hd i rfl, hdetached⟩⟩⟩⟩
    | stored =>
      have hnone : displaced = none := by
        cases placeholder with
        | none => exact objectMatches_none_right hm
        | some i => cases hp.mp rfl
      rw [hnone]
      exact check_eq_ok.mpr ⟨rfl, hdetached⟩

theorem runs_commitRestored {k : ℕ} (h : Restoring S w r origin name restored detachedName detached)
    (hm : layoutMatches (layoutOf S r (view S.path w) name) (restored, r.header.placeholder) true = true)
    (ha : AllIntact S r (view S.path w) (targetSlot S)) (hroom : E ∨ Room (k + 1) r) :
    Runs S E (transition r (.restored origin (layoutOf S r (view S.path w) name).1
        (displacedBy origin name) (layoutOf S r (view S.path w) name).2 detachedName detached))
      (fun next w' => Now S w' next ∧ Manager.isRestored next.header.lifecycle = true ∧ Later 1 r next) w := by
  have hs := h.now.sound
  have hdir := h.now.directory (by simp [h.phase])
  obtain ⟨hid, hl, hd⟩ := restoreIntent_valid hs h.phase
  have hm' := hm
  simp only [layoutMatches, Bool.and_eq_true, layoutOf] at hm'
  obtain ⟨htarget, hstaged⟩ := hm'
  have hrequires : lifecycleRequiresPlaceholder r.header.lifecycle = decide (origin = .installed) := by
    rw [h.phase]
    rfl
  have hplaceholder : r.header.placeholder.isSome = true ↔ origin = .installed := by
    constructor
    · intro hsome
      by_contra hne
      have := hs.no_placeholder (hrequires.trans (decide_eq_false hne))
      rw [this] at hsome
      cases hsome
    · intro he
      obtain ⟨identity, hp, -⟩ := hs.placeholder (hrequires.trans (decide_eq_true he))
      rw [hp]
      rfl
  have hnext : PhaseValid (advance r (.restored origin (ident S (view S.path w) (targetSlot S))
      (displacedBy origin name) (ident S (view S.path w) (stagedSlot r name)) detachedName detached)
      r.header.placeholder) := by
    refine ⟨?_, rfl, ?_⟩
    · have := (validateSnapshot_facts hs.valid).placeholder
      rw [validatePlaceholder, hrequires] at this
      exact this
    · refine validateFinished_ok h.candidate ?_ (fun i hi => ?_) hstaged hplaceholder (fun i hi => ?_) hd
      · rw [advance_present, objectMatches_isSome htarget]
        cases hp : r.header.logicalPresent with
        | true => exact (Option.isSome_iff_ne_none.mpr (h.built hp)).symm
        | false => rw [hl hp]; rfl
      · cases restored with
        | none => rw [hi] at htarget; cases htarget
        | some expected =>
          rw [hi] at htarget
          exact valid_of_match (hid expected rfl) (objectMatches_some htarget) (ident_stamp h.now.inv hi).1
      · cases hp : r.header.placeholder with
        | none => rw [hi, hp] at hstaged; cases hstaged
        | some placeholder =>
          have horigin : origin = .installed := hplaceholder.mp (by rw [hp]; rfl)
          obtain ⟨identity, hp', hvalid⟩ := hs.placeholder (hrequires.trans (decide_eq_true horigin))
          rw [hp] at hp'
          cases hp'
          rw [hi, hp] at hstaged
          exact valid_of_match hvalid (objectMatches_some hstaged) (ident_stamp h.now.inv hi).1
  have hmatch : identitiesMatchAfterRename restored (ident S (view S.path w) (targetSlot S)) = true := by
    cases restored with
    | none => rw [objectMatches_none_right htarget]; rfl
    | some expected =>
      cases hv : ident S (view S.path w) (targetSlot S) with
      | none => rw [hv] at htarget; cases htarget
      | some actual =>
        rw [hv] at htarget
        exact objectMatches_some htarget
  have hnames : ∀ n ∈ lifecycleNames (.restored origin (ident S (view S.path w) (targetSlot S))
      (displacedBy origin name) (ident S (view S.path w) (stagedSlot r name)) detachedName detached),
      n = "swap" ∨ n = "stored" ∨ CandidateName n := by
    intro n hmem
    rcases List.mem_append.mp hmem with hmem | hmem
    · cases origin with
      | installed =>
        obtain rfl : n = name := by simpa [displacedBy] using hmem
        exact .inr (.inr h.candidate)
      | stored => simp [displacedBy] at hmem
    · exact detachedName_known hs hd n hmem
  have hgone (horigin : origin = .stored) : view S.path w (stagedSlot r name) = none := by
    have hnone : r.header.placeholder = none := hs.no_placeholder (by rw [hrequires, horigin]; rfl)
    rw [hnone] at hstaged
    exact Option.map_eq_none_iff.mp (objectMatches_none_right hstaged)
  refine (runs_transition h.now.inv hs h.now.entry hnext ?_ hnames hroom ⟨fun d n hne => ?_, fun n hn => ?_, ?_,
    ha.advance⟩ hdir).mono ?_
  · cases origin <;> simp [lifecycleTransitionIsValid, h.phase, hmatch, displacedBy]
  · obtain ⟨hd', hmem⟩ := h.files.1 d n hne
    refine ⟨hd', ?_⟩
    rcases List.mem_pair.mp hmem with rfl | rfl
    · exact List.mem_cons_self
    · cases origin with
      | installed => simp [displacedBy]
      | stored =>
        rw [hd'] at hne
        exact absurd (hgone rfl) hne
  · cases origin with
    | installed =>
      cases hn
      exact ⟨h.candidate, rfl⟩
    | stored => cases hn
  · exact Prod.ext rfl h.files.2.1
  · rintro _ w' ⟨rfl, hcommitted⟩
    exact ⟨hcommitted.now, rfl, .advance hs hnames⟩

theorem runs_finishRestoreWith {k : ℕ} {restoreName : Option String} (h : Now S w r)
    (hc : r.header.lifecycle = .restoreIntent origin restoreName restored detachedName detached)
    (hroom : E ∨ Room (k + 2) r) :
    Runs S E (Manager.finishRestoreWith S.target ⟨stagingOf r⟩ r)
      (fun next w' => Now S w' next ∧ Manager.isRestored next.header.lifecycle = true ∧ Later 2 r next) w := by
  obtain ⟨name, rfl, hn, hfiles⟩ : ∃ name, restoreName = some name ∧ CandidateName name ∧
      if r.header.logicalPresent = true ∧ restored = none then
        BuildingFiles S r (view S.path w) origin name detached
      else RestoringFiles S r (view S.path w) origin name restored detached := by
    have := h.files
    rwa [hc] at this
  unfold Manager.finishRestoreWith
  simp only [hc, orMessage, Option.elim_some, Prog.bind_eq, Prog.pure_bind]
  refine (runs_discardConstruction h hn.entryName ?_).andThen fun _ w₁ hm₁ => ?_
  · rw [hc]
    refine ⟨name, rfl, hn, ?_⟩
    split_ifs at hfiles ⊢ with hcond
    · exact hfiles.loose hn fun t hb _ => Function.update_of_ne hb _ _
    · exact hfiles.clear hn
  have h₁ := h.moved hm₁
  have hb : view S.path w₁ (stagedSlot r (constructionEntryName name)) = none := by
    rw [hm₁.view]
    exact Function.update_self ..
  refine (runs_ensureRestoration (k := k + 1) h₁ hc hn hb hroom).andThen ?_
  rintro ⟨r₂, restored₂⟩ w₂ ⟨h₂, hlater⟩
  simp only at h₂ hlater ⊢
  rw [← hlater.staging]
  refine (reads_restoreLayouts h₂).runs_bind ?_
  have hab : ¬ (r₂.header.placeholder = none ∧ restored₂ = none) := by
    rintro ⟨hp, hr⟩
    cases origin with
    | installed =>
      obtain ⟨placeholder, hp', -⟩ := h₂.now.sound.placeholder (by rw [h₂.phase]; rfl)
      rw [hp] at hp'
      cases hp'
    | stored => exact h₂.built (stored_facts h₂.now.sound h₂.phase).2 hr
  refine (runs_renameStep h₂.now.inv hn.entryName hab .back h₂.files.2.2
    fun hl ha => runs_restoreRename h₂ hl ha).andThen ?_
  rintro layout w₃ ⟨v₃, hm₃, rfl, hmatch, hintact, hframe⟩
  refine (if_pos hmatch).symm ▸ ?_
  obtain rfl := hm₃.view
  have h₃ : Restoring S w₃ r₂ origin name restored₂ detachedName detached := by
    refine h₂.moved hm₃ ⟨h₂.files.1.of_agree fun d n => ?_, ?_, .inr ⟨hmatch, hintact⟩⟩
    · by_cases hs : Slot.staged d n = stagedSlot r₂ name
      · simp only [stagedSlot, Slot.staged.injEq] at hs
        exact .inr ⟨hs.1, by simp [hs.2]⟩
      · exact .inl (hframe _ (by simp [targetSlot]) hs)
    · rw [ident, hframe _ (target_ne_staged r₂ _).symm (by simpa [stagedSlot] using (hn.ne_home origin).symm)]
      exact h₂.files.2.1
  have htarget : objectMatches (ident S (view S.path w₃) (targetSlot S)) restored₂ true = true := by
    rw [layoutMatches, Bool.and_eq_true] at hmatch
    exact hmatch.1
  refine (reads_confirmRestored h₃ htarget hintact).runs_bind ((reads_syncWith h₃.now.inv _).runs_bind ?_)
  refine (runs_commitRestored h₃ hmatch hintact (hroom.imp_right fun hr => hlater.room (k + 1) hr)).mono ?_
  rintro next w₄ ⟨hnow, hphase, hlater'⟩
  exact ⟨hnow, hphase, hlater.trans hlater'⟩

end restoring

theorem runs_finishRestore {k : ℕ} {origin : RestoreOrigin} {restoreName : Option String}
    {restored detached : Option ObjectIdentity} {detachedName : Option String} (h : Now S w r)
    (hc : r.header.lifecycle = .restoreIntent origin restoreName restored detachedName detached)
    (hroom : E ∨ Room (k + 2) r) :
    Runs S E (S.manager.finishRestore r)
      (fun next w' => Now S w' next ∧ Manager.isRestored next.header.lifecycle = true ∧ Later 2 r next) w := by
  have hs := h.sound
  unfold Manager.finishRestore
  simp only [recordPath_eq hs.bound, Prog.bind_eq, Prog.pure_bind]
  exact (reads_resolveBoundPath h.inv hs).runs_bind ((reads_openStaging h.inv hs
    (h.directory (by simp [hc]))).runs_bind (runs_finishRestoreWith h hc hroom))

/-- A row from which a restoration can start, and what it starts from. -/
structure Restorable (S : Site) (w : World) (r : SnapshotRecord) (origin : RestoreOrigin)
    (detachedName : Option String) (detached : Option ObjectIdentity) : Prop where
  now : Now S w r
  binding : Reads S (Manager.restoreBinding r) (.ok (origin, detachedName, detached)) w
  required : Reads S (S.manager.requireRestorable S.path r origin detached) (.ok r) w
  bound : validateRestoreDetached r.header origin detachedName detached = .ok ()
  only : Only (view S.path w) (stagingOf r) [homeName origin]
  layout : layoutOf S r (view S.path w) (homeName origin) = (r.header.placeholder, detached)
  placeholder : lifecycleRequiresPlaceholder r.header.lifecycle = decide (origin = .installed)
  allowed : ∀ name, CandidateName name → lifecycleTransitionIsValid r.header (advance r
    (.restoreIntent origin (some name) none detachedName detached) r.header.placeholder).header = true
  directory : stagingOf r ∈ w.directories

theorem restoreIntentMatchesHeader_advance {origin : RestoreOrigin} {name : String}
    {detachedName : Option String} {detached p : Option ObjectIdentity} (hn : CandidateName name)
    (hd : validateRestoreDetached r.header origin detachedName detached = .ok ()) :
    restoreIntentMatchesHeader (advance r (.restoreIntent origin (some name) none detachedName detached)
      p).header = true := by
  have h : validateLifecycleStructure (advance r (.restoreIntent origin (some name) none detachedName
      detached) p).header (.restoreIntent origin (some name) none detachedName detached) = .ok () :=
    validateLifecycleStructure_restoreIntent hn (by simp) (fun _ => rfl) hd
  unfold restoreIntentMatchesHeader
  rw [advance_lifecycle, h]
  rfl

theorem restorable_installed {detached : Option ObjectIdentity} (h : Now S w r)
    (hc : r.header.lifecycle = .installed detached ∨ r.header.lifecycle = .unmountIntent .restore detached) :
    Restorable S w r .installed (if r.header.original.existed then some r.header.swapName else none)
      detached := by
  have hs := h.sound
  have hrequires : lifecycleRequiresPlaceholder r.header.lifecycle = true := by
    rcases hc with hc | hc <;> rw [hc] <;> rfl
  have hfiles : InstalledFiles S r (view S.path w) detached := by
    have := h.files
    rcases hc with hc | hc <;> rwa [hc] at this
  have hdetached : validateDetachedOriginal r.header detached = .ok () := by
    have := hs.structural
    rcases hc with hc | hc <;> rwa [hc] at this
  have hvalid : validateRestoreDetached r.header .installed
      (if r.header.original.existed then some r.header.swapName else none) detached = .ok () := by
    rcases detachedOriginal_cases hdetached with ⟨identity, metadata, d, ho, rfl, hm, hv⟩ |
      ⟨presentation, ho, rfl⟩
    · have he : r.header.original.existed = true := by rw [ho]; rfl
      simp only [validateRestoreDetached, he, ↓reduceIte]
      refine check_eq_ok.mpr ⟨corruptIf_eq_ok.mpr (by simp), check_eq_ok.mpr ⟨?_, ?_⟩⟩
      · rw [hs.swapName]
        exact entryName_swap.validate
      · simp only [Option.elim_some, validateDetachedIdentity, ho]
        exact check_eq_ok.mpr ⟨hv, corruptIf_eq_ok.mpr (not_not.mpr hm)⟩
    · have he : r.header.original.existed = false := by rw [ho]; rfl
      simp [validateRestoreDetached, he]
  refine ⟨h, ?_, reads_requireInstalledLayout h hrequires hdetached hfiles, hvalid, hfiles.1, hfiles.2, ?_,
    fun name hn => ?_, h.directory ?_⟩
  · unfold Manager.restoreBinding
    rcases hc with hc | hc <;> rw [hc] <;> exact .pure _
  · rw [hrequires]
    rfl
  · have := restoreIntentMatchesHeader_advance (p := r.header.placeholder) hn hvalid
    rcases hc with hc | hc <;> simp [lifecycleTransitionIsValid, hc, this]
  · rcases hc with hc | hc <;> rw [hc] <;> simp

theorem restorable_stored {detached : ObjectIdentity} {name : String} (h : Now S w r)
    (hc : r.header.lifecycle = .stored name detached) :
    Restorable S w r .stored (some name) (some detached) := by
  have hs := h.sound
  obtain ⟨rfl, hfiles⟩ : name = "stored" ∧ StoredFiles S r (view S.path w) detached := by
    have := h.files
    rwa [hc] at this
  have hplaceholder : r.header.placeholder = none := hs.no_placeholder (by rw [hc]; rfl)
  have hvalid : validateRestoreDetached r.header .stored (some "stored") (some detached) = .ok () := by
    have hv := hs.structural
    rw [hc, validateLifecycleStructure] at hv
    obtain ⟨hn, hv⟩ := check_eq_ok.mp hv
    obtain ⟨hp, hv⟩ := check_eq_ok.mp hv
    simp only [validateRestoreDetached]
    refine check_eq_ok.mpr ⟨corruptIf_eq_ok.mpr (corruptIf_eq_ok.mp hp), check_eq_ok.mpr
      ⟨corruptIf_eq_ok.mpr (by simp [hs.storedName]),
      check_eq_ok.mpr ⟨hn, ?_⟩⟩⟩
    obtain ⟨hi, hv⟩ := check_eq_ok.mp hv
    exact check_eq_ok.mpr ⟨valid_label hi, by
      cases ho : r.header.original with
      | absent presentation => simp only [ho] at hv; cases hv
      | present identity metadata =>
        simp only [ho, corruptIf_eq_ok] at hv
        exact corruptIf_eq_ok.mpr hv⟩
  refine ⟨h, ?_, reads_requireStored h hc hfiles, hvalid, hfiles.1, ?_, ?_, fun name hn => ?_,
    h.directory (by simp [hc])⟩
  · unfold Manager.restoreBinding
    rw [hc]
    exact .pure _
  · rw [hplaceholder]
    exact hfiles.2
  · rw [hc]
    rfl
  · have := restoreIntentMatchesHeader_advance (p := r.header.placeholder) hn hvalid
    simp [lifecycleTransitionIsValid, hc, this]

theorem runs_beginRestore {k : ℕ} {origin : RestoreOrigin} {detachedName : Option String}
    {detached : Option ObjectIdentity} (h : Restorable S w r origin detachedName detached)
    (hroom : E ∨ Room (k + 3) r) :
    Runs S E (S.manager.beginRestore r)
      (fun next w' => Now S w' next ∧ Manager.isRestored next.header.lifecycle = true ∧ Later 3 r next) w := by
  have hs := h.now.sound
  unfold Manager.beginRestore
  simp only [recordPath_eq hs.bound, Prog.bind_eq, Prog.pure_bind]
  refine h.binding.runs_bind (h.required.runs_bind ((reads_resolveBoundPath h.now.inv hs).runs_bind
    ((reads_openStaging h.now.inv hs h.directory).runs_bind ?_)))
  refine Runs.bind (Runs.perform fun c hc => ?_)
  have hsame : (w.exec S.host c .randomToken).2.settled = w := h.now.inv.sane.settled
  rw [hsame]
  refine ⟨h.now.inv, ?_⟩
  simp only [World.exec]
  generalize hname : (if r.header.logicalPresent = true then "restore-" ++ c.token
    else "displaced-" ++ c.token) = name
  have hn : CandidateName name := by
    refine ⟨c.token, hc.token, ?_⟩
    rw [← hname]
    split_ifs <;> simp
  have hnext : PhaseValid (advance r (.restoreIntent origin (some name) none detachedName detached)
      r.header.placeholder) := by
    refine ⟨?_, rfl, validateLifecycleStructure_restoreIntent hn (by simp) (fun _ => rfl) h.bound⟩
    have := (validateSnapshot_facts hs.valid).placeholder
    rw [validatePlaceholder, h.placeholder] at this
    exact this
  have hnames : ∀ n ∈ lifecycleNames (.restoreIntent origin (some name) none detachedName detached),
      n = "swap" ∨ n = "stored" ∨ CandidateName n := by
    intro n hmem
    rcases List.mem_append.mp hmem with hmem | hmem
    · obtain rfl : n = name := by simpa using hmem
      exact .inr (.inr hn)
    · exact detachedName_known hs h.bound n hmem
  have hfree : view S.path w (stagedSlot r name) = none := by
    by_contra hne
    obtain ⟨-, hmem⟩ := h.only _ _ hne
    exact hn.ne_home origin (by simpa using hmem)
  have hlayout := h.layout
  simp only [layoutOf, Prod.mk.injEq] at hlayout
  refine (runs_transition h.now.inv hs h.now.entry hnext (h.allowed name hn) hnames
    (hroom.imp_right fun hr => (hr.le (by omega) : Room (k + 2 + 1) r)) ⟨name, rfl, hn, ?_⟩ h.directory).andThen ?_
  · split_ifs
    · exact ⟨h.only.mono (by simp), h.layout⟩
    · refine ⟨h.only.mono (by simp), hlayout.2, .inl ⟨?_, fun i hi => ?_⟩⟩
      · rw [layoutMatches_exact]
        refine Prod.ext hlayout.1 ?_
        exact Option.map_eq_none_iff.mpr hfree
      · rw [show view S.path w (stagedSlot (advance r (.restoreIntent origin (some name) none detachedName
          detached) r.header.placeholder) name) = none from hfree] at hi
        cases hi
  · rintro _ w₁ ⟨rfl, hcommitted⟩
    have hlater : Later 1 r (advance r (.restoreIntent origin (some name) none detachedName detached)
      r.header.placeholder) := .advance hs hnames
    refine (runs_finishRestoreWith (k := k) hcommitted.now rfl
      (hroom.imp_right fun hr => hlater.room _ hr)).mono ?_
    rintro next w₂ ⟨hnow, hphase, hlater'⟩
    exact ⟨hnow, hphase, (hlater.trans hlater').le (by omega)⟩

end FileGuard.Recovery
