import FileGuard.Recovery.Staging

/-! From the captured row to the installed placeholder, and to the original stored offline. -/

namespace FileGuard.Recovery

open Store Files Transaction CrashLogic

variable {S : Site} {w w' : World} {r next : SnapshotRecord} {E : Prop} {v v' : View}

/-- The path has the row `r` right now. -/
structure Now (S : Site) (w : World) (r : SnapshotRecord) : Prop where
  inv : Inv S w
  entry : w.store S.path = .present r

namespace Now

theorem consistent (h : Now S w r) :
    Consistent S (.present r) (w.ghost.last S.path) w.directories (view S.path w) :=
  h.entry ▸ h.inv.consistent

theorem sound (h : Now S w r) : Sound S r := h.consistent.1

theorem last (h : Now S w r) : w.ghost.last S.path = some r := h.consistent.2.1

theorem files (h : Now S w r) : PhaseFiles S r (view S.path w) r.header.lifecycle := h.consistent.2.2.1

theorem directory (h : Now S w r) (hne : r.header.lifecycle ≠ .captured) : stagingOf r ∈ w.directories :=
  h.consistent.2.2.2.resolve_left hne

theorem fits (h : Now S w r) (hf : PhaseFiles S r v r.header.lifecycle) : Fits S w v := by
  rw [Fits, h.entry, h.last]
  exact ⟨h.sound, rfl, hf, h.consistent.2.2.2⟩

theorem moved (h : Now S w r) (hm : Moved S w w' v) : Now S w' r := ⟨hm.inv, hm.entry.trans h.entry⟩

end Now

theorem Committed.now (h : Committed S w w' next) : Now S w' next := ⟨h.inv, h.entry⟩

/-- A row of the same generation for the same credential, `steps` commits later. -/
structure Later (steps : ℕ) (r next : SnapshotRecord) : Prop where
  contents : next.contents = r.contents
  present : next.header.logicalPresent = r.header.logicalPresent
  original : next.header.original = r.header.original
  staging : stagingOf next = stagingOf r
  room : ∀ k, Room (k + steps) r → Room k next

theorem Later.refl (r : SnapshotRecord) : Later 0 r r := ⟨rfl, rfl, rfl, rfl, fun _ h => h⟩

theorem Later.trans {m n : ℕ} {last : SnapshotRecord} (h : Later m r next) (h' : Later n next last) :
    Later (m + n) r last :=
  ⟨h'.contents.trans h.contents, h'.present.trans h.present, h'.original.trans h.original,
    h'.staging.trans h.staging, fun k hr => h'.room k (h.room (k + n) (by rwa [add_assoc, add_comm n m]))⟩

theorem Later.advance (hs : Sound S r) {lifecycle : Lifecycle} {placeholder : Option ObjectIdentity}
    (hn : ∀ name ∈ lifecycleNames lifecycle, name = "swap" ∨ name = "stored" ∨ CandidateName name) :
    Later 1 r (advance r lifecycle placeholder) :=
  ⟨rfl, rfl, rfl, rfl, fun _ hr => hr.advance hs hn⟩

section validity

variable {i : Inode} {identity other : ObjectIdentity} {label : String}

theorem validateTimestamp_ok {t : Timestamp} : validateTimestamp t = .ok () ↔ Stamp t := by
  rw [validateTimestamp, corruptIf_eq_ok, not_not, Stamp]

theorem validateIdentity_iff {kind : UInt32} : validateIdentity identity kind label = .ok () ↔
    identity.mode &&& fileTypeMask = kind ∧ identity.links ≠ 0 ∧ Stamp identity.ctime ∧
      Stamp identity.mtime := by
  simp only [validateIdentity, check_eq_ok, corruptIf_eq_ok, validateTimestamp_ok, not_or, not_not, and_assoc,
    ne_eq]

theorem valid_of_plain (hp : Plain i) (hs : Stamped i) :
    validateIdentity (i.identity S.host) regularType label = .ok () := by
  refine validateIdentity_iff.mpr ⟨hp.1, ?_, hs.2.2, hs.2.1⟩
  change i.links ≠ 0
  rw [hp.2.1]
  decide

theorem valid_of_match (hv : validateIdentity identity regularType label = .ok ())
    (hm : identitiesMatch identity other = true) (hs : Stamp other.ctime) {l : String} :
    validateIdentity other regularType l = .ok () := by
  rw [validateIdentity_iff] at *
  rw [identitiesMatch_iff] at hm
  rw [hm] at hv
  exact ⟨hv.1, hv.2.1, hs, hv.2.2.2⟩

theorem valid_label {kind : UInt32} {l : String} (h : validateIdentity identity kind label = .ok ()) :
    validateIdentity identity kind l = .ok () :=
  validateIdentity_iff.mpr (validateIdentity_iff.mp h)

theorem objectMatches_some (h : objectMatches (some other) (some identity) true = true) :
    identitiesMatch identity other = true := by
  rw [← sameFileAfterRename_eq]
  exact h

theorem ident_some {slot : Slot} (h : ident S v slot = some identity) :
    ∃ i, v slot = some i ∧ i.identity S.host = identity := Option.map_eq_some_iff.mp h

theorem ident_stamp (hi : Inv S w) {slot : Slot} (h : ident S (view S.path w) slot = some identity) :
    Stamp identity.ctime ∧ Stamp identity.mtime := by
  obtain ⟨i, hv, rfl⟩ := ident_some h
  have hs := hi.sane.tidy.stamped hv
  exact ⟨hs.2.2, hs.2.1⟩

theorem Sound.placeholder (hs : Sound S r) (hr : lifecycleRequiresPlaceholder r.header.lifecycle = true) :
    ∃ identity, r.header.placeholder = some identity ∧
      validateIdentity identity regularType "placeholder" = .ok () := by
  have h := (validateSnapshot_facts hs.valid).placeholder
  rw [validatePlaceholder, hr] at h
  cases hp : r.header.placeholder with
  | none => rw [hp] at h; cases h
  | some identity => rw [hp] at h; exact ⟨identity, rfl, h⟩

theorem Sound.no_placeholder (hs : Sound S r)
    (hr : lifecycleRequiresPlaceholder r.header.lifecycle = false) : r.header.placeholder = none := by
  have h := (validateSnapshot_facts hs.valid).placeholder
  rw [validatePlaceholder, hr] at h
  cases hp : r.header.placeholder with
  | none => rfl
  | some identity => rw [hp] at h; cases h

theorem Sound.original (hs : Sound S r) {metadata : RestoreMetadata}
    (h : r.header.original = .present identity metadata) :
    validateIdentity identity regularType "original" = .ok () ∧ identity.links = 1 ∧
      r.header.logicalPresent = true := by
  have ho := (validateSnapshot_facts hs.valid).original
  rw [validateOriginal, h] at ho
  obtain ⟨hv, hl⟩ := check_eq_ok.mp ho
  simp only [corruptIf_eq_ok, not_or, not_not, Bool.not_eq_false] at hl
  exact ⟨hv, hl⟩

theorem Sound.writable (hs : Sound S r) : ∃ xattrs, Writable r.header.original.metadata xattrs := by
  refine writable_of_valid ?_ hs.xattrs
  have h := hs.valid
  simp only [validateSnapshot, check_eq_ok] at h
  exact h.2.2.2.2.2.2.2.2.2.2.2.2.1

theorem Sound.length (hs : Sound S r) : r.contents.length ≤ maxCredentialSize :=
  (validateSnapshot_facts hs.valid).length

end validity

theorem Only.of_agree {d : Path} {names : List String} (h : Only v d names)
    (hv : ∀ d' n, v' (.staged d' n) = v (.staged d' n) ∨ d' = d ∧ n ∈ names) : Only v' d names := by
  intro d' n hne
  rcases hv d' n with he | hin
  · exact h d' n (he ▸ hne)
  · exact hin

theorem CapturedFiles.loose (h : CapturedFiles S r v)
    (hv : ∀ t, t ≠ stagedSlot r (constructionEntryName "swap") → t ≠ stagedSlot r "swap" → v' t = v t) :
    CapturedFiles S r v' := by
  obtain ⟨honly, hident, hintact⟩ := h
  have ht : v' (targetSlot S) = v (targetSlot S) :=
    hv _ (target_ne_staged r _) (target_ne_staged r _)
  refine ⟨honly.of_agree fun d n => ?_, ?_, fun i hi => hintact i (ht ▸ hi)⟩
  · by_cases hb : Slot.staged d n = stagedSlot r (constructionEntryName "swap")
    · simp only [stagedSlot, Slot.staged.injEq] at hb
      exact .inr ⟨hb.1, by simp [hb.2]⟩
    · by_cases hs : Slot.staged d n = stagedSlot r "swap"
      · simp only [stagedSlot, Slot.staged.injEq] at hs
        exact .inr ⟨hs.1, by simp [hs.2]⟩
      · exact .inl (hv _ hb hs)
  · rw [ident, ht]
    exact hident

theorem originalIdentity_present {identity : ObjectIdentity} {metadata : RestoreMetadata}
    (h : r.header.original = .present identity metadata) : originalIdentity r = some identity := by
  rw [originalIdentity, h]

theorem originalIdentity_absent {presentation : RestoreMetadata}
    (h : r.header.original = .absent presentation) : originalIdentity r = none := by
  rw [originalIdentity, h]

theorem runs_validateCapturedSource (hi : Inv S w) (h : CapturedFiles S r (view S.path w)) :
    Reads S (Manager.validateCapturedSource r S.target) (.ok ()) w := by
  obtain ⟨-, hident, hintact⟩ := h
  unfold Manager.validateCapturedSource
  cases ho : r.header.original with
  | present identity metadata =>
    rw [originalIdentity_present ho] at hident
    obtain ⟨i, hv, rfl⟩ := ident_some hident
    have hi' := hintact i hv
    refine wp_bind.mpr (wp_mapError.mpr (wp_mono (wp_capture hi) ?_))
    rintro _ _ ⟨rfl, hc⟩
    cases hc with
    | absent t time nothing => rw [hv] at nothing; cases nothing
    | failed e j found odd => rw [hv] at found; cases found; exact absurd hi'.plain odd
    | present j found plain =>
      rw [hv] at found
      cases found
      have hmeta := hi'.metadata
      rw [ho] at hmeta
      simp only [Except.mapError, onOk_ok]
      rw [if_pos ⟨trivial, hi'.contents, hmeta⟩]
      exact ⟨rfl, rfl⟩
  | absent presentation =>
    rw [originalIdentity_absent ho] at hident
    refine (reads_targetObserve hi).bind ?_
    rw [hident]
    exact .pure _

theorem ident_update_self {slot : Slot} {x : Option Inode} :
    ident S (Function.update v slot x) slot = x.map (Inode.identity S.host) := by
  rw [ident, Function.update_self]

theorem Intact.advance {i : Inode} {lifecycle : Lifecycle} {placeholder : Option ObjectIdentity}
    (h : Intact S r i) : Intact S (Recovery.advance r lifecycle placeholder) i :=
  ⟨h.plain, h.contents, h.metadata⟩

theorem AllIntact.advance {slot : Slot} {lifecycle : Lifecycle} {placeholder : Option ObjectIdentity}
    (h : AllIntact S r v slot) : AllIntact S (Recovery.advance r lifecycle placeholder) v slot :=
  fun i hi => (h i hi).advance

theorem slot_eq (r : SnapshotRecord) (name : String) :
    (⟨stagingOf r⟩ : StagingArea).slot name = stagedSlot r name := rfl

theorem published_eq {s : StagingArea} {name : String} {i : Inode}
    (h : v (s.slot (constructionEntryName name)) = none) :
    published s name v i = Function.update v (s.slot name) (some i) := by
  rw [published, ← h, Function.update_eq_self]

theorem runs_beginInstall {k : ℕ} (h : Now S w r) (hc : r.header.lifecycle = .captured)
    (hroom : E ∨ Room (k + 1) r) :
    Runs S E (S.manager.beginInstall r)
      (fun next w' => Now S w' next ∧ next.header.lifecycle = .installIntent ∧ Later 1 r next) w := by
  have hs := h.sound
  have hfiles : CapturedFiles S r (view S.path w) := by
    have := h.files
    rwa [hc] at this
  have hfits {w₁ : World} (h₁ : Now S w₁ r) {v : View} (hv : CapturedFiles S r v) : Fits S w₁ v :=
    h₁.fits (by rw [hc]; exact hv)
  unfold Manager.beginInstall
  simp only [recordPath_eq hs.bound, Prog.bind_eq, Prog.pure_bind, hs.swapName]
  refine (reads_resolveBoundPath h.inv hs).runs_bind
    ((runs_validateCapturedSource h.inv hfiles).attempt.runs_bind ?_)
  refine (runs_createStaging h.inv hs).andThen ?_
  rintro _ w₁ ⟨rfl, hi₁, hst, hg, hv₁, hd₁⟩
  have h₁ : Now S w₁ r := ⟨hi₁, by rw [hst]; exact h.entry⟩
  rw [← hv₁] at hfiles
  -- the construction name is cleared first, so that it is free whatever happens to `swap`
  have hcleared : CapturedFiles S r (Function.update (view S.path w₁)
      (stagedSlot r (constructionEntryName "swap")) none) :=
    hfiles.loose fun t hb _ => Function.update_of_ne hb _ _
  refine Runs.andThen (P := fun _ w₂ => Moved S w₁ w₂ (Function.update (view S.path w₁)
    (stagedSlot r (constructionEntryName "swap")) none)) (Runs.mapError ?_) fun _ w₂ hm₂ => ?_
  · unfold StagingArea.discardConstruction
    rw [entryName_swap.entryName]
    exact (Reads.pure _).runs_bind (runs_discardEntry hi₁ (hfits h₁ hcleared))
  have h₂ := h₁.moved hm₂
  rw [← hm₂.view] at hcleared
  have hb : view S.path w₂ (stagedSlot r (constructionEntryName "swap")) = none := by
    rw [hm₂.view, Function.update_self]
  obtain ⟨xattrs, hwritable⟩ := hs.writable
  refine (runs_ensureEntry (s := ⟨stagingOf r⟩) (P := Plain) hm₂.inv entryName_swap ?_ ?_ ?_).andThen ?_
  · exact hfits h₂ (hcleared.loose fun t _ ht => Function.update_of_ne ht _ _)
  · exact fun i hv => verifies_placeholder hm₂.inv entryName_swap hv
  · intro w₃ hm₃
    have h₃ := h₂.moved hm₃
    have hfiles₃ : CapturedFiles S r (view S.path w₃) := by
      rw [hm₃.view]
      exact hcleared.loose fun t _ ht => Function.update_of_ne ht _ _
    refine (runs_createFile (s := ⟨stagingOf r⟩) hm₃.inv ?_ entryName_swap.entryName ?_ hwritable
      (Nat.zero_le _) fun v hv => ?_).mono ?_
    · rw [hm₃.directories, hm₂.directories]
      exact hd₁
    · rw [hm₃.view]
      exact Function.update_self ..
    · exact hfits h₃ (hfiles₃.loose hv)
    · rintro _ w₄ ⟨i, hbuilt, rfl, hm₄⟩
      refine ⟨i, hbuilt.plain, rfl, hm₃.trans ?_⟩
      have hb₃ : view S.path w₃ ((⟨stagingOf r⟩ : StagingArea).slot (constructionEntryName "swap")) =
          none := by
        rw [hm₃.view, Function.update_of_ne (construction_slot_ne _ _)]
        exact hb
      rwa [published_eq hb₃, hm₃.view, Function.update_idem] at hm₄
  rintro _ w₃ ⟨i, hplain, rfl, hm₃⟩
  rw [slot_eq] at hm₃
  have h₃ := h₂.moved hm₃
  have hstamped : Stamped i := hm₃.inv.sane.tidy.stamped (s := stagedSlot r "swap") (by
    rw [hm₃.view]
    exact Function.update_self ..)
  have hnext : PhaseValid (advance r .installIntent (some (i.identity S.host))) := by
    have hlen := hs.valid
    simp only [validateSnapshot, check_eq_ok] at hlen
    refine ⟨valid_of_plain hplain hstamped, ?_, rfl⟩
    have := hlen.2.2.2.2.2.2.2.2.2.2.2.2.2.2.2.1
    rw [validateCapturedLength, hc] at this
    rw [validateCapturedLength]
    cases ho : r.header.original with
    | present identity metadata => simpa [advance, SnapshotRecord.successor, ho] using this
    | absent presentation => simp [advance, SnapshotRecord.successor, ho]
  have hcommit := runs_commitSuccessor (E := E) h₃.inv hs h₃.entry hnext
    (.inr (by simp [placeholderMayChange, hc, hs.no_placeholder (by rw [hc]; rfl), advance,
      SnapshotRecord.successor])) (by simp [lifecycleTransitionIsValid, hc]) (by simp [lifecycleNames])
    hroom ?_ ?_
  · refine Runs.andThen hcommit fun _ w₄ hcommitted => Runs.pure ⟨hcommitted.now, rfl, ?_⟩
    exact .advance hs (by simp [lifecycleNames])
  · refine ⟨fun d n hne => ?_, .inl ⟨layoutMatches_exact.mpr ?_, fun j hj => ?_⟩⟩
    · rw [hm₃.view] at hne
      by_cases hn : Slot.staged d n = stagedSlot r "swap"
      · simp only [stagedSlot, Slot.staged.injEq] at hn
        exact ⟨hn.1, by simp [hn.2]⟩
      · rw [Function.update_of_ne hn] at hne
        obtain ⟨hd, hmem⟩ := hcleared.1 d n hne
        rcases List.mem_pair.mp hmem with rfl | rfl
        · rw [hd] at hne
          exact absurd hb hne
        · exact ⟨hd, by simp⟩
    · rw [layoutOf, ident, hm₃.view, Function.update_of_ne (target_ne_staged r "swap")]
      exact Prod.ext hcleared.2.1 ident_update_self
    · rw [hm₃.view, Function.update_of_ne (target_ne_staged r "swap")] at hj
      exact (hcleared.2.2 j hj).advance
  · rw [hm₃.directories, hm₂.directories]
    exact hd₁

theorem detachedOriginal_cases {detached : Option ObjectIdentity}
    (h : validateDetachedOriginal r.header detached = .ok ()) :
    (∃ identity metadata d, r.header.original = .present identity metadata ∧ detached = some d ∧
      identitiesMatch identity d = true ∧ validateIdentity d regularType "detached original" = .ok ()) ∨
    ∃ presentation, r.header.original = .absent presentation ∧ detached = none := by
  cases ho : r.header.original with
  | present identity metadata =>
    cases detached with
    | none => simp only [validateDetachedOriginal, ho] at h; cases h
    | some d =>
      simp only [validateDetachedOriginal, validateDetachedIdentity, check_eq_ok, ho, corruptIf_eq_ok,
        not_not] at h
      exact .inl ⟨identity, metadata, d, rfl, rfl, h.2, h.1⟩
  | absent presentation =>
    cases detached with
    | none => exact .inr ⟨presentation, rfl, rfl⟩
    | some d => simp only [validateDetachedOriginal, ho] at h; cases h

theorem validateDetachedOriginal_ok {detached : Option ObjectIdentity}
    (hm : objectMatches detached (originalIdentity r) true = true)
    (hv : ∀ d, detached = some d → validateIdentity d regularType "detached original" = .ok ()) :
    validateDetachedOriginal r.header detached = .ok () := by
  rw [originalIdentity] at hm
  cases ho : r.header.original with
  | present identity metadata =>
    rw [ho] at hm
    cases detached with
    | none => cases hm
    | some d =>
      simp only [validateDetachedOriginal, validateDetachedIdentity, ho]
      refine check_eq_ok.mpr ⟨hv d rfl, ?_⟩
      exact corruptIf_eq_ok.mpr (not_not.mpr (objectMatches_some hm))
  | absent presentation =>
    rw [ho] at hm
    cases detached with
    | none => simp only [validateDetachedOriginal, ho]
    | some d => cases hm

theorem reads_requireInstalledLayout {detached : Option ObjectIdentity} (h : Now S w r)
    (hr : lifecycleRequiresPlaceholder r.header.lifecycle = true)
    (hd : validateDetachedOriginal r.header detached = .ok ())
    (hf : InstalledFiles S r (view S.path w) detached) :
    Reads S (S.manager.requireInstalledLayout S.path r detached) (.ok r) w := by
  have hs := h.sound
  obtain ⟨placeholder, hp, -⟩ := hs.placeholder hr
  have hdir : stagingOf r ∈ w.directories := h.directory (by rintro hc; rw [hc] at hr; cases hr)
  obtain ⟨-, hlayout⟩ := hf
  simp only [layoutOf, Prod.mk.injEq, hp] at hlayout
  have hstaged : Reads S (ofIo ((⟨stagingOf r⟩ : StagingArea).observe r.header.swapName)) (.ok detached) w := by
    rw [hs.swapName, ← hlayout.2]
    exact reads_ofIo (reads_stagingObserve h.inv entryName_swap)
  have hvalid : Reads S (S.manager.validateInstalledLayout S.path r detached) (.ok ()) w := by
    unfold Manager.validateInstalledLayout
    rw [hp]
    refine (reads_resolveBoundPath h.inv hs).bind ((reads_openStaging h.inv hs hdir).bind (Reads.bind (.pure _)
      ((reads_targetObserve h.inv).bind ?_)))
    rw [hlayout.1]
    simp only [ne_eq, not_true_eq_false, ↓reduceIte]
    rcases detachedOriginal_cases hd with ⟨identity, metadata, d, ho, rfl, -⟩ | ⟨presentation, ho, rfl⟩
    · rw [ho]
      refine hstaged.bind ?_
      simp only [↓reduceIte]
      exact .pure _
    · rw [ho]
      exact hstaged.bind (.pure _)
  exact hvalid.attempt.bind (.pure _)

theorem reads_syncWith (hi : Inv S w) (s : StagingArea) :
    Reads S (S.target.syncWith s : Prog signature TxError Unit) (.ok ()) w :=
  (reads_sync hi s.path).bind (reads_sync hi _)

theorem reads_verifyDetached (hi : Inv S w) (hs : Sound S r)
    (hm : objectMatches (ident S (view S.path w) (stagedSlot r "swap")) (originalIdentity r) true = true)
    (ha : AllIntact S r (view S.path w) (stagedSlot r "swap")) :
    Reads S (Manager.verifyDetached ⟨stagingOf r⟩ r) (.ok ()) w := by
  unfold Manager.verifyDetached
  cases ho : r.header.original with
  | present identity metadata =>
    rw [originalIdentity_present ho] at hm
    cases hv : view S.path w (stagedSlot r "swap") with
    | none => rw [ident, hv] at hm; cases hm
    | some i =>
      have := reads_verifySnapshot (s := ⟨stagingOf r⟩) hi entryName_swap hv (ha i hv)
      rw [ho] at this
      rw [hs.swapName]
      exact (reads_ofIo this).bind (.pure _)
  | absent presentation => exact .pure _

theorem InstallFiles.loose {name : String} (h : Only v (stagingOf r) [name])
    (hv : ∀ t, t ≠ targetSlot S → t ≠ stagedSlot r name → v' t = v t) : Only v' (stagingOf r) [name] := by
  refine h.of_agree fun d n => ?_
  by_cases hn : Slot.staged d n = stagedSlot r name
  · simp only [stagedSlot, Slot.staged.injEq] at hn
    exact .inr ⟨hn.1, by simp [hn.2]⟩
  · exact .inl (hv _ (by simp [targetSlot]) hn)

theorem originalIdentity_existed (h : r.header.original.existed = true) :
    ∃ identity, originalIdentity r = some identity := by
  cases ho : r.header.original with
  | present identity metadata => exact ⟨identity, originalIdentity_present ho⟩
  | absent presentation => rw [ho] at h; cases h

theorem originalIdentity_not_existed (h : r.header.original.existed = false) : originalIdentity r = none := by
  cases ho : r.header.original with
  | present identity metadata => rw [ho] at h; cases h
  | absent presentation => exact originalIdentity_absent ho

theorem runs_finishInstall {k : ℕ} (h : Now S w r) (hc : r.header.lifecycle = .installIntent)
    (hroom : E ∨ Room (k + 1) r) :
    Runs S E (S.manager.finishInstall r)
      (fun next w' => Now S w' next ∧ (∃ detached, next.header.lifecycle = .installed detached) ∧
        Later 1 r next) w := by
  have hs := h.sound
  obtain ⟨honly, haround⟩ : InstallFiles S r (view S.path w) := by
    have := h.files
    rwa [hc] at this
  have hdir := h.directory (by simp [hc])
  obtain ⟨placeholder, hp, hvalid⟩ := hs.placeholder (by rw [hc]; rfl)
  unfold Manager.finishInstall
  simp only [recordPath_eq hs.bound, Prog.bind_eq, Prog.pure_bind, hs.swapName, hp, orMessage,
    Option.elim_some]
  rw [hp] at haround
  refine (reads_resolveBoundPath h.inv hs).runs_bind ((reads_openStaging h.inv hs hdir).runs_bind ?_)
  have hfits {t : Timestamp} (hl : layoutOf S r (view S.path w) "swap" = (originalIdentity r, some placeholder))
      (ha : AllIntact S r (view S.path w) (targetSlot S)) :
      Fits S w (swapped t (targetSlot S) (stagedSlot r "swap") (view S.path w)) := by
    refine h.fits ?_
    rw [hc]
    refine ⟨InstallFiles.loose honly fun z hz hz' => swapped_of_ne hz hz', .inr ?_⟩
    rw [hp]
    exact AroundRename.after .out hl ha
  refine (runs_renameStep (o := if r.header.original.existed then
    S.target.exchangeWith ⟨stagingOf r⟩ "swap" else S.target.installAbsent ⟨stagingOf r⟩ "swap") h.inv
    entryName_swap (by simp) .out haround ?_).andThen ?_
  · intro hl ha
    have hl' := hl
    simp only [layoutOf, Prod.mk.injEq] at hl'
    obtain ⟨j, hj, -⟩ := ident_some hl'.2
    by_cases ho : r.header.original.existed = true
    · obtain ⟨identity, hid⟩ := originalIdentity_existed ho
      obtain ⟨i, hi, -⟩ := ident_some (hl'.1.trans hid)
      rw [if_pos ho]
      exact runs_exchangeWith h.inv entryName_swap hi hj fun t => hfits hl ha
    · have hnone := hl'.1.trans (originalIdentity_not_existed (by simpa using ho))
      rw [if_neg ho]
      exact runs_installAbsent h.inv entryName_swap (Option.map_eq_none_iff.mp hnone) hj fun t => hfits hl ha
  · rintro layout w₁ ⟨v₁, hm₁, rfl, hmatch, hintact, hframe⟩
    refine (if_pos hmatch).symm ▸ ?_
    have h₁ := h.moved hm₁
    obtain rfl := hm₁.view
    have honly₁ := InstallFiles.loose honly hframe
    simp only [layoutMatches, Bool.and_eq_true, layoutOf] at hmatch
    obtain ⟨htarget, hstaged⟩ := hmatch
    obtain ⟨after, hafter⟩ : ∃ after, ident S (view S.path w₁) (targetSlot S) = some after := by
      cases ha : ident S (view S.path w₁) (targetSlot S) with
      | none => rw [ha] at htarget; cases htarget
      | some after => exact ⟨after, rfl⟩
    rw [hafter] at htarget
    have hafterValid := valid_of_match (l := "placeholder") hvalid (objectMatches_some htarget)
      (ident_stamp h₁.inv hafter).1
    have hdetached : validateDetachedOriginal r.header (ident S (view S.path w₁) (stagedSlot r "swap")) =
        .ok () := by
      refine validateDetachedOriginal_ok hstaged fun d hd => ?_
      cases ho : r.header.original with
      | present identity metadata =>
        rw [hd, originalIdentity_present ho] at hstaged
        exact valid_of_match (hs.original ho).1 (objectMatches_some hstaged) (ident_stamp h₁.inv hd).1
      | absent presentation => rw [hd, originalIdentity_absent ho] at hstaged; cases hstaged
    refine (reads_verifyDetached h₁.inv hs hstaged hintact).attempt.runs_bind
      ((reads_syncWith h₁.inv _).runs_bind ?_)
    have hnext : PhaseValid (advance r (.installed (ident S (view S.path w₁) (stagedSlot r "swap")))
        (some after)) :=
      ⟨hafterValid, rfl, hdetached⟩
    simp only [layoutOf, hafter]
    refine Runs.andThen (runs_commitSuccessor h₁.inv hs h₁.entry hnext (.inr ?_) ?_ (by simp [lifecycleNames])
      hroom ⟨honly₁, by rw [layoutOf, hafter]; rfl⟩ (hm₁.directories ▸ hdir)) fun _ w₂ hcommitted => ?_
    · simp only [placeholderMayChange, hc, hp, identitiesMatchAfterRename]
      exact objectMatches_some htarget
    · simp [lifecycleTransitionIsValid, hc]
    · have hnow := hcommitted.now
      refine (reads_requireInstalledLayout hnow rfl hdetached ?_).runs ⟨hnow, ⟨_, rfl⟩, ?_⟩
      · rw [hcommitted.view]
        exact ⟨honly₁, by rw [layoutOf, hafter]; rfl⟩
      · exact .advance hs (by simp [lifecycleNames])

end FileGuard.Recovery
