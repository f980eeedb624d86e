import FileGuard.Recovery.Mounting

/-! The operations of the coordinator, each started in any phase. -/

namespace FileGuard.Recovery

open Store Files Transaction CrashLogic

variable {S : Site} {w w' : World} {r next : SnapshotRecord} {E : Prop} {v : View}

theorem reads_requireUnblocked (hs : Sound S r) : Reads S (requireUnblocked S.path r) (.ok ()) w := by
  unfold requireUnblocked
  rw [hs.unblocked]
  exact .pure _

theorem now_of_entry (hi : Inv S w) (h : w.store S.path = .present r) : Now S w r := ⟨hi, h⟩

theorem Delivered.of_later {n : ℕ} (hl : Later n r next) (h : Delivered S next v) : Delivered S r v := by
  unfold Delivered at h ⊢
  rw [hl.present] at h
  split_ifs at h ⊢
  · obtain ⟨i, hi, hintact⟩ := h
    refine ⟨i, hi, hintact.plain, hintact.contents.trans hl.contents, ?_⟩
    rw [← hl.original]
    exact hintact.metadata
  · exact h

/-- The credential of the last row is that of the row `steps` commits earlier. -/
def Carried (steps : ℕ) (S : Site) (w w' : World) : Prop :=
  ∀ r, w.ghost.last S.path = some r → ∃ next, w'.ghost.last S.path = some next ∧ Later steps r next

theorem Carried.refl (w : World) : Carried 0 S w w := fun r hr => ⟨r, hr, .refl r⟩

theorem Carried.le {m n : ℕ} (h : Carried m S w w') (hle : m ≤ n) : Carried n S w w' := by
  intro r hr
  obtain ⟨next, hn, hl⟩ := h r hr
  exact ⟨next, hn, hl.le hle⟩

theorem Now.carried {n : ℕ} (h : Now S w r) (hl : Later n r next) (hn : w'.ghost.last S.path = some next) :
    Carried n S w w' := by
  intro r' hr'
  obtain rfl : r = r' := Option.some.inj (h.last.symm.trans hr')
  exact ⟨next, hn, hl⟩

/-- The store is empty again and the path shows what the last row says. -/
structure Over (S : Site) (w w' : World) : Prop where
  inv : Inv S w'
  entry : w'.store S.path = .missing
  delivered : ∀ r, w.ghost.last S.path = some r → Delivered S r (view S.path w')

theorem Ended.over {n : ℕ} (h : Ended S w' next) (hc : Carried n S w w') : Over S w w' := by
  refine ⟨h.inv, h.entry, fun r hr => ?_⟩
  obtain ⟨next', hn, hl⟩ := hc r hr
  obtain rfl : next = next' := Option.some.inj (h.last.symm.trans hn)
  exact h.delivered.of_later hl

def isMounted : Lifecycle → Bool
  | .mountIntent _ | .unmountIntent _ _ => true
  | _ => false

section restore

/-- A row that `ensureRestored` takes further. -/
def Restores (lifecycle : Lifecycle) : Prop :=
  Manager.isRestored lifecycle = true ∨ (∃ detached, lifecycle = .installed detached) ∨
    ∃ name detached, lifecycle = .stored name detached

theorem runs_restoreRow {k : ℕ} (h : Now S w r) (hq : E ∨ isMounted r.header.lifecycle = false)
    (hroom : E ∨ Room (k + 2) r) :
    Runs S E (S.manager.restoreRow S.path r)
      (fun next w' => Now S w' next ∧ Restores next.header.lifecycle ∧ Later 2 r next) w := by
  have hfinish {w₁ : World} {r₁ : SnapshotRecord} (h₁ : Now S w₁ r₁) {n : ℕ} (hl : Later n r r₁) (hn : n ≤ 1)
      (hc : r₁.header.lifecycle = .installIntent) :
      Runs S E (S.manager.finishInstall r₁)
        (fun next w' => Now S w' next ∧ Restores next.header.lifecycle ∧ Later 2 r next) w₁ := by
    apply (runs_finishInstall (k := k) h₁ hc (hroom.imp_right fun hr => hl.room _ (hr.le (by omega)))).mono
    rintro next w' ⟨hnow, hphase, hlater⟩
    exact ⟨hnow, .inr (.inl hphase), (hl.trans hlater).le (by omega)⟩
  unfold Manager.restoreRow
  cases hc : r.header.lifecycle with
  | captured =>
    apply (runs_beginInstall (k := k + 1) h hc hroom).andThen
    rintro r₁ w₁ ⟨h₁, hphase, hlater⟩
    exact hfinish h₁ hlater le_rfl hphase
  | installIntent => exact hfinish h (Later.refl r) (by omega) hc
  | installed detached => exact Runs.pure ⟨h, .inr (.inl ⟨_, hc⟩), (Later.refl r).le (by omega)⟩
  | stored name detached => exact Runs.pure ⟨h, .inr (.inr ⟨_, _, hc⟩), (Later.refl r).le (by omega)⟩
  | mountIntent detached =>
    rw [hc] at hq
    exact Runs.fail (hq.resolve_right (by simp [isMounted]))
  | unmountIntent outcome detached =>
    rw [hc] at hq
    exact Runs.fail (hq.resolve_right (by simp [isMounted]))
  | restoreIntent origin restoreName restored detachedName detached =>
    apply (runs_finishRestore (k := k) h hc hroom).mono
    rintro next w' ⟨hnow, hphase, hlater⟩
    exact ⟨hnow, .inl hphase, hlater⟩
  | restored origin restored displacedName displaced detachedName detached =>
    exact Runs.pure ⟨h, .inl (by rw [hc]; rfl), (Later.refl r).le (by omega)⟩
  | deleteIntent origin restored displacedName displaced detachedName detached =>
    exact Runs.pure ⟨h, .inl (by rw [hc]; rfl), (Later.refl r).le (by omega)⟩
  | storeIntent name =>
    apply (runs_finishStore (k := k) h hc (hroom.imp_right fun hr => hr.le (by omega))).mono
    rintro next w' ⟨hnow, ⟨detached, hphase⟩, hlater⟩
    exact ⟨hnow, .inr (.inr ⟨_, _, hphase⟩), hlater.le (by omega)⟩

theorem runs_ensureRestored {k : ℕ} (h : Now S w r) (hr : Restores r.header.lifecycle)
    (hroom : E ∨ Room (k + 3) r) :
    Runs S E (S.manager.ensureRestored r)
      (fun next w' => Now S w' next ∧ Manager.isRestored next.header.lifecycle = true ∧ Later 3 r next) w := by
  unfold Manager.ensureRestored
  split_ifs with hc
  · exact Runs.pure ⟨h, hc, (Later.refl r).le (by omega)⟩
  · rcases hr with hr | ⟨detached, hr⟩ | ⟨name, detached, hr⟩
    · exact absurd hr hc
    · exact runs_beginRestore (restorable_installed h (.inl hr)) hroom
    · exact runs_beginRestore (restorable_stored h hr) hroom

theorem runs_finishMarker {marker : FinalizationRecord} (hi : Inv S w)
    (h : w.store S.path = .finalizing marker) :
    Runs S E (S.manager.finishFinalization marker)
      (fun _ w' => Over S w w' ∧ Carried 0 S w w') w := by
  obtain ⟨r, final, rfl, hf⟩ := finalizing_of_entry hi h
  apply (runs_finishFinalization hf).mono
  intro _ w' hended
  have hcarried : Carried 0 S w w' := by
    intro r' hr'
    obtain rfl : r = r' := Option.some.inj (hf.last.symm.trans hr')
    exact ⟨r, hended.last, .refl r⟩
  exact ⟨hended.over hcarried, hcarried⟩

/-- A path that is not mounted is restored. -/
theorem runs_restore (hi : Inv S w)
    (hq : ∀ r, w.store S.path = .present r → E ∨ isMounted r.header.lifecycle = false)
    (hroom : ∀ r, w.store S.path = .present r → E ∨ Room 7 r) :
    Runs S E (S.manager.restore S.path) (fun _ w' => Over S w w') w := by
  unfold Manager.restore
  apply reads_normalizePath.runs_bind
  apply (reads_load hi).runs_bind
  cases hstore : w.store S.path with
  | missing =>
    refine Runs.pure ⟨hi, hstore, fun r hr => ?_⟩
    have hc := hi.consistent
    rw [hstore] at hc
    exact hc.2 r hr
  | finalizing marker =>
    apply (runs_finishMarker hi hstore).andThen
    rintro _ w' ⟨hover, -⟩
    exact Runs.pure hover
  | present r =>
    have h := now_of_entry hi hstore
    apply (reads_requireUnblocked h.sound).runs_bind
    apply (runs_restoreRow (k := 5) h (hq r hstore) (hroom r hstore)).andThen
    rintro r₁ w₁ ⟨h₁, hrestores, hlater₁⟩
    apply (runs_ensureRestored (k := 2) h₁ hrestores ((hroom r hstore).imp_right (hlater₁.room 5))).andThen
    rintro r₂ w₂ ⟨h₂, hrestored, hlater₂⟩
    have hlater := hlater₁.trans hlater₂
    apply (runs_cleanupRestored h₂ hrestored ((hroom r hstore).imp_right (hlater.room 2))).andThen
    rintro _ w₃ ⟨r₃, hlater₃, hended⟩
    exact Runs.pure (hended.over (h.carried (hlater.trans hlater₃) hended.last))

end restore

section mount

theorem runs_loadPresent (hi : Inv S w) (hstore : E ∨ ∃ r, w.store S.path = .present r) :
    Runs S E (Manager.loadPresent S.path) (fun r w' => w' = w ∧ Now S w r) w := by
  unfold Manager.loadPresent
  apply (reads_load hi).runs_bind
  cases he : w.store S.path with
  | missing => exact Runs.fail (hstore.resolve_right (by simp [he]))
  | finalizing marker => exact Runs.fail (hstore.resolve_right (by simp [he]))
  | present r =>
    have h := now_of_entry hi he
    exact (reads_requireUnblocked h.sound).runs_bind (Runs.pure ⟨rfl, h⟩)

/-- A phase in which the placeholder stands at the path and the original waits in the staging directory. -/
def Placed (lifecycle : Lifecycle) (detached : Option ObjectIdentity) : Prop :=
  lifecycle = .installed detached ∨ lifecycle = .mountIntent detached ∨
    ∃ outcome, lifecycle = .unmountIntent outcome detached

variable {detached : Option ObjectIdentity}

theorem placed_facts (h : Now S w r) (hc : Placed r.header.lifecycle detached) :
    lifecycleRequiresPlaceholder r.header.lifecycle = true ∧
      validateDetachedOriginal r.header detached = .ok () ∧ InstalledFiles S r (view S.path w) detached := by
  have hs := h.sound.structural
  have hf := h.files
  rcases hc with hc | hc | ⟨outcome, hc⟩ <;> rw [hc] at hs hf ⊢ <;> exact ⟨rfl, hs, hf⟩

theorem reads_requirePlaced (h : Now S w r) (hc : Placed r.header.lifecycle detached) :
    Reads S (S.manager.requireInstalledLayout S.path r detached) (.ok r) w := by
  obtain ⟨hr, hd, hf⟩ := placed_facts h hc
  exact reads_requireInstalledLayout h hr hd hf

theorem runs_placedTransition {k : ℕ} {lifecycle : Lifecycle} (h : Now S w r)
    (hc : Placed r.header.lifecycle detached) (hn : Placed lifecycle detached)
    (ht : lifecycleTransitionIsValid r.header (advance r lifecycle r.header.placeholder).header = true)
    (hroom : E ∨ Room (k + 1) r) :
    Runs S E (transition r lifecycle)
      (fun next w' => Now S w' next ∧ next.header.lifecycle = lifecycle ∧ Later 1 r next) w := by
  obtain ⟨hr, hd, hf⟩ := placed_facts h hc
  have hs := h.sound
  have hdir : stagingOf r ∈ w.directories := by
    apply h.directory
    rcases hc with hc | hc | ⟨outcome, hc⟩ <;> simp [hc]
  have hnames : ∀ n ∈ lifecycleNames lifecycle, n = "swap" ∨ n = "stored" ∨ CandidateName n := by
    rcases hn with rfl | rfl | ⟨outcome, rfl⟩ <;> simp [lifecycleNames]
  have hnext : PhaseValid (advance r lifecycle r.header.placeholder) := by
    refine ⟨?_, ?_, ?_⟩
    · obtain ⟨identity, hp, hv⟩ := hs.placeholder hr
      rw [hp]
      rcases hn with rfl | rfl | ⟨outcome, rfl⟩ <;> exact hv
    · rcases hn with rfl | rfl | ⟨outcome, rfl⟩ <;> rfl
    · rcases hn with rfl | rfl | ⟨outcome, rfl⟩ <;> exact hd
  have hfiles : PhaseFiles S (advance r lifecycle r.header.placeholder) (view S.path w) lifecycle := by
    rcases hn with rfl | rfl | ⟨outcome, rfl⟩ <;> exact hf
  apply (runs_transition h.inv hs h.entry hnext ht hnames hroom hfiles hdir).mono
  rintro _ w' ⟨rfl, hcommitted⟩
  exact ⟨hcommitted.now, rfl, .advance hs hnames⟩

theorem runs_beginMount (hi : Inv S w) :
    Runs S True (S.manager.beginMount S.path) (fun _ w' => Inv S w') w := by
  unfold Manager.beginMount
  apply reads_normalizePath.runs_bind
  apply (runs_loadPresent hi (.inl trivial)).andThen
  rintro r _ ⟨rfl, h⟩
  cases hc : r.header.lifecycle with
  | installed detached =>
    apply (reads_requirePlaced h (.inl hc)).runs_bind
    apply (runs_placedTransition (k := 0) h (.inl hc) (.inr (.inl rfl)) ?_ (.inl trivial)).mono
    · rintro next w' ⟨h', -⟩
      exact h'.inv
    · simp [lifecycleTransitionIsValid, hc]
  | mountIntent detached => exact (reads_requirePlaced h (.inr (.inl hc))).runs hi
  | _ => exact Runs.fail trivial

theorem runs_abortMount {k : ℕ} (h : Now S w r) (hc : E ∨ ∃ detached, r.header.lifecycle = .mountIntent detached)
    (hroom : E ∨ Room (k + 1) r) :
    Runs S E (S.manager.abortMount S.path) (fun next w' => Now S w' next ∧ Later 1 r next ∧
      ∃ detached, next.header.lifecycle = .installed detached) w := by
  unfold Manager.abortMount
  apply reads_normalizePath.runs_bind
  apply (runs_loadPresent h.inv (.inr ⟨r, h.entry⟩)).andThen
  rintro row w₁ ⟨rfl, h'⟩
  obtain rfl : r = row := by
    have he := h.entry.symm.trans h'.entry
    cases he
    rfl
  cases hl : r.header.lifecycle with
  | mountIntent detached =>
    apply (reads_requirePlaced h (.inr (.inl hl))).runs_bind
    apply (runs_placedTransition (k := k) h (.inr (.inl hl)) (.inl rfl) ?_ hroom).mono
    · rintro next w' ⟨hnow, hphase, hlater⟩
      exact ⟨hnow, hlater, detached, hphase⟩
    · simp [lifecycleTransitionIsValid, hl]
  | installed detached =>
    have hrequire : Reads S (S.manager.requireInstalled S.path r) (.ok r) w₁ := by
      unfold Manager.requireInstalled
      rw [hl]
      exact reads_requirePlaced h (.inl hl)
    exact hrequire.runs ⟨h, (Later.refl r).le (by omega), detached, hl⟩
  | _ => exact Runs.fail (hc.resolve_right (by simp [hl]))

theorem runs_beginUnmountLoop {outcome : UnmountNext} {rounds : ℕ} (hi : Inv S w) :
    Runs S True (Manager.beginUnmountLoop S.path outcome rounds) (fun _ w' => Inv S w') w := by
  induction rounds generalizing w with
  | zero => exact Runs.fail trivial
  | succ rounds ih =>
    unfold Manager.beginUnmountLoop
    apply (runs_loadPresent hi (.inl trivial)).andThen
    rintro r w₁ ⟨rfl, h⟩
    cases hc : r.header.lifecycle with
    | mountIntent detached =>
      have htransition : Runs S True (transition r (.unmountIntent outcome detached)) (fun _ w' => Inv S w') w₁ := by
        apply (runs_placedTransition (k := 0) h (.inr (.inl hc)) (.inr (.inr ⟨outcome, rfl⟩)) ?_ (.inl trivial)).mono
        · rintro next w' ⟨h', -⟩
          exact h'.inv
        · simp [lifecycleTransitionIsValid, hc]
      apply (htransition.tried hi).andThen
      rintro answer w' ⟨hi', -⟩
      split
      · exact Runs.pure hi'
      · exact ih hi'
      · exact Runs.fail trivial
    | unmountIntent current detached =>
      simp only
      split_ifs
      · exact Runs.pure hi
      · exact Runs.fail trivial
    | _ => exact Runs.fail trivial

theorem runs_beginUnmount {outcome : UnmountNext} {rounds : ℕ} (hi : Inv S w) :
    Runs S True (S.manager.beginUnmount rounds S.path outcome) (fun _ w' => Inv S w') w := by
  unfold Manager.beginUnmount
  apply reads_normalizePath.runs_bind
  exact runs_beginUnmountLoop hi

/-- What a path is after its mount is gone and reconciled. -/
structure Reconciled (S : Site) (w w' : World) : Prop where
  inv : Inv S w'
  unmounted : ∀ r, w'.store S.path = .present r → isMounted r.header.lifecycle = false
  grown : ∀ next, w'.store S.path = .present next → ∃ r, w.store S.path = .present r ∧ Later 5 r next
  carried : Carried 5 S w w'

theorem Now.reconciled {n : ℕ} (h : Now S w r) (hl : Later n r next) (hn : n ≤ 5) (h' : Now S w' next)
    (hm : isMounted next.header.lifecycle = false) : Reconciled S w w' := by
  have hentry {row : SnapshotRecord} (hrow : w'.store S.path = .present row) : row = next := by
    have he := h'.entry.symm.trans hrow
    cases he
    rfl
  refine ⟨h'.inv, fun row hrow => ?_, fun row hrow => ?_, (h.carried hl h'.last).le hn⟩
  · rw [hentry hrow]
    exact hm
  · rw [hentry hrow]
    exact ⟨r, h.entry, hl.le hn⟩

theorem Over.reconciled (h : Over S w w') (hc : Carried 5 S w w') : Reconciled S w w' := by
  refine ⟨h.inv, fun row hrow => ?_, fun row hrow => ?_, hc⟩
  · rw [h.entry] at hrow
    cases hrow
  · rw [h.entry] at hrow
    cases hrow

theorem runs_reconcileAfterMountAbsent (hi : Inv S w)
    (hroom : ∀ r, w.store S.path = .present r → E ∨ Room 12 r) :
    Runs S E (S.manager.reconcileAfterMountAbsent S.path) (fun _ w' => Reconciled S w w') w := by
  unfold Manager.reconcileAfterMountAbsent
  apply reads_normalizePath.runs_bind
  apply (reads_load hi).runs_bind
  cases hstore : w.store S.path with
  | missing =>
    refine Runs.pure ⟨hi, fun r hr => ?_, fun r hr => ?_, (Carried.refl w).le (by omega)⟩
    · rw [hstore] at hr
      cases hr
    · rw [hstore] at hr
      cases hr
  | finalizing marker =>
    apply (runs_finishMarker hi hstore).mono
    rintro _ w' ⟨hover, hcarried⟩
    exact hover.reconciled (hcarried.le (by omega))
  | present r =>
    have h := now_of_entry hi hstore
    have hroom := hroom r hstore
    apply (reads_requireUnblocked h.sound).runs_bind
    cases hc : r.header.lifecycle with
    | mountIntent detached =>
      apply (runs_abortMount (k := 11) h (.inr ⟨detached, hc⟩) hroom).andThen
      rintro next w' ⟨h', hlater, detached', hphase⟩
      exact Runs.pure (h.reconciled hlater (by omega) h' (by rw [hphase]; rfl))
    | unmountIntent outcome detached =>
      cases outcome with
      | leaveInstalled =>
        apply (reads_requirePlaced h (.inr (.inr ⟨_, hc⟩))).runs_bind
        apply (runs_placedTransition (k := 11) h (.inr (.inr ⟨_, hc⟩)) (.inl rfl) ?_ hroom).andThen
        · rintro next w' ⟨h', hphase, hlater⟩
          exact Runs.pure (h.reconciled hlater (by omega) h' (by rw [hphase]; rfl))
        · simp [lifecycleTransitionIsValid, hc]
      | restore =>
        apply (reads_requirePlaced h (.inr (.inr ⟨_, hc⟩))).runs_bind
        apply (runs_beginRestore (k := 9) (restorable_installed h (.inr hc)) hroom).andThen
        rintro r₁ w₁ ⟨h₁, hrestored, hlater₁⟩
        apply (runs_cleanupRestored h₁ hrestored (hroom.imp_right fun hr => (hlater₁.room 9 hr).le (by omega))).mono
        rintro _ w₂ ⟨r₂, hlater₂, hended⟩
        have hcarried := h.carried (hlater₁.trans hlater₂) hended.last
        exact (hended.over hcarried).reconciled (hcarried.le (by omega))
    | _ => exact Runs.pure (h.reconciled (Later.refl r) (by omega) h (by rw [hc]; rfl))

end mount

section prepare

theorem runs_cleanup (h : Now S w r) (hc : Manager.isRestored r.header.lifecycle = true) :
    Runs S True (S.manager.cleanupRestored r) (fun _ w' => Inv S w') w := by
  apply (runs_cleanupRestored h hc (.inl trivial)).mono
  rintro _ w' ⟨next, -, hended⟩
  exact hended.inv

theorem runs_prepareRow (h : Now S w r) :
    Runs S True (S.manager.prepareRow S.path r) (fun _ w' => Inv S w') w := by
  unfold Manager.prepareRow
  apply (reads_requireUnblocked h.sound).runs_bind
  cases hc : r.header.lifecycle with
  | captured =>
    apply (runs_beginInstall (k := 0) h hc (.inl trivial)).andThen
    rintro r₁ w₁ ⟨h₁, hphase, -⟩
    apply (runs_finishInstall (k := 0) h₁ hphase (.inl trivial)).andThen
    rintro next w' ⟨h', -⟩
    exact Runs.pure h'.inv
  | installIntent =>
    apply (runs_finishInstall (k := 0) h hc (.inl trivial)).andThen
    rintro next w' ⟨h', -⟩
    exact Runs.pure h'.inv
  | installed detached =>
    have hrequire : Reads S (S.manager.requireInstalled S.path r) (.ok r) w := by
      unfold Manager.requireInstalled
      rw [hc]
      exact reads_requirePlaced h (.inl hc)
    exact hrequire.runs_bind (Runs.pure h.inv)
  | restoreIntent origin restoreName restored detachedName detached =>
    apply (runs_finishRestore (k := 0) h hc (.inl trivial)).andThen
    rintro r₁ w₁ ⟨h₁, hrestored, -⟩
    apply (runs_cleanup h₁ hrestored).andThen
    intro _ w' hi
    exact Runs.pure hi
  | restored origin restored displacedName displaced detachedName detached =>
    apply (runs_cleanup h (by rw [hc]; rfl)).andThen
    intro _ w' hi
    exact Runs.pure hi
  | deleteIntent origin restored displacedName displaced detachedName detached =>
    apply (runs_cleanup h (by rw [hc]; rfl)).andThen
    intro _ w' hi
    exact Runs.pure hi
  | _ => exact Runs.fail trivial

theorem runs_prepareLoop {rounds : ℕ} (hi : Inv S w) :
    Runs S True (S.manager.prepareLoop S.path rounds) (fun _ w' => Inv S w') w := by
  induction rounds generalizing w with
  | zero => exact Runs.fail trivial
  | succ rounds ih =>
    unfold Manager.prepareLoop
    apply (reads_load hi).runs_bind
    cases hstore : w.store S.path with
    | missing =>
      apply (runs_captureRecord hi hstore).andThen
      rintro r w₁ ⟨h, hphase, -⟩
      apply (runs_beginInstall (k := 0) h hphase (.inl trivial)).andThen
      rintro r₁ w₂ ⟨h₁, hinstalling, -⟩
      apply (runs_finishInstall (k := 0) h₁ hinstalling (.inl trivial)).mono
      rintro next w' ⟨h', -⟩
      exact h'.inv
    | finalizing marker =>
      apply (runs_finishMarker hi hstore).andThen
      rintro _ w' ⟨hover, -⟩
      exact ih hover.inv
    | present r =>
      apply (runs_prepareRow (now_of_entry hi hstore)).andThen
      intro answer w' hi'
      cases answer with
      | none => exact ih hi'
      | some record => exact Runs.pure hi'

theorem runs_prepare {rounds : ℕ} (hi : Inv S w) :
    Runs S True (S.manager.prepare rounds S.path) (fun _ w' => Inv S w') w := by
  unfold Manager.prepare
  apply reads_normalizePath.runs_bind
  exact runs_prepareLoop hi

end prepare

section store

/-- A captured file has no leftovers of an installation in its staging directory. -/
def Clear (S : Site) (w : World) : Prop :=
  ∀ r, w.store S.path = .present r → r.header.lifecycle = .captured → r.header.original.existed = true →
    w.entriesOf (stagingOf r) = []

theorem unstaged_of_clear (h : Now S w r) (hc : r.header.lifecycle = .captured)
    (hempty : w.entriesOf (stagingOf r) = []) : Unstaged (view S.path w) := by
  have hfiles : CapturedFiles S r (view S.path w) := by
    have := h.files
    rwa [hc] at this
  intro d n
  by_contra hne
  obtain ⟨rfl, -⟩ := hfiles.1 d n hne
  have hmem := mem_entriesOf.mpr hne
  rw [hempty] at hmem
  cases hmem

theorem runs_loadOrCapture (hi : Inv S w) (hclear : Clear S w) :
    Runs S True (S.manager.loadOrCapture S.path) (fun r w' => Now S w' r ∧
      (r.header.lifecycle = .captured → r.header.original.existed = true → Unstaged (view S.path w'))) w := by
  unfold Manager.loadOrCapture
  apply (reads_load hi).runs_bind
  cases hstore : w.store S.path with
  | missing =>
    apply (runs_captureRecord hi hstore).mono
    rintro r w' ⟨h, -, hempty, -⟩
    exact ⟨h, fun _ _ => hempty⟩
  | finalizing marker =>
    apply (runs_finishMarker hi hstore).andThen
    rintro _ w₁ ⟨hover, -⟩
    apply (runs_captureRecord hover.inv hover.entry).mono
    rintro r w' ⟨h, -, hempty, -⟩
    exact ⟨h, fun _ _ => hempty⟩
  | present r =>
    have h := now_of_entry hi hstore
    exact Runs.pure ⟨h, fun hc ho => unstaged_of_clear h hc (hclear r hstore hc ho)⟩

theorem runs_storeOffline (hi : Inv S w) (hclear : Clear S w) :
    Runs S True (S.manager.storeOffline S.path) (fun _ w' => Inv S w') w := by
  unfold Manager.storeOffline
  apply reads_normalizePath.runs_bind
  apply (runs_loadOrCapture hi hclear).andThen
  rintro r w₁ ⟨h, hempty⟩
  apply (reads_requireUnblocked h.sound).runs_bind
  cases hc : r.header.lifecycle with
  | captured =>
    simp only
    split_ifs with ho
    · exact Runs.fail trivial
    · have ho := Bool.not_eq_false _ ▸ ho
      apply (runs_prepareOfflineStaging h hc (hempty hc ho)).andThen
      rintro _ w₂ ⟨rfl, h₂, hempty₂, hdir⟩
      apply (runs_beginStore (k := 0) h₂ hc ho hempty₂ hdir (.inl trivial)).andThen
      rintro r₃ w₃ ⟨h₃, hphase, -⟩
      apply (runs_finishStore (k := 0) h₃ hphase (.inl trivial)).andThen
      rintro next w' ⟨h', -⟩
      exact Runs.pure h'.inv
  | storeIntent name =>
    apply (runs_finishStore (k := 0) h hc (.inl trivial)).andThen
    rintro next w' ⟨h', -⟩
    exact Runs.pure h'.inv
  | stored name detached =>
    obtain ⟨rfl, hfiles⟩ : name = "stored" ∧ StoredFiles S r (view S.path w₁) detached := by
      have := h.files
      rwa [hc] at this
    exact (reads_requireStored h hc hfiles).runs_bind (Runs.pure h.inv)
  | _ => exact Runs.fail trivial

end store

end FileGuard.Recovery
