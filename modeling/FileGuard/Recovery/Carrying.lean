import FileGuard.Recovery.Bounded
import FileGuard.Recovery.Blocking

/-! From a captured row with room to the end of its generation, on any route. -/

namespace FileGuard.Recovery

open Store Files Transaction CrashLogic

variable {host : Host} {m : Manager} {p : Path} {r next : SnapshotRecord} {resolved : ResolvedPath}
  {staging : StagingArea} {name : String} {α : Type} {P : α → Prop}

section finalization

theorem safe_ofStore {x : StoreResult α} : Safe host (ofStore x : TxProg α) := Safe.ofExcept _

theorem safe_resolve {path : Path} : Safe host (m.resolve path) := Safe.ofExcept _

theorem safe_parentIdentity : Safe host (ResolvedPath.parentIdentity : TxProg ObjectIdentity) := by
  apply Safe.bind (.call rfl)
  intro stat
  trivial

theorem safe_normalizePath {path : Path} : Safe host (m.normalizePath path) := safe_resolve.bind fun _ => trivial

theorem safe_load : Safe host (load p) := .of fitting_load

theorem safe_moveFinal {expected : ObjectIdentity} {layout : Layout} :
    Safe host (Manager.moveFinal resolved staging name expected layout) := by
  unfold Manager.moveFinal
  split_ifs
  · apply safe_installAbsent.io.attempt.bind
    intro answer
    cases answer with
    | ok _ => exact safe_observeLayout
    | error _ =>
      apply safe_observeLayout.bind
      intro layout
      split_ifs <;> trivial
  · trivial

theorem safe_moveRetired {expected : ObjectIdentity} {layout : Layout} :
    Safe host (Manager.moveRetired resolved staging expected layout) := by
  unfold Manager.moveRetired
  split_ifs
  · apply safe_moveToStaging.io.attempt.bind
    intro answer
    cases answer with
    | ok _ => exact safe_observeLayout
    | error _ =>
      apply safe_observeLayout.bind
      intro layout
      split_ifs <;> trivial
  · trivial

theorem safe_verifyDelivered {marker : FinalizationRecord} {expected : ObjectIdentity} {changed : String} :
    Safe host (Manager.verifyDelivered resolved marker expected changed) := by
  unfold Manager.verifyDelivered
  apply safe_resolvedVerifyFinalization.io.bind
  intro actual
  split_ifs <;> trivial

theorem safe_deliverFinal {path : Path} {marker : FinalizationRecord} :
    Safe host (Manager.deliverFinal path resolved staging marker) := by
  unfold Manager.deliverFinal
  split
  · apply safe_observeLayout.bind
    intro layout
    apply safe_moveFinal.bind
    intro layout
    split_ifs
    · exact safe_verifyDelivered
    · trivial
  · apply safe_observeLayout.bind
    intro layout
    split_ifs <;> trivial

theorem safe_confirmDelivered {marker : FinalizationRecord} : Safe host (Manager.confirmDelivered resolved marker) := by
  unfold Manager.confirmDelivered
  split
  · exact safe_verifyDelivered
  · apply Safe.bind (.call rfl)
    intro found
    cases found <;> trivial

theorem safe_deleteMarker {path : Path} {marker : FinalizationRecord} : Safe host (Manager.deleteMarker path marker) := by
  unfold Manager.deleteMarker
  apply Safe.bind (.of (B := fun _ => True) (fitting_call (o := .finishFinalization path marker.version)
    fun _ => ⟨trivial, fun _ _ _ h => by cases h⟩))
  intro answer
  cases answer with
  | ok _ => trivial
  | error error =>
    apply safe_load.bind
    intro entry
    cases entry with
    | finalizing actual =>
      simp only
      split_ifs <;> trivial
    | _ => trivial

theorem safe_finishFinalization {marker : FinalizationRecord} : Safe host (m.finishFinalization marker) := by
  unfold Manager.finishFinalization
  apply safe_ofStore.bind
  intro path
  apply safe_resolve.bind
  intro resolved
  apply safe_parentIdentity.bind
  intro parent
  split_ifs
  · apply safe_ofStore.bind
    intro stagingPath
    apply safe_openAt.io.bind
    intro staging
    apply safe_deliverFinal.bind
    intro _
    apply safe_syncWith.bind
    intro _
    apply safe_confirmDelivered.bind
    intro _
    apply safe_deleteMarker.bind
    intro _
    exact (safe_removeIfEmpty staging).io.attempt.bind fun _ => trivial
  · trivial

end finalization

section cleanup

theorem safe_prepareFinal (h : Held p r) : Safe host (Manager.prepareFinal staging r) := by
  unfold Manager.prepareFinal
  apply (safe_discardConstruction staging _).io.bind
  intro _
  split_ifs
  · exact (safe_ensureEntry safe_verifyRestoration (safe_createFile staging _ _ _ true)).bind fun _ => trivial
  · apply (safe_stagingObserve staging _).io.bind
    intro found
    cases found with
    | none => trivial
    | some _ => exact fitting_conflict h (reason_le (by decide))

theorem safe_removeRecorded (h : Held p r) {expected : ObjectIdentity} {replaced : String} (hreason : replaced.length ≤ 400) :
    Safe host (Manager.removeRecorded staging r name expected replaced) := by
  unfold Manager.removeRecorded
  apply (safe_stagingObserve staging name).io.bind
  intro found
  cases found with
  | none => trivial
  | some actual =>
    simp only
    split_ifs
    · exact (safe_removeVerified staging name expected).io
    · exact fitting_conflict h (reason_le hreason)

theorem safe_removeDisplaced (h : Held p r) {name : Option String} {expected : Option ObjectIdentity} :
    Safe host (Manager.removeDisplaced staging r name expected) := by
  unfold Manager.removeDisplaced
  split
  · exact safe_removeRecorded h (by decide)
  · trivial

theorem safe_removeDetached (h : Held p r) {name : Option String} {expected : Option ObjectIdentity} :
    Safe host (Manager.removeDetached staging r name expected) := by
  unfold Manager.removeDetached
  split
  · split
    · exact fitting_conflict h (reason_le (by decide))
    · exact safe_removeRecorded h (by decide)
  · trivial

theorem safe_removeRetired (h : Held p r) {restored : Option ObjectIdentity} :
    Safe host (Manager.removeRetired staging r restored) := by
  unfold Manager.removeRetired
  cases restored with
  | none =>
    apply (safe_stagingObserve staging _).io.bind
    intro found
    cases found with
    | none => trivial
    | some _ => exact fitting_conflict h (reason_le (by decide))
  | some expected =>
    apply (safe_stagingObserve staging _).io.bind
    intro found
    cases found with
    | none => trivial
    | some actual =>
      simp only
      split_ifs
      · apply safe_verifyFinalization.io.bind
        intro verified
        exact (safe_removeVerified staging _ verified).io
      · exact fitting_conflict h (reason_le (by decide))

theorem safe_retireRestoredTarget {expected : Option ObjectIdentity} :
    Safe host (Manager.retireRestoredTarget r resolved staging expected) := by
  unfold Manager.retireRestoredTarget
  apply safe_ofStore.bind
  intro path
  apply safe_observeLayout.bind
  intro layout
  split_ifs
  · trivial
  · cases expected with
    | none => trivial
    | some expected =>
      apply safe_moveRetired.bind
      intro layout
      split_ifs <;> trivial

theorem safe_storedFinalization {path : Path} {snapshot : SnapshotRecord} {marker : FinalizationRecord}
    (h : markerLength marker ≤ headerLimit) : Safe host (Manager.storedFinalization path snapshot marker) := by
  unfold Manager.storedFinalization
  apply Safe.bind (.of (B := fun _ => True) (fitting_call (o := .beginFinalization path snapshot.version marker)
    fun _ => ⟨h, fun _ _ _ h => by cases h⟩))
  intro answer
  cases answer with
  | ok _ => trivial
  | error error =>
    apply safe_load.bind
    intro entry
    cases entry with
    | missing => trivial
    | finalizing actual =>
      simp only
      split_ifs <;> trivial
    | present actual =>
      simp only
      split_ifs <;> trivial

theorem safe_confirmFinal (h : Held p r) {final : Option ObjectIdentity} :
    Safe host (Manager.confirmFinal staging r final) := by
  unfold Manager.confirmFinal
  cases final with
  | none => trivial
  | some expected =>
    apply safe_verifyFinalization.io.bind
    intro actual
    split_ifs
    · trivial
    · exact fitting_conflict h (reason_le (by decide))

theorem safe_cleanupStaging (h : Held p r) {path : Path} {restored displaced detached : Option ObjectIdentity}
    {displacedName detachedName : Option String} :
    Safe host (m.cleanupStaging path resolved r restored displacedName displaced detachedName detached) := by
  unfold Manager.cleanupStaging
  apply (Safe.of (tells_openStaging h.toGrown)).bind
  intro staging
  apply (safe_prepareFinal h).bind
  intro final
  apply safe_retireRestoredTarget.bind
  intro _
  apply (safe_removeDisplaced h).bind
  intro _
  apply (safe_removeDetached h).bind
  intro _
  apply (safe_removeRetired h).bind
  intro _
  apply (safe_sync staging).bind
  intro _
  apply (safe_containsOnly staging _).bind
  intro only
  split_ifs
  · apply (safe_confirmFinal h).bind
    intro _
    apply Safe.bind (.call rfl)
    intro found
    cases found with
    | some _ => trivial
    | none =>
      apply safe_syncWith.bind
      intro _
      apply (safe_storedFinalization (h.toFiled.marker final)).bind
      intro marker
      exact safe_finishFinalization
  · exact fitting_conflict h (reason_le (by decide))

theorem yields_beginDelete (h : Held p r) (hpath : resolved.path = p) :
    Yields host (Manager.beginDelete r resolved) (Held p) := by
  unfold Manager.beginDelete
  split
  · next hc =>
    apply Within.bind (Within.attempt (tells_validateRestoredTarget h.toGrown hpath))
    intro answer hanswer
    cases answer with
    | error error => exact fitting_conflict h (hanswer.reason (by decide))
    | ok _ =>
      apply fitting_transition h
      have hnames := h.names
      rw [hc] at hnames
      exact hnames
  · exact h
  · exact Yields.bail

theorem safe_cleanupRestored (h : Held p r) : Safe host (m.cleanupRestored r) := by
  unfold Manager.cleanupRestored
  simp only [recordPath_eq h.bound, Prog.bind_eq, Prog.pure_bind]
  apply Within.bind (Within.attempt (tells_resolveBoundPath h.toGrown))
  intro answer hanswer
  cases answer with
  | error error => exact fitting_conflict h (hanswer.reason (by decide))
  | ok resolved =>
    apply Within.bind (yields_beginDelete h hanswer)
    intro deleting hdeleting
    split
    · exact safe_cleanupStaging hdeleting
    · trivial

end cleanup

section operations

theorem fitting_capture (h : Roomy r.header → Grown p r) (hrev : r.header.revision < 10 ^ 20)
    (hopen : r.header.blockedReason = none) :
    Yields host (storeCommit p none r) fun answer => ∀ v, answer = .ok v → Held p r := by
  apply Within.mono (fitting_call (o := .commit p none r) ?_) _ fun _ h => h
  · intro hroom
    refine ⟨(h hroom).fits hrev (by simp [hopen]), fun q expected row heq => ?_⟩
    cases heq
    exact h hroom
  · intro answer hanswer v hv
    exact { hanswer v hv with unblocked := hopen }

theorem yields_plannedPath {root : Path} {generation : String} (h : isToken generation) :
    Yields host (ofIo (Prog.ofExcept (StagingArea.plannedPath m.cwd root generation))) Path.Normal := by
  cases hplanned : StagingArea.plannedPath m.cwd root generation with
  | error error => exact Yields.fail
  | ok directory => exact (plannedPath_ok hplanned).normal h

theorem yields_captureRecord (hp : p.Normal) {requirePresent : Bool} :
    Yields host (m.captureRecord p requirePresent) (Held p) := by
  unfold Manager.captureRecord
  apply Within.bind (tells_resolve (n := 0) hp).yields
  intro resolved hpath
  subst hpath
  have hcapture : Briefly host (2 * resolved.path.length) resolved.capture fun _ => True := briefly_capture le_rfl
  apply (Safe.of hcapture).io.andThen
  intro captured
  split_ifs
  · exact Yields.bail
  · apply safe_parentIdentity.andThen
    intro parent
    apply Within.bind (fitting_quiet (o := .randomToken) rfl)
    intro generation htoken
    apply Within.bind (yields_plannedPath htoken)
    intro stagingPath hnormal
    apply Within.bind (fitting_quiet (o := .randomToken) rfl)
    intro mountToken _
    apply Within.bind (fitting_capture (fun hroom => ?_) ?_ rfl)
    · intro answer hanswer
      cases answer with
      | error error => exact Yields.fail
      | ok version => exact hanswer version rfl
    · exact (by decide : 1 < 10 ^ 20)
    · exact ⟨rfl, hp, ⟨stagingPath, hnormal, rfl⟩, rfl, rfl, sha256_length captured.contents, by simp [lifecycleNames], hroom⟩

theorem yields_loadPresent : Yields host (Manager.loadPresent p) (Held p) := by
  unfold Manager.loadPresent
  apply Within.bind fitting_load
  intro entry hentry
  cases entry with
  | present r =>
    apply Within.bind (fitting_requireUnblocked (hentry r rfl) p)
    intro _ h
    exact h
  | _ => exact Yields.bail

theorem yields_normalizePath {path : Path} : Yields host (m.normalizePath path) Path.Normal := by
  unfold Manager.normalizePath Manager.resolve ResolvedPath.new Files.absoluteLexical
  cases hlexical : Path.lexical m.cwd path with
  | none => exact Yields.fail
  | some p =>
    dsimp only [bind, Except.bind]
    split
    · exact Yields.fail
    · exact Yields.fail
    · unfold cstring
      split_ifs
      · exact Yields.fail
      · exact Path.lexical_normal hlexical

theorem safe_prepareRow (h : Filed p r) : Safe host (m.prepareRow p r) := by
  unfold Manager.prepareRow
  apply Within.bind (fitting_requireUnblocked h p)
  intro _ h
  split
  · apply Within.bind (yields_beginInstall h)
    intro installing h
    exact Within.bind (yields_finishInstall h) fun _ _ => trivial
  · exact Within.bind (yields_finishInstall h) fun _ _ => trivial
  · exact Within.bind (yields_requireInstalled h) fun _ _ => trivial
  · trivial
  · trivial
  · apply Within.bind (yields_finishRestore h)
    intro restored h
    exact (safe_cleanupRestored h).bind fun _ => trivial
  · exact (safe_cleanupRestored h).bind fun _ => trivial
  · exact (safe_cleanupRestored h).bind fun _ => trivial
  · trivial
  · trivial

theorem safe_prepareLoop (hp : p.Normal) (rounds : ℕ) : Safe host (m.prepareLoop p rounds) := by
  induction rounds with
  | zero => trivial
  | succ rounds ih =>
    unfold Manager.prepareLoop
    apply Within.bind fitting_load
    intro entry hentry
    cases entry with
    | missing =>
      apply Within.bind (yields_captureRecord hp)
      intro r h
      apply Within.bind (yields_beginInstall h)
      intro r h
      exact Safe.of (yields_finishInstall h)
    | finalizing marker => exact safe_finishFinalization.bind fun _ => ih
    | present r =>
      apply (safe_prepareRow (hentry r rfl)).bind
      intro done
      cases done with
      | none => exact ih
      | some record => trivial

theorem safe_abortMount {path : Path} : Safe host (m.abortMount path) := by
  unfold Manager.abortMount
  apply safe_normalizePath.bind
  intro p
  apply Within.bind yields_loadPresent
  intro r h
  split
  · apply Within.bind (yields_requireInstalledLayout h)
    intro r h
    exact Safe.of (fitting_transition h (by simp [lifecycleNames]))
  · exact Safe.of (yields_requireInstalled h)
  · trivial

theorem safe_beginMount {path : Path} : Safe host (m.beginMount path) := by
  unfold Manager.beginMount
  apply safe_normalizePath.bind
  intro p
  apply Within.bind yields_loadPresent
  intro r h
  split
  · apply Within.bind (yields_requireInstalledLayout h)
    intro r h
    exact Safe.of (fitting_transition h (by simp [lifecycleNames]))
  · exact Safe.of (yields_requireInstalledLayout h)
  · trivial

theorem safe_beginUnmountLoop {outcome : UnmountNext} (rounds : ℕ) :
    Safe host (Manager.beginUnmountLoop p outcome rounds) := by
  induction rounds with
  | zero => trivial
  | succ rounds ih =>
    unfold Manager.beginUnmountLoop
    apply Within.bind yields_loadPresent
    intro r h
    split
    · apply (Safe.of (fitting_transition h (by simp [lifecycleNames]))).attempt.bind
      intro answer
      split
      · trivial
      · exact ih
      · trivial
    · split_ifs <;> trivial
    · trivial

theorem safe_reconcileAfterMountAbsent {path : Path} : Safe host (m.reconcileAfterMountAbsent path) := by
  unfold Manager.reconcileAfterMountAbsent
  apply safe_normalizePath.bind
  intro p
  apply Within.bind fitting_load
  intro entry hentry
  cases entry with
  | missing => trivial
  | finalizing marker => exact safe_finishFinalization
  | present r =>
    apply Within.bind (fitting_requireUnblocked (hentry r rfl) p)
    intro _ h
    split
    · exact safe_abortMount.bind fun _ => trivial
    · apply Within.bind (yields_requireInstalledLayout h)
      intro r h
      exact (Safe.of (fitting_transition h (by simp [lifecycleNames]))).bind fun _ => trivial
    · apply Within.bind (yields_requireInstalledLayout h)
      intro r h
      apply Within.bind (yields_beginRestore h)
      intro r h
      exact safe_cleanupRestored h
    · trivial

theorem yields_restoreRow (h : Held p r) : Yields host (m.restoreRow p r) (Held p) := by
  unfold Manager.restoreRow
  split
  · apply Within.bind (yields_beginInstall h)
    intro r h
    exact yields_finishInstall h
  · exact yields_finishInstall h
  · exact h
  · exact h
  · exact Yields.bail
  · exact Yields.bail
  · exact yields_finishRestore h
  · exact h
  · exact h
  · exact yields_finishStore h

theorem safe_restore {path : Path} : Safe host (m.restore path) := by
  unfold Manager.restore
  apply safe_normalizePath.bind
  intro p
  apply Within.bind fitting_load
  intro entry hentry
  cases entry with
  | missing => trivial
  | finalizing marker => exact safe_finishFinalization.bind fun _ => trivial
  | present r =>
    apply Within.bind (fitting_requireUnblocked (hentry r rfl) p)
    intro _ h
    apply Within.bind (yields_restoreRow h)
    intro r h
    apply Within.bind (P := Held p)
    · unfold Manager.ensureRestored
      split_ifs
      · exact h
      · exact yields_beginRestore h
    intro r h
    exact (safe_cleanupRestored h).bind fun _ => trivial

theorem yields_loadOrCapture (hp : p.Normal) : Yields host (m.loadOrCapture p) (Filed p) := by
  unfold Manager.loadOrCapture
  apply Within.bind fitting_load
  intro entry hentry
  cases entry with
  | missing => exact Within.mono (yields_captureRecord hp) (fun _ h => h.toFiled) fun _ h => h
  | finalizing marker =>
    apply safe_finishFinalization.andThen
    intro _
    exact Within.mono (yields_captureRecord hp) (fun _ h => h.toFiled) fun _ h => h
  | present r => exact hentry r rfl

theorem safe_storeOffline {path : Path} : Safe host (m.storeOffline path) := by
  unfold Manager.storeOffline
  apply Within.bind yields_normalizePath
  intro p hp
  apply Within.bind (yields_loadOrCapture hp)
  intro r h
  apply Within.bind (fitting_requireUnblocked h p)
  intro _ h
  split
  · split_ifs
    · trivial
    · apply Within.bind (yields_prepareOfflineStaging h)
      intro r h
      apply Within.bind (fitting_transition h ?_)
      · intro r h
        exact (Safe.of (yields_finishStore h)).bind fun _ => trivial
      · simp only [lifecycleNames, List.mem_singleton, forall_eq, h.storedName]
        decide
  · exact (Safe.of (yields_finishStore h)).bind fun _ => trivial
  · exact (Safe.of (yields_requireStored h)).bind fun _ => trivial
  · trivial

/-- A mounted write may go on with any row of an earlier call. -/
def Operation.Remembers (s : World × List Op) : Operation → Prop
  | .updateContents current _ => current.header.revision < 2 ^ 64 ∧ ∃ p expected, .commit p expected current ∈ s.2
  | _ => True

theorem safe_program {s : World × List Op} (hs : Ample s) {op : Operation} {path : Path} (h : op.Remembers s) :
    Safe host (op.program m path) := by
  cases op with
  | prepare rounds =>
    refine Safe.bind ?_ fun _ => trivial
    unfold Manager.prepare
    apply Within.bind yields_normalizePath
    intro p hp
    exact safe_prepareLoop hp rounds
  | beginMount => exact safe_beginMount.bind fun _ => trivial
  | updateContents current contents =>
    obtain ⟨hrev, p, expected, hmem⟩ := h
    exact (safe_updateContents (hs.made p expected current hmem) hrev).bind fun _ => trivial
  | abortMount => exact safe_abortMount.bind fun _ => trivial
  | beginUnmount rounds outcome =>
    refine Safe.bind ?_ fun _ => trivial
    exact safe_normalizePath.bind fun _ => safe_beginUnmountLoop rounds
  | reconcileAfterMountAbsent => exact safe_reconcileAfterMountAbsent
  | restore => exact safe_restore.bind fun _ => trivial
  | storeOffline => exact safe_storeOffline

end operations

/-- The runs of a machine from an empty database: operations on any paths, one after the other or at once, each cut
short anywhere, with the calls they make. -/
abbrev Lives (M : Machine signature World) : List (TxProg Unit) → World × List Op → Prop :=
  Concurrent M.logged (fun s prog => ∃ (m : Manager) (path : Path) (op : Operation), op.Remembers s ∧ prog = op.program m path)
    (fun s s' => s'.1.store = s.1.store ∧ s'.2 = s.2) fun s => (∀ p, s.1.store p = .missing) ∧ s.2 = []

theorem bounded_of_lives {progs : List (TxProg Unit)} {w : World} {log : List Op}
    (run : Lives (roomyMachine host) progs (w, log)) : ∀ o ∈ log, Bounded o := by
  have hsame {s s' : World × List Op} (hs : Ample s) (hstore : s'.1.store = s.1.store) (hlog : s'.2 = s.2) : Ample s' := by
    refine ⟨by rw [hlog]; exact hs.bounded, by rw [hlog]; exact hs.made, by rw [hstore]; exact hs.rows⟩
  refine (Concurrent.invariant (I := Ample) ?_ ?_ ?_ ?_ run).1.bounded
  · rintro s ⟨hstore, hlog⟩
    refine ⟨by simp [hlog], by simp [hlog], fun p r hr => ?_⟩
    rw [hstore] at hr
    cases hr
  · rintro s s' hs ⟨hstore, hlog⟩
    exact hsame hs hstore hlog
  · rintro s _ hs ⟨m, path, op, hop, rfl⟩
    exact safe_program hs hop
  · rintro s s' hs ⟨hstore, hlog⟩
    exact hsame hs hstore hlog

/-- Every row and every marker of a generation that was captured with room is within the bound; a captured row that
leaves less than the first step adds has no successor within it. -/
theorem carried_to_end (host : Host) :
    (∀ progs w log, Lives (roomyMachine host) progs (w, log) → ∀ o ∈ log, Bounded o) ∧
    ∀ r placeholder, Starts r → validateSnapshot r = .ok () → r.header.storedName = "stored" →
      headerLimit < headerLength r.header + leastGrowth →
        headerLimit < headerLength (advance r (.storeIntent r.header.storedName) none).header ∧
          headerLimit < headerLength (advance r .installIntent (some placeholder)).header := by
  refine ⟨fun progs w log run => bounded_of_lives run, fun r placeholder hs hvalid hname hlimit => ?_⟩
  have hdigest := (validateSnapshot_facts hvalid).digest
  constructor
  · rwa [headerLength_storing hs.revision hs.phase hname hs.placeholder.symm hdigest]
  · exact hlimit.trans_le (headerLength_installing hs.revision hs.phase hs.placeholder hdigest)

section sample

def startsRoomy : Op → Bool
  | .commit _ none captured => decide (Roomy captured.header)
  | _ => true

theorem startsRoomy_eq {o : Op} (h : startsRoomy o = true) : StartsRoomy o := by
  cases o with
  | commit p expected next =>
    cases expected with
    | none =>
      rw [startsRoomy, decide_eq_true_eq] at h
      exact h
    | some version => trivial
  | _ => trivial

theorem lives_asking {cs : List Choice} {p q : TxProg Unit} {w : World} {log : List Op}
    (htokens : ∀ c ∈ cs, isToken c.token) (before : Lives (roomyMachine host) [p] (w, log))
    (h : asking host w cs p = some q) :
    ∃ asked, (∀ o ∈ asked, asks o = true) ∧ Lives (roomyMachine host) [q] (w, asked ++ log) := by
  induction cs generalizing p log with
  | nil =>
    unfold asking at h
    cases h
    exact ⟨[], by simp, before⟩
  | cons c cs ih =>
    obtain ⟨htoken, htokens⟩ := List.forall_mem_cons.mp htokens
    cases p with
    | pure a => cases h; exact ⟨[], by simp, before⟩
    | fail e => cases h; exact ⟨[], by simp, before⟩
    | call o k =>
      unfold asking at h
      split_ifs at h with hc
      obtain ⟨-, hasks⟩ := Bool.and_eq_true_iff.mp hc
      have hroomy : StartsRoomy o := by
        cases o with
        | commit => cases hasks
        | _ => trivial
      have hstep : (roomyMachine host).logged.step o (w, log) (w.exec host c o).1 (w, o :: log) :=
        ⟨⟨hroomy, c, htoken, Prod.ext rfl (exec_asks hasks)⟩, rfl⟩
      have hbefore : Lives (roomyMachine host) ([] ++ .call o k :: []) (w, log) := before
      obtain ⟨asked, hasked, hlives⟩ := ih htokens (hbefore.call hstep) h
      refine ⟨asked ++ [o], List.forall_mem_append.mpr ⟨hasked, by simp [hasks]⟩, ?_⟩
      rw [List.append_assoc]
      exact hlives

/-- The program as far as the machine's decisions are listed, with its calls. -/
def heard {ε α : Type} (host : Host) : List Choice → Prog signature ε α → World → List Op →
    Option (Prog signature ε α × (World × List Op))
  | c :: cs, .call o k, w, log =>
    if startsRoomy o then heard host cs (k (w.exec host c o).1) (w.exec host c o).2 (o :: log) else none
  | _, p, w, log => some (p, (w, log))

theorem lives_heard {cs : List Choice} {p q : TxProg Unit} {w w' : World} {log made made' : List Op}
    (htokens : ∀ c ∈ cs, isToken c.token) (before : Lives (roomyMachine host) [p] (w, made ++ log))
    (h : heard host cs p w made = some (q, (w', made'))) : Lives (roomyMachine host) [q] (w', made' ++ log) := by
  induction cs generalizing p w made with
  | nil =>
    unfold heard at h
    cases h
    exact before
  | cons c cs ih =>
    obtain ⟨htoken, htokens⟩ := List.forall_mem_cons.mp htokens
    cases p with
    | pure a => cases h; exact before
    | fail e => cases h; exact before
    | call o k =>
      unfold heard at h
      split_ifs at h with hroomy
      have hstep : (roomyMachine host).logged.step o (w, made ++ log) (w.exec host c o).1
          ((w.exec host c o).2, o :: (made ++ log)) := ⟨⟨startsRoomy_eq hroomy, c, htoken, rfl⟩, rfl⟩
      have hbefore : Lives (roomyMachine host) ([] ++ .call o k :: []) (w, made ++ log) := before
      exact ih htokens (hbefore.call hstep) h

def succeeds : Op → Bool
  | .commit _ (some _) _ => true
  | _ => false

theorem succeeds_asks {o : Op} (h : asks o = true) : succeeds o = false := by
  cases o with
  | commit => cases h
  | _ => rfl

theorem lives_captured (hroomy : Roomy capturedRow.header) : ∃ asked : List Op,
    (∀ o ∈ asked, asks o = true) ∧ Lives (roomyMachine .sample) []
      (World.captured, .commit Site.sample.path none capturedRow :: asked) := by
  have hstart : Lives (roomyMachine .sample) [Operation.storeOffline.program Site.sample.manager Site.sample.path]
      (World.single, []) :=
    .start (.init ⟨fun _ => rfl, rfl⟩) ⟨Site.sample.manager, Site.sample.path, .storeOffline, trivial, rfl⟩
  obtain ⟨q, hq, hoffered⟩ := (Option.any_eq_true _ _).mp (sampleRuns.captured (.inl rfl))
  obtain ⟨asked, hasked, hlives⟩ := lives_asking (fun _ => isToken_samples) hstart hq
  rw [List.append_nil] at hlives
  obtain ⟨k, rfl⟩ := TakenRow.exists_offered hoffered
  obtain ⟨c, hc⟩ := fair_single
  have hstep : (roomyMachine .sample).logged.step (.commit Site.sample.path none capturedRow) (World.single, asked)
      (.ok capturedRow.version) (World.captured, .commit Site.sample.path none capturedRow :: asked) :=
    ⟨⟨hroomy, c, hc.token, TakenRow.exec (t := capture) rfl hc.answer⟩, rfl⟩
  have hbefore : Lives (roomyMachine .sample) ([] ++ .call (.commit Site.sample.path none capturedRow) k :: [])
      (World.single, asked) := hlives
  exact ⟨asked, hasked, .crash (hbefore.call hstep) ⟨rfl, rfl⟩⟩

set_option maxRecDepth 20000 in
/-- An empty file is stored offline, with all its commits within the bound. -/
theorem carried_to_end_stored : ∃ progs w log, Lives (roomyMachine .sample) progs (w, log) ∧
    (log.filter succeeds).length = 2 ∧ ∀ o ∈ log, Bounded o := by
  obtain ⟨asked, hasked, hcaptured⟩ := lives_captured (by decide)
  have hstart := hcaptured.start ⟨Site.sample.manager, Site.sample.path, .storeOffline, trivial, rfl⟩
  have hrun : (heard .sample (Choice.samples 26) (Operation.storeOffline.program Site.sample.manager Site.sample.path)
      World.captured []).any (fun x => (x.2.2.filter succeeds).length == 2) = true := by decide
  obtain ⟨⟨q, w, made⟩, hheard, hmade⟩ := (Option.any_eq_true _ _).mp hrun
  have run := lives_heard (fun _ => isToken_samples) hstart hheard
  refine ⟨_, w, _, run, ?_, (carried_to_end .sample).1 _ w _ run⟩
  have hnone : asked.filter succeeds = [] := List.filter_eq_nil_iff.mpr fun o ho => by simp [succeeds_asks (hasked o ho)]
  rw [List.filter_append, List.filter_cons_of_neg (by simp [succeeds]), hnone, List.append_nil]
  exact beq_iff_eq.mp hmade

end sample

end FileGuard.Recovery
