import FileGuard.Recovery.Fitting

/-! The programs of the coordinator: every row and every marker they hand to the database is within its bound. -/

namespace FileGuard.Recovery

open Store Files Transaction CrashLogic

/-- A row in the hands of the coordinator. -/
structure Held (p : Path) (r : SnapshotRecord) : Prop extends Filed p r where
  unblocked : r.header.blockedReason = none

variable {host : Host} {m : Manager} {p : Path} {r next : SnapshotRecord} {resolved : ResolvedPath}
  {staging : StagingArea} {name : String} {n : ℕ} {α β : Type} {P : α → Prop} {Q : β → Prop}

/-- What the error of a program may add to the reason of a block. -/
abbrev Tells (host : Host) (n : ℕ) (prog : TxProg α) (P : α → Prop) : Prop :=
  Fitting host (fun error => Brief n error.display) prog P

abbrev Yields (host : Host) (prog : TxProg α) (P : α → Prop) : Prop := Fitting host (fun _ => True) prog P

theorem Yields.fail {error : TxError} : Yields host (.fail error) P := trivial

theorem Yields.bail {text : String} : Yields host (Transaction.bail text) P := trivial

theorem Tells.yields {prog : TxProg α} (h : Tells host n prog P) : Yields host prog P :=
  Within.mono h (fun _ ha => ha) fun _ _ => trivial

theorem Safe.andThen {prog : TxProg β} {f : β → TxProg α} (h : Safe host prog) (hf : ∀ b, Yields host (f b) P) :
    Yields host (prog.bind f) P := Within.bind h fun b _ => hf b

theorem Safe.io {prog : FileProg α} (h : Safe host prog) : Safe host (ofIo prog) := h.mapError

theorem Tells.io {prog : FileProg α} (h : Briefly host n prog P) : Tells host n (ofIo prog) P :=
  Within.mapError h fun _ he => he

theorem Tells.orMessage {value : Option α} {text : String} (h : Brief n text) :
    Tells host n (Transaction.orMessage value text) fun _ => True := by
  cases value with
  | none => exact h
  | some a => trivial

theorem brief_named (hp : 2 * p.length ≤ n) {before after : String} (h : before.length + after.length ≤ 300) :
    Brief n (before ++ Path.display p ++ after) := by
  have hdisplay := display_length p
  rw [Brief, String.length_append, String.length_append]
  omega

theorem Brief.reason {before text : String} (h : Brief n text) (hbefore : before.length ≤ 100) :
    (before ++ text).length ≤ n + 400 := by
  rw [Brief] at h
  rw [String.length_append]
  omega

section rows

theorem fitting_commit {version : RecordVersion} (h : Grown p next) (hlength : headerLength next.header ≤ headerLimit) :
    Yields host (storeCommit p (some version) next) fun answer => ∀ v, answer = .ok v → Filed p next := by
  apply fitting_call (o := .commit p (some version) next)
  intro _
  refine ⟨hlength, fun q expected row heq => ?_⟩
  cases heq
  exact h

theorem Held.revision_lt (h : Held p r) : r.header.revision + 1 < 10 ^ 20 := by
  have hrev := h.revision
  have hlimit : revisionLimit < 10 ^ 20 := by decide
  omega

theorem fitting_conflict {reason : String} (h : Held p r) (hreason : reason.length ≤ shownLimit r.header + 400) :
    Yields host (conflict r reason : TxProg α) P := by
  unfold conflict
  simp only [recordPath_eq h.bound, Prog.bind_eq, Prog.pure_bind]
  have hgrown : Grown p { r.successor r.header.lifecycle r.contents with
      header := { (r.successor r.header.lifecycle r.contents).header with blockedReason := some reason } } :=
    h.succeed rfl rfl rfl rfl rfl (sha256_length r.contents) h.names
  apply Within.bind (fitting_commit hgrown (hgrown.fits h.revision_lt ?_))
  · intro answer _
    cases answer <;> exact Yields.bail
  · intro text htext
    cases htext
    exact hreason

theorem fitting_commitSuccessor (hbound : r.header.pathHex = pathToHex p) (h : Grown p next)
    (hrev : next.header.revision < 10 ^ 20) (hopen : next.header.blockedReason = none) :
    Yields host (commitSuccessor r next) fun _ => Held p next := by
  unfold commitSuccessor
  simp only [recordPath_eq hbound, Prog.bind_eq, Prog.pure_bind]
  apply Within.bind (fitting_commit h (h.fits hrev (by simp [hopen])))
  intro answer hanswer
  cases answer with
  | error error => exact Yields.fail
  | ok version => exact { hanswer version rfl with unblocked := hopen }

theorem fitting_transition {lifecycle : Lifecycle} (h : Held p r)
    (hnames : ∀ name ∈ lifecycleNames lifecycle, name.length ≤ 42) :
    Yields host (transition r lifecycle) (Held p) := by
  unfold transition
  simp only [recordPath_eq h.bound, Prog.bind_eq, Prog.pure_bind]
  have hgrown : Grown p (r.successor lifecycle r.contents) :=
    h.succeed rfl rfl rfl rfl rfl (sha256_length r.contents) hnames
  apply Within.bind (Within.mapError (fitting_commitSuccessor h.bound hgrown h.revision_lt h.unblocked) fun _ _ => trivial)
  intro _ hheld
  exact hheld

theorem fitting_load : Yields host (load p) fun entry => ∀ r, entry = .present r → Filed p r := by
  apply Within.bind (fitting_quiet (o := .load p) rfl)
  intro answer hanswer
  cases answer with
  | error error => exact Yields.fail
  | ok entry => exact fun r hr => hanswer r (congrArg _ hr)

theorem fitting_requireUnblocked (h : Filed p r) (path : Path) :
    Yields host (requireUnblocked path r) fun _ => Held p r := by
  unfold requireUnblocked
  cases hb : r.header.blockedReason with
  | some reason => exact Yields.bail
  | none => exact { h with unblocked := hb }

theorem safe_updateContents {current : SnapshotRecord} {contents : Bytes} (h : Grown p current)
    (hrev : current.header.revision < 2 ^ 64) : Safe host (updateContents current contents) := by
  have hsmall : current.header.revision + 1 < 10 ^ 20 := by omega
  have hgrown : Grown p (mountedSuccessor current contents) :=
    h.succeed rfl rfl rfl rfl rfl (sha256_length contents) h.names
  unfold updateContents requireUnblocked
  simp only [recordPath_eq h.bound, Prog.bind_eq, Prog.pure_bind]
  cases hb : current.header.blockedReason with
  | some reason => exact Yields.bail
  | none =>
    simp only [Prog.pure_bind]
    split_ifs
    · exact Yields.bail
    · apply Within.bind (fitting_commit hgrown (hgrown.fits hsmall (by simp [mountedSuccessor, SnapshotRecord.successor, hb])))
      intro answer _
      split
      · split_ifs <;> trivial
      · apply Safe.bind (.call rfl)
        intro observed
        split
        · split_ifs <;> trivial
        · trivial
        · trivial
      · trivial

end rows

/-! What the coordinator looks at before it blocks a row. -/

section looks

theorem resolvedPath_new (hp : p.Normal) (cwd : Path) : Within.tried (fun resolved => resolved.path = p)
    (fun error => error.display.length ≤ 100) (ResolvedPath.new cwd p) := by
  unfold ResolvedPath.new Files.absoluteLexical
  rw [hp.lexical]
  dsimp only [bind, Except.bind]
  split
  · exact (by decide : "path has no parent".length ≤ 100)
  · exact (by decide : "path must name a file".length ≤ 100)
  · unfold cstring
    split_ifs
    · exact (by decide : "path contains a NUL byte".length ≤ 100)
    · rfl

theorem tells_resolve (hp : p.Normal) : Tells host n (m.resolve p) fun resolved => resolved.path = p := by
  have hnew := resolvedPath_new hp m.cwd
  unfold Manager.resolve
  cases hresult : ResolvedPath.new m.cwd p with
  | error error =>
    rw [hresult] at hnew
    exact Brief.of_le (le_trans hnew (by decide))
  | ok resolved =>
    rw [hresult] at hnew
    exact hnew

theorem tells_resolveBoundPath (h : Grown p r) :
    Tells host (shownLimit r.header) (m.resolveBoundPath p r) fun resolved => resolved.path = p := by
  unfold Manager.resolveBoundPath
  apply Within.bind (tells_resolve h.normal)
  intro resolved hpath
  apply Within.bind (fitting_quiet (o := .parentStat) rfl)
  intro parent _
  simp only
  split_ifs
  · exact hpath
  · exact brief_named h.shown (by decide)

theorem tells_openStaging (h : Grown p r) : Tells host (shownLimit r.header) (m.openStaging r) fun _ => True := by
  obtain ⟨directory, hnormal, hdirectory⟩ := h.staging
  have hshown : 2 * directory.length ≤ shownLimit r.header := by
    rw [← pathToHex_length, ← hdirectory]
    exact le_max_right _ _
  unfold Manager.openStaging
  rw [hdirectory, pathFromHex_pathToHex]
  exact Tells.io (briefly_openAt hnormal hshown)

theorem safe_createStaging : Safe host (m.createStaging r) := by
  unfold Manager.createStaging StagingArea.create
  apply Safe.bind (Safe.ofExcept _)
  intro path
  apply Safe.bind
  · unfold Transaction.orMessage
    cases Path.parent path <;> trivial
  intro root
  apply Safe.io
  apply (Safe.ofExcept _).bind
  intro _
  apply (Safe.ofExcept _).bind
  intro root
  exact (Safe.lift (.call rfl)).bind fun _ => trivial

theorem tells_resolvedObserve : Tells host n resolved.observe fun _ => True :=
  Within.mono (fitting_quiet (o := .observe resolved.slot) rfl) (fun _ _ => trivial) fun _ h => h

theorem tells_validateCapturedSource (h : Grown p r) (hpath : resolved.path = p) :
    Tells host (shownLimit r.header) (Manager.validateCapturedSource r resolved) fun _ => True := by
  subst hpath
  unfold Manager.validateCapturedSource
  split
  · apply Within.bind (Tells.io (briefly_capture h.shown))
    intro captured _
    split
    · split_ifs
      · trivial
      · exact Brief.of_le (by decide)
    · exact Brief.of_le (by decide)
  · apply Within.bind tells_resolvedObserve
    intro found _
    cases found with
    | none => trivial
    | some identity => exact Brief.of_le (by decide)

theorem tells_validateInstalledLayout (h : Grown p r) {detached : Option ObjectIdentity} :
    Tells host (shownLimit r.header) (m.validateInstalledLayout p r detached) fun _ => True := by
  unfold Manager.validateInstalledLayout
  apply Within.bind (tells_resolveBoundPath h)
  intro resolved _
  apply Within.bind (tells_openStaging h)
  intro staging _
  apply Within.bind (Tells.orMessage (.of_le (by decide)))
  intro placeholder _
  apply Within.bind tells_resolvedObserve
  intro target _
  split_ifs
  · exact brief_display h.shown (by decide)
  · split
    · apply Within.bind (Tells.io briefly_stagingObserve)
      intro actual _
      split_ifs
      · trivial
      · exact brief_display h.shown (by decide)
    · apply Within.bind (Tells.io briefly_stagingObserve)
      intro actual _
      split_ifs
      · trivial
      · exact brief_display h.shown (by decide)
    · exact brief_display h.shown (by decide)

theorem tells_validateStored (h : Grown p r) :
    Tells host (shownLimit r.header) (m.validateStored p r) fun _ => True := by
  unfold Manager.validateStored
  split
  · apply Within.bind (tells_resolveBoundPath h)
    intro resolved _
    apply Within.bind (tells_openStaging h)
    intro staging _
    apply Within.bind tells_resolvedObserve
    intro target _
    split_ifs
    · exact brief_display h.shown (by decide)
    · apply Within.bind (Tells.io briefly_stagingObserve)
      intro actual _
      split_ifs
      · trivial
      · exact brief_display h.shown (by decide)
  · exact Brief.of_le (by decide)
  · exact Brief.of_le (by decide)

theorem tells_validateRestoredTarget (h : Grown p r) (hpath : resolved.path = p) :
    Tells host (shownLimit r.header) (Manager.validateRestoredTarget r resolved) fun _ => True := by
  subst hpath
  unfold Manager.validateRestoredTarget
  apply Within.bind (P := fun _ => True)
  · unfold Manager.restoredIdentityOf
    split
    · trivial
    · trivial
    · exact Brief.of_le (by decide)
  intro restoredIdentity _
  split
  · apply Within.bind (Tells.io (briefly_verifyRestoration h.shown))
    intro actual _
    split_ifs
    · trivial
    · exact Brief.of_le (by decide)
  · apply Within.bind tells_resolvedObserve
    intro found _
    cases found with
    | none => trivial
    | some identity => exact Brief.of_le (by decide)
  · exact Brief.of_le (by decide)

theorem tells_verifyDetached (h : Grown p r) : Tells host n (Manager.verifyDetached staging r) fun _ => True := by
  unfold Manager.verifyDetached
  split
  · exact Within.bind (Tells.io (briefly_verifySnapshot (by rw [h.swapName]; decide))) fun _ _ => trivial
  · trivial

end looks

section install

theorem reason_le {text : String} (h : text.length ≤ 400) : text.length ≤ n + 400 :=
  h.trans (Nat.le_add_left 400 _)

theorem yields_requireInstalledLayout (h : Held p r) {detached : Option ObjectIdentity} :
    Yields host (m.requireInstalledLayout p r detached) (Held p) := by
  unfold Manager.requireInstalledLayout
  apply Within.bind (Within.attempt (tells_validateInstalledLayout h.toGrown))
  intro answer hanswer
  cases answer with
  | ok _ => exact h
  | error error => exact fitting_conflict h (hanswer.reason (by decide))

theorem yields_requireInstalled (h : Held p r) : Yields host (m.requireInstalled p r) (Held p) := by
  unfold Manager.requireInstalled
  split
  · exact yields_requireInstalledLayout h
  · exact fitting_conflict h (reason_le (by decide))

theorem yields_requireStored (h : Held p r) : Yields host (m.requireStored p r) (Held p) := by
  unfold Manager.requireStored
  apply Within.bind (Within.attempt (tells_validateStored h.toGrown))
  intro answer hanswer
  cases answer with
  | ok _ => exact h
  | error error => exact fitting_conflict h (hanswer.reason (by decide))

theorem safe_observeLayout : Safe host (Manager.observeLayout resolved staging name) := by
  unfold Manager.observeLayout
  apply Safe.bind (.call rfl)
  intro target
  exact (safe_stagingObserve staging name).io.bind fun _ => trivial

theorem safe_exchangeWith : Safe host (resolved.exchangeWith staging name) :=
  (Safe.ofExcept _).bind fun _ => Safe.lift (.call rfl)

theorem safe_installAbsent : Safe host (resolved.installAbsent staging name) :=
  (Safe.ofExcept _).bind fun _ => Safe.lift (.call rfl)

theorem safe_moveToStaging : Safe host (resolved.moveToStaging staging name) :=
  (Safe.ofExcept _).bind fun _ => Safe.lift (.call rfl)

theorem safe_syncWith : Safe host (resolved.syncWith staging : TxProg Unit) := (safe_sync staging).bind fun _ => .call rfl

theorem safe_renameStep {observed : TxProg Layout} {before after : Layout} {operation : FileProg Unit}
    (hobserved : Safe host observed) (hoperation : Safe host operation) :
    Safe host (renameStep observed before after operation) := by
  unfold renameStep
  apply hobserved.bind
  intro layout
  split_ifs
  · apply hoperation.io.attempt.bind
    intro answer
    cases answer with
    | ok _ => exact hobserved
    | error error =>
      apply hobserved.bind
      intro layout
      split_ifs <;> trivial
  · trivial

theorem safe_ensureEntry {verify create : FileProg ObjectIdentity} (hverify : Safe host verify)
    (hcreate : Safe host create) : Safe host (ensureEntry staging name verify create) := by
  unfold ensureEntry
  apply (safe_stagingObserve staging name).io.bind
  intro found
  cases found with
  | none => exact hcreate.io
  | some _ =>
    apply hverify.io.attempt.bind
    intro answer
    cases answer with
    | ok _ => trivial
    | error _ => exact (safe_discardUncommitted staging name).io.bind fun _ => hcreate.io

theorem yields_beginInstall (h : Held p r) : Yields host (m.beginInstall r) (Held p) := by
  unfold Manager.beginInstall
  simp only [recordPath_eq h.bound, Prog.bind_eq, Prog.pure_bind]
  apply Within.bind (tells_resolveBoundPath h.toGrown).yields
  intro resolved hpath
  apply Within.bind (Within.attempt (tells_validateCapturedSource h.toGrown hpath))
  intro answer hanswer
  cases answer with
  | error error => exact fitting_conflict h (hanswer.reason (by decide))
  | ok _ =>
    apply safe_createStaging.andThen
    intro staging
    apply (safe_discardConstruction staging _).io.andThen
    intro _
    apply (safe_ensureEntry safe_verifyPlaceholder (safe_createFile staging _ _ [] false)).andThen
    intro placeholder
    have hgrown : Grown p (advance r .installIntent (some placeholder)) :=
      h.succeed rfl rfl rfl rfl rfl (sha256_length r.contents) (by simp [lifecycleNames])
    apply Within.bind (fitting_commitSuccessor h.bound hgrown h.revision_lt h.unblocked)
    intro _ hheld
    exact hheld

theorem yields_finishInstall (h : Held p r) : Yields host (m.finishInstall r) (Held p) := by
  unfold Manager.finishInstall
  simp only [recordPath_eq h.bound, Prog.bind_eq, Prog.pure_bind]
  apply Within.bind (tells_resolveBoundPath h.toGrown).yields
  intro resolved _
  apply Within.bind (tells_openStaging h.toGrown).yields
  intro staging _
  apply Within.bind (Tells.orMessage (n := 0) (.of_le (by decide))).yields
  intro placeholder _
  apply Safe.andThen (safe_renameStep safe_observeLayout ?_)
  · intro observed
    split_ifs
    · apply Within.bind (Within.attempt (tells_verifyDetached h.toGrown))
      intro answer hanswer
      cases answer with
      | error error => exact fitting_conflict h (hanswer.reason (by decide))
      | ok _ =>
        apply safe_syncWith.andThen
        intro _
        have hgrown : Grown p (advance r (.installed observed.2) observed.1) :=
          h.succeed rfl rfl rfl rfl rfl (sha256_length r.contents) (by simp [lifecycleNames])
        apply Within.bind (fitting_commitSuccessor h.bound hgrown h.revision_lt h.unblocked)
        intro _ hheld
        exact yields_requireInstalled hheld
    · exact fitting_conflict h (reason_le (by decide))
  · split_ifs
    · exact safe_exchangeWith
    · exact safe_installAbsent

theorem yields_prepareOfflineStaging (h : Held p r) : Yields host (m.prepareOfflineStaging r) (Held p) := by
  unfold Manager.prepareOfflineStaging
  simp only [recordPath_eq h.bound, Prog.bind_eq, Prog.pure_bind]
  apply Within.bind (tells_resolveBoundPath h.toGrown).yields
  intro resolved hpath
  apply Within.bind (Within.attempt (tells_validateCapturedSource h.toGrown hpath))
  intro answer hanswer
  cases answer with
  | error error => exact fitting_conflict h (hanswer.reason (by decide))
  | ok _ =>
    apply safe_createStaging.andThen
    intro staging
    apply (safe_isEmpty staging).andThen
    intro empty
    split_ifs
    · exact h
    · exact fitting_conflict h (reason_le (by decide))

theorem yields_finishStore (h : Held p r) : Yields host (m.finishStore r) (Held p) := by
  unfold Manager.finishStore
  split
  · next detachedName hc =>
    have hname : detachedName.length ≤ 42 := h.names detachedName (by simp [hc, lifecycleNames])
    split
    · next identity metadata _ =>
      simp only [recordPath_eq h.bound, Prog.bind_eq, Prog.pure_bind]
      apply Within.bind (tells_resolveBoundPath h.toGrown).yields
      intro resolved _
      apply Within.bind (tells_openStaging h.toGrown).yields
      intro staging _
      apply (safe_renameStep safe_observeLayout safe_moveToStaging).andThen
      intro observed
      split_ifs
      · apply Within.bind (Within.attempt (Tells.io (n := shownLimit r.header) (briefly_verifySnapshot hname)))
        intro answer hanswer
        cases answer with
        | error error => exact fitting_conflict h (hanswer.reason (by decide))
        | ok actual =>
          simp only
          split_ifs
          · apply safe_syncWith.andThen
            intro _
            apply Within.bind (fitting_transition h (by simpa [lifecycleNames] using hname))
            intro stored hstored
            exact yields_requireStored hstored
          · exact fitting_conflict h (reason_le (by decide))
      · exact fitting_conflict h (reason_le (by decide))
    · exact fitting_conflict h (reason_le (by decide))
  · exact Yields.bail

end install

section restore

theorem yields_restoreLayouts (h : Held p r) {origin : RestoreOrigin} {restoreName : String}
    {restoreIdentity : Option ObjectIdentity} :
    Yields host (Manager.restoreLayouts r origin restoreName restoreIdentity)
      fun layouts => ∀ name ∈ layouts.2.2, name = restoreName := by
  unfold Manager.restoreLayouts
  split
  · apply Within.bind (Tells.orMessage (n := 0) (.of_le (by decide))).yields
    intro placeholder _ name hname
    cases hname
    rfl
  · intro name hname
    cases hname
  · exact fitting_conflict h (reason_le (by decide))

theorem safe_restoreRename {origin : RestoreOrigin} {restoreIdentity : Option ObjectIdentity} :
    Safe host (Manager.restoreRename resolved staging origin restoreIdentity name) := by
  unfold Manager.restoreRename
  split
  · exact safe_exchangeWith
  · exact safe_moveToStaging
  · exact safe_installAbsent

theorem safe_confirmRestored (h : Held p r) (hpath : resolved.path = p) {observed : Layout}
    {restoreIdentity : Option ObjectIdentity} :
    Safe host (Manager.confirmRestored resolved r observed restoreIdentity) := by
  subst hpath
  unfold Manager.confirmRestored
  split_ifs
  · apply Within.bind (Tells.orMessage (n := 0) (.of_le (by decide))).yields
    intro expected _
    apply Within.bind (Within.attempt (Tells.io (briefly_verifyRestoration h.shown)))
    intro answer hanswer
    cases answer with
    | error error => exact fitting_conflict h (hanswer.reason (by decide))
    | ok actual =>
      simp only
      split_ifs
      · trivial
      · exact fitting_conflict h (reason_le (by decide))
  · apply Safe.bind (.call rfl)
    intro found
    cases found with
    | none => trivial
    | some _ => exact fitting_conflict h (reason_le (by decide))

theorem yields_ensureRestoration (h : Held p r) {origin : RestoreOrigin} {restoreName : String}
    {restoreIdentity : Option ObjectIdentity} {detachedName : Option String} {detachedIdentity : Option ObjectIdentity}
    (hname : restoreName.length ≤ 42) (hdetached : ∀ name ∈ detachedName, name.length ≤ 42) :
    Yields host (Manager.ensureRestoration staging r origin restoreName restoreIdentity detachedName detachedIdentity)
      fun result => Held p result.1 := by
  unfold Manager.ensureRestoration
  split_ifs
  · apply (safe_ensureEntry safe_verifyRestoration (safe_createFile staging _ _ _ true)).andThen
    intro identity
    apply Within.bind (fitting_transition h ?_)
    · intro restoring hrestoring
      exact hrestoring
    · simp only [lifecycleNames, Option.toList_some, List.singleton_append, List.forall_mem_cons]
      exact ⟨hname, fun name hmem => hdetached name (Option.mem_toList.mp hmem)⟩
  · exact h

theorem yields_finishRestoreWith (h : Held p r) (hpath : resolved.path = p) :
    Yields host (Manager.finishRestoreWith resolved staging r) (Held p) := by
  unfold Manager.finishRestoreWith
  split
  · next origin restoreName restoreIdentity detachedName detachedIdentity hc =>
    have hnames := h.names
    rw [hc] at hnames
    cases restoreName with
    | none => exact Yields.fail
    | some restoreName =>
      have hname : restoreName.length ≤ 42 := hnames restoreName (by simp [lifecycleNames])
      have hdetached : ∀ name ∈ detachedName, name.length ≤ 42 := fun name hmem =>
        hnames name (by simpa [lifecycleNames] using .inr hmem)
      apply (safe_discardConstruction staging restoreName).io.andThen
      intro _
      apply Within.bind (yields_ensureRestoration h hname hdetached)
      rintro ⟨restoring, restored⟩ hrestoring
      apply Within.bind (yields_restoreLayouts hrestoring)
      rintro ⟨before, after, displacedName⟩ hdisplaced
      apply (safe_renameStep safe_observeLayout safe_restoreRename).andThen
      intro observed
      split_ifs
      · apply (safe_confirmRestored hrestoring hpath).andThen
        intro confirmed
        apply safe_syncWith.andThen
        intro _
        apply fitting_transition hrestoring
        intro name hmem
        rcases List.mem_append.mp hmem with hmem | hmem
        · rw [hdisplaced name (Option.mem_toList.mp hmem)]
          exact hname
        · exact hdetached name (Option.mem_toList.mp hmem)
      · exact fitting_conflict hrestoring (reason_le (by decide))
  · exact Yields.bail

theorem yields_finishRestore (h : Held p r) : Yields host (m.finishRestore r) (Held p) := by
  unfold Manager.finishRestore
  simp only [recordPath_eq h.bound, Prog.bind_eq, Prog.pure_bind]
  apply Within.bind (tells_resolveBoundPath h.toGrown).yields
  intro resolved hpath
  apply Within.bind (tells_openStaging h.toGrown).yields
  intro staging _
  exact yields_finishRestoreWith h hpath

theorem yields_restoreBinding (h : Held p r) : Yields host (Manager.restoreBinding r)
    fun binding => ∀ name ∈ binding.2.1, name.length ≤ 42 := by
  have hswap : ∀ name ∈ (if r.header.original.existed then some r.header.swapName else none), name.length ≤ 42 := by
    intro name hname
    split_ifs at hname
    · cases hname
      rw [h.swapName]
      decide
    · cases hname
  unfold Manager.restoreBinding
  generalize (if r.header.original.existed then some r.header.swapName else none) = swapName at hswap
  cases hc : r.header.lifecycle with
  | installed detached => exact hswap
  | unmountIntent outcome detached =>
    cases outcome with
    | restore => exact hswap
    | leaveInstalled => exact Yields.bail
  | stored detachedName detached =>
    intro name hname
    cases hname
    exact h.names detachedName (by simp [hc, lifecycleNames])
  | _ => exact Yields.bail

theorem yields_requireRestorable (h : Held p r) {origin : RestoreOrigin} {detached : Option ObjectIdentity} :
    Yields host (m.requireRestorable p r origin detached) (Held p) := by
  cases origin with
  | installed => exact yields_requireInstalledLayout h
  | stored => exact yields_requireStored h

theorem yields_beginRestore (h : Held p r) : Yields host (m.beginRestore r) (Held p) := by
  unfold Manager.beginRestore
  simp only [recordPath_eq h.bound, Prog.bind_eq, Prog.pure_bind]
  apply Within.bind (yields_restoreBinding h)
  rintro ⟨origin, detachedName, detachedIdentity⟩ hdetached
  apply Within.bind (yields_requireRestorable h)
  intro r h
  apply Within.bind (tells_resolveBoundPath h.toGrown).yields
  intro resolved hpath
  apply Within.bind (tells_openStaging h.toGrown).yields
  intro staging _
  apply Within.bind (fitting_quiet (o := .randomToken) rfl)
  intro token htoken
  apply Within.bind (fitting_transition h ?_)
  · intro restoring hrestoring
    exact yields_finishRestoreWith hrestoring hpath
  · intro name hmem
    rcases List.mem_append.mp hmem with hmem | hmem
    · cases List.mem_singleton.mp hmem
      have hlength : token.length = 32 := htoken.1
      split_ifs <;> rw [String.length_append, hlength] <;> decide
    · exact hdetached name (Option.mem_toList.mp hmem)

end restore

end FileGuard.Recovery
