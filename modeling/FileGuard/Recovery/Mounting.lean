import FileGuard.Recovery.Finalize

/-! The capture of a path and the commits of its mounted life. -/

namespace FileGuard.Recovery

open Store Files Transaction CrashLogic

variable {S : Site} {w w' : World} {r next : SnapshotRecord} {E : Prop} {v : View}

theorem wp_inv {ε α : Type} {p : Prog signature ε α} {Q : Except ε α → World → Prop} (hi : Inv S w)
    (h : wp S.machine (KeepsInv S) p Q w) : wp S.machine (KeepsInv S) p (fun r w' => Q r w' ∧ Inv S w') w := by
  induction p generalizing w with
  | pure a => exact ⟨h, hi⟩
  | fail e => exact ⟨h, hi⟩
  | call o k ih =>
    intro w₁ hr r w₂ hs
    obtain ⟨hg, hk⟩ := h w₁ hr r w₂ hs
    exact ⟨hg, ih r hg hk⟩

theorem Runs.tried {ε α : Type} {p : Prog signature ε α} {Q : α → World → Prop} (hi : Inv S w)
    (h : Runs S True p Q w) :
    Runs S E p.attempt (fun x w' => Inv S w' ∧ ∀ a, x = .ok a → Q a w') w := by
  refine wp_attempt.mpr (wp_mono (wp_inv hi h) ?_)
  rintro (e | a) w' ⟨hq, hi'⟩
  · exact ⟨hi', nofun⟩
  · exact ⟨hi', fun b hb => by cases hb; exact hq⟩

theorem runs_tryCommit {n : SnapshotRecord} {expected : Option RecordVersion} (hi : Inv S w)
    (hc : (w.store S.path).commit S.path expected n = .ok (.present n) →
      Consistent S (.present n) (some n) w.directories (view S.path w)) :
    Runs S E (storeCommit S.path expected n)
      (fun answer w' => (∃ version, answer = .ok version ∧ Committed S w w' n) ∨
        ∃ error, answer = .error error ∧ w' = w) w := by
  refine Runs.perform fun c hf => ?_
  simp only [World.exec, World.commitEntry]
  cases hcommit : (w.store S.path).commit S.path expected n with
  | error error =>
    simp only [Except.map, SqliteStore.settle]
    rw [hi.sane.settled]
    exact ⟨hi, .inr ⟨error, rfl, rfl⟩⟩
  | ok after =>
    obtain rfl := Entry_commit_ok hcommit
    simp only [Except.map, SqliteStore.settle, hf.answer]
    have hcommitted := committed_putEntry hi (hc hcommit)
    exact ⟨hcommitted.inv, .inl ⟨n.version, rfl, hcommitted⟩⟩

theorem stagingOf_congr (h : next.header.stagingPathHex = r.header.stagingPathHex) :
    stagingOf next = stagingOf r := by
  rw [stagingOf, stagingOf, h]

theorem Sound.succeeds (hs : Sound S r) (h : Succeeds r next) (hv : validateSnapshot next = .ok ())
    (hb : next.header.blockedReason = none) : Sound S next := by
  have hstaging := stagingOf_congr h.stagingPathHex
  refine ⟨hv, h.pathHex.trans hs.bound, hb, h.swapName.trans hs.swapName, h.storedName.trans hs.storedName, ?_, ?_,
    ?_, ?_⟩
  · rw [h.parent]
    exact hs.parent
  · rw [h.stagingPathHex, hstaging]
    exact hs.staging
  · rw [h.generation, hstaging]
    exact hs.planned
  · rw [h.original]
    exact hs.xattrs

theorem mounts_from {current next : RecordHeader} {detached : Option ObjectIdentity}
    (h : lifecycleTransitionIsValid current next = true) (hn : next.lifecycle = .mountIntent detached) :
    current.lifecycle = .installed detached ∨ current.lifecycle = .mountIntent detached := by
  unfold lifecycleTransitionIsValid at h
  rw [hn] at h
  cases hc : current.lifecycle with
  | installed before =>
    rw [hc] at h
    exact .inl (congrArg _ (beq_iff_eq.mp h))
  | mountIntent before =>
    rw [hc] at h
    exact .inr (congrArg _ (beq_iff_eq.mp h))
  | unmountIntent outcome before =>
    rw [hc] at h
    cases outcome <;> cases h
  | restoreIntent origin name identity detachedName detachedIdentity =>
    rw [hc] at h
    cases identity <;> cases h
  | _ => rw [hc] at h; cases h

/-- A row accepted in the mounted phase finds the files of the row before it. -/
theorem consistent_mounted {detached : Option ObjectIdentity} (hi : Inv S w)
    {expected : Option RecordVersion} (hexpected : expected ≠ none)
    (hc : (w.store S.path).commit S.path expected next = .ok (.present next))
    (hb : next.header.blockedReason = none) (hl : next.header.lifecycle = .mountIntent detached) :
    Consistent S (.present next) (some next) w.directories (view S.path w) := by
  obtain ⟨version, rfl⟩ := Option.ne_none_iff_exists'.mp hexpected
  unfold Entry.commit at hc
  obtain ⟨hv, -⟩ := check_eq_ok.mp hc
  obtain ⟨hvalid, -⟩ := validateSuccessor_snapshot hv
  obtain ⟨row, hrow, rfl, -, hrevision, hfields⟩ := validateSuccessor_some hv
  have hsucceeds := validateSuccessorFields_succeeds hrevision hfields
  have hnow : Now S w row := ⟨hi, hrow⟩
  have hfrom := mounts_from (hsucceeds.phase hb) hl
  have hstaging := stagingOf_congr hsucceeds.stagingPathHex
  have hplaceholder : next.header.placeholder = row.header.placeholder := by
    by_contra hne
    cases hsucceeds.placeholder hne with
    | recorded before after => rw [hl] at after; cases after
    | renewed d before after => rw [hl] at after; cases after
  have hfiles : InstalledFiles S row (view S.path w) detached := by
    have := hnow.files
    rcases hfrom with he | he <;> rwa [he] at this
  have hdir : stagingOf row ∈ w.directories := hnow.directory (by rcases hfrom with he | he <;> simp [he])
  refine ⟨hnow.sound.succeeds hsucceeds hvalid hb, rfl, ?_, .inr (hstaging ▸ hdir)⟩
  rw [hl]
  change InstalledFiles S next (view S.path w) detached
  unfold InstalledFiles layoutOf stagedSlot at *
  rwa [hstaging, hplaceholder]

theorem isMountIntent_eq {lifecycle : Lifecycle} (h : isMountIntent lifecycle = true) :
    ∃ detached, lifecycle = .mountIntent detached := by
  cases lifecycle with
  | mountIntent detached => exact ⟨detached, rfl⟩
  | _ => cases h

theorem runs_observeCandidate {commitError : String} (hi : Inv S w) :
    Runs S True (observeCandidate S.path next commitError) (fun _ w' => Inv S w') w := by
  have hload : Reads S (storeLoad S.path) (.ok (.ok (w.store S.path))) w := by
    refine .perform hi fun c hc => ?_
    simp only [World.exec, hc.answer, true_and]
    exact hi.sane.settled
  unfold observeCandidate
  apply hload.runs_bind
  cases w.store S.path with
  | missing => exact Runs.fail trivial
  | finalizing marker => exact Runs.fail trivial
  | present observed =>
    simp only
    split_ifs
    · exact Runs.pure hi
    · exact Runs.fail trivial

theorem runs_updateContents {current : SnapshotRecord} {contents : Bytes} (hi : Inv S w)
    (hp : current.header.pathHex = pathToHex S.path) :
    Runs S True (updateContents current contents) (fun _ w' => Inv S w') w := by
  unfold updateContents requireUnblocked
  simp only [recordPath_eq hp, Prog.bind_eq, Prog.pure_bind]
  cases hb : current.header.blockedReason with
  | some reason => exact Runs.fail trivial
  | none =>
    simp only [Prog.pure_bind]
    split_ifs with hm
    · exact Runs.fail trivial
    · obtain ⟨detached, hl⟩ := isMountIntent_eq (Bool.not_eq_false _ ▸ hm)
      have hnext (hc : (w.store S.path).commit S.path (some current.version) (mountedSuccessor current contents) =
          .ok (.present (mountedSuccessor current contents))) :
          Consistent S (.present (mountedSuccessor current contents)) (some (mountedSuccessor current contents))
            w.directories (view S.path w) := consistent_mounted hi (by simp) hc hb hl
      apply (runs_tryCommit hi hnext).andThen
      rintro answer w' (⟨version, rfl, hcommitted⟩ | ⟨error, rfl, rfl⟩)
      · simp only
        split_ifs
        · exact Runs.pure hcommitted.inv
        · exact Runs.fail trivial
      · cases error with
        | indeterminate message => exact runs_observeCandidate hi
        | _ => exact Runs.fail trivial

section capture

/-- What was captured is what stands at the path. -/
structure Captured (S : Site) (v : View) (captured : CapturedSource) : Prop where
  xattrs : ∃ xattrs, captured.original.metadata.xattrs = readXattrs xattrs
  identity : (∃ identity metadata, captured.original = .present identity metadata ∧
    ident S v (targetSlot S) = some identity) ∨
      ∃ presentation, captured.original = .absent presentation ∧ ident S v (targetSlot S) = none
  intact : ∀ i, v (targetSlot S) = some i → Plain i ∧ i.contents = captured.contents ∧
    inodeMetadata S.host i = captured.original.metadata

theorem CaptureAnswer.captured {captured : CapturedSource} (h : CaptureAnswer S v (.ok captured)) :
    Captured S v captured := by
  cases h with
  | absent t time nothing =>
    refine ⟨⟨[], rfl⟩, .inr ⟨_, rfl, ?_⟩, fun i hi => ?_⟩
    · rw [ident, nothing]
      rfl
    · rw [nothing] at hi
      cases hi
  | present i found plain =>
    refine ⟨⟨i.xattrs, rfl⟩, .inl ⟨_, _, rfl, ?_⟩, fun j hj => ?_⟩
    · rw [ident, found]
      rfl
    · rw [found] at hj
      cases hj
      exact ⟨plain, rfl, rfl⟩

theorem consistent_captured {captured : CapturedSource} {directory : Path} {directories : List Path}
    (hempty : Unstaged v) (hc : Captured S v captured) (hvalid : validateSnapshot r = .ok ())
    (hbound : r.header.pathHex = pathToHex S.path) (hunblocked : r.header.blockedReason = none)
    (hswap : r.header.swapName = "swap") (hstored : r.header.storedName = "stored")
    (hparent : ∃ t, r.header.parent = { S.host.parent with ctime := t, mtime := t })
    (hstaging : r.header.stagingPathHex = pathToHex directory)
    (hplanned : PlannedDirectory r.header.generation directory) (horiginal : r.header.original = captured.original)
    (hcontents : r.contents = captured.contents) (hphase : r.header.lifecycle = .captured) :
    Consistent S (.present r) (some r) directories v := by
  have hdirectory : stagingOf r = directory := by
    rw [stagingOf, hstaging, pathFromHex_pathToHex]
    rfl
  refine ⟨⟨hvalid, hbound, hunblocked, hswap, hstored, hparent, ?_, ?_, ?_⟩, rfl, ?_, .inl hphase⟩
  · rw [hdirectory]
    exact hstaging
  · rw [hdirectory]
    exact hplanned
  · rw [horiginal]
    exact hc.xattrs
  · rw [hphase]
    refine ⟨fun d n hne => absurd (hempty d n) hne, ?_, fun i hi => ?_⟩
    · rcases hc.identity with ⟨identity, metadata, ho, hident⟩ | ⟨presentation, ho, hident⟩
      · rw [hident, originalIdentity_present (horiginal.trans ho)]
      · rw [hident, originalIdentity_absent (horiginal.trans ho)]
    · obtain ⟨hplain, hcon, hmeta⟩ := hc.intact i hi
      refine ⟨hplain, hcon.trans hcontents.symm, ?_⟩
      rw [hmeta, horiginal]
      exact ⟨rfl, rfl, rfl, rfl, rfl⟩

theorem plannedPath_ok {cwd root directory : Path} {generation : String}
    (h : StagingArea.plannedPath cwd root generation = .ok directory) :
    PlannedDirectory generation directory := by
  unfold StagingArea.plannedPath at h
  obtain ⟨_, -, h⟩ := bind_eq_ok.mp h
  obtain ⟨absolute, hroot, h⟩ := bind_eq_ok.mp h
  cases h
  unfold Files.absoluteLexical at hroot
  cases hlexical : Path.lexical cwd root with
  | none => rw [hlexical] at hroot; cases hroot
  | some q =>
    rw [hlexical] at hroot
    cases hroot
    obtain ⟨parts, hparts, rfl⟩ := Path.lexical_normal hlexical
    exact ⟨parts, hparts, rfl⟩

theorem runs_randomToken {ε : Type} {Q : String → World → Prop} (hi : Inv S w) (h : ∀ token, isToken token → Q token w) :
    Runs S E (randomToken : Prog signature ε String) Q w := by
  refine Runs.perform fun c hc => ?_
  have hs : (w.exec S.host c .randomToken).2.settled = w := hi.sane.settled
  rw [hs]
  exact ⟨hi, h c.token hc.token⟩

theorem runs_captureRecord {requirePresent : Bool} (hi : Inv S w) (hm : w.store S.path = .missing) :
    Runs S True (S.manager.captureRecord S.path requirePresent)
      (fun r w' => Now S w' r ∧ r.header.lifecycle = .captured ∧ Unstaged (view S.path w') ∧
        (requirePresent = true → r.header.original.existed = true)) w := by
  have hempty : Unstaged (view S.path w) := by
    have hc := hi.consistent
    rw [hm] at hc
    exact hc.1
  unfold Manager.captureRecord
  apply reads_resolve.runs_bind
  refine wp_bind.mpr (wp_mapError.mpr (wp_mono (wp_capture hi) ?_))
  rintro (e | captured) w₁ ⟨rfl, hanswer⟩
  · trivial
  · simp only [Except.mapError, onOk_ok]
    have hcaptured := hanswer.captured
    split_ifs with hrequired
    · exact Runs.fail trivial
    · refine wp_bind.mpr (reads_parentIdentity hi fun t _ => ?_)
      apply Runs.bind
      apply runs_randomToken hi
      intro generation _
      cases hplanned : StagingArea.plannedPath S.manager.cwd S.manager.stagingRoot generation with
      | error e => exact Runs.fail trivial
      | ok directory =>
        simp only [ofIo, Prog.ofExcept_ok, Prog.mapError_pure, Prog.bind_eq, Prog.pure_bind]
        apply Runs.bind
        apply runs_randomToken hi
        intro mountToken _
        apply (runs_tryCommit hi fun hc => ?_).andThen
        · rintro answer w' (⟨version, rfl, hcommitted⟩ | ⟨error, rfl, -⟩)
          · refine Runs.pure ⟨hcommitted.now, rfl, hcommitted.view ▸ hempty, fun hr => ?_⟩
            by_contra hne
            exact hrequired ⟨hr, Bool.not_eq_true _ ▸ hne⟩
          · exact Runs.fail trivial
        · unfold Entry.commit at hc
          obtain ⟨hv, -⟩ := check_eq_ok.mp hc
          obtain ⟨hvalid, hbound⟩ := validateSuccessor_snapshot hv
          exact consistent_captured hempty hcaptured hvalid hbound rfl rfl rfl ⟨t, rfl⟩ rfl
            (plannedPath_ok hplanned) rfl rfl rfl

end capture

end FileGuard.Recovery
