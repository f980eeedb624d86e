import FileGuard.Recovery.Blocking

/-! A blocked row is out of the reach of every operation, and only the blocking itself changes it. -/

namespace FileGuard.Recovery

open Store Files Transaction CrashLogic

/-- What the store allows to become of an entry. -/
def Follows (path : Path) (entry after : Entry) : Prop :=
  after = entry ∨ after.Valid path ∧ ∃ call, Evolves path call entry after

/-- The coordinator among others, who use the store and do with the files as they like. -/
def beside (host : Host) : Machine signature World where
  step o w r w' := ∃ c, w.exec host c o = (r, w')
  rely w w' := ∀ path, Relation.ReflTransGen (Follows path) (w.store path) (w'.store path)
  rely_refl _ _ := .refl

/-- The row after it has been blocked. -/
def blockedSuccessor (r : SnapshotRecord) (reason : Option String) : SnapshotRecord :=
  { r with header := { r.header with revision := r.header.revision + 1, blockedReason := reason } }

variable {host : Host} {w w' : World} {p : Path} {r : SnapshotRecord} {α : Type}

theorem Follows.blocked {entry after : Entry} (h : Follows p entry after) (hentry : entry = .present r)
    (hb : r.header.blockedReason ≠ none) : after = .present r := by
  rcases h with rfl | ⟨-, call, hevolves⟩
  · exact hentry
  · rw [hentry] at hevolves
    exact hevolves.blocked hb

theorem beside_blocked (hrely : (beside host).rely w w') (h : w.store p = .present r)
    (hb : r.header.blockedReason ≠ none) : w'.store p = .present r := by
  have hreach := hrely p
  generalize w'.store p = after at hreach ⊢
  induction hreach with
  | refl => exact h
  | tail _ hstep ih => exact hstep.blocked ih hb

theorem beside_valid (hrely : (beside host).rely w w') (h : (w.store p).Valid p) : (w'.store p).Valid p := by
  have hreach := hrely p
  generalize w'.store p = after at hreach ⊢
  induction hreach with
  | refl => exact h
  | tail _ hstep ih =>
    rcases hstep with rfl | ⟨hvalid, -⟩
    · exact ih
    · exact hvalid

variable (host r p) in
/-- A program that fails, whose calls leave the world as it is while the row is blocked. -/
def Refused (prog : TxProg α) : Prop := ∀ w, w.store p = .present r →
  wp (beside host) (fun w w' => w' = w) prog
    (fun result w' => (∃ error, result = .error error) ∧ w'.store p = .present r) w

theorem refused_fail (error : TxError) : Refused host p r (.fail error : TxProg α) :=
  fun _ h => ⟨⟨error, rfl⟩, h⟩

theorem Refused.bind {β : Type} {prog : TxProg α} (h : Refused host p r prog) (k : α → TxProg β) :
    Refused host p r (prog.bind k) := by
  intro w hw
  rw [wp_bind]
  refine wp_mono (h w hw) ?_
  rintro _ w' ⟨⟨error, rfl⟩, hw'⟩
  exact ⟨⟨error, rfl⟩, hw'⟩

theorem refused_load (hb : r.header.blockedReason ≠ none) {k : Entry → TxProg α} (hk : Refused host p r (k (.present r))) :
    Refused host p r ((load p).bind k) := by
  intro w hw
  rw [wp_bind]
  rintro w₁ hrely _ w₂ ⟨c, hc⟩
  have hw₁ := beside_blocked hrely hw hb
  rcases @exec_load host w₁ c p with ⟨message, he⟩ | he
  · rw [he] at hc
    cases hc
    exact ⟨rfl, ⟨_, rfl⟩, hw₁⟩
  · rw [he] at hc
    cases hc
    rw [hw₁]
    exact ⟨rfl, hk w₁ hw₁⟩

theorem refused_unblocked (hb : r.header.blockedReason ≠ none) (path : Path) (k : Unit → TxProg α) :
    Refused host p r ((requireUnblocked path r).bind k) := by
  obtain ⟨reason, hreason⟩ := Option.ne_none_iff_exists'.mp hb
  rw [requireUnblocked, hreason]
  exact refused_fail _

theorem refused_loadPresent (hb : r.header.blockedReason ≠ none) : Refused host p r (Manager.loadPresent p) :=
  refused_load hb (refused_unblocked hb p _)

theorem refused_normalized {m : Manager} {path : Path} {k : Path → TxProg α}
    (hpath : ∀ resolved, ResolvedPath.new m.cwd path = .ok resolved → resolved.path = p)
    (hk : Refused host p r (k p)) : Refused host p r ((m.normalizePath path).bind k) := by
  unfold Manager.normalizePath Manager.resolve
  cases hnew : ResolvedPath.new m.cwd path with
  | error error => exact refused_fail _
  | ok resolved =>
    rw [← hpath resolved hnew] at hk ⊢
    exact hk

theorem commit_blocked {expected : Option RecordVersion} {next : SnapshotRecord} (hb : r.header.blockedReason ≠ none)
    {entry : Entry} : (Entry.present r).commit p expected next ≠ .ok entry := by
  intro h
  obtain ⟨-, -, ⟨-, hmissing, -⟩ | ⟨current, -, hcurrent, hsucceeds⟩⟩ := Entry.commit_inv h
  · cases hmissing
  · cases hcurrent
    exact hb hsucceeds.unblocked

theorem refused_updateContents (hb : r.header.blockedReason ≠ none) {current : SnapshotRecord} (contents : Bytes)
    (hcopy : current.header.pathHex = pathToHex p) : Refused host p r (updateContents current contents) := by
  unfold updateContents requireUnblocked
  simp only [recordPath_eq hcopy, Prog.bind_eq, Prog.pure_bind]
  cases current.header.blockedReason with
  | some reason => exact refused_fail _
  | none =>
    simp only [Prog.pure_bind]
    split_ifs with hphase
    · exact refused_fail _
    · intro w hw
      rw [wp_bind]
      rintro w₁ hrely _ w₂ ⟨c, hc⟩
      have hw₁ := beside_blocked hrely hw hb
      simp only [World.exec, World.commitEntry] at hc
      -- the version in the copy is the only thing looked at, and it is never that of the row
      rcases settle_cases w₁ c.answer "snapshot commit" (mountedSuccessor current contents).version
        (((w₁.store p).commit p (some current.version) (mountedSuccessor current contents)).map
          (w₁.putEntry p)) with ⟨error, hbody, hs⟩ | ⟨w', hbody, -⟩
      · rw [hs] at hc
        cases hc
        refine ⟨rfl, ?_⟩
        cases error with
        | indeterminate m => exact absurd (error_of_map hbody) (definite_commit _ _ _ _ m)
        | _ => exact ⟨⟨_, rfl⟩, hw₁⟩
      · obtain ⟨haccepted, -⟩ := accepted_of_map hbody
        rw [hw₁] at haccepted
        exact absurd haccepted (commit_blocked hb)

theorem refused_loadOrCapture {m : Manager} (hb : r.header.blockedReason ≠ none) {k : SnapshotRecord → TxProg α}
    (hk : Refused host p r (k r)) : Refused host p r ((m.loadOrCapture p).bind k) := by
  unfold Manager.loadOrCapture
  rw [Prog.bind_eq, Prog.bind_assoc]
  exact refused_load hb hk

namespace Operation

/-- The row that the operation is about is the one at the path. -/
def About (m : Manager) (path p : Path) : Operation → Prop
  | .updateContents current _ => current.header.pathHex = pathToHex p
  | _ => ∀ resolved, ResolvedPath.new m.cwd path = .ok resolved → resolved.path = p

theorem refused {m : Manager} {path : Path} (op : Operation) (hb : r.header.blockedReason ≠ none)
    (habout : op.About m path p) : Refused host p r (op.program m path) := by
  cases op with
  | prepare rounds =>
    apply Refused.bind
    apply refused_normalized habout
    cases rounds with
    | zero => exact refused_fail _
    | succ rounds =>
      apply refused_load hb
      apply Refused.bind
      exact refused_unblocked hb p _
  | beginMount => exact Refused.bind (refused_normalized habout (Refused.bind (refused_loadPresent hb) _)) _
  | updateContents current contents => exact Refused.bind (refused_updateContents hb contents habout) _
  | abortMount => exact Refused.bind (refused_normalized habout (Refused.bind (refused_loadPresent hb) _)) _
  | beginUnmount rounds next =>
    apply Refused.bind
    apply refused_normalized habout
    cases rounds with
    | zero => exact refused_fail _
    | succ rounds => exact Refused.bind (refused_loadPresent hb) _
  | reconcileAfterMountAbsent =>
    exact refused_normalized habout (refused_load hb (refused_unblocked hb p _))
  | restore => exact Refused.bind (refused_normalized habout (refused_load hb (refused_unblocked hb p _))) _
  | storeOffline =>
    apply refused_normalized habout
    exact refused_loadOrCapture hb (refused_unblocked hb p _)

end Operation

/-! What the blocking itself changes. -/

theorem validateSuccessorFields_blocking {current next : SnapshotRecord}
    (h : validateSuccessorFields current next = .ok ()) (hb : next.header.blockedReason ≠ none) :
    next.header.logicalPresent = current.header.logicalPresent ∧ next.contents = current.contents := by
  unfold validateSuccessorFields at h
  obtain ⟨-, h⟩ := check_eq_ok.mp h
  obtain ⟨-, h⟩ := check_eq_ok.mp h
  obtain ⟨-, h⟩ := check_eq_ok.mp h
  split_ifs at h with hsame
  · exact ⟨hsame.2.2.1.symm, hsame.2.2.2.symm⟩
  · obtain ⟨hnone, -⟩ := check_eq_ok.mp h
    exact absurd (by simpa using hnone) hb

theorem validateSnapshot_format (h : validateSnapshot r = .ok ()) : r.header.format = formatVersion := by
  obtain ⟨hformat, -⟩ := check_eq_ok.mp h
  exact not_not.mp (corruptIf_eq_ok.mp hformat)

theorem blocks_only {fileId : Path} {expected : Option RecordVersion} {next : SnapshotRecord} {after : Entry}
    (h : (Entry.present r).commit fileId expected next = .ok after) (hvalid : (Entry.present r).Valid fileId)
    (hb : next.header.blockedReason ≠ none) : next = blockedSuccessor r next.header.blockedReason := by
  obtain ⟨-, hnext, ⟨-, hmissing, -⟩ | ⟨current, rfl, hcurrent, hs⟩⟩ := Entry.commit_inv h
  · cases hmissing
  cases hcurrent
  unfold Entry.commit at h
  obtain ⟨hv, -⟩ := check_eq_ok.mp h
  obtain ⟨current, hcurrent, -, -, -, hfields⟩ := validateSuccessor_some hv
  cases hcurrent
  obtain ⟨hpresent, hcontents⟩ := validateSuccessorFields_blocking hfields hb
  have hphase := hs.blocking hb
  have hplaceholder : next.header.placeholder = r.header.placeholder := by
    by_contra hne
    cases hs.placeholder hne with
    | recorded hc hn => rw [hc, hn] at hphase; cases hphase
    | renewed detached hc hn => rw [hc, hn] at hphase; cases hphase
  have hdigest : next.header.contentSha256 = r.header.contentSha256 := by
    rw [(validateSnapshot_facts hnext).digest, hcontents, (validateSnapshot_facts hvalid.1).digest]
  have hformat : next.header.format = r.header.format :=
    (validateSnapshot_format hnext).trans (validateSnapshot_format hvalid.1).symm
  have hheader : next.header = { r.header with
      revision := r.header.revision + 1, blockedReason := next.header.blockedReason } := by
    rw [RecordHeader.ext_iff]
    exact ⟨hformat, hs.pathHex, hs.generation, hs.revision, hphase, hs.original, hpresent, hs.parent,
      hs.stagingPathHex, hs.swapName, hs.storedName, hplaceholder, hs.mountToken, hdigest, rfl⟩
  rw [blockedSuccessor, ← hheader, ← hcontents]

/-- A row that is blocked between two worlds is otherwise the row it was. -/
def OnlyBlocks (w w' : World) : Prop :=
  ∀ q current next, w.store q = .present current → w'.store q = .present next →
    current.header.blockedReason = none → next.header.blockedReason ≠ none →
    next = blockedSuccessor current next.header.blockedReason

def Validated (w : World) : Prop := ∀ q, (w.store q).Valid q

theorem apply_blocks {call : Call} {next : SnapshotRecord} (h : (Entry.present r).apply call = .ok (.present next))
    (hvalid : (Entry.present r).Valid call.path) (hb : next.header.blockedReason ≠ none) :
    next = blockedSuccessor r next.header.blockedReason := by
  cases call with
  | commit outcome q expected candidate =>
    obtain ⟨hafter, -⟩ := Entry.commit_inv h
    cases hafter
    exact blocks_only h hvalid hb
  | beginFinalization => cases Entry.apply_entry h
  | finishFinalization => cases Entry.apply_entry h

theorem exec_blocks (h : Validated w) (c : Choice) (o : Op) :
    OnlyBlocks w (w.exec host c o).2 ∧ Validated (w.exec host c o).2 := by
  rcases @exec_store host w c o with hstore | ⟨call, after, hafter, hstore⟩
  · refine ⟨fun q current next hcurrent hnext hopen hb => ?_, fun q => ?_⟩
    · rw [hstore, hcurrent] at hnext
      cases hnext
      exact absurd hopen hb
    · rw [hstore]
      exact h q
  · refine ⟨fun q current next hcurrent hnext hopen hb => ?_, fun q => ?_⟩
    · by_cases hq : q = call.path
      · subst hq
        have hvalid := h call.path
        rw [hstore, Function.update_self] at hnext
        rw [hcurrent] at hafter hvalid
        rw [hnext] at hafter
        exact apply_blocks hafter hvalid hb
      · rw [hstore, Function.update_of_ne hq, hcurrent] at hnext
        cases hnext
        exact absurd hopen hb
    · rw [hstore]
      by_cases hq : q = call.path
      · subst hq
        rw [Function.update_self]
        exact Entry.apply_valid hafter
      · rw [Function.update_of_ne hq]
        exact h q

/-- An operation on a blocked row does nothing and fails, and an operation that blocks a row does nothing else
to it. -/
theorem blocked_inert (m : Manager) (path : Path) (op : Operation) :
    (∀ p r w, w.store p = .present r → r.header.blockedReason ≠ none → op.About m path p →
      (∃ result w', Finishes (beside host) (op.program m path) w result w') ∧
        wp (beside host) (fun w w' => w' = w) (op.program m path)
          (fun result w' => (∃ error, result = .error error) ∧ w'.store p = .present r) w) ∧
    ∀ w, Validated w → wp (beside host) OnlyBlocks (op.program m path) (fun _ w' => Validated w') w := by
  refine ⟨fun p r w hw hb habout => ⟨?_, op.refused hb habout w hw⟩, fun w hw => ?_⟩
  · exact exists_finishes (fun w _ o => ⟨_, _, ⟨⟨0, 0⟩, 0, "", .acknowledged, none⟩, rfl⟩) (fun _ _ _ => trivial) trivial
      (wp_trivial (op.program m path) w)
  · apply wp_invariant (fun w w' hrely h q => beside_valid hrely (h q)) _ _ hw
    rintro o w r w' ⟨c, hc⟩ hvalid
    have hexec := @exec_blocks host w hvalid c o
    rw [hc] at hexec
    exact hexec

section sample

def World.blocked : World :=
  { World.sample with store := fun q =>
      if q = Site.sample.path then .present (blockedSuccessor (sampleRecord q) (some "mount was replaced"))
      else .missing }

theorem blocked_inert_example : ∃ r, World.blocked.store Site.sample.path = .present r ∧
    wp (beside .sample) (fun w w' => w' = w) (Operation.restore.program Site.sample.manager Site.sample.path)
      (fun result w' => (∃ error, result = .error error) ∧ w'.store Site.sample.path = .present r) World.blocked ∧
    wp (beside .sample) OnlyBlocks (Operation.restore.program Site.sample.manager Site.sample.path)
      (fun _ w' => Validated w') World.sample := by
  have hstore : World.blocked.store Site.sample.path = .present
      (blockedSuccessor (sampleRecord Site.sample.path) (some "mount was replaced")) := by
    simp only [World.blocked, ↓reduceIte]
  obtain ⟨hblocked, hopen⟩ := @blocked_inert .sample Site.sample.manager Site.sample.path .restore
  refine ⟨_, hstore, (hblocked _ _ World.blocked hstore (Option.some_ne_none _) ?_).2, hopen World.sample fun _ => trivial⟩
  intro resolved hresolved
  cases Site.sample.resolves.symm.trans hresolved
  rfl

end sample

end FileGuard.Recovery
