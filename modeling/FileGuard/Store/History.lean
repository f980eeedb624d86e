import FileGuard.Store.EntryModel

namespace FileGuard.Store

def BothMounted (current next : RecordHeader) : Prop :=
  isMountIntent current.lifecycle = true ∧ isMountIntent next.lifecycle = true

/-- The placeholder is recorded when installation starts and renewed, up to its ctime, when it ends. -/
inductive PlaceholderStep (current next : RecordHeader) : Prop where
  | recorded (before : current.lifecycle = .captured) (after : next.lifecycle = .installIntent)
      (fresh : current.placeholder = none) (set : next.placeholder.isSome)
  | renewed (detached : Option ObjectIdentity) (before : current.lifecycle = .installIntent)
      (after : next.lifecycle = .installed detached) (old new : ObjectIdentity)
      (held : current.placeholder = some old) (set : next.placeholder = some new)
      (same : new = { old with ctime := new.ctime })

/-- What an accepted successor keeps and what it may change. -/
structure Succeeds (current next : SnapshotRecord) : Prop where
  unblocked : current.header.blockedReason = none
  revision : next.header.revision = current.header.revision + 1
  pathHex : next.header.pathHex = current.header.pathHex
  generation : next.header.generation = current.header.generation
  original : next.header.original = current.header.original
  parent : next.header.parent = current.header.parent
  stagingPathHex : next.header.stagingPathHex = current.header.stagingPathHex
  swapName : next.header.swapName = current.header.swapName
  storedName : next.header.storedName = current.header.storedName
  mountToken : next.header.mountToken = current.header.mountToken
  contents : next.contents ≠ current.contents → BothMounted current.header next.header
  presence : next.header.logicalPresent ≠ current.header.logicalPresent →
    BothMounted current.header next.header ∧ current.header.logicalPresent = false ∧
      next.header.logicalPresent = true
  placeholder : next.header.placeholder ≠ current.header.placeholder →
    PlaceholderStep current.header next.header
  phase : next.header.blockedReason = none →
    lifecycleTransitionIsValid current.header next.header = true
  blocking : next.header.blockedReason ≠ none → next.header.lifecycle = current.header.lifecycle

theorem placeholderMayChange_step {current next : RecordHeader}
    (hne : next.placeholder ≠ current.placeholder) (h : placeholderMayChange current next = true) :
    PlaceholderStep current next := by
  unfold placeholderMayChange at h
  split at h
  · next detached hc hn =>
    cases hp : current.placeholder with
    | none =>
      cases hq : next.placeholder with
      | none => exact absurd (hq.trans hp.symm) hne
      | some q => simp [hp, hq, identitiesMatchAfterRename] at h
    | some p =>
      cases hq : next.placeholder with
      | none => simp [hp, hq, identitiesMatchAfterRename] at h
      | some q =>
        simp only [hp, hq, identitiesMatchAfterRename] at h
        have hpq := identitiesMatch_iff.mp h
        exact .renewed detached hc hn p q hp hq (by rw [hpq])
  · next hc hn =>
    simp only [Bool.and_eq_true, Option.isNone_iff_eq_none] at h
    exact .recorded hc hn h.1 h.2
  · cases h

theorem validateSuccessorFields_succeeds {current next : SnapshotRecord}
    (hr : next.header.revision = current.header.revision + 1)
    (h : validateSuccessorFields current next = .ok ()) : Succeeds current next := by
  unfold validateSuccessorFields at h
  obtain ⟨himm, h⟩ := check_eq_ok.mp h
  obtain ⟨hph, h⟩ := check_eq_ok.mp h
  obtain ⟨hun, h⟩ := check_eq_ok.mp h
  simp only [conflictIf_eq_ok, not_or, not_not] at himm
  obtain ⟨hpath, hgen, horig, hpar, hstag, hswap, hstored, htok⟩ := himm
  have hunblocked : current.header.blockedReason = none := by simpa using hun
  have hplaceholder : next.header.placeholder ≠ current.header.placeholder →
      PlaceholderStep current.header next.header := by
    intro hne
    refine placeholderMayChange_step hne ?_
    rw [conflictIf_eq_ok] at hph
    simpa [hne.symm] using hph
  split_ifs at h with hb
  · obtain ⟨hsome, hlife, hlp, hcon⟩ := hb
    refine ⟨hunblocked, hr, hpath.symm, hgen.symm, horig.symm, hpar.symm, hstag.symm, hswap.symm,
      hstored.symm, htok.symm, fun hne => absurd hcon.symm hne, fun hne => absurd hlp.symm hne,
      hplaceholder, fun hnone => ?_, fun _ => hlife.symm⟩
    rw [hnone] at hsome
    cases hsome
  · obtain ⟨hnb, h⟩ := check_eq_ok.mp h
    obtain ⟨hcon, h⟩ := check_eq_ok.mp h
    obtain ⟨hlp, h⟩ := check_eq_ok.mp h
    have hnext : next.header.blockedReason = none := by simpa using hnb
    refine ⟨hunblocked, hr, hpath.symm, hgen.symm, horig.symm, hpar.symm, hstag.symm, hswap.symm,
      hstored.symm, htok.symm, fun hne => ?_, fun hne => ?_, hplaceholder, fun _ => ?_,
      fun hsome => absurd hnext hsome⟩
    · rw [conflictIf_eq_ok, not_and] at hcon
      simpa [BothMounted] using hcon hne.symm
    · rw [conflictIf_eq_ok, not_and, not_not] at hlp
      have := hlp hne.symm
      simpa [BothMounted] using this
    · simpa using conflictIf_eq_ok.mp h

inductive Call where
  | commit (outcome : SqliteStore.CommitOutcome) (fileId : Path) (expected : Option RecordVersion)
      (next : SnapshotRecord)
  | beginFinalization (outcome : SqliteStore.CommitOutcome) (fileId : Path) (expected : RecordVersion)
      (marker : FinalizationRecord)
  | finishFinalization (outcome : SqliteStore.CommitOutcome) (fileId : Path) (expected : RecordVersion)

/-- What one call may do to the entry of a path; every other entry stays as it is. -/
inductive Evolves (fileId : Path) : Call → Entry → Entry → Prop where
  | kept (call : Call) (entry : Entry) : Evolves fileId call entry entry
  | started (outcome : SqliteStore.CommitOutcome) (next : SnapshotRecord)
      (starts : Starts next) (bound : next.header.pathHex = pathToHex fileId) :
      Evolves fileId (.commit outcome fileId none next) .missing (.present next)
  | succeeded (outcome : SqliteStore.CommitOutcome) (current next : SnapshotRecord)
      (succeeds : Succeeds current next) :
      Evolves fileId (.commit outcome fileId (some current.version) next) (.present current)
        (.present next)
  | finalized (outcome : SqliteStore.CommitOutcome) (current : SnapshotRecord)
      (marker : FinalizationRecord) (unblocked : current.header.blockedReason = none)
      (deleting : isDeleteIntent current.header.lifecycle = true)
      (bound : marker.pathHex = pathToHex fileId)
      (version : marker.version = ⟨current.header.generation, current.header.revision + 1⟩) :
      Evolves fileId (.beginFinalization outcome fileId current.version marker) (.present current)
        (.finalizing marker)
  | finished (outcome : SqliteStore.CommitOutcome) (marker : FinalizationRecord) :
      Evolves fileId (.finishFinalization outcome fileId marker.version) (.finalizing marker) .missing

/-- A blocked row is out of reach of every call. -/
theorem Evolves.blocked {fileId : Path} {call : Call} {current : SnapshotRecord} {after : Entry}
    (h : Evolves fileId call (.present current) after) (hb : current.header.blockedReason ≠ none) :
    after = .present current := by
  cases h with
  | kept => rfl
  | succeeded outcome _ next succeeds => exact absurd succeeds.unblocked hb
  | finalized outcome _ marker unblocked => exact absurd unblocked hb

namespace Entry

theorem commit_evolves {fileId : Path} {entry after : Entry} {expected : Option RecordVersion}
    {next : SnapshotRecord} (h : entry.commit fileId expected next = .ok after)
    (outcome : SqliteStore.CommitOutcome) :
    after.Valid fileId ∧ Evolves fileId (.commit outcome fileId expected next) entry after := by
  unfold commit at h
  obtain ⟨hv, h⟩ := check_eq_ok.mp h
  obtain ⟨z, hz, h⟩ := bind_eq_ok.mp h
  obtain ⟨hf, h⟩ := check_eq_ok.mp h
  cases h
  obtain ⟨hs, hp⟩ := validateSuccessor_snapshot hv
  refine ⟨⟨hs, hp, (revisionToSql_eq_ok.mp hz).1, headerFits_eq_ok.mp hf⟩, ?_⟩
  cases expected with
  | none =>
    obtain ⟨rfl, hstarts⟩ := validateSuccessor_none hv
    exact .started outcome next hstarts hp
  | some version =>
    obtain ⟨current, rfl, rfl, -, hr, hfields⟩ := validateSuccessor_some hv
    exact .succeeded outcome current next (validateSuccessorFields_succeeds hr hfields)

theorem beginFinalization_evolves {fileId : Path} {entry after : Entry} {expected : RecordVersion}
    {marker : FinalizationRecord} (h : entry.beginFinalization fileId expected marker = .ok after)
    (outcome : SqliteStore.CommitOutcome) :
    after.Valid fileId ∧
      Evolves fileId (.beginFinalization outcome fileId expected marker) entry after := by
  unfold beginFinalization at h
  obtain ⟨hv, h⟩ := check_eq_ok.mp h
  obtain ⟨hm, h⟩ := check_eq_ok.mp h
  simp only [conflictIf_eq_ok, not_or, not_not] at hm
  obtain ⟨hp, hg, hr⟩ := hm
  cases entry with
  | missing => cases h
  | finalizing other => cases h
  | present current =>
    obtain ⟨hversion, h⟩ := check_eq_ok.mp h
    obtain ⟨hdelete, h⟩ := check_eq_ok.mp h
    obtain ⟨z, hz, h⟩ := bind_eq_ok.mp h
    obtain ⟨hfits, h⟩ := check_eq_ok.mp h
    cases h
    rw [conflictIf_eq_ok, not_not] at hversion
    subst hversion
    simp only [conflictIf_eq_ok, not_or, Bool.not_eq_true, Option.isSome_eq_false_iff,
      Option.isNone_iff_eq_none, Bool.not_eq_false] at hdelete
    refine ⟨⟨hv, hp, (revisionToSql_eq_ok.mp hz).1, markerFits_eq_ok.mp hfits⟩, ?_⟩
    refine .finalized outcome current marker hdelete.1 hdelete.2 hp ?_
    rw [FinalizationRecord.version, hg, hr]
    rfl

theorem finishFinalization_evolves {fileId : Path} {entry after : Entry} {expected : RecordVersion}
    (h : entry.finishFinalization expected = .ok after) (outcome : SqliteStore.CommitOutcome) :
    after.Valid fileId ∧ Evolves fileId (.finishFinalization outcome fileId expected) entry after := by
  unfold finishFinalization at h
  cases entry with
  | missing => cases h
  | present record => cases h
  | finalizing marker =>
    obtain ⟨hversion, hafter⟩ := check_eq_ok.mp h
    rw [conflictIf_eq_ok, not_not] at hversion
    subst hversion
    cases hafter
    exact ⟨trivial, .finished outcome marker⟩

end Entry

namespace SqliteStore

def step (db : SqliteStore) : Call → SqliteStore
  | .commit outcome fileId expected next => (commit db outcome fileId expected next).2
  | .beginFinalization outcome fileId expected marker =>
    (beginFinalization db outcome fileId expected marker).2
  | .finishFinalization outcome fileId expected => (finishFinalization db outcome fileId expected).2

def run (db : SqliteStore) (calls : List Call) : SqliteStore := calls.foldl step db

theorem settle_put {α : Type} (db : SqliteStore) (outcome : CommitOutcome) (what : String) (answer : α)
    (fileId : Path) (body : StoreResult Entry) :
    (settle db outcome what answer (body.map (db.put fileId))).2 = db ∨
      ∃ after, body = .ok after ∧
        (settle db outcome what answer (body.map (db.put fileId))).2 = db.put fileId after := by
  cases body with
  | error error => exact .inl rfl
  | ok next =>
    cases outcome with
    | acknowledged => exact .inr ⟨next, rfl, rfl⟩
    | refused message => exact .inl rfl
    | uncertain committed message =>
      cases committed
      · exact .inl rfl
      · exact .inr ⟨next, rfl, rfl⟩

theorem step_eq {db : SqliteStore} (h : ∀ fileId, ∃ entry, Holds db fileId entry) (call : Call) :
    step db call = db ∨ ∃ fileId before after, Holds db fileId before ∧ after.Valid fileId ∧
      Evolves fileId call before after ∧ step db call = db.put fileId after := by
  cases call with
  | commit outcome fileId expected next =>
    obtain ⟨before, hb⟩ := h fileId
    simp only [step, commit, commitBody_eq hb]
    refine (settle_put db outcome _ _ fileId _).imp_right ?_
    rintro ⟨after, hc, hs⟩
    obtain ⟨hvalid, hevolves⟩ := Entry.commit_evolves hc outcome
    exact ⟨fileId, before, after, hb, hvalid, hevolves, hs⟩
  | beginFinalization outcome fileId expected marker =>
    obtain ⟨before, hb⟩ := h fileId
    simp only [step, beginFinalization, beginFinalizationBody_eq hb]
    refine (settle_put db outcome _ _ fileId _).imp_right ?_
    rintro ⟨after, hc, hs⟩
    obtain ⟨hvalid, hevolves⟩ := Entry.beginFinalization_evolves hc outcome
    exact ⟨fileId, before, after, hb, hvalid, hevolves, hs⟩
  | finishFinalization outcome fileId expected =>
    obtain ⟨before, hb⟩ := h fileId
    simp only [step, finishFinalization, finishFinalizationBody_eq hb]
    refine (settle_put db outcome _ _ fileId _).imp_right ?_
    rintro ⟨after, hc, hs⟩
    obtain ⟨hvalid, hevolves⟩ := Entry.finishFinalization_evolves hc outcome
    exact ⟨fileId, before, after, hb, hvalid, hevolves, hs⟩

theorem step_holds {db : SqliteStore} (h : ∀ fileId, ∃ entry, Holds db fileId entry) (call : Call)
    (fileId : Path) {before : Entry} (hb : Holds db fileId before) :
    ∃ after, Holds (step db call) fileId after ∧ Evolves fileId call before after := by
  rcases step_eq h call with heq | ⟨other, entry, after, hentry, hvalid, hevolves, heq⟩
  · exact ⟨before, by rw [heq]; exact hb, .kept call before⟩
  · rw [heq]
    by_cases hpath : fileId = other
    · subst hpath
      rw [hb.unique hentry]
      exact ⟨after, holds_put hvalid, hevolves⟩
    · exact ⟨before, hb.put_of_ne hpath, .kept call before⟩

theorem run_holds {db : SqliteStore} (h : ∀ fileId, ∃ entry, Holds db fileId entry) (calls : List Call)
    (fileId : Path) : ∃ entry, Holds (run db calls) fileId entry := by
  induction calls generalizing db with
  | nil => exact h fileId
  | cons call calls ih =>
    refine ih fun other => ?_
    obtain ⟨before, hb⟩ := h other
    obtain ⟨after, ha, -⟩ := step_holds h call other hb
    exact ⟨after, ha⟩

theorem run_empty_holds (calls : List Call) (fileId : Path) :
    ∃ entry, Holds (run empty calls) fileId entry :=
  run_holds (fun fileId => ⟨.missing, holds_empty fileId⟩) calls fileId

theorem run_blocked {db : SqliteStore} (h : ∀ fileId, ∃ entry, Holds db fileId entry)
    (calls : List Call) {fileId : Path} {current : SnapshotRecord}
    (hc : Holds db fileId (.present current)) (hb : current.header.blockedReason ≠ none) :
    Holds (run db calls) fileId (.present current) := by
  induction calls generalizing db with
  | nil => exact hc
  | cons call calls ih =>
    obtain ⟨after, ha, hevolves⟩ := step_holds h call fileId hc
    rw [hevolves.blocked hb] at ha
    exact ih (fun other => run_holds h [call] other) ha

theorem storeHistory (calls : List Call) (call : Call) (fileId : Path) :
    ∃ before after,
      (run empty calls).load fileId = .ok before ∧
      (run empty calls).snapshots fileId = snapshotCell fileId before ∧
      (run empty calls).finalizations fileId = finalizationCell fileId before ∧
      ((run empty calls).snapshots fileId = none ∨ (run empty calls).finalizations fileId = none) ∧
      (run empty (calls ++ [call])).load fileId = .ok after ∧
      Evolves fileId call before after ∧
      ∀ current, before = .present current → current.header.blockedReason ≠ none →
        ∀ later, (run empty (calls ++ later)).load fileId = .ok (.present current) := by
  have hall := run_empty_holds calls
  obtain ⟨before, hb⟩ := hall fileId
  obtain ⟨after, ha, hevolves⟩ := step_holds hall call fileId hb
  refine ⟨before, after, hb.loadRecord, hb.snapshots, hb.finalizations, ?_, ?_, hevolves, ?_⟩
  · rw [hb.snapshots, hb.finalizations]
    cases before
    · exact .inl rfl
    · exact .inr rfl
    · exact .inl rfl
  · rw [run, List.foldl_append]
    exact ha.loadRecord
  · rintro current rfl hblocked later
    rw [run, List.foldl_append]
    exact (run_blocked hall later hb hblocked).loadRecord

end SqliteStore

end FileGuard.Store
