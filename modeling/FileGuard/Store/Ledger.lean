import FileGuard.Store.History

namespace FileGuard.Store

/-! The calls a store has accepted, and what each of them did to the entry of its path. -/

def SqliteStore.CommitOutcome.committed : SqliteStore.CommitOutcome → Bool
  | .acknowledged => true
  | .refused _ => false
  | .uncertain committed _ => committed

namespace Call

def path : Call → Path
  | .commit _ fileId _ _ | .beginFinalization _ fileId _ _ | .finishFinalization _ fileId _ => fileId

/-- What the entry of the path is once the call is accepted. -/
def entry : Call → Entry
  | .commit _ _ _ next => .present next
  | .beginFinalization _ _ _ marker => .finalizing marker
  | .finishFinalization .. => .missing

def outcome : Call → SqliteStore.CommitOutcome
  | .commit outcome .. | .beginFinalization outcome .. | .finishFinalization outcome .. => outcome

end Call

def Entry.apply (entry : Entry) : Call → StoreResult Entry
  | .commit _ fileId expected next => entry.commit fileId expected next
  | .beginFinalization _ fileId expected marker => entry.beginFinalization fileId expected marker
  | .finishFinalization _ _ expected => entry.finishFinalization expected

namespace SqliteStore

def body (db : SqliteStore) : Call → StoreResult SqliteStore
  | .commit _ fileId expected next => commitBody db fileId expected next
  | .beginFinalization _ fileId expected marker => beginFinalizationBody db fileId expected marker
  | .finishFinalization _ fileId expected => finishFinalizationBody db fileId expected

/-- The transaction of the call is on disk, whatever SQLite answered. -/
def accepts (db : SqliteStore) (call : Call) : Bool := (db.body call).isOk && call.outcome.committed

def accepted (db : SqliteStore) : List Call → List Call
  | [] => []
  | call :: calls =>
    if accepts db call then call :: accepted (step db call) calls else accepted (step db call) calls

end SqliteStore

/-- The entry that the last accepted call of a path left. -/
def lastEntry (fileId : Path) (calls : List Call) : Entry :=
  (calls.filter fun call => call.path = fileId).getLast?.elim .missing Call.entry

namespace Entry

theorem commit_inv {fileId : Path} {entry after : Entry} {expected : Option RecordVersion}
    {next : SnapshotRecord} (h : entry.commit fileId expected next = .ok after) :
    after = .present next ∧ validateSnapshot next = .ok () ∧
      (expected = none ∧ entry = .missing ∧ Starts next ∨
        ∃ current, expected = some current.version ∧ entry = .present current ∧ Succeeds current next) := by
  unfold commit at h
  obtain ⟨hv, h⟩ := check_eq_ok.mp h
  obtain ⟨-, -, h⟩ := bind_eq_ok.mp h
  obtain ⟨-, h⟩ := check_eq_ok.mp h
  cases h
  refine ⟨rfl, (validateSuccessor_snapshot hv).1, ?_⟩
  cases expected with
  | none =>
    obtain ⟨rfl, hstarts⟩ := validateSuccessor_none hv
    exact .inl ⟨rfl, rfl, hstarts⟩
  | some version =>
    obtain ⟨current, rfl, rfl, -, hr, hfields⟩ := validateSuccessor_some hv
    exact .inr ⟨current, rfl, rfl, validateSuccessorFields_succeeds hr hfields⟩

theorem beginFinalization_inv {fileId : Path} {entry after : Entry} {expected : RecordVersion}
    {marker : FinalizationRecord} (h : entry.beginFinalization fileId expected marker = .ok after) :
    after = .finalizing marker ∧ validateFinalization marker = .ok () ∧
      ∃ current, expected = current.version ∧ entry = .present current ∧
        current.header.blockedReason = none ∧ isDeleteIntent current.header.lifecycle = true ∧
        marker.pathHex = pathToHex fileId ∧
        marker.version = ⟨current.header.generation, current.header.revision + 1⟩ := by
  unfold beginFinalization at h
  obtain ⟨hv, h⟩ := check_eq_ok.mp h
  obtain ⟨hm, h⟩ := check_eq_ok.mp h
  simp only [conflictIf_eq_ok, not_or, not_not] at hm
  obtain ⟨hp, hg, hr⟩ := hm
  cases entry with
  | missing => cases h
  | finalizing other => cases h
  | present current =>
    obtain ⟨hversion, h⟩ := check_eq_ok.mp h
    obtain ⟨hdelete, h⟩ := check_eq_ok.mp h
    obtain ⟨-, -, h⟩ := bind_eq_ok.mp h
    obtain ⟨-, h⟩ := check_eq_ok.mp h
    cases h
    rw [conflictIf_eq_ok, not_not] at hversion
    subst hversion
    simp only [conflictIf_eq_ok, not_or, Bool.not_eq_true, Option.isSome_eq_false_iff,
      Option.isNone_iff_eq_none, Bool.not_eq_false] at hdelete
    refine ⟨rfl, hv, current, rfl, rfl, hdelete.1, hdelete.2, hp, ?_⟩
    rw [FinalizationRecord.version, hg, hr]
    rfl

theorem finishFinalization_inv {entry after : Entry} {expected : RecordVersion}
    (h : entry.finishFinalization expected = .ok after) :
    after = .missing ∧ ∃ marker, expected = marker.version ∧ entry = .finalizing marker := by
  unfold finishFinalization at h
  cases entry with
  | missing => cases h
  | present record => cases h
  | finalizing marker =>
    obtain ⟨hversion, h⟩ := check_eq_ok.mp h
    rw [conflictIf_eq_ok, not_not] at hversion
    cases h
    exact ⟨rfl, marker, hversion.symm, rfl⟩

theorem apply_entry {entry after : Entry} {call : Call} (h : entry.apply call = .ok after) :
    after = call.entry := by
  cases call with
  | commit => exact (commit_inv h).1
  | beginFinalization => exact (beginFinalization_inv h).1
  | finishFinalization => exact (finishFinalization_inv h).1

theorem apply_valid {entry after : Entry} {call : Call} (h : entry.apply call = .ok after) :
    after.Valid call.path := by
  cases call with
  | commit outcome => exact (commit_evolves h outcome).1
  | beginFinalization outcome => exact (beginFinalization_evolves h outcome).1
  | finishFinalization outcome fileId => exact (@finishFinalization_evolves fileId _ _ _ h outcome).1

end Entry

namespace SqliteStore

variable {db : SqliteStore}

theorem body_eq {call : Call} {before : Entry} (h : Holds db call.path before) :
    db.body call = (before.apply call).map (db.put call.path) := by
  cases call with
  | commit => exact commitBody_eq h _ _
  | beginFinalization => exact beginFinalizationBody_eq h _ _
  | finishFinalization => exact finishFinalizationBody_eq h _

theorem settle_accepted {α : Type} (outcome : CommitOutcome) (what : String) (answer : α)
    (result : StoreResult SqliteStore) :
    (settle db outcome what answer result).2 =
      if outcome.committed then result.toOption.getD db else db := by
  cases result with
  | error error => cases outcome.committed <;> rfl
  | ok next =>
    cases outcome with
    | acknowledged => rfl
    | refused message => rfl
    | uncertain committed message => cases committed <;> rfl

theorem step_body (call : Call) :
    step db call = if call.outcome.committed then (db.body call).toOption.getD db else db := by
  cases call with
  | commit => exact settle_accepted ..
  | beginFinalization => exact settle_accepted ..
  | finishFinalization => exact settle_accepted ..

theorem step_accepts {call : Call} {before : Entry} (h : Holds db call.path before) :
    accepts db call = false ∧ step db call = db ∨
      accepts db call = true ∧ before.apply call = .ok call.entry ∧
        step db call = db.put call.path call.entry := by
  rw [step_body, accepts, body_eq h]
  cases ha : before.apply call with
  | error error =>
    refine .inl ⟨rfl, ?_⟩
    cases call.outcome.committed <;> rfl
  | ok after =>
    rw [Entry.apply_entry ha]
    cases call.outcome.committed
    · exact .inl ⟨rfl, rfl⟩
    · exact .inr ⟨rfl, rfl, rfl⟩

theorem accepted_append (calls : List Call) (call : Call) :
    accepted db (calls ++ [call]) =
      accepted db calls ++ if accepts (run db calls) call then [call] else [] := by
  induction calls generalizing db with
  | nil => rfl
  | cons first calls ih =>
    simp only [List.cons_append, accepted, ih]
    split <;> rfl

theorem run_append (calls : List Call) (call : Call) : run db (calls ++ [call]) = step (run db calls) call := by
  rw [run, List.foldl_append]
  rfl

end SqliteStore

theorem lastEntry_append (fileId : Path) (calls : List Call) (call : Call) :
    lastEntry fileId (calls ++ [call]) =
      if call.path = fileId then call.entry else lastEntry fileId calls := by
  unfold lastEntry
  rw [List.filter_append]
  by_cases h : call.path = fileId
  · simp [h]
  · simp [h]

namespace SqliteStore

/-- Every path holds what the last accepted call of the path left there. -/
theorem run_holds_lastEntry (calls : List Call) (fileId : Path) :
    Holds (run empty calls) fileId (lastEntry fileId (accepted empty calls)) := by
  induction calls using List.reverseRecOn generalizing fileId with
  | nil => exact holds_empty fileId
  | append_singleton calls call ih =>
    rw [run_append, accepted_append]
    rcases step_accepts (ih call.path) with ⟨ha, hs⟩ | ⟨ha, happly, hs⟩
    · rw [ha, hs]
      simpa using ih fileId
    · rw [ha, hs, if_pos rfl, lastEntry_append]
      split_ifs with hp
      · rw [← hp]
        exact holds_put (Entry.apply_valid happly)
      · exact (ih fileId).put_of_ne (Ne.symm hp)

end SqliteStore

end FileGuard.Store
