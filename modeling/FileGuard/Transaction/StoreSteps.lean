import FileGuard.Store.Definite
import FileGuard.Store.Ledger
import FileGuard.Transaction.Manager

namespace FileGuard.Transaction

open Store Files CrashLogic

variable {host : Host} {allowed : World → Choice → Prop} {G : World → World → Prop} {w : World}

theorem wp_perform_alone {ε : Type} {o : Op} {Q : Except ε o.Resp → World → Prop} :
    wp (alone host allowed) G (perform o) Q w ↔
      ∀ c, allowed w c → G w (w.exec host c o).2 ∧ Q (.ok (w.exec host c o).1) (w.exec host c o).2 := by
  constructor
  · intro h c hc
    exact h w rfl _ _ ⟨c, hc, rfl⟩
  · rintro h w₁ rfl r w₂ ⟨c, hc, he⟩
    have := h c hc
    rw [he] at this
    exact this

theorem settle_cases {α δ : Type} (s : δ) (outcome : SqliteStore.CommitOutcome) (what : String) (answer : α)
    (body : StoreResult δ) :
    (∃ error, body = .error error ∧ SqliteStore.settle s outcome what answer body = (.error error, s)) ∨
      ∃ next, body = .ok next ∧
        (SqliteStore.settle s outcome what answer body = (.ok answer, next) ∨
          (∃ message, outcome = .refused message ∧
            SqliteStore.settle s outcome what answer body = (.error (.sqlite message), s)) ∨
          ∃ committed message, outcome = .uncertain committed message ∧
            SqliteStore.settle s outcome what answer body =
              (.error (.indeterminate s!"SQLite {what} returned an uncertain result: {message}"),
                if committed then next else s)) := by
  cases body with
  | error error => exact .inl ⟨error, rfl, rfl⟩
  | ok next =>
    cases outcome with
    | acknowledged => exact .inr ⟨next, rfl, .inl rfl⟩
    | refused message => exact .inr ⟨next, rfl, .inr (.inl ⟨message, rfl, rfl⟩)⟩
    | uncertain committed message =>
      exact .inr ⟨next, rfl, .inr (.inr ⟨committed, message, rfl, rfl⟩)⟩

def isIndeterminate : TxError → Bool
  | .store _ (.indeterminate _) => true
  | _ => false

/-- How a mounted update of a record ends: the successor is committed and answered, or an error is
answered, and then nothing is committed unless the error says that it may have been. -/
inductive Updated (p : Path) (current : SnapshotRecord) (contents : Bytes) (w : World) :
    Except TxError SnapshotRecord → World → Prop where
  | acknowledged (w' : World)
      (accepted : (w.store p).commit p (some current.version) (mountedSuccessor current contents) =
        .ok (.present (mountedSuccessor current contents)))
      (committed : w' = w.putEntry p (.present (mountedSuccessor current contents))) :
      Updated p current contents w (.ok (mountedSuccessor current contents)) w'
  | failed (error : TxError) (w' : World) (same : w' = w) : Updated p current contents w (.error error) w'
  | uncertain (error : TxError) (w' : World) (indeterminate : isIndeterminate error = true)
      (accepted : (w.store p).commit p (some current.version) (mountedSuccessor current contents) =
        .ok (.present (mountedSuccessor current contents)))
      (committed : w' = w.putEntry p (.present (mountedSuccessor current contents))) :
      Updated p current contents w (.error error) w'

theorem Entry_commit_ok {p : Path} {entry after : Entry} {expected : Option RecordVersion}
    {next : SnapshotRecord} (h : entry.commit p expected next = .ok after) : after = .present next := by
  unfold Entry.commit at h
  obtain ⟨-, h⟩ := check_eq_ok.mp h
  obtain ⟨-, -, h⟩ := bind_eq_ok.mp h
  obtain ⟨-, h⟩ := check_eq_ok.mp h
  cases h
  rfl

@[simp] theorem ofStore_ok {α : Type} (a : α) : ofStore (.ok a) = (.pure a : TxProg α) := rfl

@[simp] theorem ofStore_error {α : Type} (e : StoreError) :
    (ofStore (.error e) : TxProg α) = .fail (.store none e) := rfl

theorem recordPath_eq {p : Path} {record : SnapshotRecord}
    (h : record.header.pathHex = pathToHex p) : recordPath record = .pure p := by
  rw [recordPath, h, pathFromHex_pathToHex, ofStore_ok]

theorem accepted_of_map {p : Path} {expected : Option RecordVersion} {next : SnapshotRecord} {w' : World}
    (h : ((w.store p).commit p expected next).map (w.putEntry p) = .ok w') :
    (w.store p).commit p expected next = .ok (.present next) ∧ w' = w.putEntry p (.present next) := by
  cases hc : (w.store p).commit p expected next with
  | error error => rw [hc] at h; cases h
  | ok after =>
    rw [hc] at h
    cases h
    rw [Entry_commit_ok hc]
    exact ⟨rfl, rfl⟩

theorem error_of_map {α δ : Type} {x : StoreResult α} {f : α → δ} {error : StoreError}
    (h : x.map f = .error error) : x = .error error := by
  cases x with
  | error e => cases h; rfl
  | ok a => cases h

theorem exec_load (c : Choice) (p : Path) :
    (∃ message, w.exec host c (.load p) = (.error (.sqlite message), w)) ∨
      w.exec host c (.load p) = (.ok (w.store p), w) := by
  simp only [World.exec]
  split
  · exact .inl ⟨_, rfl⟩
  · exact .inr rfl

theorem observeCandidate_spec {p : Path} {next : SnapshotRecord} {commitError : String} :
    wp (alone host allowed) (fun _ _ => True) (observeCandidate p next commitError)
      (fun r w' => w' = w ∧ (r = .ok next ∧ w.store p = .present next ∨
        ∃ e, r = .error e ∧ isIndeterminate e = true)) w := by
  unfold observeCandidate
  rw [Prog.bind_eq, wp_bind]
  refine wp_perform_alone.mpr fun c _ => ⟨trivial, ?_⟩
  rcases exec_load c p with ⟨message, he⟩ | he
  · rw [he]
    exact ⟨rfl, .inr ⟨_, rfl, rfl⟩⟩
  · rw [he, onOk_ok]
    cases hs : w.store p with
    | missing => exact ⟨rfl, .inr ⟨_, rfl, rfl⟩⟩
    | finalizing marker => exact ⟨rfl, .inr ⟨_, rfl, rfl⟩⟩
    | present observed =>
      simp only
      split_ifs with ho
      · subst ho
        exact ⟨rfl, .inl ⟨rfl, rfl⟩⟩
      · exact ⟨rfl, .inr ⟨_, rfl, rfl⟩⟩

theorem commit_present {p : Path} {entry after : Entry} {version : RecordVersion} {next : SnapshotRecord}
    (h : entry.commit p (some version) next = .ok after) :
    ∃ row, entry = .present row ∧ row.version = version ∧
      next.header.revision = row.header.revision + 1 := by
  unfold Entry.commit at h
  obtain ⟨hv, -⟩ := check_eq_ok.mp h
  obtain ⟨row, rfl, rfl, -, hr, -⟩ := validateSuccessor_some hv
  exact ⟨row, rfl, rfl, hr⟩

theorem updateContents_spec {p : Path} {current : SnapshotRecord} {contents : Bytes}
    (hp : current.header.pathHex = pathToHex p) :
    wp (alone host allowed) (fun _ _ => True) (updateContents current contents)
      (Updated p current contents w) w := by
  unfold updateContents requireUnblocked
  simp only [recordPath_eq hp, Prog.bind_eq, Prog.pure_bind]
  cases current.header.blockedReason with
  | some reason => exact .failed _ w rfl
  | none =>
    simp only [Prog.pure_bind]
    split_ifs with hm
    · exact .failed _ w rfl
    · rw [wp_bind]
      refine wp_perform_alone.mpr fun c _ => ⟨trivial, ?_⟩
      simp only [World.exec, World.commitEntry, onOk_ok]
      rcases settle_cases w c.answer "snapshot commit" (mountedSuccessor current contents).version
        (((w.store p).commit p (some current.version) (mountedSuccessor current contents)).map
          (w.putEntry p)) with ⟨error, hbody, hs⟩ | ⟨next, hbody, hs⟩
      · simp only [hs]
        cases error with
        | indeterminate m => exact absurd (error_of_map hbody) (definite_commit _ _ _ _ m)
        | _ => exact .failed _ w rfl
      · obtain ⟨haccepted, rfl⟩ := accepted_of_map hbody
        rcases hs with hs | ⟨message, -, hs⟩ | ⟨committed, message, -, hs⟩
        · simp only [hs, ↓reduceIte]
          exact .acknowledged _ haccepted rfl
        · simp only [hs]
          exact .failed _ w rfl
        · simp only [hs]
          refine wp_mono observeCandidate_spec ?_
          rintro r w' ⟨rfl, ⟨rfl, hstore⟩ | ⟨e, rfl, he⟩⟩
          · cases committed with
            | true => exact .acknowledged _ haccepted rfl
            | false =>
              obtain ⟨row, hrow, -, hrev⟩ := commit_present haccepted
              rw [if_neg Bool.false_ne_true, hrow] at hstore
              cases hstore
              omega
          · cases committed with
            | true => exact .uncertain e _ he haccepted rfl
            | false => exact .failed e _ rfl

theorem commitEntry_store {β : Type} (c : Choice) (p : Path) (what : String) (answer : β) (body : StoreResult Entry) :
    (w.commitEntry c p what answer body).2.store = w.store ∨
      ∃ after, body = .ok after ∧ (w.commitEntry c p what answer body).2.store = Function.update w.store p after := by
  unfold World.commitEntry
  rcases settle_cases w c.answer what answer (body.map (w.putEntry p)) with ⟨error, -, hs⟩ | ⟨next, hbody, hs⟩
  · rw [hs]
    exact .inl rfl
  · cases body with
    | error error => cases hbody
    | ok after =>
      cases hbody
      rcases hs with hs | ⟨message, -, hs⟩ | ⟨committed, message, -, hs⟩
      · rw [hs]
        exact .inr ⟨after, rfl, rfl⟩
      · rw [hs]
        exact .inl rfl
      · rw [hs]
        cases committed with
        | true => exact .inr ⟨after, rfl, rfl⟩
        | false => exact .inl rfl

@[simp] theorem expose_store (slot : Slot) (object : ObjectId) : (w.expose slot object).store = w.store := by
  unfold World.expose
  split <;> rfl

/-- A call that may change what the database holds. -/
def submits : Op → Bool
  | .commit .. | .beginFinalization .. | .finishFinalization .. => true
  | _ => false

theorem exec_quiet {c : Choice} {o : Op} (h : submits o = false) : (w.exec host c o).2.store = w.store := by
  cases o with
  | commit | beginFinalization | finishFinalization => cases h
  | alter file alteration =>
    cases alteration <;> simp only [World.exec] <;> (try split_ifs) <;> rfl
  | _ =>
    simp only [World.exec]
    repeat' split
    all_goals first | rfl | (simp only [World.moveName, World.swapNames, expose_store]; rfl)

theorem exec_store (c : Choice) (o : Op) :
    (w.exec host c o).2.store = w.store ∨ ∃ call after, (w.store call.path).apply call = .ok after ∧
      (w.exec host c o).2.store = Function.update w.store call.path after := by
  cases o with
  | commit p expected next =>
    apply (commitEntry_store c p _ _ _).imp_right
    rintro ⟨after, hafter, hstore⟩
    exact ⟨.commit c.answer p expected next, after, hafter, hstore⟩
  | beginFinalization p expected marker =>
    apply (commitEntry_store c p _ _ _).imp_right
    rintro ⟨after, hafter, hstore⟩
    exact ⟨.beginFinalization c.answer p expected marker, after, hafter, hstore⟩
  | finishFinalization p expected =>
    apply (commitEntry_store c p _ _ _).imp_right
    rintro ⟨after, hafter, hstore⟩
    exact ⟨.finishFinalization c.answer p expected, after, hafter, hstore⟩
  | _ => exact .inl (exec_quiet rfl)

end FileGuard.Transaction
