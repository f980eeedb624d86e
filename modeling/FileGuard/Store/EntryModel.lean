import FileGuard.Store.Sqlite

namespace FileGuard.Store

/-! What the database does to one path: the entry it holds, and the entry after each call. -/

def fitsRow (h : RecordHeader) : Prop := h.revision < revisionLimit ∧ headerLength h ≤ headerLimit

instance (h : RecordHeader) : Decidable (fitsRow h) := inferInstanceAs (Decidable (_ ∧ _))

def headerFits (h : RecordHeader) : StoreResult Unit :=
  if headerLength h ≤ headerLimit then .ok () else SqliteStore.constraint "snapshots"

def markerFits (m : FinalizationRecord) : StoreResult Unit :=
  if markerLength m ≤ headerLimit then .ok () else SqliteStore.constraint "finalizations"

namespace Entry

def version : Entry → Option RecordVersion
  | .missing => none
  | .present record => some record.version
  | .finalizing marker => some marker.version

def commit (fileId : Path) (entry : Entry) (expected : Option RecordVersion) (next : SnapshotRecord) :
    StoreResult Entry := do
  validateSuccessor fileId expected entry next
  let _ ← revisionToSql next.header.revision
  headerFits next.header
  .ok (.present next)

def beginFinalization (fileId : Path) (entry : Entry) (expected : RecordVersion)
    (marker : FinalizationRecord) : StoreResult Entry := do
  validateFinalization marker
  conflictIf (marker.pathHex ≠ pathToHex fileId ∨ marker.generation ≠ expected.generation ∨
      marker.revision ≠ expected.revision + 1)
    "finalization marker does not succeed the snapshot"
  match entry with
  | .present current => do
    conflictIf (current.version ≠ expected) "snapshot revision changed before deletion"
    conflictIf (current.header.blockedReason.isSome ∨ isDeleteIntent current.header.lifecycle = false)
      "snapshot finalization requires an unblocked deletion intent"
    let _ ← revisionToSql marker.revision
    markerFits marker
    .ok (.finalizing marker)
  | _ => .error (.conflict "snapshot is not available for finalization")

def finishFinalization (entry : Entry) (expected : RecordVersion) : StoreResult Entry :=
  match entry with
  | .finalizing marker => do
    conflictIf (marker.version ≠ expected) "finalization marker revision changed before deletion"
    .ok .missing
  | _ => .error (.conflict "finalization marker is already absent")

/-- What a stored entry must satisfy to be read back. -/
def Valid (fileId : Path) : Entry → Prop
  | .missing => True
  | .present record => validateSnapshot record = .ok () ∧ record.header.pathHex = pathToHex fileId ∧
      fitsRow record.header
  | .finalizing marker => validateFinalization marker = .ok () ∧ marker.pathHex = pathToHex fileId ∧
      marker.revision < revisionLimit ∧ markerLength marker ≤ headerLimit

instance (fileId : Path) : (entry : Entry) → Decidable (entry.Valid fileId)
  | .missing => inferInstanceAs (Decidable True)
  | .present _ => inferInstanceAs (Decidable (_ ∧ _))
  | .finalizing _ => inferInstanceAs (Decidable (_ ∧ _))

end Entry

theorem revisionToSql_eq_ok {revision : ℕ} {z : ℤ} :
    revisionToSql revision = .ok z ↔ revision < revisionLimit ∧ z = revision := by
  unfold revisionToSql corrupt
  split_ifs with h
  · simp [h, eq_comm]
  · simp [h]

@[simp] theorem headerFits_eq_ok {h : RecordHeader} :
    headerFits h = .ok () ↔ headerLength h ≤ headerLimit := by
  unfold headerFits SqliteStore.constraint
  split_ifs with hl <;> simp [hl]

@[simp] theorem markerFits_eq_ok {m : FinalizationRecord} :
    markerFits m = .ok () ↔ markerLength m ≤ headerLimit := by
  unfold markerFits SqliteStore.constraint
  split_ifs with hl <;> simp [hl]

theorem phaseName_mem (l : Lifecycle) : phaseName l ∈ phases := by
  cases l <;> simp [phaseName, phases]

/-- The checks of `validateSnapshot` that do not depend on the phase. -/
structure SnapshotFacts (record : SnapshotRecord) : Prop where
  revision : record.header.revision ≠ 0
  generation : validateToken record.header.generation "generation" = .ok ()
  length : record.contents.length ≤ maxCredentialSize
  digest : record.header.contentSha256 = sha256 record.contents
  placeholder : validatePlaceholder record.header = .ok ()
  original : validateOriginal record.header = .ok ()
  emptyWhenAbsent : record.header.logicalPresent = false → record.contents = []
  structural : validateLifecycleStructure record.header record.header.lifecycle = .ok ()

theorem validateSnapshot_facts {record : SnapshotRecord} (h : validateSnapshot record = .ok ()) :
    SnapshotFacts record := by
  simp only [validateSnapshot, check_eq_ok, corruptIf_eq_ok] at h
  obtain ⟨-, hrev, hgen, -, hlen, hsha, -, -, -, -, -, hph, -, horig, hempty, -, hlife⟩ := h
  refine ⟨hrev, hgen, not_lt.mp hlen, not_not.mp hsha, hph, horig, fun hl => ?_, hlife⟩
  by_contra hc
  exact hempty ⟨hl, hc⟩

theorem validateToken_length {value label : String} (h : validateToken value label = .ok ()) :
    value.length = 32 := by
  rw [validateToken, corruptIf_eq_ok, not_not] at h
  exact h.1

theorem validateFinalization_facts {marker : FinalizationRecord}
    (h : validateFinalization marker = .ok ()) :
    marker.revision ≠ 0 ∧ marker.generation.length = 32 := by
  simp only [validateFinalization, check_eq_ok, corruptIf_eq_ok, not_or] at h
  exact ⟨h.1.2, validateToken_length h.2.1⟩

theorem validateSuccessor_snapshot {fileId : Path} {expected : Option RecordVersion} {current : Entry}
    {next : SnapshotRecord} (h : validateSuccessor fileId expected current next = .ok ()) :
    validateSnapshot next = .ok () ∧ next.header.pathHex = pathToHex fileId := by
  unfold validateSuccessor at h
  obtain ⟨hv, h⟩ := check_eq_ok.mp h
  obtain ⟨hp, -⟩ := check_eq_ok.mp h
  exact ⟨hv, not_not.mp (conflictIf_eq_ok.mp hp)⟩

/-- A candidate that may start a generation. -/
structure Starts (next : SnapshotRecord) : Prop where
  revision : next.header.revision = 1
  phase : next.header.lifecycle = .captured
  presence : next.header.logicalPresent = next.header.original.existed
  placeholder : next.header.placeholder = none
  unblocked : next.header.blockedReason = none

theorem validateSuccessor_none {fileId : Path} {current : Entry} {next : SnapshotRecord}
    (h : validateSuccessor fileId none current next = .ok ()) : current = .missing ∧ Starts next := by
  unfold validateSuccessor at h
  obtain ⟨-, h⟩ := check_eq_ok.mp h
  obtain ⟨-, h⟩ := check_eq_ok.mp h
  cases current with
  | missing =>
    obtain ⟨hr, hl, hp, hh, hb⟩ := not_not.mp (conflictIf_eq_ok.mp h)
    exact ⟨rfl, hr, hl, hp, hh, hb⟩
  | present record => cases h
  | finalizing marker => cases h

theorem validateSuccessor_some {fileId : Path} {expected : RecordVersion} {current : Entry}
    {next : SnapshotRecord} (h : validateSuccessor fileId (some expected) current next = .ok ()) :
    ∃ record, current = .present record ∧ record.version = expected ∧
      next.header.generation = expected.generation ∧ next.header.revision = expected.revision + 1 ∧
      validateSuccessorFields record next = .ok () := by
  unfold validateSuccessor at h
  obtain ⟨-, h⟩ := check_eq_ok.mp h
  obtain ⟨-, h⟩ := check_eq_ok.mp h
  cases current with
  | missing => cases h
  | finalizing marker => cases h
  | present record =>
    obtain ⟨hv, h⟩ := check_eq_ok.mp h
    obtain ⟨hn, h⟩ := check_eq_ok.mp h
    rw [conflictIf_eq_ok, not_not] at hv
    rw [conflictIf_eq_ok, not_or, not_not, not_not] at hn
    exact ⟨record, rfl, hv, hn.1, hn.2, h⟩

namespace SqliteStore

def snapshotCell (fileId : Path) : Entry → Option StoredRow
  | .present record => some (storedRow fileId record.header.revision record)
  | _ => none

def finalizationCell (fileId : Path) : Entry → Option StoredFinalization
  | .finalizing marker => some (finalizationRow fileId marker.revision marker)
  | _ => none

/-- The database with the entry of one path replaced. -/
def put (db : SqliteStore) (fileId : Path) (entry : Entry) : SqliteStore where
  snapshots := Function.update db.snapshots fileId (snapshotCell fileId entry)
  finalizations := Function.update db.finalizations fileId (finalizationCell fileId entry)

/-- The database holds exactly this entry for the path. -/
def Holds (db : SqliteStore) (fileId : Path) (entry : Entry) : Prop :=
  Entry.Valid fileId entry ∧ db = db.put fileId entry

theorem decodeRow_storedRow {fileId : Path} {record : SnapshotRecord}
    (h : validateSnapshot record = .ok ()) (hp : record.header.pathHex = pathToHex fileId) :
    decodeRow (storedRow fileId record.header.revision record) = .ok record := by
  unfold decodeRow
  refine check_eq_ok.mpr ⟨corruptIf_eq_ok.mpr ?_, check_eq_ok.mpr ⟨corruptIf_eq_ok.mpr ?_,
    check_eq_ok.mpr ⟨h, rfl⟩⟩⟩
  · simp [storedRow]
  · simp [storedRow, hp, pathToHex]

theorem decodeFinalization_finalizationRow {fileId : Path} {marker : FinalizationRecord}
    (h : validateFinalization marker = .ok ()) (hp : marker.pathHex = pathToHex fileId) :
    decodeFinalization (finalizationRow fileId marker.revision marker) = .ok marker := by
  unfold decodeFinalization
  refine check_eq_ok.mpr ⟨corruptIf_eq_ok.mpr ?_, check_eq_ok.mpr ⟨corruptIf_eq_ok.mpr ?_,
    check_eq_ok.mpr ⟨h, rfl⟩⟩⟩
  · simp [finalizationRow]
  · simp [finalizationRow, hp, pathToHex]

theorem Holds.snapshots {db : SqliteStore} {fileId : Path} {entry : Entry} (h : Holds db fileId entry) :
    db.snapshots fileId = snapshotCell fileId entry := by
  rw [h.2]
  exact Function.update_self ..

theorem Holds.finalizations {db : SqliteStore} {fileId : Path} {entry : Entry}
    (h : Holds db fileId entry) : db.finalizations fileId = finalizationCell fileId entry := by
  rw [h.2]
  exact Function.update_self ..

theorem Holds.loadRecord {db : SqliteStore} {fileId : Path} {entry : Entry}
    (h : Holds db fileId entry) : loadRecord db fileId = .ok entry := by
  have hs := h.snapshots
  have hf := h.finalizations
  cases entry with
  | missing => simp only [SqliteStore.loadRecord, hs, hf, snapshotCell, finalizationCell]
  | present record =>
    simp only [SqliteStore.loadRecord, hs, snapshotCell, decodeRow_storedRow h.1.1 h.1.2.1]
    rfl
  | finalizing marker =>
    simp only [SqliteStore.loadRecord, hs, hf, snapshotCell, finalizationCell,
      decodeFinalization_finalizationRow h.1.1 h.1.2.1]
    rfl

theorem put_put (db : SqliteStore) (fileId : Path) (before after : Entry) :
    (db.put fileId before).put fileId after = db.put fileId after := by
  simp [put]

theorem holds_put {db : SqliteStore} {fileId : Path} {entry : Entry} (h : entry.Valid fileId) :
    Holds (db.put fileId entry) fileId entry := ⟨h, (put_put db fileId entry entry).symm⟩

theorem Holds.put_of_ne {db : SqliteStore} {fileId other : Path} {entry before : Entry}
    (hne : fileId ≠ other) (h : Holds db fileId before) : Holds (db.put other entry) fileId before := by
  refine ⟨h.1, ?_⟩
  have hs := h.snapshots
  have hf := h.finalizations
  simp only [put]
  congr 1
  · rw [Function.update_comm hne.symm, ← hs, Function.update_eq_self]
  · rw [Function.update_comm hne.symm, ← hf, Function.update_eq_self]

theorem Holds.unique {db : SqliteStore} {fileId : Path} {a b : Entry} (ha : Holds db fileId a)
    (hb : Holds db fileId b) : a = b :=
  Except.ok.inj (ha.loadRecord.symm.trans hb.loadRecord)

theorem holds_empty (fileId : Path) : Holds empty fileId .missing := by
  refine ⟨trivial, ?_⟩
  simp only [put, empty]
  congr 1 <;> exact (Function.update_eq_self _ _).symm

theorem checked_storedRow {fileId : Path} {next : SnapshotRecord} (h : validateSnapshot next = .ok ()) :
    (storedRow fileId next.header.revision next).Checked ↔ headerLength next.header ≤ headerLimit := by
  have hf := validateSnapshot_facts h
  have hg := validateToken_length hf.generation
  have hr : 0 < next.header.revision := Nat.pos_of_ne_zero hf.revision
  simp [StoredRow.Checked, storedRow, hg, hr, phaseName_mem, hf.length]

theorem insertSnapshot_eq {db : SqliteStore} {fileId : Path} {next : SnapshotRecord}
    (h : Holds db fileId .missing) (hv : validateSnapshot next = .ok ()) :
    insertSnapshot db (storedRow fileId next.header.revision next) =
      (headerFits next.header).map (fun _ => db.put fileId (.present next)) := by
  have hs : db.snapshots (storedRow fileId next.header.revision next).path = none := h.snapshots
  have hf : db.finalizations fileId = none := h.finalizations
  unfold insertSnapshot headerFits
  by_cases hl : headerLength next.header ≤ headerLimit
  · rw [if_pos ⟨hs, (checked_storedRow hv).mpr hl⟩, if_pos hl]
    simp only [put, snapshotCell, finalizationCell, Except.map]
    rw [← hf, Function.update_eq_self]
    rfl
  · rw [if_neg (fun hc => hl ((checked_storedRow hv).mp hc.2)), if_neg hl]
    rfl

theorem updateSnapshot_eq {db : SqliteStore} {fileId : Path} {current next : SnapshotRecord}
    (h : Holds db fileId (.present current)) (hv : validateSnapshot next = .ok ())
    (hg : next.header.generation = current.header.generation) :
    updateSnapshot db current.header.generation current.header.revision
        (storedRow fileId next.header.revision next) =
      (headerFits next.header).map (fun _ => db.put fileId (.present next)) := by
  have hs : db.snapshots (storedRow fileId next.header.revision next).path =
    some (storedRow fileId current.header.revision current) := h.snapshots
  have hf : db.finalizations fileId = none := h.finalizations
  have hrow : { storedRow fileId next.header.revision next with
      generation := (storedRow fileId current.header.revision current).generation } =
      storedRow fileId next.header.revision next := by
    simp [storedRow, hg]
  have hsame : (storedRow fileId current.header.revision current).generation =
      current.header.generation ∧
      (storedRow fileId current.header.revision current).revision = current.header.revision := ⟨rfl, rfl⟩
  unfold updateSnapshot headerFits
  simp only [hs]
  rw [if_pos hsame, hrow]
  by_cases hl : headerLength next.header ≤ headerLimit
  · rw [if_pos ((checked_storedRow hv).mpr hl), if_pos hl]
    simp only [put, snapshotCell, finalizationCell, Except.map]
    rw [← hf, Function.update_eq_self]
    rfl
  · rw [if_neg (fun hc => hl ((checked_storedRow hv).mp hc)), if_neg hl]
    rfl

theorem commitBody_eq {db : SqliteStore} {fileId : Path} {entry : Entry} (h : Holds db fileId entry)
    (expected : Option RecordVersion) (next : SnapshotRecord) :
    commitBody db fileId expected next =
      (entry.commit fileId expected next).map (db.put fileId) := by
  unfold commitBody Entry.commit
  rw [h.loadRecord]
  simp only [bind, Except.bind]
  cases hv : validateSuccessor fileId expected entry next with
  | error error => rfl
  | ok _ =>
    have hs := (validateSuccessor_snapshot hv).1
    simp only
    cases hr : revisionToSql next.header.revision with
    | error error => rfl
    | ok z =>
      obtain ⟨hlt, rfl⟩ := revisionToSql_eq_ok.mp hr
      simp only
      cases expected with
      | none =>
        obtain ⟨rfl, -⟩ := validateSuccessor_none hv
        rw [insertSnapshot_eq h hs]
        cases headerFits next.header <;> rfl
      | some version =>
        obtain ⟨current, rfl, rfl, hg, hn, -⟩ := validateSuccessor_some hv
        have hb : revisionToSql current.version.revision = .ok current.header.revision :=
          revisionToSql_eq_ok.mpr ⟨by omega, rfl⟩
        simp only [hb]
        rw [show current.version.generation = current.header.generation from rfl,
          updateSnapshot_eq h hs hg]
        cases headerFits next.header <;> rfl

theorem insertFinalization_eq {db : SqliteStore} {fileId : Path} {current : SnapshotRecord}
    {marker : FinalizationRecord} (h : Holds db fileId (.present current))
    (hv : validateFinalization marker = .ok ()) :
    insertFinalization db (finalizationRow fileId marker.revision marker) =
      (markerFits marker).map (fun _ => { db with
        finalizations := (db.put fileId (.finalizing marker)).finalizations }) := by
  have hf : db.finalizations (finalizationRow fileId marker.revision marker).path = none :=
    h.finalizations
  obtain ⟨hr, hg⟩ := validateFinalization_facts hv
  have hchecked : (finalizationRow fileId marker.revision marker).Checked ↔
      markerLength marker ≤ headerLimit := by
    simp [StoredFinalization.Checked, finalizationRow, hg, Nat.pos_of_ne_zero hr]
  unfold insertFinalization markerFits
  by_cases hl : markerLength marker ≤ headerLimit
  · rw [if_pos ⟨hf, hchecked.mpr hl⟩, if_pos hl]
    rfl
  · rw [if_neg (fun hc => hl (hchecked.mp hc.2)), if_neg hl]
    rfl

theorem beginFinalizationBody_eq {db : SqliteStore} {fileId : Path} {entry : Entry}
    (h : Holds db fileId entry) (expected : RecordVersion) (marker : FinalizationRecord) :
    beginFinalizationBody db fileId expected marker =
      (entry.beginFinalization fileId expected marker).map (db.put fileId) := by
  unfold beginFinalizationBody Entry.beginFinalization
  rw [h.loadRecord]
  simp only [bind, Except.bind]
  cases hv : validateFinalization marker with
  | error error => rfl
  | ok _ =>
    simp only
    cases hc : conflictIf (marker.pathHex ≠ pathToHex fileId ∨ marker.generation ≠ expected.generation ∨
      marker.revision ≠ expected.revision + 1)
      "finalization marker does not succeed the snapshot" with
    | error error => rfl
    | ok _ =>
      rw [conflictIf_eq_ok, not_or, not_or, not_not, not_not, not_not] at hc
      obtain ⟨-, hg, hn⟩ := hc
      cases entry with
      | missing => rfl
      | finalizing other => rfl
      | present current =>
        simp only
        cases hv' : conflictIf (current.version ≠ expected)
          "snapshot revision changed before deletion" with
        | error error => rfl
        | ok _ =>
          rw [conflictIf_eq_ok, not_not] at hv'
          subst hv'
          cases conflictIf (current.header.blockedReason.isSome = true ∨
            isDeleteIntent current.header.lifecycle = false)
            "snapshot finalization requires an unblocked deletion intent" with
          | error error => rfl
          | ok _ =>
            simp only
            cases hr : revisionToSql marker.revision with
            | error error => rfl
            | ok z =>
              obtain ⟨hlt, rfl⟩ := revisionToSql_eq_ok.mp hr
              have hb : revisionToSql current.version.revision = .ok current.header.revision :=
                revisionToSql_eq_ok.mpr ⟨by omega, rfl⟩
              simp only [insertFinalization_eq h hv, hb]
              cases markerFits marker with
              | error error => rfl
              | ok _ =>
                have hs : db.snapshots fileId =
                  some (storedRow fileId current.header.revision current) := h.snapshots
                simp only [Except.map, deleteSnapshot, hs, storedRow, SnapshotRecord.version,
                  Option.any_some, and_self, decide_true, ↓reduceIte]
                rfl

theorem finishFinalizationBody_eq {db : SqliteStore} {fileId : Path} {entry : Entry}
    (h : Holds db fileId entry) (expected : RecordVersion) :
    finishFinalizationBody db fileId expected =
      (entry.finishFinalization expected).map (db.put fileId) := by
  unfold finishFinalizationBody Entry.finishFinalization
  rw [h.loadRecord]
  simp only [bind, Except.bind]
  cases entry with
  | missing => rfl
  | present record => rfl
  | finalizing marker =>
    simp only
    cases hv : conflictIf (marker.version ≠ expected)
      "finalization marker revision changed before deletion" with
    | error error => rfl
    | ok _ =>
      rw [conflictIf_eq_ok, not_not] at hv
      subst hv
      have hs : db.snapshots fileId = none := h.snapshots
      have hf : db.finalizations fileId = some (finalizationRow fileId marker.revision marker) :=
        h.finalizations
      have hb : revisionToSql marker.version.revision = .ok marker.revision :=
        revisionToSql_eq_ok.mpr ⟨h.1.2.2.1, rfl⟩
      simp only [hb, deleteFinalization, hf]
      simp only [finalizationRow, FinalizationRecord.version, Option.any_some, and_self, decide_true,
        ↓reduceIte, Except.map, put, snapshotCell, finalizationCell]
      rw [← hs, Function.update_eq_self]

theorem settle_map {α δ η : Type} (f : δ → η) (db : δ) (outcome : CommitOutcome) (what : String)
    (answer : α) (body : StoreResult δ) :
    settle (f db) outcome what answer (body.map f) =
      ((settle db outcome what answer body).1, f (settle db outcome what answer body).2) := by
  cases body with
  | error error => rfl
  | ok next =>
    cases outcome with
    | acknowledged => rfl
    | refused message => rfl
    | uncertain committed message => cases committed <;> rfl

theorem Holds.settle {db : SqliteStore} {fileId : Path} {entry : Entry} (h : Holds db fileId entry)
    {α : Type} (outcome : CommitOutcome) (what : String) (answer : α) (body : StoreResult Entry) :
    SqliteStore.settle db outcome what answer (body.map (db.put fileId)) =
      ((SqliteStore.settle entry outcome what answer body).1,
        db.put fileId (SqliteStore.settle entry outcome what answer body).2) := by
  rw [← settle_map (db.put fileId) entry outcome what answer body, ← h.2]

/-- The database answers for one path exactly as the entry alone does. -/
theorem commit_refines {db : SqliteStore} {fileId : Path} {entry : Entry} (h : Holds db fileId entry)
    (outcome : CommitOutcome) (expected : Option RecordVersion) (next : SnapshotRecord) :
    db.commit outcome fileId expected next =
      let settled := SqliteStore.settle entry outcome "snapshot commit" next.version
        (entry.commit fileId expected next)
      (settled.1, db.put fileId settled.2) := by
  rw [commit, commitBody_eq h]
  exact h.settle outcome _ _ _

theorem beginFinalization_refines {db : SqliteStore} {fileId : Path} {entry : Entry}
    (h : Holds db fileId entry) (outcome : CommitOutcome) (expected : RecordVersion)
    (marker : FinalizationRecord) :
    db.beginFinalization outcome fileId expected marker =
      let settled := SqliteStore.settle entry outcome "snapshot finalization" marker.version
        (entry.beginFinalization fileId expected marker)
      (settled.1, db.put fileId settled.2) := by
  rw [beginFinalization, beginFinalizationBody_eq h]
  exact h.settle outcome _ _ _

theorem finishFinalization_refines {db : SqliteStore} {fileId : Path} {entry : Entry}
    (h : Holds db fileId entry) (outcome : CommitOutcome) (expected : RecordVersion) :
    db.finishFinalization outcome fileId expected =
      let settled := SqliteStore.settle entry outcome "marker deletion" ()
        (entry.finishFinalization expected)
      (settled.1, db.put fileId settled.2) := by
  rw [finishFinalization, finishFinalizationBody_eq h]
  exact h.settle outcome _ _ _

end SqliteStore

end FileGuard.Store
