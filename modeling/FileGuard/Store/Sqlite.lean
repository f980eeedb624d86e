import FileGuard.Store.Validation
import Mathlib.Logic.Function.Basic

namespace FileGuard.Store

/-- A row of `snapshots`; the header value stands for the JSON blob it is stored as. -/
structure StoredRow where
  path : Path
  generation : String
  revision : ℤ
  phase : String
  header : RecordHeader
  contents : Bytes
  deriving DecidableEq

structure StoredFinalization where
  path : Path
  generation : String
  revision : ℤ
  header : FinalizationRecord
  deriving DecidableEq

def decodeRow (row : StoredRow) : StoreResult SnapshotRecord := do
  let header := row.header
  corruptIf (row.revision < 0) "snapshot revision is out of range"
  corruptIf (header.pathHex ≠ hexEncode row.path ∨ header.generation ≠ row.generation ∨
      header.revision ≠ row.revision.toNat ∨ phaseName header.lifecycle ≠ row.phase)
    "snapshot row indexes disagree with its header"
  let record : SnapshotRecord := ⟨header, row.contents⟩
  validateSnapshot record
  .ok record

def decodeFinalization (row : StoredFinalization) : StoreResult FinalizationRecord := do
  let marker := row.header
  corruptIf (row.revision < 0) "marker revision is out of range"
  corruptIf (marker.pathHex ≠ hexEncode row.path ∨ marker.generation ≠ row.generation ∨
      marker.revision ≠ row.revision.toNat)
    "finalization row indexes disagree with its header"
  validateFinalization marker
  .ok marker

/-- Revisions from `2 ^ 63` on do not fit an `i64` column. -/
def revisionLimit : ℕ := 2 ^ 63

def revisionToSql (revision : ℕ) : StoreResult ℤ :=
  if revision < revisionLimit then .ok revision else corrupt "snapshot revision is out of range"

def phases : List String :=
  ["captured", "installing", "installed", "mounting", "unmounting", "storing", "stored", "restoring",
    "restored", "deleting"]

/-- The `CHECK` clauses of the `snapshots` table. -/
def StoredRow.Checked (row : StoredRow) : Prop :=
  row.generation.length = 32 ∧ 0 < row.revision ∧ row.phase ∈ phases ∧
    headerLength row.header ≤ headerLimit ∧ row.contents.length ≤ maxCredentialSize

instance (row : StoredRow) : Decidable row.Checked := inferInstanceAs (Decidable (_ ∧ _))

def StoredFinalization.Checked (row : StoredFinalization) : Prop :=
  row.generation.length = 32 ∧ 0 < row.revision ∧ markerLength row.header ≤ headerLimit

instance (row : StoredFinalization) : Decidable row.Checked := inferInstanceAs (Decidable (_ ∧ _))

structure SqliteStore where
  snapshots : Path → Option StoredRow
  finalizations : Path → Option StoredFinalization

namespace SqliteStore

def empty : SqliteStore := ⟨fun _ => none, fun _ => none⟩

def loadRecord (db : SqliteStore) (fileId : Path) : StoreResult Entry :=
  match db.snapshots fileId with
  | some row => (decodeRow row).map .present
  | none => match db.finalizations fileId with
    | some row => (decodeFinalization row).map .finalizing
    | none => .ok .missing

def load (db : SqliteStore) (fileId : Path) : StoreResult Entry := loadRecord db fileId

def constraint {α : Type} (table : String) : StoreResult α :=
  .error (.sqlite s!"constraint failed: {table}")

def insertSnapshot (db : SqliteStore) (row : StoredRow) : StoreResult SqliteStore :=
  if db.snapshots row.path = none ∧ row.Checked then
    .ok { db with snapshots := Function.update db.snapshots row.path (some row) }
  else constraint "snapshots"

/-- `UPDATE … WHERE path = ? AND generation = ? AND revision = ?`, refused when it changes no row. -/
def updateSnapshot (db : SqliteStore) (generation : String) (revision : ℤ) (row : StoredRow) :
    StoreResult SqliteStore :=
  match db.snapshots row.path with
  | some old =>
    if old.generation = generation ∧ old.revision = revision then
      let row := { row with generation := old.generation }
      if row.Checked then
        .ok { db with snapshots := Function.update db.snapshots row.path (some row) }
      else constraint "snapshots"
    else .error (.conflict "snapshot compare-and-swap changed no row")
  | none => .error (.conflict "snapshot compare-and-swap changed no row")

def insertFinalization (db : SqliteStore) (row : StoredFinalization) : StoreResult SqliteStore :=
  if db.finalizations row.path = none ∧ row.Checked then
    .ok { db with finalizations := Function.update db.finalizations row.path (some row) }
  else constraint "finalizations"

def deleteSnapshot (db : SqliteStore) (path : Path) (generation : String) (revision : ℤ) :
    StoreResult SqliteStore :=
  if (db.snapshots path).any (fun row => row.generation = generation ∧ row.revision = revision) then
    .ok { db with snapshots := Function.update db.snapshots path none }
  else .error (.conflict "snapshot finalization compare-and-swap deleted no row")

def deleteFinalization (db : SqliteStore) (path : Path) (generation : String) (revision : ℤ) :
    StoreResult SqliteStore :=
  if (db.finalizations path).any (fun row => row.generation = generation ∧ row.revision = revision) then
    .ok { db with finalizations := Function.update db.finalizations path none }
  else .error (.conflict "finalization marker compare-and-swap deleted no row")

def storedRow (fileId : Path) (revision : ℤ) (next : SnapshotRecord) : StoredRow where
  path := fileId
  generation := next.header.generation
  revision := revision
  phase := phaseName next.header.lifecycle
  header := next.header
  contents := next.contents

def commitBody (db : SqliteStore) (fileId : Path) (expected : Option RecordVersion)
    (next : SnapshotRecord) : StoreResult SqliteStore := do
  let current ← loadRecord db fileId
  validateSuccessor fileId expected current next
  let revision ← revisionToSql next.header.revision
  match expected with
  | none => insertSnapshot db (storedRow fileId revision next)
  | some expected => do
    let before ← revisionToSql expected.revision
    updateSnapshot db expected.generation before (storedRow fileId revision next)

def finalizationRow (fileId : Path) (revision : ℤ) (marker : FinalizationRecord) : StoredFinalization where
  path := fileId
  generation := marker.generation
  revision := revision
  header := marker

def beginFinalizationBody (db : SqliteStore) (fileId : Path) (expected : RecordVersion)
    (marker : FinalizationRecord) : StoreResult SqliteStore := do
  validateFinalization marker
  conflictIf (marker.pathHex ≠ pathToHex fileId ∨ marker.generation ≠ expected.generation ∨
      marker.revision ≠ expected.revision + 1)
    "finalization marker does not succeed the snapshot"
  match ← loadRecord db fileId with
  | .present current => do
    conflictIf (current.version ≠ expected) "snapshot revision changed before deletion"
    conflictIf (current.header.blockedReason.isSome ∨ isDeleteIntent current.header.lifecycle = false)
      "snapshot finalization requires an unblocked deletion intent"
    let markerRevision ← revisionToSql marker.revision
    let db ← insertFinalization db (finalizationRow fileId markerRevision marker)
    let revision ← revisionToSql expected.revision
    deleteSnapshot db fileId expected.generation revision
  | _ => .error (.conflict "snapshot is not available for finalization")

def finishFinalizationBody (db : SqliteStore) (fileId : Path) (expected : RecordVersion) :
    StoreResult SqliteStore := do
  match ← loadRecord db fileId with
  | .finalizing marker => do
    conflictIf (marker.version ≠ expected) "finalization marker revision changed before deletion"
    let revision ← revisionToSql expected.revision
    deleteFinalization db fileId expected.generation revision
  | _ => .error (.conflict "finalization marker is already absent")

/-- How SQLite answers a transaction whose statements all succeed: it may also refuse it (a lock, an I/O
error) or report a failed `COMMIT` that did or did not reach the disk. -/
inductive CommitOutcome where
  | acknowledged
  | refused (message : String)
  | uncertain (committed : Bool) (message : String)
  deriving DecidableEq

def settle {α δ : Type} (db : δ) (outcome : CommitOutcome) (what : String) (answer : α) :
    StoreResult δ → StoreResult α × δ
  | .error error => (.error error, db)
  | .ok next => match outcome with
    | .acknowledged => (.ok answer, next)
    | .refused message => (.error (.sqlite message), db)
    | .uncertain committed message =>
      (.error (.indeterminate s!"SQLite {what} returned an uncertain result: {message}"),
        if committed then next else db)

def commit (db : SqliteStore) (outcome : CommitOutcome) (fileId : Path)
    (expected : Option RecordVersion) (next : SnapshotRecord) : StoreResult RecordVersion × SqliteStore :=
  settle db outcome "snapshot commit" next.version (commitBody db fileId expected next)

def beginFinalization (db : SqliteStore) (outcome : CommitOutcome) (fileId : Path)
    (expected : RecordVersion) (marker : FinalizationRecord) : StoreResult RecordVersion × SqliteStore :=
  settle db outcome "snapshot finalization" marker.version (beginFinalizationBody db fileId expected marker)

def finishFinalization (db : SqliteStore) (outcome : CommitOutcome) (fileId : Path)
    (expected : RecordVersion) : StoreResult Unit × SqliteStore :=
  settle db outcome "marker deletion" () (finishFinalizationBody db fileId expected)

end SqliteStore

end FileGuard.Store
