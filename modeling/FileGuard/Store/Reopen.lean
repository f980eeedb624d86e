import FileGuard.Store.Ledger
import Mathlib.Data.List.Sort
import Mathlib.Data.List.Lex

namespace FileGuard.Store

def applicationId : Int32 := 0x46475332
def schemaVersion : Int32 := 2

def snapshotsSchema : String := "CREATE TABLE snapshots (
    path BLOB PRIMARY KEY NOT NULL,
    generation TEXT NOT NULL CHECK(length(generation) = 32),
    revision INTEGER NOT NULL CHECK(revision > 0),
    phase TEXT NOT NULL CHECK(phase IN (
        'captured', 'installing', 'installed', 'mounting', 'unmounting',
        'storing', 'stored', 'restoring', 'restored', 'deleting'
    )),
    header BLOB NOT NULL CHECK(length(header) <= 1048576),
    contents BLOB NOT NULL CHECK(length(contents) <= 16777216)
) STRICT"

def finalizationsSchema : String := "CREATE TABLE finalizations (
    path BLOB PRIMARY KEY NOT NULL,
    generation TEXT NOT NULL CHECK(length(generation) = 32),
    revision INTEGER NOT NULL CHECK(revision > 0),
    header BLOB NOT NULL CHECK(length(header) <= 1048576)
) STRICT"

/-- The format `#x` of an `i32`. -/
def hexNumber (n : Int32) : String := "0x" ++ String.ofList (Nat.toDigits 16 n.toUInt32.toNat)

def isAsciiWhitespace (c : Char) : Bool :=
  c == ' ' || c == '\t' || c == '\n' || c == '\r' || c == Char.ofNat 12

def normalizeSchema (schema : String) : String :=
  let words := (schema.toList.splitOnP isAsciiWhitespace).filter fun word => ¬ word.isEmpty
  String.ofList (([' '].intercalate words).reverse.dropWhile (· == ';')).reverse

/-- A row of `sqlite_schema`; the index of a primary key has no text. -/
structure SchemaObject where
  kind : String
  name : String
  sql : Option String
  deriving DecidableEq

/-- A name that `LIKE 'sqlite_%'` matches. -/
def isInternal (name : String) : Bool :=
  "sqlite".toList.isPrefixOf (name.toList.map Char.toLower) && 6 < name.toList.length

/-- The database file: its two header words, its schema and its tables. -/
structure Database where
  applicationId : Int32
  userVersion : Int32
  objects : List SchemaObject
  tables : SqliteStore

/-- The order in which a statement visits the rows of a table. -/
structure Visits {α : Type} (table : Path → Option α) (paths : List Path) : Prop where
  nodup : paths.Nodup
  mem_iff : ∀ path, path ∈ paths ↔ (table path).isSome

def rowsOf {α : Type} (table : Path → Option α) (paths : List Path) : List α := paths.filterMap table

namespace SqliteStore

variable (db : SqliteStore) (snapshotPaths finalizationPaths : List Path)

def list : StoreResult (List Entry) := do
  let records ← (rowsOf db.snapshots snapshotPaths).mapM decodeRow
  let markers ← (rowsOf db.finalizations finalizationPaths).mapM decodeFinalization
  .ok (records.map .present ++ markers.map .finalizing)

/-- `PRAGMA quick_check(1)`, which looks for rows that break a `CHECK` clause. -/
def quickCheck : String :=
  if (rowsOf db.snapshots snapshotPaths).any fun row => ¬ row.Checked then
    "CHECK constraint failed in snapshots"
  else if (rowsOf db.finalizations finalizationPaths).any fun row => ¬ row.Checked then
    "CHECK constraint failed in finalizations"
  else "ok"

def verifyDatabase : StoreResult Unit := do
  let result := db.quickCheck snapshotPaths finalizationPaths
  corruptIf (result ≠ "ok") s!"SQLite quick_check failed: {result}"
  let _ ← (rowsOf db.snapshots snapshotPaths).mapM decodeRow
  let _ ← (rowsOf db.finalizations finalizationPaths).mapM decodeFinalization
  corruptIf ((snapshotPaths.any fun path => finalizationPaths.contains path) = true)
    "a path has both a snapshot and a finalization marker"

end SqliteStore

namespace Database

/-- The empty file that `open_private_file` creates. -/
def blank : Database := ⟨0, 0, [], .empty⟩

def hasTables (db : Database) : Bool :=
  db.objects.any fun object => object.kind == "table" && !isInternal object.name

def createTable (db : Database) (name sql : String) : StoreResult Database :=
  if db.objects.any fun object => object.name == name then
    .error (.sqlite s!"table {name} already exists")
  else .ok { db with objects := db.objects ++
    [⟨"table", name, some sql⟩, ⟨"index", s!"sqlite_autoindex_{name}_1", none⟩] }

def verifyTable (db : Database) (name expected : String) : StoreResult Unit :=
  match db.objects.find? fun object => object.name == name with
  | none => corrupt s!"snapshot database has no {name} table"
  | some object => match object.sql with
    | none => .error (.sqlite "Invalid column type Null at index: 1, name: sql")
    | some schema =>
      corruptIf (object.kind ≠ "table" ∨ normalizeSchema schema ≠ normalizeSchema expected)
        s!"{name} table schema does not match schema version 2"

def verifySchema (db : Database) : StoreResult Unit := do
  db.verifyTable "snapshots" snapshotsSchema
  db.verifyTable "finalizations" finalizationsSchema
  corruptIf ((db.objects.any fun object =>
      !isInternal object.name && !(["snapshots", "finalizations"].contains object.name)) = true)
    "snapshot database contains unexpected schema objects"

def createSchema (db : Database) : StoreResult Database := do
  let db := { db with applicationId := Store.applicationId, userVersion := schemaVersion }
  let db ← db.createTable "snapshots" snapshotsSchema
  db.createTable "finalizations" finalizationsSchema

def initializeSchema (db : Database) (outcome : SqliteStore.CommitOutcome) : StoreResult Unit × Database :=
  if db.applicationId = 0 ∧ db.hasTables = false then
    SqliteStore.settle db outcome "schema initialization" () db.createSchema
  else if db.applicationId ≠ Store.applicationId then
    (.error (.unsupportedFormat s!"snapshot database application id is {
      hexNumber db.applicationId}, expected {hexNumber Store.applicationId}"), db)
  else if db.userVersion ≠ schemaVersion then
    (.error (.unsupportedFormat
      s!"snapshot database schema is {db.userVersion.toInt}, expected {schemaVersion.toInt}"), db)
  else (db.verifySchema, db)

/-- `SqliteStore::open_with_hook` behind the locked file. -/
def openWithHook (db : Database) (outcome : SqliteStore.CommitOutcome)
    (snapshotPaths finalizationPaths : List Path) : StoreResult Unit × Database :=
  match db.initializeSchema outcome with
  | (.error error, db) => (.error error, db)
  | (.ok (), db) => (db.tables.verifyDatabase snapshotPaths finalizationPaths, db)

def run (db : Database) (calls : List Call) : Database := { db with tables := db.tables.run calls }

/-- The database after its first opening. -/
def fresh : Database := (blank.openWithHook .acknowledged [] []).2

end Database

theorem mapM_rowsOf {α β : Type} {table : Path → Option α} {decode : α → StoreResult β} {paths : List Path}
    {wrap : β → Entry} {entryOf : Path → Entry}
    (h : ∀ path ∈ paths, ∃ row b, table path = some row ∧ decode row = .ok b ∧ wrap b = entryOf path) :
    ∃ decoded, (rowsOf table paths).mapM decode = .ok decoded ∧ decoded.map wrap = paths.map entryOf := by
  induction paths with
  | nil => exact ⟨[], rfl, rfl⟩
  | cons path paths ih =>
    obtain ⟨row, b, htable, hdecode, hwrap⟩ := h path List.mem_cons_self
    obtain ⟨decoded, hmap, hwraps⟩ := ih fun p hp => h p (List.mem_cons_of_mem _ hp)
    refine ⟨b :: decoded, ?_, by rw [List.map_cons, List.map_cons, hwrap, hwraps]⟩
    rw [rowsOf, List.filterMap_cons_some htable, List.mapM_cons, hdecode]
    exact bind_eq_ok.mpr ⟨b, rfl, bind_eq_ok.mpr ⟨decoded, hmap, rfl⟩⟩

namespace SqliteStore

variable {db : SqliteStore} {entryOf : Path → Entry} {snapshotPaths finalizationPaths : List Path}

theorem snapshot_present (h : ∀ path, Holds db path (entryOf path)) {path : Path}
    (hp : (db.snapshots path).isSome) : ∃ record, entryOf path = .present record := by
  rw [(h path).snapshots] at hp
  cases he : entryOf path with
  | missing => rw [he] at hp; cases hp
  | present record => exact ⟨record, rfl⟩
  | finalizing marker => rw [he] at hp; cases hp

theorem finalization_finalizing (h : ∀ path, Holds db path (entryOf path)) {path : Path}
    (hp : (db.finalizations path).isSome) : ∃ marker, entryOf path = .finalizing marker := by
  rw [(h path).finalizations] at hp
  cases he : entryOf path with
  | missing => rw [he] at hp; cases hp
  | present record => rw [he] at hp; cases hp
  | finalizing marker => exact ⟨marker, rfl⟩

theorem decodes_snapshots (h : ∀ path, Holds db path (entryOf path))
    (hs : Visits db.snapshots snapshotPaths) :
    ∃ records, (rowsOf db.snapshots snapshotPaths).mapM decodeRow = .ok records ∧
      records.map Entry.present = snapshotPaths.map entryOf := by
  refine mapM_rowsOf fun path hpath => ?_
  obtain ⟨record, he⟩ := snapshot_present h ((hs.mem_iff path).mp hpath)
  have hholds := h path
  rw [he] at hholds
  exact ⟨_, record, hholds.snapshots, decodeRow_storedRow hholds.1.1 hholds.1.2.1, he.symm⟩

theorem decodes_finalizations (h : ∀ path, Holds db path (entryOf path))
    (hf : Visits db.finalizations finalizationPaths) :
    ∃ markers, (rowsOf db.finalizations finalizationPaths).mapM decodeFinalization = .ok markers ∧
      markers.map Entry.finalizing = finalizationPaths.map entryOf := by
  refine mapM_rowsOf fun path hpath => ?_
  obtain ⟨marker, he⟩ := finalization_finalizing h ((hf.mem_iff path).mp hpath)
  have hholds := h path
  rw [he] at hholds
  exact ⟨_, marker, hholds.finalizations, decodeFinalization_finalizationRow hholds.1.1 hholds.1.2.1,
    he.symm⟩

theorem list_holds (h : ∀ path, Holds db path (entryOf path)) (hs : Visits db.snapshots snapshotPaths)
    (hf : Visits db.finalizations finalizationPaths) :
    db.list snapshotPaths finalizationPaths = .ok ((snapshotPaths ++ finalizationPaths).map entryOf) := by
  obtain ⟨records, hrecords, hmapped⟩ := decodes_snapshots h hs
  obtain ⟨markers, hmarkers, hmapped'⟩ := decodes_finalizations h hf
  unfold list
  rw [hrecords, hmarkers, List.map_append, ← hmapped, ← hmapped']
  rfl

theorem quickCheck_holds (h : ∀ path, Holds db path (entryOf path))
    (hs : Visits db.snapshots snapshotPaths) (hf : Visits db.finalizations finalizationPaths) :
    db.quickCheck snapshotPaths finalizationPaths = "ok" := by
  have hsnapshots : ∀ row ∈ rowsOf db.snapshots snapshotPaths, row.Checked := by
    intro row hrow
    obtain ⟨path, hpath, hat⟩ := List.mem_filterMap.mp hrow
    obtain ⟨record, he⟩ := snapshot_present h ((hs.mem_iff path).mp hpath)
    have hholds := h path
    rw [he] at hholds
    rw [hholds.snapshots] at hat
    cases hat
    exact (checked_storedRow hholds.1.1).mpr hholds.1.2.2.2
  have hfinalizations : ∀ row ∈ rowsOf db.finalizations finalizationPaths, row.Checked := by
    intro row hrow
    obtain ⟨path, hpath, hat⟩ := List.mem_filterMap.mp hrow
    obtain ⟨marker, he⟩ := finalization_finalizing h ((hf.mem_iff path).mp hpath)
    have hholds := h path
    rw [he] at hholds
    rw [hholds.finalizations] at hat
    cases hat
    obtain ⟨hr, hg⟩ := validateFinalization_facts hholds.1.1
    exact ⟨hg, Int.natCast_pos.mpr (Nat.pos_of_ne_zero hr), hholds.1.2.2.2⟩
  unfold quickCheck
  rw [if_neg, if_neg]
  · simpa using hfinalizations
  · simpa using hsnapshots

/-- No path has both a snapshot and a marker, so the whole database verifies. -/
theorem verifyDatabase_holds (h : ∀ path, Holds db path (entryOf path))
    (hs : Visits db.snapshots snapshotPaths) (hf : Visits db.finalizations finalizationPaths) :
    db.verifyDatabase snapshotPaths finalizationPaths = .ok () := by
  obtain ⟨records, hrecords, -⟩ := decodes_snapshots h hs
  obtain ⟨markers, hmarkers, -⟩ := decodes_finalizations h hf
  unfold verifyDatabase
  refine check_eq_ok.mpr ⟨?_, bind_eq_ok.mpr ⟨records, hrecords, bind_eq_ok.mpr ⟨markers, hmarkers, ?_⟩⟩⟩
  · rw [corruptIf_eq_ok, not_not]
    exact quickCheck_holds h hs hf
  · rw [corruptIf_eq_ok, List.any_eq_true]
    rintro ⟨path, hpath, hboth⟩
    obtain ⟨record, he⟩ := snapshot_present h ((hs.mem_iff path).mp hpath)
    obtain ⟨marker, he'⟩ := finalization_finalizing h
      ((hf.mem_iff path).mp (by simpa using hboth))
    rw [he] at he'
    cases he'

theorem run_support (calls : List Call) {path : Path} (hp : ∀ call ∈ calls, call.path ≠ path) :
    (run empty calls).snapshots path = none ∧ (run empty calls).finalizations path = none := by
  have haccepted : ∀ call ∈ accepted empty calls, call ∈ calls := by
    generalize empty = db
    induction calls generalizing db with
    | nil => exact fun call h => h
    | cons first calls ih =>
      intro call hcall
      rw [accepted] at hcall
      have htail := ih (fun c hc => hp c (List.mem_cons_of_mem _ hc)) (step db first) call
      split at hcall
      · rcases List.mem_cons.mp hcall with rfl | hcall
        · exact List.mem_cons_self
        · exact List.mem_cons_of_mem _ (htail hcall)
      · exact List.mem_cons_of_mem _ (htail hcall)
  have hnone : lastEntry path (accepted empty calls) = .missing := by
    unfold lastEntry
    rw [List.filter_eq_nil_iff.mpr]
    · rfl
    · intro call hcall
      simpa using hp call (haccepted call hcall)
  have hholds := run_holds_lastEntry calls path
  rw [hnone] at hholds
  exact ⟨hholds.snapshots, hholds.finalizations⟩

end SqliteStore

/-- The order SQLite gives blobs. -/
def blobLe (a b : Path) : Prop := a.map UInt8.toNat ≤ b.map UInt8.toNat

instance : DecidableRel blobLe := fun _ _ => inferInstanceAs (Decidable (_ ≤ _))

theorem exists_visits {α : Type} {table : Path → Option α} {paths : List Path}
    (h : ∀ path, path ∉ paths → table path = none) :
    ∃ visited, Visits table visited ∧ visited.Pairwise blobLe := by
  have htotal : Std.Total blobLe := ⟨fun a b => le_total (a.map UInt8.toNat) (b.map UInt8.toNat)⟩
  have htrans : IsTrans Path blobLe :=
    ⟨fun a b c hab hbc => le_trans (α := List ℕ) (b := b.map UInt8.toNat) hab hbc⟩
  refine ⟨(paths.dedup.filter fun path => (table path).isSome).insertionSort blobLe, ⟨?_, fun path => ?_⟩,
    List.pairwise_insertionSort ..⟩
  · exact (List.perm_insertionSort blobLe _).nodup_iff.mpr ((List.nodup_dedup paths).filter _)
  · rw [(List.perm_insertionSort blobLe _).mem_iff, List.mem_filter, List.mem_dedup]
    refine ⟨fun hp => hp.2, fun hp => ⟨?_, hp⟩⟩
    by_contra hnot
    rw [h path hnot] at hp
    cases hp

namespace Database

def schemaObjects : List SchemaObject :=
  [⟨"table", "snapshots", some snapshotsSchema⟩, ⟨"index", "sqlite_autoindex_snapshots_1", none⟩,
    ⟨"table", "finalizations", some finalizationsSchema⟩,
    ⟨"index", "sqlite_autoindex_finalizations_1", none⟩]

theorem createSchema_blank :
    blank.createSchema = .ok ⟨Store.applicationId, schemaVersion, schemaObjects, .empty⟩ := by
  simp [createSchema, createTable, blank, schemaObjects, bind, Except.bind, toString]

theorem fresh_eq : fresh = ⟨Store.applicationId, schemaVersion, schemaObjects, .empty⟩ := by
  have hinit : blank.initializeSchema .acknowledged =
      (.ok (), ⟨Store.applicationId, schemaVersion, schemaObjects, .empty⟩) := by
    rw [initializeSchema, if_pos ⟨rfl, rfl⟩, createSchema_blank]
    rfl
  rw [fresh, openWithHook, hinit]

theorem verifySchema_fresh (tables : SqliteStore) :
    verifySchema ⟨Store.applicationId, schemaVersion, schemaObjects, tables⟩ = .ok () := by
  unfold verifySchema
  refine check_eq_ok.mpr ⟨?_, check_eq_ok.mpr ⟨?_, ?_⟩⟩
  · simp [verifyTable, schemaObjects]
  · simp [verifyTable, schemaObjects]
  · have hexpected : (schemaObjects.any fun object =>
        !isInternal object.name && !(["snapshots", "finalizations"].contains object.name)) = false := by
      decide
    rw [corruptIf_eq_ok, hexpected]
    exact Bool.false_ne_true

/-- Whatever a store accepts it reads back, lists and, once closed, opens again unchanged. -/
theorem accepted_reopens (calls : List Call) :
    let db := fresh.run calls
    (∀ fileId, db.tables.load fileId = .ok (lastEntry fileId (SqliteStore.accepted .empty calls))) ∧
    (∃ snapshotPaths finalizationPaths,
      Visits db.tables.snapshots snapshotPaths ∧ snapshotPaths.Pairwise blobLe ∧
      Visits db.tables.finalizations finalizationPaths ∧ finalizationPaths.Pairwise blobLe) ∧
    ∀ snapshotPaths finalizationPaths, Visits db.tables.snapshots snapshotPaths →
      Visits db.tables.finalizations finalizationPaths →
      db.tables.list snapshotPaths finalizationPaths =
        .ok ((snapshotPaths ++ finalizationPaths).map
          fun fileId => lastEntry fileId (SqliteStore.accepted .empty calls)) ∧
      ∀ outcome, db.openWithHook outcome snapshotPaths finalizationPaths = (.ok (), db) := by
  have hholds := SqliteStore.run_holds_lastEntry calls
  have hsupport : ∀ path, path ∉ calls.map Call.path →
      (SqliteStore.run .empty calls).snapshots path = none ∧
        (SqliteStore.run .empty calls).finalizations path = none := fun path hp =>
    SqliteStore.run_support calls fun call hcall he => hp (List.mem_map.mpr ⟨call, hcall, he⟩)
  refine ⟨fun fileId => (hholds fileId).loadRecord, ?_, fun snapshotPaths finalizationPaths hs hf => ?_⟩
  · obtain ⟨snapshotPaths, hs, hsorted⟩ := exists_visits fun path hp => (hsupport path hp).1
    obtain ⟨finalizationPaths, hf, hsorted'⟩ := exists_visits fun path hp => (hsupport path hp).2
    exact ⟨snapshotPaths, finalizationPaths, hs, hsorted, hf, hsorted'⟩
  · refine ⟨SqliteStore.list_holds hholds hs hf, fun outcome => ?_⟩
    have hverify := SqliteStore.verifyDatabase_holds hholds hs hf
    have hinit : (fresh.run calls).initializeSchema outcome = (.ok (), fresh.run calls) := by
      rw [run, fresh_eq, initializeSchema, verifySchema_fresh]
      have hid : Store.applicationId ≠ 0 := by decide
      rw [if_neg fun hc => hid hc.1, if_neg (not_not.mpr rfl), if_neg (not_not.mpr rfl)]
    have htables : (fresh.run calls).tables = SqliteStore.run .empty calls := by rw [run, fresh_eq]
    rw [openWithHook, hinit]
    simp only [htables, hverify]

end Database

end FileGuard.Store
