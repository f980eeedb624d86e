import FileGuard.Store.Path
import FileGuard.Store.Sha256

namespace FileGuard.Store

def maxCredentialSize : ℕ := 16 * 1024 * 1024
def formatVersion : UInt32 := 2

structure Timestamp where
  seconds : Int64
  nanoseconds : Int64
  deriving DecidableEq

structure ExtendedAttribute where
  nameHex : String
  valueHex : String
  deriving DecidableEq

structure RestoreMetadata where
  uid : UInt32
  gid : UInt32
  mode : UInt32
  atime : Timestamp
  mtime : Timestamp
  xattrs : List ExtendedAttribute
  deriving DecidableEq

structure ObjectIdentity where
  device : UInt64
  inode : UInt64
  ctime : Timestamp
  mtime : Timestamp
  size : UInt64
  links : UInt64
  mode : UInt32
  uid : UInt32
  gid : UInt32
  deriving DecidableEq

inductive OriginalState where
  | present (identity : ObjectIdentity) (metadata : RestoreMetadata)
  | absent (presentation : RestoreMetadata)
  deriving DecidableEq

def OriginalState.metadata : OriginalState → RestoreMetadata
  | .present _ metadata => metadata
  | .absent presentation => presentation

def OriginalState.existed : OriginalState → Bool
  | .present _ _ => true
  | .absent _ => false

inductive RestoreOrigin where
  | installed
  | stored
  deriving DecidableEq

inductive UnmountNext where
  | restore
  | leaveInstalled
  deriving DecidableEq

inductive Lifecycle where
  | captured
  | installIntent
  | installed (detachedOriginal : Option ObjectIdentity)
  | mountIntent (detachedOriginal : Option ObjectIdentity)
  | unmountIntent (next : UnmountNext) (detachedOriginal : Option ObjectIdentity)
  | restoreIntent (origin : RestoreOrigin) (restoreName : Option String)
      (restoreIdentity : Option ObjectIdentity) (detachedName : Option String)
      (detachedIdentity : Option ObjectIdentity)
  | restored (origin : RestoreOrigin) (restoredIdentity : Option ObjectIdentity)
      (displacedName : Option String) (displacedIdentity : Option ObjectIdentity)
      (detachedName : Option String) (detachedIdentity : Option ObjectIdentity)
  | deleteIntent (origin : RestoreOrigin) (restoredIdentity : Option ObjectIdentity)
      (displacedName : Option String) (displacedIdentity : Option ObjectIdentity)
      (detachedName : Option String) (detachedIdentity : Option ObjectIdentity)
  | storeIntent (detachedName : String)
  | stored (detachedName : String) (detachedOriginal : ObjectIdentity)
  deriving DecidableEq

/-- Revisions are `u64` in the source; `revisionToSql` bounds every stored one by `i64::MAX`. -/
@[ext]
structure RecordHeader where
  format : UInt32
  pathHex : String
  generation : String
  revision : ℕ
  lifecycle : Lifecycle
  original : OriginalState
  logicalPresent : Bool
  parent : ObjectIdentity
  stagingPathHex : String
  swapName : String
  storedName : String
  placeholder : Option ObjectIdentity
  mountToken : String
  contentSha256 : String
  blockedReason : Option String
  deriving DecidableEq

structure SnapshotRecord where
  header : RecordHeader
  contents : Bytes
  deriving DecidableEq

structure RecordVersion where
  generation : String
  revision : ℕ
  deriving DecidableEq

structure FinalizationRecord where
  format : UInt32
  pathHex : String
  generation : String
  revision : ℕ
  logicalPresent : Bool
  parent : ObjectIdentity
  stagingPathHex : String
  finalName : String
  finalIdentity : Option ObjectIdentity
  restoreMetadata : RestoreMetadata
  contentLength : ℕ
  contentSha256 : String
  deriving DecidableEq

inductive Entry where
  | missing
  | present (record : SnapshotRecord)
  | finalizing (marker : FinalizationRecord)
  deriving DecidableEq

inductive StoreError where
  | locked
  | unsupportedFormat (message : String)
  | unsafeConfiguration (message : String)
  | corrupt (message : String)
  | conflict (message : String)
  | indeterminate (message : String)
  | io (message : String)
  | serialization (message : String)
  | sqlite (message : String)
  deriving DecidableEq

abbrev StoreResult (α : Type) := Except StoreError α

def StoreError.display : StoreError → String
  | .locked => "backing store is already locked by another file-guard process"
  | .unsupportedFormat m => s!"unsupported backing-store format: {m}"
  | .unsafeConfiguration m => s!"unsafe backing-store configuration: {m}"
  | .corrupt m => s!"corrupt backing-store record: {m}"
  | .conflict m => s!"backing-store revision conflict: {m}"
  | .indeterminate m => s!"backing-store operation has indeterminate durability: {m}"
  | .io m | .serialization m | .sqlite m => m

def SnapshotRecord.version (r : SnapshotRecord) : RecordVersion :=
  ⟨r.header.generation, r.header.revision⟩

def FinalizationRecord.version (m : FinalizationRecord) : RecordVersion := ⟨m.generation, m.revision⟩

def SnapshotRecord.successor (r : SnapshotRecord) (lifecycle : Lifecycle) (contents : Bytes) :
    SnapshotRecord where
  header := { r.header with
    revision := r.header.revision + 1
    lifecycle := lifecycle
    contentSha256 := sha256 contents }
  contents := contents

def pathToHex (p : Path) : String := hexEncode p

def pathFromHex (value : String) : StoreResult Path :=
  match hexDecode value with
  | .ok bytes => .ok bytes
  | .error error => .error (.corrupt s!"invalid encoded path: {error}")

@[simp] theorem pathFromHex_pathToHex (p : Path) : pathFromHex (pathToHex p) = .ok p := by
  rw [pathFromHex, pathToHex, hexDecode_hexEncode]

/-- Identities that agree in everything a rename leaves alone. -/
def identitiesMatch (before after : ObjectIdentity) : Bool :=
  before.device == after.device && before.inode == after.inode && before.mtime == after.mtime &&
    before.size == after.size && before.links == after.links && before.mode == after.mode &&
    before.uid == after.uid && before.gid == after.gid

theorem identitiesMatch_iff {a b : ObjectIdentity} :
    identitiesMatch a b = true ↔ a = { b with ctime := a.ctime } := by
  cases a; cases b
  simp [identitiesMatch, and_assoc, and_left_comm, and_comm]

end FileGuard.Store
