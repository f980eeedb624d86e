import FileGuard.Policy.Rule
import FileGuard.Transaction.Manager

namespace FileGuard.Fuse

open Store Files Transaction Policy CrashLogic

def maxContentLen : ℕ := 16 * 1024 * 1024

inductive FuseErrno where
  | eacces
  | efbig
  | einval
  | eio
  | enoent
  | eopnotsupp
  deriving DecidableEq

/-- `panicked` stands for a slice index out of range, which would take the daemon down. -/
inductive MutationError where
  | invalid (errno : FuseErrno)
  | commit (error : TxError)
  | panicked
  deriving DecidableEq

structure OpenHandle where
  access : Access
  canRead : Bool
  deriving DecidableEq

/-- The published record and the open handles. -/
structure Shared where
  content : SnapshotRecord
  handles : UInt64 → Option OpenHandle
  nextFh : UInt64

def sliceContent (content : Bytes) (offset : UInt64) (size : UInt32) : Bytes :=
  let start := offset.toNat
  if content.length ≤ start then []
  else
    let remaining := content.length - start
    let readSize := min size.toNat remaining
    (content.drop start).take readSize

def checkedWriteEnd (offset : UInt64) (length : ℕ) : Except FuseErrno ℕ :=
  let stop := offset.toNat + length
  if 2 ^ 64 ≤ stop then .error .efbig
  else if maxContentLen < stop then .error .efbig
  else .ok stop

def resize (contents : Bytes) (size : ℕ) : Bytes :=
  contents.take size ++ List.replicate (size - contents.length) 0

def grown (contents : Bytes) (stop : ℕ) : Bytes :=
  if contents.length < stop then resize contents stop else contents

/-- `candidate[start..stop].copy_from_slice(data)`, which panics on a bad range or length. -/
def copyInto (candidate : Bytes) (start stop : ℕ) (data : Bytes) : Option Bytes :=
  if start ≤ stop ∧ stop ≤ candidate.length ∧ data.length = stop - start then
    some (candidate.take start ++ data ++ candidate.drop stop)
  else none

abbrev MutationProg := Prog signature MutationError

namespace Shared

/-- The counter wraps around, as an atomic addition does. -/
def registerHandle (shared : Shared) (handle : OpenHandle) : UInt64 × Shared :=
  (shared.nextFh, { shared with
    handles := Function.update shared.handles shared.nextFh (some handle)
    nextFh := shared.nextFh + 1 })

/-- The durable commit comes first; only its answer is published. -/
def commitContents (shared : Shared) (candidate : Bytes) : MutationProg Shared := do
  let next ← (updateContents shared.content candidate).mapError .commit
  return { shared with content := next }

def applyWrite (shared : Shared) (fh : UInt64) (offset : UInt64) (data : Bytes) :
    MutationProg (ℕ × Shared) :=
  match shared.handles fh with
  | some ⟨.write, _⟩ => match checkedWriteEnd offset data.length with
    | .error errno => .fail (.invalid errno)
    | .ok stop =>
      match copyInto (grown shared.content.contents stop) offset.toNat stop data with
      | none => .fail .panicked
      | some candidate => do
        let shared ← shared.commitContents candidate
        return (data.length, shared)
  | _ => .fail (.invalid .eacces)

def applyTruncate (shared : Shared) (newSize : UInt64) : MutationProg Shared :=
  if maxContentLen < newSize.toNat then .fail (.invalid .efbig)
  else shared.commitContents (resize shared.content.contents newSize.toNat)

def truncateOnOpen (shared : Shared) : MutationProg Shared := shared.applyTruncate 0

def currentSize (shared : Shared) : ℕ := shared.content.contents.length

/-- `CredentialFs::new`: the daemon serves the row it finds waiting for its mount. -/
def new (m : Manager) (watched : Path) : TxProg Shared := do
  let path ← m.normalizePath watched
  match ← load path with
  | .present record => match record.header.blockedReason, record.header.lifecycle with
    | some reason, _ => bail s!"v2 record for {Path.display watched} requires manual recovery: {reason}"
    | none, .mountIntent _ => return ⟨record, fun _ => none, 1⟩
    | none, _ => bail s!"v2 record for {Path.display watched} is not awaiting its mount"
  | _ => bail s!"no installed v2 record for {Path.display watched}"

end Shared

end FileGuard.Fuse
