import FileGuard.Fuse.Shared

namespace FileGuard.Fuse

open Store Files Transaction Policy CrashLogic

def rootIno : UInt64 := 1

structure FileAttr where
  size : ℕ
  perm : UInt32
  uid : UInt32
  gid : UInt32
  deriving DecidableEq

def buildFileAttr (fileSize : ℕ) (metadata : RestoreMetadata) : FileAttr where
  size := fileSize
  perm := metadata.mode &&& 0o7777
  uid := metadata.uid
  gid := metadata.gid

def changesPermissions (requested : Option UInt32) (current : UInt32) : Bool :=
  requested.any fun mode => mode &&& 0o7777 != current &&& 0o7777

inductive TimeOrNow where
  | specificTime (time : Timestamp)
  | now

/-- What a `setattr` asks for. -/
structure SetAttr where
  mode : Option UInt32
  uid : Option UInt32
  gid : Option UInt32
  size : Option UInt64
  atime : Option TimeOrNow
  mtime : Option TimeOrNow
  ctime : Option Timestamp
  fh : Option UInt64
  crtime : Option Timestamp
  chgtime : Option Timestamp
  bkuptime : Option Timestamp
  flags : Option UInt32

inductive Reply where
  | error (errno : FuseErrno)
  | attr (attr : FileAttr)
  | opened (fh : UInt64)
  | data (bytes : Bytes)
  | written (count : ℕ)
  | ok
  deriving DecidableEq

/-- The work behind an authorization that runs off the session thread; `flags` remembers what the open asked with. -/
inductive Work where
  | opening (flags : UInt32) (needsRead needsWrite truncateOnOpen : Bool)
  | resizing (newSize : UInt64)
  deriving DecidableEq

namespace Work

def flags : Work → Option UInt32
  | .opening flags _ _ _ => some flags
  | .resizing _ => none

def needsRead : Work → Bool
  | .opening _ needsRead _ _ => needsRead
  | .resizing _ => false

def needsWrite : Work → Bool
  | .opening _ _ needsWrite _ => needsWrite
  | .resizing _ => true

/-- The size to cut the file to once the access is allowed. -/
def truncation : Work → Option UInt64
  | .opening _ _ _ truncateOnOpen => if truncateOnOpen then some 0 else none
  | .resizing newSize => some newSize

end Work

inductive TaskStage where
  | deciding
  | truncating (newSize : UInt64)
  | finishing
  | replied (reply : Reply)
  deriving DecidableEq

/-- A spawned task; `decision` remembers what the policy decided for it. -/
structure Task where
  uid : UInt32
  pid : UInt32
  work : Work
  stage : TaskStage
  decision : Option Decision
  deriving DecidableEq

/-- A handler replies at once or leaves the reply to a task. -/
inductive Handled where
  | replied (reply : Reply) (shared : Shared)
  | spawned (task : Task)

def errnoOf : MutationError → FuseErrno
  | .invalid errno => errno
  | .commit _ | .panicked => .eio

structure CredentialFs where
  watchedPath : Path
  ownerUid : UInt32
  presentation : RestoreMetadata
  shared : Shared

namespace CredentialFs

def ofShared (watched : Path) (shared : Shared) : CredentialFs where
  watchedPath := watched
  ownerUid := shared.content.header.parent.uid
  presentation := shared.content.header.original.metadata
  shared := shared

def new (m : Manager) (watched : Path) : TxProg CredentialFs := do
  let shared ← Shared.new m watched
  return ofShared watched shared

variable (fs : CredentialFs)

def uidPermitted (uid : UInt32) : Bool := uid == fs.ownerUid || uid == 0

def replyError (errno : FuseErrno) : Handled := .replied (.error errno) fs.shared

def attrReply (shared : Shared) : Handled :=
  .replied (.attr (buildFileAttr shared.currentSize fs.presentation)) shared

def getattr (uid : UInt32) (ino : UInt64) : Handled :=
  if ino ≠ rootIno then fs.replyError .enoent
  else if fs.uidPermitted uid = false then fs.replyError .eacces
  else fs.attrReply fs.shared

def access (uid : UInt32) (ino : UInt64) : Handled :=
  if ino ≠ rootIno then fs.replyError .enoent
  else if fs.uidPermitted uid = false then fs.replyError .eacces
  else .replied .ok fs.shared

def openFile (uid pid : UInt32) (ino : UInt64) (flags : UInt32) : Handled :=
  if ino ≠ rootIno then fs.replyError .enoent
  else
    let accmode := flags &&& oAccmode
    let needsRead := accmode == oRdonly || accmode == oRdwr
    let needsWrite := Access.fromOpenFlags flags == .write
    let truncateOnOpen := needsWrite && flags &&& oTrunc != 0
    if needsRead = false ∧ needsWrite = false then fs.replyError .einval
    else .spawned ⟨uid, pid, .opening flags needsRead needsWrite truncateOnOpen, .deciding, none⟩

def read (ino fh offset : UInt64) (size : UInt32) : Handled :=
  if ino ≠ rootIno then fs.replyError .enoent
  else match fs.shared.handles fh with
    | some ⟨_, true⟩ => .replied (.data (sliceContent fs.shared.content.contents offset size)) fs.shared
    | _ => fs.replyError .eacces

def write (ino fh offset : UInt64) (data : Bytes) : MutationProg Handled :=
  if ino ≠ rootIno then .pure (fs.replyError .enoent)
  else do
    match ← (fs.shared.applyWrite fh offset data).attempt with
    | .ok (written, shared) => return .replied (.written written) shared
    | .error error => return fs.replyError (errnoOf error)

def changesAttributes (change : SetAttr) : Bool :=
  changesPermissions change.mode fs.presentation.mode || change.uid.isSome || change.gid.isSome ||
    change.atime.isSome || change.mtime.isSome || change.ctime.isSome || change.crtime.isSome ||
    change.chgtime.isSome || change.bkuptime.isSome || change.flags.isSome

def truncateHandle (fh newSize : UInt64) : MutationProg Handled :=
  if (fs.shared.handles fh).any (fun state => state.access == .write) = false then
    .pure (fs.replyError .eacces)
  else do
    match ← (fs.shared.applyTruncate newSize).attempt with
    | .ok shared => return fs.attrReply shared
    | .error error => return fs.replyError (errnoOf error)

def setattr (uid pid : UInt32) (ino : UInt64) (change : SetAttr) : MutationProg Handled :=
  if ino ≠ rootIno then .pure (fs.replyError .enoent)
  else if fs.uidPermitted uid = false then .pure (fs.replyError .eacces)
  else if fs.changesAttributes change then .pure (fs.replyError .eopnotsupp)
  else match change.size, change.fh with
    | none, _ => .pure (fs.attrReply fs.shared)
    | some newSize, some fh => fs.truncateHandle fh newSize
    | some newSize, none => .pure (.spawned ⟨uid, pid, .resizing newSize, .deciding, none⟩)

def release (ino fh : UInt64) : Handled :=
  if ino ≠ rootIno then fs.replyError .enoent
  else .replied .ok { fs.shared with handles := Function.update fs.shared.handles fh none }

/-- `decide_open`: `identified` is whether the process of the request is still there to be asked about,
`decision` what the policy would say. -/
def decideOpen (uid : UInt32) (identified : Bool) (decision : Decision) : Option Decision :=
  if identified = false then none
  else if uid ≠ fs.ownerUid ∧ uid ≠ 0 then none
  else some decision

def handleOf (work : Work) : OpenHandle := ⟨if work.needsWrite then .write else .read, work.needsRead⟩

end CredentialFs

inductive Request where
  | getattr (uid : UInt32) (ino : UInt64)
  | access (uid : UInt32) (ino : UInt64)
  | openFile (uid pid : UInt32) (ino : UInt64) (flags : UInt32)
  | read (ino fh offset : UInt64) (size : UInt32)
  | write (ino fh offset : UInt64) (data : Bytes)
  | setattr (uid pid : UInt32) (ino : UInt64) (change : SetAttr)
  | release (ino fh : UInt64)

/-- The uid that the handler of a request looks at. -/
def Request.caller : Request → Option UInt32
  | .getattr uid _ | .access uid _ | .openFile uid _ _ _ | .setattr uid _ _ _ => some uid
  | .read .. | .write .. | .release .. => none

def CredentialFs.handle (fs : CredentialFs) : Request → MutationProg Handled
  | .getattr uid ino => .pure (fs.getattr uid ino)
  | .access uid ino => .pure (fs.access uid ino)
  | .openFile uid pid ino flags => .pure (fs.openFile uid pid ino flags)
  | .read ino fh offset size => .pure (fs.read ino fh offset size)
  | .write ino fh offset data => fs.write ino fh offset data
  | .setattr uid pid ino change => fs.setattr uid pid ino change
  | .release ino fh => .pure (fs.release ino fh)

/-- The mounted file system in its world. `origin` remembers the task behind each handle, `numbers` the
handle numbers in the order in which they were given out. -/
structure Mount where
  world : World
  fs : CredentialFs
  tasks : List Task
  origin : UInt64 → Option ℕ
  numbers : List UInt64

namespace Mount

def start (world : World) (watched : Path) (record : SnapshotRecord) : Mount :=
  ⟨world, .ofShared watched ⟨record, fun _ => none, 1⟩, [], fun _ => none, []⟩

def setShared (s : Mount) (shared : Shared) (world : World) : Mount :=
  { s with fs := { s.fs with shared := shared }, world := world }

def setTask (s : Mount) (index : ℕ) (task : Task) : Mount := { s with tasks := s.tasks.set index task }

def handled (s : Mount) (world : World) : Handled → Mount
  | .replied _ shared => s.setShared shared world
  | .spawned task => { s with tasks := s.tasks ++ [task], world := world }

/-- The task goes on if the policy allowed what it asked for. -/
def decided (task : Task) (decision : Option Decision) : Task :=
  if decision.any Decision.isAllowed then
    { task with decision := decision, stage := match task.work.truncation with
        | some newSize => .truncating newSize
        | none => .finishing }
  else { task with decision := decision, stage := .replied (.error .eacces) }

def truncated (task : Task) : Except MutationError Shared → Task
  | .ok _ => { task with stage := .finishing }
  | .error error => { task with stage := .replied (.error (errnoOf error)) }

/-- The last step of a task: an open registers its handle, a resize reports the size. -/
def finish (s : Mount) (index : ℕ) (task : Task) : Mount :=
  match task.work with
  | .opening _ _ _ _ =>
    let (fh, shared) := s.fs.shared.registerHandle (CredentialFs.handleOf task.work)
    let s := (s.setShared shared s.world).setTask index { task with stage := .replied (.opened fh) }
    { s with origin := Function.update s.origin fh (some index), numbers := s.numbers ++ [fh] }
  | .resizing _ => s.setTask index { task with
      stage := .replied (.attr (buildFileAttr s.fs.shared.currentSize s.fs.presentation)) }

inductive Event where
  | request (request : Request) (handled : Handled)
  | decide (index : ℕ) (decision : Option Decision)
  | truncate (index : ℕ)
  | finish (index : ℕ)

/-- One step of the session thread or of a task, with any answers of the store; a step that holds the
mutation lock is one step. -/
inductive Step (host : Host) : Mount → Event → Mount → Prop where
  | request {s : Mount} (request : Request) (handled : Handled) (w : World)
      (ran : Finishes (alone host fun _ _ => True) (s.fs.handle request) s.world (.ok handled) w) :
      Step host s (.request request handled) (s.handled w handled)
  | decide {s : Mount} (index : ℕ) (task : Task) (identified : Bool) (decision : Decision)
      (found : s.tasks[index]? = some task) (stage : task.stage = .deciding) :
      Step host s (.decide index (s.fs.decideOpen task.uid identified decision))
        (s.setTask index (decided task (s.fs.decideOpen task.uid identified decision)))
  | truncate {s : Mount} (index : ℕ) (task : Task) (newSize : UInt64) (result : Except MutationError Shared)
      (w : World) (found : s.tasks[index]? = some task) (stage : task.stage = .truncating newSize)
      (ran : Finishes (alone host fun _ _ => True) (s.fs.shared.applyTruncate newSize) s.world result w) :
      Step host s (.truncate index)
        ((s.setShared (result.toOption.getD s.fs.shared) w).setTask index (truncated task result))
  | finish {s : Mount} (index : ℕ) (task : Task) (found : s.tasks[index]? = some task)
      (stage : task.stage = .finishing) : Step host s (.finish index) (s.finish index task)

inductive Run (host : Host) (start : Mount) : Mount → Prop where
  | start : Run host start start
  | step {s s' : Mount} {event : Event} (before : Run host start s) (next : Step host s event s') :
      Run host start s'

end Mount

end FileGuard.Fuse
