import FileGuard.CrashLogic.Prog
import FileGuard.Mounts.Mountinfo
import FileGuard.Store.Record

/-! Starting and stopping the mounts, over steps that may each succeed or fail. -/

namespace FileGuard.Fuse.Interceptor

open Store Mounts CrashLogic

/-- The handles of a session and of the store; nothing is read from them here. -/
abbrev BackgroundSession := ℕ
abbrev BackingStore := ℕ

inductive Step where
  | normalizePath (path : Path)
  | load (path : Path)
  | mountsAt (path : Path)
  | detachStaleMount (path : Path) (token : String)
  | prepare (path : Path)
  | beginMount (path : Path)
  | credentialFs (path : Path)
  | mount (path : Path) (record : SnapshotRecord)
  | abortMount (path : Path)
  | verifyMount (path : Path) (token : String)
  | beginUnmount (path : Path) (next : UnmountNext)
  | join (session : BackgroundSession)
  | reconcileAfterMountAbsent (path : Path)
  | restore (path : Path)
  deriving DecidableEq

abbrev Step.Value : Step → Type
  | .normalizePath _ => Path
  | .load _ => Entry
  | .mountsAt _ => List MountInfo
  | .beginMount _ => SnapshotRecord
  | .mount _ _ => BackgroundSession
  | .verifyMount _ _ => Option MountInfo
  | .detachStaleMount _ _ | .prepare _ | .credentialFs _ | .abortMount _ | .beginUnmount _ _ | .join _
  | .reconcileAfterMountAbsent _ | .restore _ => Unit

abbrev steps : Signature := ⟨Step, fun step => Except String step.Value⟩

abbrev StepProg := Prog steps String

def perform (step : Step) : StepProg step.Value := (Prog.perform (σ := steps) step).bind .ofExcept

def bail {α : Type} (text : String) : StepProg α := .fail text

structure InterceptorArgs where
  watchedPaths : List Path
  store : BackingStore
  restoreOnStop : Bool

structure MountSession where
  watchedPath : Path
  token : String
  session : Option BackgroundSession
  deriving DecidableEq

structure FuseInterceptor where
  args : Option InterceptorArgs
  sessions : List MountSession
  prepared : List Path
  store : Option BackingStore
  manager : Option BackingStore
  restoreOnStop : Bool

def contains (paths : List Path) (path : Path) : Bool := paths.any (Path.same · path)

namespace FuseInterceptor

def new (args : InterceptorArgs) : FuseInterceptor := ⟨some args, [], [], none, none, false⟩

def next (i : FuseInterceptor) : UnmountNext := if i.restoreOnStop then .restore else .leaveInstalled

/-- What the loop over the sessions has collected. -/
structure Stopping where
  errors : List String
  retained : List MountSession
  completed : List Path

def recoverSession (restoreOnStop : Bool) (mount : MountSession) : StepProg (MountSession × Except String Unit) := do
  match ← (perform (.detachStaleMount mount.watchedPath mount.token)).attempt with
  | .error error => return (mount, .error error)
  | .ok () =>
    let join : StepProg Unit := match mount.session with
      | some session => perform (.join session)
      | none => .pure ()
    let recovery : StepProg Unit := do
      join
      perform (.reconcileAfterMountAbsent mount.watchedPath)
      if restoreOnStop then perform (.restore mount.watchedPath)
    return ({ mount with session := none }, ← recovery.attempt)

def stopSession (next : UnmountNext) (restoreOnStop : Bool) (s : Stopping) (mount : MountSession) :
    StepProg Stopping := do
  let fence : StepProg Unit :=
    if mount.session.isSome then perform (.beginUnmount mount.watchedPath next) else .pure ()
  match ← fence.attempt with
  | .error error => return { s with
      errors := s.errors ++
        [s!"failed to fence writes before unmounting {Path.display mount.watchedPath}: {error}"]
      retained := s.retained ++ [mount] }
  | .ok () =>
    match ← recoverSession restoreOnStop mount with
    | (mount, .error error) => return { s with
        errors := s.errors ++ [s!"failed to reconcile unmount of {Path.display mount.watchedPath}: {error}"]
        retained := s.retained ++ [mount] }
    | (mount, .ok ()) => return { s with completed := s.completed ++ [mount.watchedPath] }

def recoverPath (restoreOnStop : Bool) (path : Path) : StepProg Unit := do
  match ← perform (.load path) with
  | .present record =>
    perform (.detachStaleMount path record.header.mountToken)
    perform (.reconcileAfterMountAbsent path)
    if restoreOnStop then perform (.restore path)
  | .finalizing _ =>
    if (← perform (.mountsAt path)).isEmpty then perform (.restore path)
    else bail s!"{Path.display path} is mounted while its snapshot is finalizing"
  | .missing =>
    if (← perform (.mountsAt path)).isEmpty then return ()
    else bail s!"{Path.display path} is mounted without a snapshot record"

/-- The loop over the prepared paths keeps the errors and the paths it retains. -/
def stopPrepared (restoreOnStop : Bool) (retainedPaths completed : List Path) (s : List String × List Path)
    (path : Path) : StepProg (List String × List Path) := do
  if contains retainedPaths path then return (s.1, s.2 ++ [path])
  else if contains completed path then return s
  else match ← (recoverPath restoreOnStop path).attempt with
    | .error error => return (s.1 ++ [s!"failed to recover {Path.display path}: {error}"], s.2 ++ [path])
    | .ok () => return s

def loop {α β : Type} (body : α → β → StepProg α) : α → List β → StepProg α
  | s, [] => return s
  | s, item :: items => do loop body (← body s item) items

def stop (i : FuseInterceptor) : StepProg (FuseInterceptor × Except String Unit) :=
  match i.manager with
  | none => return ({ i with sessions := [] }, .error "transaction manager is unavailable during stop")
  | some _ => do
    let s ← loop (stopSession i.next i.restoreOnStop) ⟨[], [], []⟩ i.sessions
    let (errors, prepared) ← loop (stopPrepared i.restoreOnStop (s.retained.map MountSession.watchedPath) s.completed)
      (s.errors, []) i.prepared
    let done := s.retained.isEmpty && prepared.isEmpty
    return ({ i with
      sessions := s.retained
      prepared := prepared
      manager := if done then none else i.manager
      store := if done then none else i.store },
      if errors.isEmpty then .ok () else .error ("; ".intercalate errors))

def rollback (i : FuseInterceptor) : StepProg (FuseInterceptor × Except String Unit) :=
  stop { i with restoreOnStop := true }

def abortStart (i : FuseInterceptor) : StepProg (FuseInterceptor × Except String Unit) := i.rollback

/-- `setup` up to the point where the path is tracked. -/
def readyPath (path : Path) : StepProg Unit := do
  match ← perform (.load path) with
  | .present record =>
    match record.header.blockedReason with
    | some reason =>
      bail s!"transaction for {Path.display path} requires manual recovery before mount reconciliation: {reason}"
    | none =>
      perform (.detachStaleMount path record.header.mountToken)
      perform (.reconcileAfterMountAbsent path)
  | _ =>
    if (← perform (.mountsAt path)).isEmpty then return ()
    else bail s!"{Path.display path} is mounted but has no v2 transaction record"

def mountPath (path : Path) : StepProg (SnapshotRecord × BackgroundSession) := do
  perform (.prepare path)
  let record ← perform (.beginMount path)
  match ← (perform (.credentialFs path)).attempt with
  | .error error =>
    match ← (perform (.abortMount path)).attempt with
    | .ok _ => bail error
    | .error rollbackError => bail s!"{error}; mount-intent rollback also failed: {rollbackError}"
  | .ok () =>
    match ← (perform (.mount path record)).attempt with
    | .ok session => return (record, session)
    | .error error =>
      let rollback : StepProg Unit := do
        perform (.detachStaleMount path record.header.mountToken)
        perform (.abortMount path)
      match ← rollback.attempt with
      | .ok () => bail s!"failed to mount FUSE at {Path.display path}: {error}"
      | .error rollbackError =>
        bail s!"failed to mount FUSE at {Path.display path}: {error}; rollback also failed: {rollbackError}"

def verifySession (path : Path) (token : String) : StepProg Unit := do
  match ← perform (.verifyMount path token) with
  | some _ => return ()
  | none => bail s!"FUSE mount at {Path.display path} returned success but was not observable"

def setup (i : FuseInterceptor) (path : Path) : StepProg (FuseInterceptor × Except String Unit) := do
  match ← (readyPath path).attempt with
  | .error error => return (i, .error error)
  | .ok () =>
    let i := { i with prepared := i.prepared ++ [path] }
    match ← (mountPath path).attempt with
    | .error error => return (i, .error error)
    | .ok (record, session) =>
      let i := { i with sessions := i.sessions ++ [⟨path, record.header.mountToken, some session⟩] }
      return (i, ← (verifySession path record.header.mountToken).attempt)

def startPaths : FuseInterceptor → List Path → StepProg (FuseInterceptor × Except String Unit)
  | i, [] => return (i, .ok ())
  | i, path :: paths => do
    match ← i.setup path with
    | (i, .ok ()) => i.startPaths paths
    | (i, .error error) =>
      match ← i.rollback with
      | (i, .ok ()) => return (i, .error error)
      | (i, .error rollbackError) => return (i, .error s!"{error}; rollback also failed: {rollbackError}")

/-- The first path that an earlier one equals. -/
def duplicate? : List Path → List Path → Option Path
  | _, [] => none
  | seen, path :: paths => if contains seen path then some path else duplicate? (path :: seen) paths

def start (i : FuseInterceptor) : StepProg (FuseInterceptor × Except String Unit) :=
  match i.args with
  | none => return (i, .error "FuseInterceptor already started")
  | some args => do
    let i := { i with
      args := none
      restoreOnStop := args.restoreOnStop
      store := some args.store
      manager := some args.store }
    match ← (args.watchedPaths.mapM fun path => perform (.normalizePath path)).attempt with
    | .error error => return (i, .error error)
    | .ok paths =>
      match duplicate? [] paths with
      | some path => return (i, .error s!"duplicate watched path after normalization: {Path.display path}")
      | none => i.startPaths paths

end FuseInterceptor

end FileGuard.Fuse.Interceptor
