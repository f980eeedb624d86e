import FileGuard.Files.SecureFile

namespace FileGuard.Transaction

open Store Files CrashLogic

inductive TxError where
  | store (context : Option String) (error : StoreError)
  | io (error : IoError)
  | message (text : String)
  deriving DecidableEq

def TxError.display : TxError → String
  | .store (some context) _ => context
  | .store none error => error.display
  | .io error => error.display
  | .message text => text

abbrev TxProg := Prog signature TxError

inductive RestoreOutcome where
  | missing
  | restored
  deriving DecidableEq

/-- Where the daemon runs; everything else of the source's manager is the store and the staging root. -/
structure Manager where
  cwd : Path
  stagingRoot : Path

def finalName : String := "final"
def retiredName : String := "retired"

abbrev Layout := Option ObjectIdentity × Option ObjectIdentity

def objectMatches (actual expected : Option ObjectIdentity) (afterRename : Bool) : Bool :=
  match actual, expected with
  | none, none => true
  | some actual, some expected =>
    if afterRename then sameFileAfterRename expected actual else actual == expected
  | _, _ => false

def layoutMatches (actual expected : Layout) (afterRename : Bool) : Bool :=
  objectMatches actual.1 expected.1 afterRename && objectMatches actual.2 expected.2 afterRename

def ofIo {α : Type} (p : FileProg α) : TxProg α := p.mapError .io

def ofStore {α : Type} (x : StoreResult α) : TxProg α := .ofExcept (x.mapError (.store none))

def orMessage {α : Type} (value : Option α) (text : String) : TxProg α :=
  value.elim (.fail (.message text)) .pure

def bail {α : Type} (text : String) : TxProg α := .fail (.message text)

def storeLoad (fileId : Path) : TxProg (StoreResult Entry) := perform (.load fileId)

def load (fileId : Path) : TxProg Entry := do ofStore (← storeLoad fileId)

def storeCommit (fileId : Path) (expected : Option RecordVersion) (next : SnapshotRecord) :
    TxProg (StoreResult RecordVersion) := perform (.commit fileId expected next)

def storeBeginFinalization (fileId : Path) (expected : RecordVersion) (marker : FinalizationRecord) :
    TxProg (StoreResult RecordVersion) := perform (.beginFinalization fileId expected marker)

def storeFinishFinalization (fileId : Path) (expected : RecordVersion) : TxProg (StoreResult Unit) :=
  perform (.finishFinalization fileId expected)

def recordPath (record : SnapshotRecord) : TxProg Path := ofStore (pathFromHex record.header.pathHex)

def requireUnblocked (path : Path) (record : SnapshotRecord) : TxProg Unit :=
  match record.header.blockedReason with
  | some reason => bail s!"transaction for {Path.display path} requires manual recovery: {reason}"
  | none => .pure ()

def conflict {α : Type} (record : SnapshotRecord) (reason : String) : TxProg α := do
  let path ← recordPath record
  let next := record.successor record.header.lifecycle record.contents
  let next := { next with header := { next.header with blockedReason := some reason } }
  match ← storeCommit path (some record.version) next with
  | .ok _ => bail s!"{Path.display path}: {reason}"
  | .error error =>
    bail s!"{Path.display path}: {reason}; additionally failed to persist conflict state: {error.display}"

def commitSuccessor (current next : SnapshotRecord) : TxProg Unit := do
  let path ← recordPath current
  let _ ← ofStore (← storeCommit path (some current.version) next)
  return ()

def addContext (context : String) : TxError → TxError
  | .store _ error => .store (some context) error
  | error => error

def transition (current : SnapshotRecord) (lifecycle : Lifecycle) : TxProg SnapshotRecord := do
  let path ← recordPath current
  let next := current.successor lifecycle current.contents
  (commitSuccessor current next).mapError
    (addContext s!"commit lifecycle transition for {Path.display path}")
  return next

/-- What a mounted write turns the current record into. -/
def mountedSuccessor (current : SnapshotRecord) (contents : Bytes) : SnapshotRecord :=
  let next := current.successor current.header.lifecycle contents
  { next with header := { next.header with logicalPresent := true } }

/-- After an uncertain commit the row itself says whether the candidate is there. -/
def observeCandidate (path : Path) (next : SnapshotRecord) (commitError : String) :
    TxProg SnapshotRecord := do
  match ← storeLoad path with
  | .ok (.present observed) =>
    if observed = next then return observed
    else .fail (.store none (.indeterminate
      s!"{commitError}; reload did not observe the candidate revision"))
  | .ok _ => .fail (.store none (.indeterminate
      s!"{commitError}; reload did not observe the candidate revision"))
  | .error reloadError => .fail (.store none (.indeterminate
      s!"{commitError}; reload failed: {reloadError.display}"))

def updateContents (current : SnapshotRecord) (contents : Bytes) : TxProg SnapshotRecord := do
  let path ← recordPath current
  requireUnblocked path current
  if isMountIntent current.header.lifecycle = false then
    bail "credential is no longer accepting mounted writes"
  else do
    let next := mountedSuccessor current contents
    match ← storeCommit path (some current.version) next with
    | .ok version =>
      if version = next.version then return next
      else .fail (.store none (.conflict "backing store returned the wrong committed revision"))
    | .error (.indeterminate commitError) => observeCandidate path next commitError
    | .error error => .fail (.store none error)

/-- The observe, rename, observe again sequence that installation, offline storage and restoration share:
the rename is made only from the exact layout before it, and an error counts only if the layout after it is
not reached. -/
def renameStep (observed : TxProg Layout) (before after : Layout) (operation : FileProg Unit) :
    TxProg Layout := do
  let layout ← observed
  if layoutMatches layout before false then
    match ← (ofIo operation).attempt with
    | .error error => do
      let layout ← observed
      if layoutMatches layout after true then return layout else .fail error
    | .ok () => observed
  else return layout

/-- The entry left by an interrupted run is kept if it verifies and built anew otherwise. -/
def ensureEntry (staging : StagingArea) (name : String) (verify create : FileProg ObjectIdentity) :
    TxProg ObjectIdentity := do
  match ← ofIo (staging.observe name) with
  | none => ofIo create
  | some _ => match ← (ofIo verify).attempt with
    | .ok identity => return identity
    | .error _ => do
      ofIo (staging.discardUncommitted name)
      ofIo create

namespace Manager

variable (m : Manager)

def resolve (path : Path) : TxProg ResolvedPath :=
  .ofExcept ((ResolvedPath.new m.cwd path).mapError .io)

def normalizePath (path : Path) : TxProg Path := do
  let resolved ← m.resolve path
  return resolved.path

def resolveBoundPath (path : Path) (record : SnapshotRecord) : TxProg ResolvedPath := do
  let resolved ← m.resolve path
  let actualParent ← ResolvedPath.parentIdentity
  if sameObject actualParent record.header.parent then return resolved
  else bail s!"parent directory for {Path.display path} changed since capture"

def openStaging (record : SnapshotRecord) : TxProg StagingArea := do
  let path ← ofStore (pathFromHex record.header.stagingPathHex)
  ofIo (StagingArea.openAt m.cwd path record.header.parent.device)

def createStaging (record : SnapshotRecord) : TxProg StagingArea := do
  let stagingPath ← ofStore (pathFromHex record.header.stagingPathHex)
  let stagingRoot ← orMessage (Path.parent stagingPath) "staging transaction has no root"
  ofIo (StagingArea.create m.cwd stagingRoot record.header.generation record.header.parent.device)

def validateCapturedSource (record : SnapshotRecord) (resolved : ResolvedPath) : TxProg Unit := do
  match record.header.original with
  | .present expectedIdentity expectedMetadata => do
    let captured ← ofIo resolved.capture
    match captured.original with
    | .present identity metadata =>
      if identity = expectedIdentity ∧ captured.contents = record.contents ∧
          sameMetadata metadata expectedMetadata then return ()
      else bail "captured file no longer matches its durable snapshot"
    | .absent _ => bail "captured file disappeared"
  | .absent _ => match ← resolved.observe with
    | none => return ()
    | some _ => bail "captured absent path appeared"

def validateInstalledLayout (path : Path) (record : SnapshotRecord)
    (detachedOriginal : Option ObjectIdentity) : TxProg Unit := do
  let resolved ← m.resolveBoundPath path record
  let staging ← m.openStaging record
  let placeholder ← orMessage record.header.placeholder "installed snapshot has no placeholder identity"
  let target ← resolved.observe
  if target ≠ some placeholder then
    bail s!"{Path.display path} no longer contains the recorded placeholder"
  else match record.header.original, detachedOriginal with
    | .present _ _, some detached => do
      let actual ← ofIo (staging.observe record.header.swapName)
      if actual = some detached then return ()
      else bail s!"{Path.display path} has inconsistent installed recovery state"
    | .absent _, none => do
      let actual ← ofIo (staging.observe record.header.swapName)
      if actual = none then return ()
      else bail s!"{Path.display path} has inconsistent installed recovery state"
    | _, _ => bail s!"{Path.display path} has inconsistent installed recovery state"

def requireInstalledLayout (path : Path) (record : SnapshotRecord)
    (detachedOriginal : Option ObjectIdentity) : TxProg SnapshotRecord := do
  match ← (m.validateInstalledLayout path record detachedOriginal).attempt with
  | .ok () => return record
  | .error error => conflict record s!"installed filesystem layout is invalid: {error.display}"

def requireInstalled (path : Path) (record : SnapshotRecord) : TxProg SnapshotRecord :=
  match record.header.lifecycle with
  | .installed detachedOriginal => m.requireInstalledLayout path record detachedOriginal
  | _ => conflict record "record claims an invalid installed lifecycle"

def validateStored (path : Path) (record : SnapshotRecord) : TxProg Unit :=
  match record.header.lifecycle, record.header.original with
  | .stored detachedName detachedOriginal, .present _ _ => do
    let resolved ← m.resolveBoundPath path record
    let staging ← m.openStaging record
    let target ← resolved.observe
    if target.isSome then bail s!"{Path.display path} has inconsistent offline-store state"
    else do
      let detached ← ofIo (staging.observe detachedName)
      if detached = some detachedOriginal then return ()
      else bail s!"{Path.display path} has inconsistent offline-store state"
  | .stored _ _, .absent _ => bail "stored record claims its original path was absent"
  | _, _ => bail "record is not stored offline"

def requireStored (path : Path) (record : SnapshotRecord) : TxProg SnapshotRecord := do
  match ← (m.validateStored path record).attempt with
  | .ok () => return record
  | .error error => conflict record s!"offline-store filesystem layout is invalid: {error.display}"

def restoredIdentityOf (record : SnapshotRecord) : TxProg (Option ObjectIdentity) :=
  match record.header.lifecycle with
  | .restored _ restoredIdentity _ _ _ _ | .deleteIntent _ restoredIdentity _ _ _ _ =>
    .pure restoredIdentity
  | _ => bail "record is not in restored cleanup"

def validateRestoredTarget (record : SnapshotRecord) (resolved : ResolvedPath) : TxProg Unit := do
  let restoredIdentity ← restoredIdentityOf record
  match restoredIdentity, record.header.logicalPresent with
  | some expected, true => do
    let actual ← ofIo (resolved.verifyRestoration record.contents record.header.original.metadata)
    if actual = expected then return () else bail "restored inode identity changed"
  | none, false => match ← resolved.observe with
    | none => return ()
    | some _ => bail "restored target presence disagrees with the snapshot"
  | _, _ => bail "restored target presence disagrees with the snapshot"

def observeLayout (resolved : ResolvedPath) (staging : StagingArea) (name : String) : TxProg Layout := do
  let target ← resolved.observe
  let staged ← ofIo (staging.observe name)
  return (target, staged)

def captureRecord (path : Path) (requirePresent : Bool) : TxProg SnapshotRecord := do
  let resolved ← m.resolve path
  let captured ← ofIo resolved.capture
  if requirePresent = true ∧ captured.original.existed = false then
    bail s!"{Path.display path} does not exist and cannot be stored offline"
  else do
    let parent ← ResolvedPath.parentIdentity
    let generation ← randomToken
    let stagingPath ← ofIo (Prog.ofExcept (StagingArea.plannedPath m.cwd m.stagingRoot generation))
    let mountToken ← randomToken
    let record : SnapshotRecord := {
      header := {
        format := formatVersion
        pathHex := pathToHex resolved.path
        generation := generation
        revision := 1
        lifecycle := .captured
        original := captured.original
        logicalPresent := captured.original.existed
        parent := parent
        stagingPathHex := pathToHex stagingPath
        swapName := "swap"
        storedName := "stored"
        placeholder := none
        mountToken := mountToken
        contentSha256 := sha256 captured.contents
        blockedReason := none }
      contents := captured.contents }
    let _ ← ofStore (← storeCommit path none record)
    return record

def beginInstall (record : SnapshotRecord) : TxProg SnapshotRecord := do
  let path ← recordPath record
  let resolved ← m.resolveBoundPath path record
  match ← (validateCapturedSource record resolved).attempt with
  | .error error =>
    conflict record s!"captured source changed before placeholder preparation: {error.display}"
  | .ok () => do
    let staging ← m.createStaging record
    let name := record.header.swapName
    let metadata := record.header.original.metadata
    ofIo (staging.discardConstruction name)
    let placeholder ← ensureEntry staging name (staging.verifyPlaceholder name metadata)
      (staging.createPlaceholder name metadata)
    let installing := record.successor .installIntent record.contents
    let installing := { installing with
      header := { installing.header with placeholder := some placeholder } }
    commitSuccessor record installing
    return installing

def prepareOfflineStaging (record : SnapshotRecord) : TxProg SnapshotRecord := do
  let path ← recordPath record
  let resolved ← m.resolveBoundPath path record
  match ← (validateCapturedSource record resolved).attempt with
  | .error error =>
    conflict record s!"captured source changed before offline storage: {error.display}"
  | .ok () => do
    let staging ← m.createStaging record
    if ← staging.isEmpty then return record
    else conflict record "offline staging contains unexpected entries"

def verifyDetached (staging : StagingArea) (record : SnapshotRecord) : TxProg Unit :=
  match record.header.original with
  | .present _ metadata => do
    let _ ← ofIo (staging.verifySnapshot record.header.swapName record.contents metadata)
    return ()
  | .absent _ => .pure ()

def finishInstall (record : SnapshotRecord) : TxProg SnapshotRecord := do
  let path ← recordPath record
  let resolved ← m.resolveBoundPath path record
  let staging ← m.openStaging record
  let placeholder ← orMessage record.header.placeholder "install intent has no placeholder identity"
  let name := record.header.swapName
  let identity := match record.header.original with
    | .present identity _ => some identity
    | .absent _ => none
  let before : Layout := (identity, some placeholder)
  let after : Layout := (some placeholder, identity)
  let operation := if record.header.original.existed then resolved.exchangeWith staging name
    else resolved.installAbsent staging name
  let observed ← renameStep (observeLayout resolved staging name) before after operation
  if layoutMatches observed after true then do
    match ← (verifyDetached staging record).attempt with
    | .error error =>
      conflict record s!"detached original failed post-install verification: {error.display}"
    | .ok () => do
      resolved.syncWith staging
      let installed := record.successor (.installed observed.2) record.contents
      let installed := { installed with
        header := { installed.header with placeholder := observed.1 } }
      commitSuccessor record installed
      m.requireInstalled path installed
  else conflict record "capture/install identities do not match either recoverable layout"

def finishStore (record : SnapshotRecord) : TxProg SnapshotRecord := do
  match record.header.lifecycle with
  | .storeIntent detachedName => match record.header.original with
    | .present identity metadata => do
      let path ← recordPath record
      let resolved ← m.resolveBoundPath path record
      let staging ← m.openStaging record
      let before : Layout := (some identity, none)
      let after : Layout := (none, some identity)
      let observed ← renameStep (observeLayout resolved staging detachedName) before after
        (resolved.moveToStaging staging detachedName)
      if layoutMatches observed after true then do
        match ← (ofIo (staging.verifySnapshot detachedName record.contents metadata)).attempt with
        | .ok actual =>
          if sameFileAfterRename identity actual then do
            resolved.syncWith staging
            let stored ← transition record (.stored detachedName actual)
            m.requireStored path stored
          else conflict record "offline-store detached inode changed during verification"
        | .error error =>
          conflict record s!"offline-store detached original failed verification: {error.display}"
      else conflict record "offline-store identities do not match either recoverable layout"
    | .absent _ => conflict record "cannot store an originally absent credential offline"
  | _ => bail "record is not awaiting offline storage"

/-- The layout before and after the restoring rename, and the name the placeholder is displaced to. -/
def restoreLayouts (record : SnapshotRecord) (origin : RestoreOrigin) (restoreName : String)
    (restoreIdentity : Option ObjectIdentity) : TxProg (Layout × Layout × Option String) :=
  match origin, restoreIdentity with
  | .installed, restored => do
    let placeholder ← orMessage record.header.placeholder "installed restore has no placeholder identity"
    return ((some placeholder, restored), (restored, some placeholder), some restoreName)
  | .stored, some restored => return ((none, some restored), (some restored, none), none)
  | .stored, none => conflict record "stored credential has no restoration inode"

def restoreRename (resolved : ResolvedPath) (staging : StagingArea) (origin : RestoreOrigin)
    (restoreIdentity : Option ObjectIdentity) (restoreName : String) : FileProg Unit :=
  match origin, restoreIdentity with
  | .installed, some _ => resolved.exchangeWith staging restoreName
  | .installed, none => resolved.moveToStaging staging restoreName
  | .stored, _ => resolved.installAbsent staging restoreName

/-- The target is read back before the restoration is committed. -/
def confirmRestored (resolved : ResolvedPath) (record : SnapshotRecord) (observed : Layout)
    (restoreIdentity : Option ObjectIdentity) : TxProg Layout := do
  if record.header.logicalPresent then do
    let expected ← orMessage restoreIdentity "logical credential has no restoration identity"
    match ← (ofIo (resolved.verifyRestoration record.contents
        record.header.original.metadata)).attempt with
    | .ok actual =>
      if sameFileAfterRename expected actual then return (some actual, observed.2)
      else conflict record "restored inode identity changed during content verification"
    | .error error =>
      conflict record s!"restored contents or metadata failed verification: {error.display}"
  else match ← resolved.observe with
    | some _ => conflict record "logically absent target reappeared during restore"
    | none => return observed

/-- A logically present credential first gets its restoration file built and its identity committed. -/
def ensureRestoration (staging : StagingArea) (record : SnapshotRecord) (origin : RestoreOrigin)
    (restoreName : String) (restoreIdentity : Option ObjectIdentity) (detachedName : Option String)
    (detachedIdentity : Option ObjectIdentity) : TxProg (SnapshotRecord × Option ObjectIdentity) := do
  if record.header.logicalPresent = true ∧ restoreIdentity = none then do
    let metadata := record.header.original.metadata
    let identity ← ensureEntry staging restoreName
      (staging.verifyRestoration restoreName record.contents metadata)
      (staging.createRestoration restoreName record.contents metadata)
    let record ← transition record
      (.restoreIntent origin (some restoreName) (some identity) detachedName detachedIdentity)
    return (record, some identity)
  else return (record, restoreIdentity)

def finishRestoreWith (resolved : ResolvedPath) (staging : StagingArea) (record : SnapshotRecord) :
    TxProg SnapshotRecord := do
  match record.header.lifecycle with
  | .restoreIntent origin restoreName restoreIdentity detachedName detachedIdentity => do
    let restoreName ← orMessage restoreName "restore intent has no staging entry name"
    ofIo (staging.discardConstruction restoreName)
    let (record, restoreIdentity) ← ensureRestoration staging record origin restoreName restoreIdentity
      detachedName detachedIdentity
    let (before, after, displacedName) ← restoreLayouts record origin restoreName restoreIdentity
    let observed ← renameStep (observeLayout resolved staging restoreName) before after
      (restoreRename resolved staging origin restoreIdentity restoreName)
    if layoutMatches observed after true then do
      let observed ← confirmRestored resolved record observed restoreIdentity
      resolved.syncWith staging
      transition record (.restored origin observed.1 displacedName observed.2 detachedName
        detachedIdentity)
    else conflict record "restore identities do not match either recoverable layout"
  | _ => bail "record is not awaiting restore"

def finishRestore (record : SnapshotRecord) : TxProg SnapshotRecord := do
  let path ← recordPath record
  let resolved ← m.resolveBoundPath path record
  let staging ← m.openStaging record
  finishRestoreWith resolved staging record

def restoreBinding (record : SnapshotRecord) :
    TxProg (RestoreOrigin × Option String × Option ObjectIdentity) :=
  let swapName := if record.header.original.existed then some record.header.swapName else none
  match record.header.lifecycle with
  | .installed detachedOriginal => return (.installed, swapName, detachedOriginal)
  | .unmountIntent .restore detachedOriginal => return (.installed, swapName, detachedOriginal)
  | .stored detachedName detachedOriginal => return (.stored, some detachedName, some detachedOriginal)
  | _ => bail "record is not ready to restore"

def requireRestorable (path : Path) (record : SnapshotRecord) (origin : RestoreOrigin)
    (detachedIdentity : Option ObjectIdentity) : TxProg SnapshotRecord :=
  match origin with
  | .installed => m.requireInstalledLayout path record detachedIdentity
  | .stored => m.requireStored path record

def beginRestore (record : SnapshotRecord) : TxProg SnapshotRecord := do
  let path ← recordPath record
  let (origin, detachedName, detachedIdentity) ← restoreBinding record
  let record ← m.requireRestorable path record origin detachedIdentity
  let resolved ← m.resolveBoundPath path record
  let staging ← m.openStaging record
  let token ← randomToken
  let restoreName := if record.header.logicalPresent then "restore-" ++ token else "displaced-" ++ token
  let restoring ← transition record
    (.restoreIntent origin (some restoreName) none detachedName detachedIdentity)
  finishRestoreWith resolved staging restoring

def targetRetired (expected : ObjectIdentity) (layout : Layout) : Bool :=
  layout.1.isNone && layout.2.any (sameFileAfterRename expected)

def moveRetired (resolved : ResolvedPath) (staging : StagingArea) (expected : ObjectIdentity)
    (layout : Layout) : TxProg Layout :=
  if layout = (some expected, none) then do
    match ← (ofIo (resolved.moveToStaging staging retiredName)).attempt with
    | .error error => do
      let layout ← observeLayout resolved staging retiredName
      if targetRetired expected layout then return layout else .fail error
    | .ok () => observeLayout resolved staging retiredName
  else .pure layout

/-- The restored inode leaves the watched path for the staging directory. -/
def retireRestoredTarget (record : SnapshotRecord) (resolved : ResolvedPath) (staging : StagingArea)
    (expected : Option ObjectIdentity) : TxProg Unit := do
  let path ← recordPath record
  let layout ← observeLayout resolved staging retiredName
  if layout = (none, none) then return ()
  else match expected with
    | some expected => do
      let layout ← moveRetired resolved staging expected layout
      if targetRetired expected layout then return ()
      else bail s!"{Path.display path} changed while its restored inode was being retired"
    | none => bail s!"{Path.display path} appeared while an absent restore was being finalized"

def storedFinalization (path : Path) (snapshot : SnapshotRecord) (marker : FinalizationRecord) :
    TxProg FinalizationRecord := do
  match ← storeBeginFinalization path snapshot.version marker with
  | .ok _ => return marker
  | .error error => match ← load path with
    | .finalizing actual =>
      if actual = marker then return marker
      else bail "snapshot changed unexpectedly while committing its finalization marker"
    | .present actual =>
      if actual.version = snapshot.version then .fail (.store none error)
      else bail "snapshot changed unexpectedly while committing its finalization marker"
    | .missing =>
      bail "snapshot and finalization marker both disappeared after an uncertain commit"

def finalInstalled (expected : ObjectIdentity) (layout : Layout) : Bool :=
  layout.2.isNone && layout.1.any (sameFileAfterRename expected)

def moveFinal (resolved : ResolvedPath) (staging : StagingArea) (name : String)
    (expected : ObjectIdentity) (layout : Layout) : TxProg Layout :=
  if layout = (none, some expected) then do
    match ← (ofIo (resolved.installAbsent staging name)).attempt with
    | .error error => do
      let layout ← observeLayout resolved staging name
      if finalInstalled expected layout then return layout else .fail error
    | .ok () => observeLayout resolved staging name
  else .pure layout

def verifyDelivered (resolved : ResolvedPath) (marker : FinalizationRecord) (expected : ObjectIdentity)
    (changed : String) : TxProg Unit := do
  let actual ← ofIo (resolved.verifyFinalization marker.contentLength marker.contentSha256
    marker.restoreMetadata)
  if sameFileAfterRename expected actual then return () else bail changed

/-- The final copy is moved onto the watched path, unless an earlier run has done it. -/
def deliverFinal (path : Path) (resolved : ResolvedPath) (staging : StagingArea)
    (marker : FinalizationRecord) : TxProg Unit :=
  match marker.finalIdentity with
  | some expected => do
    let layout ← observeLayout resolved staging marker.finalName
    let layout ← moveFinal resolved staging marker.finalName expected layout
    if finalInstalled expected layout then
      verifyDelivered resolved marker expected
        s!"final restoration identity for {Path.display path} changed"
    else bail s!"finalization layout for {Path.display path} is neither pre-rename nor post-rename"
  | none => do
    let layout ← observeLayout resolved staging marker.finalName
    if layout = (none, none) then return ()
    else bail s!"absent finalization for {Path.display path} has an unexpected filesystem object"

def confirmDelivered (resolved : ResolvedPath) (marker : FinalizationRecord) : TxProg Unit :=
  match marker.finalIdentity with
  | some expected =>
    verifyDelivered resolved marker expected "final restoration changed before marker deletion"
  | none => do
    match ← resolved.observe with
    | none => return ()
    | some _ => bail "absent target appeared before marker deletion"

def deleteMarker (path : Path) (marker : FinalizationRecord) : TxProg Unit := do
  match ← storeFinishFinalization path marker.version with
  | .ok () => return ()
  | .error error => match ← load path with
    | .missing => return ()
    | .finalizing actual =>
      if actual = marker then .fail (.store none error)
      else bail s!"finalization marker changed unexpectedly during deletion for {Path.display path}"
    | .present _ =>
      bail s!"finalization marker changed unexpectedly during deletion for {Path.display path}"

def finishFinalization (marker : FinalizationRecord) : TxProg Unit := do
  let path ← ofStore (pathFromHex marker.pathHex)
  let resolved ← m.resolve path
  let actualParent ← ResolvedPath.parentIdentity
  if sameObject actualParent marker.parent then do
    let stagingPath ← ofStore (pathFromHex marker.stagingPathHex)
    let staging ← ofIo (StagingArea.openAt m.cwd stagingPath marker.parent.device)
    deliverFinal path resolved staging marker
    resolved.syncWith staging
    confirmDelivered resolved marker
    deleteMarker path marker
    let _ ← (ofIo staging.removeIfEmpty).attempt
    return ()
  else bail s!"finalization parent for {Path.display path} no longer matches its recorded directory"

/-- The final copy that the finalization marker will name. -/
def prepareFinal (staging : StagingArea) (record : SnapshotRecord) : TxProg (Option ObjectIdentity) := do
  ofIo (staging.discardConstruction finalName)
  if record.header.logicalPresent then do
    let metadata := record.header.original.metadata
    let identity ← ensureEntry staging finalName
      (staging.verifyRestoration finalName record.contents metadata)
      (staging.createRestoration finalName record.contents metadata)
    return some identity
  else match ← ofIo (staging.observe finalName) with
    | some _ => conflict record "absent restore has an unexpected final copy"
    | none => return none

/-- A displaced or detached inode is removed only while its recorded identity is unchanged. -/
def removeRecorded (staging : StagingArea) (record : SnapshotRecord) (name : String)
    (expected : ObjectIdentity) (replaced : String) : TxProg Unit := do
  match ← ofIo (staging.observe name) with
  | some actual =>
    if actual = expected then ofIo (staging.removeVerified name expected)
    else conflict record replaced
  | none => return ()

def removeDisplaced (staging : StagingArea) (record : SnapshotRecord) (name : Option String)
    (expected : Option ObjectIdentity) : TxProg Unit :=
  match name, expected with
  | some name, some expected =>
    removeRecorded staging record name expected "displaced placeholder was replaced"
  | _, _ => .pure ()

def removeDetached (staging : StagingArea) (record : SnapshotRecord) (name : Option String)
    (expected : Option ObjectIdentity) : TxProg Unit :=
  match name, expected with
  | some name, some expected => match record.header.original with
    | .absent _ => conflict record "absent source unexpectedly has a detached inode"
    | .present _ _ => removeRecorded staging record name expected
        "detached original changed through a pre-existing descriptor; both versions were retained"
  | _, _ => .pure ()

def removeRetired (staging : StagingArea) (record : SnapshotRecord)
    (restoredIdentity : Option ObjectIdentity) : TxProg Unit := do
  match restoredIdentity with
  | some expected => match ← ofIo (staging.observe retiredName) with
    | some actual =>
      if sameFileAfterRename expected actual then do
        let verified ← ofIo (staging.verifyFinalization retiredName record.contents.length
          record.header.contentSha256 record.header.original.metadata)
        ofIo (staging.removeVerified retiredName verified)
      else conflict record "retired restored target changed during cleanup"
    | none => return ()
  | none => match ← ofIo (staging.observe retiredName) with
    | some _ => conflict record "absent restore has an unexpected retired target"
    | none => return ()

def finalizationMarker (record : SnapshotRecord) (finalIdentity : Option ObjectIdentity) :
    FinalizationRecord where
  format := formatVersion
  pathHex := record.header.pathHex
  generation := record.header.generation
  revision := record.header.revision + 1
  logicalPresent := record.header.logicalPresent
  parent := record.header.parent
  stagingPathHex := record.header.stagingPathHex
  finalName := finalName
  finalIdentity := finalIdentity
  restoreMetadata := record.header.original.metadata
  contentLength := record.contents.length
  contentSha256 := record.header.contentSha256

def confirmFinal (staging : StagingArea) (record : SnapshotRecord)
    (finalIdentity : Option ObjectIdentity) : TxProg Unit :=
  match finalIdentity with
  | some expected => do
    let actual ← ofIo (staging.verifyFinalization finalName record.contents.length
      record.header.contentSha256 record.header.original.metadata)
    if actual = expected then return ()
    else conflict record "final restoration changed before marker commit"
  | none => .pure ()

/-- Everything of a restoration but its final copy is removed, and the marker takes the row's place. -/
def cleanupStaging (path : Path) (resolved : ResolvedPath) (record : SnapshotRecord)
    (restoredIdentity : Option ObjectIdentity) (displacedName : Option String)
    (displacedIdentity : Option ObjectIdentity) (detachedName : Option String)
    (detachedIdentity : Option ObjectIdentity) : TxProg Unit := do
  let staging ← m.openStaging record
  let finalIdentity ← prepareFinal staging record
  retireRestoredTarget record resolved staging restoredIdentity
  removeDisplaced staging record displacedName displacedIdentity
  removeDetached staging record detachedName detachedIdentity
  removeRetired staging record restoredIdentity
  staging.sync
  if ← staging.containsOnly (if finalIdentity.isSome then [finalName] else []) then do
    confirmFinal staging record finalIdentity
    match ← resolved.observe with
    | some _ => bail s!"{Path.display path} became occupied while preparing final restoration"
    | none => do
      resolved.syncWith staging
      let marker ← storedFinalization path record (finalizationMarker record finalIdentity)
      m.finishFinalization marker
  else conflict record "staging directory contains unrecognized recovery data"

def beginDelete (record : SnapshotRecord) (resolved : ResolvedPath) : TxProg SnapshotRecord := do
  match record.header.lifecycle with
  | .restored origin restoredIdentity displacedName displacedIdentity detachedName detachedIdentity => do
    match ← (validateRestoredTarget record resolved).attempt with
    | .error error =>
      conflict record
        s!"restored target failed verification before deletion intent: {error.display}"
    | .ok () => transition record (.deleteIntent origin restoredIdentity displacedName
        displacedIdentity detachedName detachedIdentity)
  | .deleteIntent .. => return record
  | _ => bail "record is not restored"

def cleanupRestored (record : SnapshotRecord) : TxProg Unit := do
  let path ← recordPath record
  match ← (m.resolveBoundPath path record).attempt with
  | .error error =>
    conflict record s!"restored parent binding failed verification: {error.display}"
  | .ok resolved => do
    let record ← beginDelete record resolved
    match record.header.lifecycle with
    | .deleteIntent _ restoredIdentity displacedName displacedIdentity detachedName detachedIdentity =>
      m.cleanupStaging path resolved record restoredIdentity displacedName displacedIdentity
        detachedName detachedIdentity
    | _ => bail "record is not restored"

def captureNew (path : Path) : TxProg SnapshotRecord := do
  let record ← m.captureRecord path false
  let record ← m.beginInstall record
  m.finishInstall record

/-- What one round of `prepare` does with a row: finish, or clean up and look again. -/
def prepareRow (path : Path) (record : SnapshotRecord) : TxProg (Option SnapshotRecord) := do
  requireUnblocked path record
  match record.header.lifecycle with
  | .captured => do
    let record ← m.beginInstall record
    return some (← m.finishInstall record)
  | .installIntent => return some (← m.finishInstall record)
  | .installed _ => return some (← m.requireInstalled path record)
  | .mountIntent _ | .unmountIntent _ _ =>
    bail s!"mount lifecycle for {Path.display path} must be reconciled against the kernel mount table"
  | .restoreIntent .. => do
    let record ← m.finishRestore record
    m.cleanupRestored record
    return none
  | .restored .. | .deleteIntent .. => do
    m.cleanupRestored record
    return none
  | .storeIntent _ | .stored _ _ =>
    bail s!"{Path.display path} is stored offline; restore it before starting the daemon"

/-- The loop of `prepare`, cut off after `rounds` rounds. -/
def prepareLoop (path : Path) : ℕ → TxProg SnapshotRecord
  | 0 => bail "prepare was cut off"
  | rounds + 1 => do
    match ← load path with
    | .missing => m.captureNew path
    | .finalizing marker => do
      m.finishFinalization marker
      prepareLoop path rounds
    | .present record => do
      match ← m.prepareRow path record with
      | some record => return record
      | none => prepareLoop path rounds

def prepare (rounds : ℕ) (path : Path) : TxProg SnapshotRecord := do
  let path ← m.normalizePath path
  m.prepareLoop path rounds

def loadPresent (path : Path) : TxProg SnapshotRecord := do
  match ← load path with
  | .missing => bail s!"no v2 transaction for {Path.display path}"
  | .finalizing _ => bail s!"{Path.display path} is completing a restored snapshot"
  | .present record => do
    requireUnblocked path record
    return record

def beginMount (path : Path) : TxProg SnapshotRecord := do
  let path ← m.normalizePath path
  let record ← loadPresent path
  match record.header.lifecycle with
  | .installed detachedOriginal => do
    let record ← m.requireInstalledLayout path record detachedOriginal
    transition record (.mountIntent detachedOriginal)
  | .mountIntent detachedOriginal => m.requireInstalledLayout path record detachedOriginal
  | _ => bail s!"{Path.display path} is not ready to mount"

def abortMount (path : Path) : TxProg SnapshotRecord := do
  let path ← m.normalizePath path
  let record ← loadPresent path
  match record.header.lifecycle with
  | .mountIntent detachedOriginal => do
    let record ← m.requireInstalledLayout path record detachedOriginal
    transition record (.installed detachedOriginal)
  | .installed _ => m.requireInstalled path record
  | _ => bail s!"{Path.display path} is not awaiting mount completion"

/-- The retry loop of `begin_unmount`, cut off after `rounds` lost races. -/
def beginUnmountLoop (path : Path) (next : UnmountNext) : ℕ → TxProg SnapshotRecord
  | 0 => bail "begin_unmount was cut off"
  | rounds + 1 => do
    let record ← loadPresent path
    match record.header.lifecycle with
    | .mountIntent detachedOriginal => do
      match ← (transition record (.unmountIntent next detachedOriginal)).attempt with
      | .ok unmounting => return unmounting
      | .error (.store _ (.conflict _)) => beginUnmountLoop path next rounds
      | .error error => .fail error
    | .unmountIntent current _ =>
      if current = next then return record
      else bail s!"{Path.display path} already has a different unmount outcome"
    | _ => bail s!"{Path.display path} is not mounted by this transaction"

def beginUnmount (rounds : ℕ) (path : Path) (next : UnmountNext) : TxProg SnapshotRecord := do
  let path ← m.normalizePath path
  beginUnmountLoop path next rounds

def reconcileAfterMountAbsent (path : Path) : TxProg Unit := do
  let path ← m.normalizePath path
  match ← load path with
  | .missing => return ()
  | .finalizing marker => m.finishFinalization marker
  | .present record => do
    requireUnblocked path record
    match record.header.lifecycle with
    | .mountIntent _ => do
      let _ ← m.abortMount path
      return ()
    | .unmountIntent .leaveInstalled detachedOriginal => do
      let record ← m.requireInstalledLayout path record detachedOriginal
      let _ ← transition record (.installed detachedOriginal)
      return ()
    | .unmountIntent .restore detachedOriginal => do
      let record ← m.requireInstalledLayout path record detachedOriginal
      let record ← m.beginRestore record
      m.cleanupRestored record
    | _ => return ()

def restoreRow (path : Path) (record : SnapshotRecord) : TxProg SnapshotRecord := do
  match record.header.lifecycle with
  | .captured => do
    let record ← m.beginInstall record
    m.finishInstall record
  | .installIntent => m.finishInstall record
  | .installed _ | .stored _ _ => return record
  | .mountIntent _ | .unmountIntent _ _ =>
    bail s!"mount lifecycle for {Path.display path} must be reconciled before restore"
  | .restoreIntent .. => m.finishRestore record
  | .restored .. | .deleteIntent .. => return record
  | .storeIntent _ => m.finishStore record

def isRestored : Lifecycle → Bool
  | .restored .. | .deleteIntent .. => true
  | _ => false

def ensureRestored (record : SnapshotRecord) : TxProg SnapshotRecord :=
  if isRestored record.header.lifecycle then .pure record else m.beginRestore record

def restore (path : Path) : TxProg RestoreOutcome := do
  let path ← m.normalizePath path
  match ← load path with
  | .missing => return .missing
  | .finalizing marker => do
    m.finishFinalization marker
    return .restored
  | .present record => do
    requireUnblocked path record
    let record ← m.restoreRow path record
    let record ← m.ensureRestored record
    m.cleanupRestored record
    return .restored

def loadOrCapture (path : Path) : TxProg SnapshotRecord := do
  match ← load path with
  | .missing => m.captureRecord path true
  | .finalizing marker => do
    m.finishFinalization marker
    m.captureRecord path true
  | .present record => return record

def storeOffline (path : Path) : TxProg Unit := do
  let path ← m.normalizePath path
  let record ← m.loadOrCapture path
  requireUnblocked path record
  match record.header.lifecycle with
  | .captured =>
    if record.header.original.existed = false then
      bail s!"{Path.display path} does not exist and cannot be stored offline"
    else do
      let record ← m.prepareOfflineStaging record
      let record ← transition record (.storeIntent record.header.storedName)
      let _ ← m.finishStore record
      return ()
  | .storeIntent _ => do
    let _ ← m.finishStore record
    return ()
  | .stored _ _ => do
    let _ ← m.requireStored path record
    return ()
  | _ => bail s!"{Path.display path} already has an active v2 transaction"

end Manager

end FileGuard.Transaction
