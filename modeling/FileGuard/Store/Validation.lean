import FileGuard.Store.Debug
import FileGuard.Store.Json

namespace FileGuard.Store

def fileTypeMask : UInt32 := 0o170000
def directoryType : UInt32 := 0o040000
def regularType : UInt32 := 0o100000

def corrupt {α : Type} (message : String) : StoreResult α := .error (.corrupt message)

def corruptIf (c : Prop) [Decidable c] (message : String) : StoreResult Unit :=
  if c then corrupt message else .ok ()

def conflictIf (c : Prop) [Decidable c] (message : String) : StoreResult Unit :=
  if c then .error (.conflict message) else .ok ()

@[simp] theorem corruptIf_eq_ok {c : Prop} [Decidable c] {message : String} :
    corruptIf c message = .ok () ↔ ¬ c := by
  unfold corruptIf corrupt
  split_ifs with h <;> simp [h]

@[simp] theorem conflictIf_eq_ok {c : Prop} [Decidable c] {message : String} :
    conflictIf c message = .ok () ↔ ¬ c := by
  unfold conflictIf
  split_ifs with h <;> simp [h]

theorem bind_eq_ok {ε α β : Type} {x : Except ε α} {f : α → Except ε β} {b : β} :
    (x >>= f) = .ok b ↔ ∃ a, x = .ok a ∧ f a = .ok b := by
  cases x <;> simp [bind, Except.bind]

theorem check_eq_ok {ε β : Type} {x : Except ε Unit} {f : Unit → Except ε β} {b : β} :
    (x >>= f) = .ok b ↔ x = .ok () ∧ f () = .ok b := by
  rw [bind_eq_ok]
  exact ⟨fun ⟨(), h⟩ => h, fun h => ⟨(), h⟩⟩

def requireSome {α : Type} (value : Option α) (message : String) : StoreResult α :=
  value.elim (corrupt message) .ok

def decodeHex (value label : String) : StoreResult Bytes :=
  match hexDecode value with
  | .ok bytes => .ok bytes
  | .error error => corrupt s!"invalid {label}: {error}"

def absoluteLexical (cwd p : Path) : StoreResult Path :=
  match Path.lexical cwd p with
  | some q => .ok q
  | none => .error (.unsupportedFormat "path escapes the filesystem root")

def validateTimestamp (t : Timestamp) : StoreResult Unit :=
  corruptIf (¬ (0 ≤ t.nanoseconds ∧ t.nanoseconds < 1000000000))
    "timestamp nanoseconds are out of range"

def validateIdentity (identity : ObjectIdentity) (kind : UInt32) (label : String) : StoreResult Unit := do
  corruptIf (identity.mode &&& fileTypeMask ≠ kind ∨ identity.links = 0)
    s!"{label} has an invalid object identity"
  validateTimestamp identity.ctime
  validateTimestamp identity.mtime

def validateXattrs (previous : Option String) : List ExtendedAttribute → StoreResult Unit
  | [] => .ok ()
  | xattr :: rest => do
    let name ← decodeHex xattr.nameHex "xattr name"
    corruptIf (0 ∈ name) "xattr name contains NUL"
    let _ ← decodeHex xattr.valueHex "xattr value"
    corruptIf (previous.any (fun value => decide (xattr.nameHex ≤ value)) = true)
      "xattrs must be strictly sorted and unique"
    validateXattrs (some xattr.nameHex) rest

def validateMetadata (metadata : RestoreMetadata) : StoreResult Unit := do
  corruptIf (metadata.uid = 0xffffffff ∨ metadata.gid = 0xffffffff)
    "restore ownership contains the reserved unchanged value"
  corruptIf (metadata.mode &&& ~~~0o7777 ≠ 0) "restore mode contains file-type bits"
  validateTimestamp metadata.atime
  validateTimestamp metadata.mtime
  validateXattrs none metadata.xattrs

def validateToken (value label : String) : StoreResult Unit :=
  corruptIf (¬ (value.length = 32 ∧ value.toList.all isAsciiHexdigit = true))
    s!"{label} must contain 32 hexadecimal characters"

def validateEntryName (value : String) : StoreResult Unit := do
  corruptIf (value = "" ∨ value = "." ∨ value = ".." ∨ '/' ∈ value.toList)
    "snapshot contains an invalid staging entry name"
  corruptIf (Char.ofNat 0 ∈ value.toList) "staging entry contains NUL"

def validatePaths (pathHex stagingPathHex message : String) : StoreResult Unit := do
  let path ← pathFromHex pathHex
  let stagingPath ← pathFromHex stagingPathHex
  corruptIf (¬ (Path.isAbsolute path ∧ Path.isAbsolute stagingPath)) message
  let normal ← absoluteLexical [] path
  corruptIf (¬ Path.same normal path) message
  let normalStaging ← absoluteLexical [] stagingPath
  corruptIf (¬ Path.same normalStaging stagingPath) message

def phaseName : Lifecycle → String
  | .captured => "captured"
  | .installIntent => "installing"
  | .installed _ => "installed"
  | .mountIntent _ => "mounting"
  | .unmountIntent _ _ => "unmounting"
  | .storeIntent _ => "storing"
  | .stored _ _ => "stored"
  | .restoreIntent .. => "restoring"
  | .restored .. => "restored"
  | .deleteIntent .. => "deleting"

def lifecycleRequiresPlaceholder : Lifecycle → Bool
  | .installIntent | .installed _ | .mountIntent _ | .unmountIntent _ _ => true
  | .restoreIntent origin .. | .restored origin .. | .deleteIntent origin .. => origin = .installed
  | .captured | .storeIntent _ | .stored _ _ => false

def requirePresentOriginal (header : RecordHeader) (phase : String) : StoreResult Unit :=
  corruptIf (¬ (header.original.existed ∧ header.logicalPresent)) s!"{phase} requires a present original"

def identitiesMatchAfterRename : Option ObjectIdentity → Option ObjectIdentity → Bool
  | none, none => true
  | some before, some after => identitiesMatch before after
  | _, _ => false

def validateDetachedIdentity (header : RecordHeader) (detached : ObjectIdentity) (label : String) :
    StoreResult Unit := do
  validateIdentity detached regularType label
  match header.original with
  | .absent _ => corrupt s!"{label} exists for an absent original"
  | .present identity _ =>
    corruptIf (¬ identitiesMatchAfterRename (some identity) (some detached))
      s!"{label} does not match the captured original"

def validateDetachedOriginal (header : RecordHeader) (detached : Option ObjectIdentity) :
    StoreResult Unit :=
  match header.original, detached with
  | .present _ _, some identity => validateDetachedIdentity header identity "detached original"
  | .absent _, none => .ok ()
  | _, _ => corrupt "detached original disagrees with the captured source"

def validateRestoreDetached (header : RecordHeader) (origin : RestoreOrigin)
    (detachedName : Option String) (detachedIdentity : Option ObjectIdentity) : StoreResult Unit :=
  match origin, header.original.existed with
  | .installed, false =>
    corruptIf (detachedName.isSome ∨ detachedIdentity.isSome)
      "absent original unexpectedly has a detached inode"
  | .installed, true => do
    corruptIf (detachedName ≠ some header.swapName ∨ detachedIdentity = none)
      "installed restore lost its detached original binding"
    validateEntryName (detachedName.getD "")
    detachedIdentity.elim (.ok ()) (fun i => validateDetachedIdentity header i "detached original")
  | .stored, _ => do
    requirePresentOriginal header "offline restore"
    corruptIf (detachedName ≠ some header.storedName ∨ detachedIdentity = none)
      "offline restore lost its stored inode binding"
    validateEntryName (detachedName.getD "")
    detachedIdentity.elim (.ok ()) (fun i => validateDetachedIdentity header i "detached original")

def validateFinished (header : RecordHeader) (origin : RestoreOrigin)
    (restored : Option ObjectIdentity) (displacedName : Option String)
    (displaced : Option ObjectIdentity) (detachedName : Option String)
    (detached : Option ObjectIdentity) : StoreResult Unit := do
  corruptIf (header.logicalPresent ≠ restored.isSome)
    "restored target identity disagrees with logical presence"
  restored.elim (.ok ()) (fun i => validateIdentity i regularType "restored target")
  match origin with
  | .installed => do
    let name ← requireSome displacedName "installed restore has no displaced name"
    validateEntryName name
    let identity ← requireSome displaced "installed restore has no displaced inode"
    validateIdentity identity regularType "displaced placeholder"
  | .stored =>
    corruptIf (displacedName.isSome ∨ displaced.isSome)
      "offline restore cannot have a displaced placeholder"
  validateRestoreDetached header origin detachedName detached

def validateLifecycleStructure (header : RecordHeader) : Lifecycle → StoreResult Unit
  | .captured | .installIntent => .ok ()
  | .installed detached | .mountIntent detached | .unmountIntent _ detached =>
    validateDetachedOriginal header detached
  | .storeIntent detachedName => do
    validateEntryName detachedName
    requirePresentOriginal header "offline-store intent"
  | .stored detachedName detached => do
    validateEntryName detachedName
    requirePresentOriginal header "offline-store state"
    validateDetachedIdentity header detached "stored original"
  | .restoreIntent origin restoreName restoreIdentity detachedName detachedIdentity => do
    let name ← requireSome restoreName "restore intent has no entry name"
    validateEntryName name
    restoreIdentity.elim (.ok ()) (fun i => validateIdentity i regularType "restoration")
    corruptIf (header.logicalPresent = false ∧ restoreIdentity.isSome)
      "absent logical files cannot have a restoration inode"
    validateRestoreDetached header origin detachedName detachedIdentity
  | .restored origin restored displacedName displaced detachedName detached
  | .deleteIntent origin restored displacedName displaced detachedName detached =>
    validateFinished header origin restored displacedName displaced detachedName detached

def validatePlaceholder (header : RecordHeader) : StoreResult Unit :=
  match lifecycleRequiresPlaceholder header.lifecycle, header.placeholder with
  | true, some identity => validateIdentity identity regularType "placeholder"
  | true, none => corrupt "snapshot phase requires a placeholder identity"
  | false, none => .ok ()
  | false, some _ => corrupt "snapshot phase cannot retain a placeholder identity"

def validateOriginal (header : RecordHeader) : StoreResult Unit :=
  match header.original with
  | .absent _ => .ok ()
  | .present identity _ => do
    validateIdentity identity regularType "original"
    corruptIf (identity.links ≠ 1 ∨ header.logicalPresent = false)
      "present originals must be singly linked and logically present"

def validateCapturedLength (record : SnapshotRecord) : StoreResult Unit :=
  match record.header.lifecycle, record.header.original with
  | .captured, .present identity _ | .installIntent, .present identity _ =>
    corruptIf (identity.size ≠ UInt64.ofNat record.contents.length)
      "captured contents length disagrees with the original identity"
  | _, _ => .ok ()

def validateSnapshot (record : SnapshotRecord) : StoreResult Unit := do
  let header := record.header
  corruptIf (header.format ≠ formatVersion) "snapshot format is unsupported"
  corruptIf (header.revision = 0) "snapshot revision must be positive"
  validateToken header.generation "generation"
  validateToken header.mountToken "mount token"
  corruptIf (maxCredentialSize < record.contents.length)
    "credential exceeds the maximum snapshot size"
  corruptIf (header.contentSha256 ≠ sha256 record.contents) "snapshot content digest is incorrect"
  corruptIf (header.blockedReason = some "") "blocked snapshots require a reason"
  validatePaths header.pathHex header.stagingPathHex "snapshot paths must be absolute and normalized"
  validateEntryName header.swapName
  validateEntryName header.storedName
  validateIdentity header.parent directoryType "parent"
  validatePlaceholder header
  validateMetadata header.original.metadata
  validateOriginal header
  corruptIf (header.logicalPresent = false ∧ record.contents ≠ [])
    "logically absent credentials must have empty contents"
  validateCapturedLength record
  validateLifecycleStructure header header.lifecycle

def validateFinalIdentity (marker : FinalizationRecord) : StoreResult Unit :=
  match marker.finalIdentity, marker.logicalPresent with
  | some identity, true => do
    validateIdentity identity regularType "final restoration"
    corruptIf (identity.links ≠ 1 ∨ identity.size.toNat ≠ marker.contentLength ∨
        identity.uid ≠ marker.restoreMetadata.uid ∨ identity.gid ≠ marker.restoreMetadata.gid ∨
        identity.mode &&& 0o7777 ≠ marker.restoreMetadata.mode ∨
        identity.mtime ≠ marker.restoreMetadata.mtime)
      "final restoration identity disagrees with its metadata"
  | none, false =>
    corruptIf (¬ (marker.contentLength = 0 ∧ marker.contentSha256 = sha256 []))
      "absent finalization has non-empty content metadata"
  | none, true => corrupt "present finalization has no restoration inode"
  | some _, false => corrupt "absent finalization has a restoration inode"

def validateFinalization (marker : FinalizationRecord) : StoreResult Unit := do
  corruptIf (marker.format ≠ formatVersion ∨ marker.revision = 0)
    "finalization marker has an unsupported format or revision"
  validateToken marker.generation "generation"
  validatePaths marker.pathHex marker.stagingPathHex "finalization paths must be absolute and normalized"
  validateEntryName marker.finalName
  validateIdentity marker.parent directoryType "finalization parent"
  validateMetadata marker.restoreMetadata
  corruptIf (maxCredentialSize < marker.contentLength)
    "finalization content length exceeds the snapshot limit"
  let digest ← decodeHex marker.contentSha256 "content digest"
  corruptIf (digest.length ≠ 32) "finalization content digest must contain 32 bytes"
  validateFinalIdentity marker

def restoreIntentMatchesHeader (header : RecordHeader) : Bool :=
  (validateLifecycleStructure header header.lifecycle).isOk

/-- The allowed pairs of phases; a pair that is not listed is refused. -/
def lifecycleTransitionIsValid (current next : RecordHeader) : Bool :=
  match current.lifecycle, next.lifecycle with
  | .captured, .installIntent => true
  | .captured, .storeIntent detachedName => detachedName == current.storedName
  | .installIntent, .installed _ => true
  | .installed before, .mountIntent after
  | .mountIntent before, .installed after
  | .mountIntent before, .mountIntent after
  | .mountIntent before, .unmountIntent _ after
  | .unmountIntent .leaveInstalled before, .installed after => before == after
  | .installed before, .restoreIntent origin _ _ _ detachedIdentity
  | .unmountIntent .restore before, .restoreIntent origin _ _ _ detachedIdentity =>
    origin == .installed && before == detachedIdentity && restoreIntentMatchesHeader next
  | .storeIntent intended, .stored detachedName _ => intended == detachedName
  | .stored detachedName detachedOriginal, .restoreIntent origin _ _ nextName detachedIdentity =>
    origin == .stored && nextName == some detachedName && detachedIdentity == some detachedOriginal &&
      restoreIntentMatchesHeader next
  | .restoreIntent origin name none detachedName detachedIdentity,
      .restoreIntent origin' name' (some _) detachedName' detachedIdentity' =>
    current.logicalPresent && origin == origin' && name == name' && detachedName == detachedName' &&
      detachedIdentity == detachedIdentity'
  | .restoreIntent origin name identity detachedName detachedIdentity,
      .restored origin' restored displacedName _ detachedName' detachedIdentity' =>
    origin == origin' && identitiesMatchAfterRename identity restored &&
      detachedName == detachedName' && detachedIdentity == detachedIdentity' &&
      (match origin with
        | .installed => displacedName == name
        | .stored => displacedName == none)
  | .restored origin restored displacedName displaced detachedName detached,
      .deleteIntent origin' restored' displacedName' displaced' detachedName' detached' =>
    origin == origin' && restored == restored' && displacedName == displacedName' &&
      displaced == displaced' && detachedName == detachedName' && detached == detached'
  | _, _ => false

def isMountIntent : Lifecycle → Bool
  | .mountIntent _ => true
  | _ => false

def isDeleteIntent : Lifecycle → Bool
  | .deleteIntent .. => true
  | _ => false

/-- The two steps at which the placeholder identity may differ between a row and its successor. -/
def placeholderMayChange (current next : RecordHeader) : Bool :=
  match current.lifecycle, next.lifecycle with
  | .installIntent, .installed _ =>
    identitiesMatchAfterRename current.placeholder next.placeholder
  | .captured, .installIntent => current.placeholder.isNone && next.placeholder.isSome
  | _, _ => false

def validateSuccessorFields (current next : SnapshotRecord) : StoreResult Unit := do
  let currentHeader := current.header
  let nextHeader := next.header
  conflictIf (currentHeader.pathHex ≠ nextHeader.pathHex ∨
      currentHeader.generation ≠ nextHeader.generation ∨
      currentHeader.original ≠ nextHeader.original ∨ currentHeader.parent ≠ nextHeader.parent ∨
      currentHeader.stagingPathHex ≠ nextHeader.stagingPathHex ∨
      currentHeader.swapName ≠ nextHeader.swapName ∨
      currentHeader.storedName ≠ nextHeader.storedName ∨
      currentHeader.mountToken ≠ nextHeader.mountToken)
    "immutable capture fields changed"
  conflictIf (currentHeader.placeholder ≠ nextHeader.placeholder ∧
      placeholderMayChange currentHeader nextHeader = false)
    "placeholder identity changed outside installation"
  conflictIf (currentHeader.blockedReason.isSome) "a blocked snapshot cannot transition automatically"
  if nextHeader.blockedReason.isSome ∧ currentHeader.lifecycle = nextHeader.lifecycle ∧
      currentHeader.logicalPresent = nextHeader.logicalPresent ∧ current.contents = next.contents then
    .ok ()
  else do
    conflictIf (nextHeader.blockedReason.isSome) "blocking a snapshot may not change its phase or contents"
    let mountedUpdate := isMountIntent currentHeader.lifecycle && isMountIntent nextHeader.lifecycle
    conflictIf (current.contents ≠ next.contents ∧ mountedUpdate = false)
      "credential contents changed outside a mounted update"
    conflictIf (currentHeader.logicalPresent ≠ nextHeader.logicalPresent ∧
        ¬ (mountedUpdate = true ∧ currentHeader.logicalPresent = false ∧
          nextHeader.logicalPresent = true))
      "logical presence changed outside the first mounted write"
    conflictIf (lifecycleTransitionIsValid currentHeader nextHeader = false)
      s!"invalid snapshot transition from {currentHeader.lifecycle.debug} to {nextHeader.lifecycle.debug}"

def validateSuccessor (fileId : Path) (expected : Option RecordVersion) (current : Entry)
    (next : SnapshotRecord) : StoreResult Unit := do
  validateSnapshot next
  conflictIf (next.header.pathHex ≠ pathToHex fileId) "candidate snapshot is bound to a different path"
  match expected, current with
  | none, .missing =>
    conflictIf (¬ (next.header.revision = 1 ∧ next.header.lifecycle = .captured ∧
        next.header.logicalPresent = next.header.original.existed ∧
        next.header.placeholder = none ∧ next.header.blockedReason = none))
      "a new snapshot must start as an unblocked revision-1 capture"
  | none, .present _ => .error (.conflict "snapshot already exists")
  | none, .finalizing _ => .error (.conflict "snapshot path still has a finalization marker")
  | some _, .missing => .error (.conflict "snapshot was deleted before it could be updated")
  | some _, .finalizing _ =>
    .error (.conflict "snapshot became a finalization marker before update")
  | some expected, .present current => do
    conflictIf (current.version ≠ expected) "snapshot revision changed before update"
    conflictIf (next.header.generation ≠ expected.generation ∨
        next.header.revision ≠ expected.revision + 1)
      "successor must retain its generation and increment revision once"
    validateSuccessorFields current next

end FileGuard.Store
