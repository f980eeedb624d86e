import FileGuard.Files.World

namespace FileGuard.Files

open Store CrashLogic

abbrev FileProg := Prog signature IoError

section calls

variable {ε : Type}

def perform (o : Op) : Prog signature ε o.Resp := @Prog.perform signature ε o

def observe (slot : Slot) : Prog signature ε (Option ObjectIdentity) := perform (.observe slot)

def fstat (file : ObjectId) : Prog signature ε Stat := perform (.fstat file)

def readToEnd (file : ObjectId) : Prog signature ε Bytes := perform (.readToEnd file)

def listXattrs (file : ObjectId) : Prog signature ε (List (Bytes × Bytes)) := perform (.listXattrs file)

def parentStat : Prog signature ε Stat := perform .parentStat

def randomToken : Prog signature ε String := perform .randomToken

def entries (directory : Path) : Prog signature ε (List String) := perform (.entries directory)

def syncFile (file : ObjectId) : Prog signature ε Unit := perform (.syncFile file)

def syncDirectory (directory : Path) : Prog signature ε Unit := perform (.syncDirectory directory)

end calls

/-- The `?` behind a call that may fail. -/
def lift {α : Type} (p : FileProg (IoResult α)) : FileProg α := p.bind .ofExcept

def openFile (slot : Slot) : FileProg ObjectId := lift (perform (.openFile slot))

def createExclusive (slot : Slot) : FileProg ObjectId := lift (perform (.createExclusive slot))

def alter (file : ObjectId) (alteration : Alteration) : FileProg Unit :=
  lift (perform (.alter file alteration))

def createDirectory (directory : Path) (device : UInt64) : FileProg Unit :=
  lift (perform (.createDirectory directory device))

def openDirectory (directory : Path) (device : UInt64) : FileProg Unit :=
  lift (perform (.openDirectory directory device))

def removeDirectory (directory : Path) : FileProg Unit := lift (perform (.removeDirectory directory))

def renameNoreplace (old new : Slot) : FileProg Unit := lift (perform (.renameNoreplace old new))

def renameExchange (old new : Slot) : FileProg Unit := lift (perform (.renameExchange old new))

def unlink (slot : Slot) : FileProg Unit := lift (perform (.unlink slot))

def unlinkVerified (slot : Slot) (expected : ObjectIdentity) : FileProg Unit :=
  lift (perform (.removeVerified slot expected))

def failIf {ε : Type} (c : Prop) [Decidable c] (error : ε) : Prog signature ε Unit :=
  if c then .fail error else .pure ()

def otherIf (c : Prop) [Decidable c] (message : String) : FileProg Unit := failIf c (.other message)

def sameObject (left right : ObjectIdentity) : Bool :=
  left.device == right.device && left.inode == right.inode &&
    (left.mode &&& fileTypeMask) == (right.mode &&& fileTypeMask)

def sameFileAfterRename (before after : ObjectIdentity) : Bool :=
  sameObject before after && before.mtime == after.mtime && before.size == after.size &&
    before.links == after.links && before.mode == after.mode && before.uid == after.uid &&
    before.gid == after.gid

theorem sameFileAfterRename_eq (before after : ObjectIdentity) :
    sameFileAfterRename before after = identitiesMatch before after := by
  rw [Bool.eq_iff_iff, sameFileAfterRename, sameObject, identitiesMatch]
  simp only [Bool.and_eq_true, beq_iff_eq]
  constructor
  · rintro ⟨⟨⟨⟨⟨⟨⟨⟨hd, hi⟩, -⟩, hm⟩, hs⟩, hl⟩, hmode⟩, hu⟩, hg⟩
    exact ⟨⟨⟨⟨⟨⟨⟨hd, hi⟩, hm⟩, hs⟩, hl⟩, hmode⟩, hu⟩, hg⟩
  · rintro ⟨⟨⟨⟨⟨⟨⟨hd, hi⟩, hm⟩, hs⟩, hl⟩, hmode⟩, hu⟩, hg⟩
    exact ⟨⟨⟨⟨⟨⟨⟨⟨hd, hi⟩, by rw [hmode]⟩, hm⟩, hs⟩, hl⟩, hmode⟩, hu⟩, hg⟩

def entryName (value : String) : IoResult String :=
  if value = "" ∨ value = "." ∨ value = ".." ∨ '/' ∈ value.toList then
    .error (.other "invalid staging entry name")
  else if Char.ofNat 0 ∈ value.toList then .error (.other "entry contains a NUL byte")
  else .ok value

def constructionEntryName (name : String) : String := ".building-" ++ name

def isToken (value : String) : Prop := value.length = 32 ∧ value.toList.all isAsciiHexdigit = true

instance (value : String) : Decidable (isToken value) := inferInstanceAs (Decidable (_ ∧ _))

def requireToken (value : String) : IoResult Unit :=
  if isToken value then .ok ()
  else .error (.other "transaction token must contain 32 hexadecimal characters")

def absoluteLexical (cwd path : Path) : IoResult Path :=
  match Path.lexical cwd path with
  | some q => .ok q
  | none => .error (.other "path escapes the filesystem root")

theorem absoluteLexical_normal {cwd p : Path} (h : Path.Normal p) : absoluteLexical cwd p = .ok p := by
  rw [absoluteLexical, h.lexical]

def cstring (value : Bytes) : IoResult Bytes :=
  if 0 ∈ value then .error (.other "path contains a NUL byte") else .ok value

structure ResolvedPath where
  path : Path
  parentPath : Path
  name : Bytes
  deriving DecidableEq

structure StagingArea where
  path : Path

structure CapturedSource where
  contents : Bytes
  original : OriginalState

def validateRegular (identity : ObjectIdentity) : FileProg Unit := do
  otherIf (identity.mode &&& fileTypeMask ≠ regularType) "credential path is not a regular file"
  otherIf (identity.links ≠ 1) "credential file has hard-link aliases; refusing to guard it"

def readXattrs (xattrs : List (Bytes × Bytes)) : List ExtendedAttribute :=
  (xattrs.map fun x => ⟨hexEncode x.1, hexEncode x.2⟩).insertionSort fun a b => a.nameHex ≤ b.nameHex

def metadataOf (stat : Stat) (xattrs : List (Bytes × Bytes)) : RestoreMetadata where
  uid := stat.identity.uid
  gid := stat.identity.gid
  mode := stat.identity.mode &&& 0o7777
  atime := stat.atime
  mtime := stat.identity.mtime
  xattrs := readXattrs xattrs

def restoreMetadata (file : ObjectId) (stat : Stat) : FileProg RestoreMetadata := do
  let xattrs ← listXattrs file
  return metadataOf stat xattrs

def readFileAt (slot : Slot) : FileProg (Bytes × ObjectIdentity × RestoreMetadata) := do
  let file ← openFile slot
  let before ← fstat file
  validateRegular before.identity
  otherIf (maxCredentialSize < before.identity.size.toNat) "credential has an invalid size"
  let contents ← readToEnd file
  let after ← fstat file
  otherIf (before.identity ≠ after.identity ∨ contents.length ≠ after.identity.size.toNat)
    "credential changed while being verified"
  let metadata ← restoreMetadata file after
  return (contents, after.identity, metadata)

/-- Everything `verify_restoration` and its siblings compare but the access time. -/
def sameMetadata (actual expected : RestoreMetadata) : Prop :=
  actual.uid = expected.uid ∧ actual.gid = expected.gid ∧ actual.mode = expected.mode ∧
    actual.mtime = expected.mtime ∧ actual.xattrs = expected.xattrs

instance (actual expected : RestoreMetadata) : Decidable (sameMetadata actual expected) :=
  inferInstanceAs (Decidable (_ ∧ _))

def verifyFinalizationData (contents : Bytes) (actual : RestoreMetadata) (contentLength : ℕ)
    (contentSha256 : String) (expected : RestoreMetadata) : FileProg Unit :=
  otherIf (¬ (contents.length = contentLength ∧ sha256 contents = contentSha256 ∧
      sameMetadata actual expected))
    "file does not match the finalization marker"

namespace ResolvedPath

def new (cwd path : Path) : IoResult ResolvedPath := do
  let path ← absoluteLexical cwd path
  match Path.parent path, Path.fileName path with
  | none, _ => .error (.other "path has no parent")
  | _, none => .error (.other "path must name a file")
  | some parentPath, some name => do
    let name ← cstring name
    .ok ⟨path, parentPath, name⟩

def slot (r : ResolvedPath) : Slot := .at r.path

def parentIdentity {ε : Type} : Prog signature ε ObjectIdentity := do
  let stat ← parentStat
  return stat.identity

def observe {ε : Type} (r : ResolvedPath) : Prog signature ε (Option ObjectIdentity) :=
  Files.observe r.slot

def verifyRestoration (r : ResolvedPath) (contents : Bytes) (metadata : RestoreMetadata) :
    FileProg ObjectIdentity := do
  let (actualContents, identity, actualMetadata) ← readFileAt r.slot
  otherIf (¬ (actualContents = contents ∧ sameMetadata actualMetadata metadata))
    s!"{Path.display r.path} is not the committed restoration file"
  return identity

def verifyFinalization (r : ResolvedPath) (contentLength : ℕ) (contentSha256 : String)
    (metadata : RestoreMetadata) : FileProg ObjectIdentity := do
  let (contents, identity, actualMetadata) ← readFileAt r.slot
  verifyFinalizationData contents actualMetadata contentLength contentSha256 metadata
  return identity

def captureAbsent (parent : Stat) : CapturedSource where
  contents := []
  original := .absent {
    uid := parent.identity.uid
    gid := parent.identity.gid
    mode := 0o600
    atime := parent.atime
    mtime := parent.identity.mtime
    xattrs := [] }

def capture (r : ResolvedPath) : FileProg CapturedSource := do
  let parent ← parentStat
  match ← (openFile r.slot).attempt with
  | .error (.os .noEntry) => return captureAbsent parent
  | .error error => .fail error
  | .ok file => do
    let before ← fstat file
    validateRegular before.identity
    otherIf (maxCredentialSize < before.identity.size.toNat)
      s!"{Path.display r.path} is {before.identity.size.toNat} bytes; maximum credential size is {
        maxCredentialSize}"
    let metadata ← restoreMetadata file before
    let contents ← readToEnd file
    let after ← fstat file
    otherIf (before.identity ≠ after.identity ∨ contents.length ≠ after.identity.size.toNat)
      s!"{Path.display r.path} changed while it was being captured"
    return ⟨contents, .present after.identity metadata⟩

end ResolvedPath

namespace StagingArea

def plannedPath (cwd root : Path) (generation : String) : IoResult Path := do
  requireToken generation
  let root ← absoluteLexical cwd root
  .ok (Path.join root (utf8 generation))

def create (cwd root : Path) (generation : String) (expectedDevice : UInt64) : FileProg StagingArea := do
  Prog.ofExcept (requireToken generation)
  let root ← Prog.ofExcept (absoluteLexical cwd root)
  let path := Path.join root (utf8 generation)
  createDirectory path expectedDevice
  return ⟨path⟩

def openAt (cwd path : Path) (expectedDevice : UInt64) : FileProg StagingArea := do
  let path ← Prog.ofExcept (absoluteLexical cwd path)
  openDirectory path expectedDevice
  return ⟨path⟩

def slot (s : StagingArea) (name : String) : Slot := .staged s.path name

def observe (s : StagingArea) (name : String) : FileProg (Option ObjectIdentity) := do
  let name ← Prog.ofExcept (entryName name)
  Files.observe (s.slot name)

def readFile (s : StagingArea) (name : String) : FileProg (Bytes × ObjectIdentity × RestoreMetadata) := do
  let name ← Prog.ofExcept (entryName name)
  readFileAt (s.slot name)

def verifySnapshot (s : StagingArea) (name : String) (contents : Bytes) (metadata : RestoreMetadata) :
    FileProg ObjectIdentity := do
  let (actualContents, identity, actualMetadata) ← s.readFile name
  otherIf (¬ (actualContents = contents ∧ sameMetadata actualMetadata metadata))
    ("staging entry \"" ++ name ++ "\" no longer matches the captured snapshot")
  return identity

def verifyPlaceholder (s : StagingArea) (name : String) (metadata : RestoreMetadata) :
    FileProg ObjectIdentity := do
  let (contents, identity, actual) ← s.readFile name
  otherIf (¬ (contents = [] ∧ actual.uid = metadata.uid ∧ actual.gid = metadata.gid ∧
      actual.mode = metadata.mode))
    ("staging entry \"" ++ name ++ "\" is not the prepared placeholder")
  return identity

def verifyRestoration (s : StagingArea) (name : String) (contents : Bytes) (metadata : RestoreMetadata) :
    FileProg ObjectIdentity := do
  let (actualContents, identity, actualMetadata) ← s.readFile name
  otherIf (actualContents ≠ contents ∨ actualMetadata ≠ metadata)
    ("staging entry \"" ++ name ++ "\" is not the committed restoration file")
  return identity

def verifyFinalization (s : StagingArea) (name : String) (contentLength : ℕ) (contentSha256 : String)
    (metadata : RestoreMetadata) : FileProg ObjectIdentity := do
  let (contents, identity, actualMetadata) ← s.readFile name
  verifyFinalizationData contents actualMetadata contentLength contentSha256 metadata
  return identity

def sync {ε : Type} (s : StagingArea) : Prog signature ε Unit := syncDirectory s.path

def removeVerified (s : StagingArea) (name : String) (expected : ObjectIdentity) : FileProg Unit := do
  let name ← Prog.ofExcept (entryName name)
  unlinkVerified (s.slot name) expected
  s.sync

def discardEntry (s : StagingArea) (name : String) : FileProg Unit := do
  match ← Files.observe (s.slot name) with
  | none => return ()
  | some _ => do
    unlink (s.slot name)
    s.sync

def discardUncommitted (s : StagingArea) (name : String) : FileProg Unit := do
  let name ← Prog.ofExcept (entryName name)
  s.discardEntry name

def discardConstruction (s : StagingArea) (name : String) : FileProg Unit := do
  let name ← Prog.ofExcept (entryName name)
  s.discardEntry (constructionEntryName name)

def isEmpty {ε : Type} (s : StagingArea) : Prog signature ε Bool := do
  let names ← entries s.path
  return names.isEmpty

def containsOnly {ε : Type} (s : StagingArea) (names : List String) : Prog signature ε Bool := do
  let actual ← entries s.path
  return actual == names.insertionSort (· ≤ ·)

def removeIfEmpty (s : StagingArea) : FileProg Unit := do
  let empty ← s.isEmpty
  failIf (empty = false) (.other "staging directory is not empty")
  removeDirectory s.path

def applyOwnershipAndMode (file : ObjectId) (metadata : RestoreMetadata) : FileProg Unit := do
  otherIf (metadata.uid = 0xffffffff ∨ metadata.gid = 0xffffffff)
    "restore ownership contains the reserved unchanged value"
  alter file (.owner metadata.uid metadata.gid)
  alter file (.mode metadata.mode)

def decodeXattrHex (value : String) : IoResult Bytes :=
  (hexDecode value).mapError fun error => .other error

def applyXattrs (file : ObjectId) : List ExtendedAttribute → FileProg Unit
  | [] => return ()
  | xattr :: rest => do
    let name ← Prog.ofExcept (decodeXattrHex xattr.nameHex)
    let value ← Prog.ofExcept (decodeXattrHex xattr.valueHex)
    let name ← Prog.ofExcept (cstring name)
    alter file (.xattr name value)
    applyXattrs file rest

def fill (file : ObjectId) (contents : Bytes) (metadata : RestoreMetadata) (restoreExactMetadata : Bool) :
    FileProg Unit := do
  alter file (.write contents)
  applyOwnershipAndMode file metadata
  if restoreExactMetadata then do
    applyXattrs file metadata.xattrs
    alter file (.times metadata.atime metadata.mtime)
  syncFile file

/-- The new file becomes visible under its name once it is complete and synced. -/
def publish (s : StagingArea) (file : ObjectId) (constructionName name : String) :
    FileProg ObjectIdentity := do
  let beforeRename ← fstat file
  s.sync
  let operation ← (renameNoreplace (s.slot constructionName) (s.slot name)).attempt
  let constructed ← Files.observe (s.slot constructionName)
  let installed ← Files.observe (s.slot name)
  match installed.filter fun actual =>
      constructed.isNone && sameFileAfterRename beforeRename.identity actual with
  | some installed => do
    s.sync
    return installed
  | none => match operation with
    | .ok _ => .fail (.other "constructed staging file was not atomically installed")
    | .error error => .fail error

def createFile (s : StagingArea) (name : String) (contents : Bytes) (metadata : RestoreMetadata)
    (restoreExactMetadata : Bool) : FileProg ObjectIdentity := do
  otherIf (maxCredentialSize < contents.length) "credential exceeds maximum size"
  let name ← Prog.ofExcept (entryName name)
  let constructionName := constructionEntryName name
  s.discardEntry constructionName
  let file ← createExclusive (s.slot constructionName)
  let result ← (do
    fill file contents metadata restoreExactMetadata
    s.publish file constructionName name : FileProg ObjectIdentity).attempt
  match result with
  | .ok identity => return identity
  | .error error => do
    let _ ← (s.discardEntry constructionName).attempt
    .fail error

def createPlaceholder (s : StagingArea) (name : String) (metadata : RestoreMetadata) :
    FileProg ObjectIdentity :=
  s.createFile name [] metadata false

def createRestoration (s : StagingArea) (name : String) (contents : Bytes) (metadata : RestoreMetadata) :
    FileProg ObjectIdentity :=
  s.createFile name contents metadata true

end StagingArea

namespace ResolvedPath

def exchangeWith (r : ResolvedPath) (staging : StagingArea) (stagingName : String) : FileProg Unit := do
  let name ← Prog.ofExcept (entryName stagingName)
  renameExchange (staging.slot name) r.slot

def installAbsent (r : ResolvedPath) (staging : StagingArea) (stagingName : String) : FileProg Unit := do
  let name ← Prog.ofExcept (entryName stagingName)
  renameNoreplace (staging.slot name) r.slot

def moveToStaging (r : ResolvedPath) (staging : StagingArea) (stagingName : String) : FileProg Unit := do
  let name ← Prog.ofExcept (entryName stagingName)
  renameNoreplace r.slot (staging.slot name)

def syncWith {ε : Type} (r : ResolvedPath) (staging : StagingArea) : Prog signature ε Unit := do
  staging.sync
  syncDirectory r.slot.directory

end ResolvedPath

end FileGuard.Files
