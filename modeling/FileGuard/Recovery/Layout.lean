import FileGuard.Recovery.View
import FileGuard.Transaction.Manager

/-! Where the files of one watched path can be in each phase of its row. -/

namespace FileGuard.Recovery

open Store Files Transaction

/-- One watched path, on one machine with one file system, under one manager. -/
structure Site where
  host : Host
  manager : Manager
  path : Path
  target : ResolvedPath
  resolves : ResolvedPath.new manager.cwd path = .ok target
  bound : target.path = path
  device : host.parent.device = host.device

variable (S : Site)

def ident (v : View) (slot : Slot) : Option ObjectIdentity := (v slot).map (Inode.identity S.host)

def inodeMetadata (host : Host) (i : Inode) : RestoreMetadata := metadataOf ⟨i.identity host, i.atime⟩ i.xattrs

def Plain (i : Inode) : Prop :=
  i.mode &&& fileTypeMask = regularType ∧ i.links = 1 ∧ i.contents.length ≤ maxCredentialSize

/-- A file with the contents and the metadata of the row. -/
structure Intact (r : SnapshotRecord) (i : Inode) : Prop where
  plain : Plain i
  contents : i.contents = r.contents
  metadata : sameMetadata (inodeMetadata S.host i) r.header.original.metadata

def AllIntact (r : SnapshotRecord) (v : View) (slot : Slot) : Prop := ∀ i, v slot = some i → Intact S r i

def stagingOf (r : SnapshotRecord) : Path := (pathFromHex r.header.stagingPathHex).toOption.getD []

def originalIdentity (r : SnapshotRecord) : Option ObjectIdentity :=
  match r.header.original with
  | .present identity _ => some identity
  | .absent _ => none

/-- The name under which the original waits. -/
def homeName : RestoreOrigin → String
  | .installed => "swap"
  | .stored => "stored"

def CandidateName (name : String) : Prop :=
  ∃ token, isToken token ∧ (name = "restore-" ++ token ∨ name = "displaced-" ++ token)

def PlannedDirectory (generation : String) (directory : Path) : Prop :=
  ∃ parts : List Bytes, (∀ part ∈ parts, Path.Proper part) ∧
    directory = Path.join (Path.render parts) (utf8 generation)

/-- What every row of the site satisfies in every phase. -/
structure Sound (r : SnapshotRecord) : Prop where
  valid : validateSnapshot r = .ok ()
  bound : r.header.pathHex = pathToHex S.path
  unblocked : r.header.blockedReason = none
  swapName : r.header.swapName = "swap"
  storedName : r.header.storedName = "stored"
  parent : ∃ t, r.header.parent = { S.host.parent with ctime := t, mtime := t }
  staging : r.header.stagingPathHex = pathToHex (stagingOf r)
  planned : PlannedDirectory r.header.generation (stagingOf r)
  xattrs : ∃ xattrs, r.header.original.metadata.xattrs = readXattrs xattrs

def Only (v : View) (directory : Path) (names : List String) : Prop :=
  ∀ d n, v (.staged d n) ≠ none → d = directory ∧ n ∈ names

section phases

variable (r : SnapshotRecord) (v : View)

def targetSlot : Slot := .at S.path

def stagedSlot (name : String) : Slot := .staged (stagingOf r) name

def layoutOf (name : String) : Layout := (ident S v (targetSlot S), ident S v (stagedSlot r name))

/-- Just before or just after the rename between the target and one staged name; `file` is the file that the
row describes. -/
def AroundRename (name : String) (before after : Layout) (fileBefore fileAfter : Slot) : Prop :=
  layoutMatches (layoutOf S r v name) before false = true ∧ AllIntact S r v fileBefore ∨
    layoutMatches (layoutOf S r v name) after true = true ∧ AllIntact S r v fileAfter

def CapturedFiles : Prop :=
  Only v (stagingOf r) [constructionEntryName "swap", "swap"] ∧
    ident S v (targetSlot S) = originalIdentity r ∧ AllIntact S r v (targetSlot S)

def InstallFiles : Prop :=
  Only v (stagingOf r) ["swap"] ∧
    AroundRename S r v "swap" (originalIdentity r, r.header.placeholder)
      (r.header.placeholder, originalIdentity r) (targetSlot S) (stagedSlot r "swap")

def InstalledFiles (detached : Option ObjectIdentity) : Prop :=
  Only v (stagingOf r) ["swap"] ∧ layoutOf S r v "swap" = (r.header.placeholder, detached)

/-- The placeholder waits at the path while the restoration file is built. -/
def BuildingFiles (origin : RestoreOrigin) (name : String) (detached : Option ObjectIdentity) : Prop :=
  Only v (stagingOf r) [homeName origin, constructionEntryName name, name] ∧
    layoutOf S r v (homeName origin) = (r.header.placeholder, detached)

def RestoringFiles (origin : RestoreOrigin) (name : String) (restored detached : Option ObjectIdentity) :
    Prop :=
  Only v (stagingOf r) [homeName origin, name] ∧
    ident S v (stagedSlot r (homeName origin)) = detached ∧
    AroundRename S r v name (r.header.placeholder, restored) (restored, r.header.placeholder)
      (stagedSlot r name) (targetSlot S)

def RestoredFiles (origin : RestoreOrigin) (restored : Option ObjectIdentity) (displacedName : Option String)
    (displaced detached : Option ObjectIdentity) : Prop :=
  Only v (stagingOf r) (homeName origin :: displacedName.toList) ∧
    (∀ name, displacedName = some name → CandidateName name ∧ ident S v (stagedSlot r name) = displaced) ∧
    layoutOf S r v (homeName origin) = (restored, detached) ∧ AllIntact S r v (targetSlot S)

def NoneOr (actual expected : Option ObjectIdentity) : Prop := actual = none ∨ actual = expected

def cleanupNames (origin : RestoreOrigin) (displacedName : Option String) : List String :=
  homeName origin :: displacedName.toList ++
    if r.header.logicalPresent then [constructionEntryName finalName, finalName, retiredName] else []

def DeletingFiles (origin : RestoreOrigin) (restored : Option ObjectIdentity) (displacedName : Option String)
    (displaced detached : Option ObjectIdentity) : Prop :=
  Only v (stagingOf r) (cleanupNames r origin displacedName) ∧
    (∀ name, displacedName = some name → CandidateName name ∧
      NoneOr (ident S v (stagedSlot r name)) displaced) ∧
    NoneOr (ident S v (stagedSlot r (homeName origin))) detached ∧
    (layoutOf S r v retiredName = (none, none) ∨
      AroundRename S r v retiredName (restored, none) (none, restored) (targetSlot S)
        (stagedSlot r retiredName))

def StoringFiles : Prop :=
  Only v (stagingOf r) ["stored"] ∧
    AroundRename S r v "stored" (originalIdentity r, none) (none, originalIdentity r) (targetSlot S)
      (stagedSlot r "stored")

def StoredFiles (detached : ObjectIdentity) : Prop :=
  Only v (stagingOf r) ["stored"] ∧ layoutOf S r v "stored" = (none, some detached)

def PhaseFiles : Lifecycle → Prop
  | .captured => CapturedFiles S r v
  | .installIntent => InstallFiles S r v
  | .installed detached | .mountIntent detached | .unmountIntent _ detached => InstalledFiles S r v detached
  | .restoreIntent origin restoreName restored _ detached =>
    ∃ name, restoreName = some name ∧ CandidateName name ∧
      if r.header.logicalPresent = true ∧ restored = none then BuildingFiles S r v origin name detached
      else RestoringFiles S r v origin name restored detached
  | .restored origin restored displacedName displaced _ detached =>
    RestoredFiles S r v origin restored displacedName displaced detached
  | .deleteIntent origin restored displacedName displaced _ detached =>
    DeletingFiles S r v origin restored displacedName displaced detached
  | .storeIntent detachedName => detachedName = "stored" ∧ StoringFiles S r v
  | .stored detachedName detached => detachedName = "stored" ∧ StoredFiles S r v detached

def FinalizingFiles (final : Option ObjectIdentity) : Prop :=
  Only v (stagingOf r) [finalName] ∧
    AroundRename S r v finalName (none, final) (final, none) (stagedSlot r finalName) (targetSlot S)

/-- The path shows what the row last committed says. -/
def Delivered : Prop :=
  if r.header.logicalPresent then ∃ i, v (targetSlot S) = some i ∧ Intact S r i
  else v (targetSlot S) = none

end phases

/-- What belongs together: the entry of the path, its last row, the directories and the files. -/
def Consistent (entry : Entry) (last : Option SnapshotRecord) (directories : List Path) (v : View) : Prop :=
  match entry with
  | .missing => (∀ d n, v (.staged d n) = none) ∧ ∀ r, last = some r → Delivered S r v
  | .present r => Sound S r ∧ last = some r ∧ PhaseFiles S r v r.header.lifecycle ∧
      (r.header.lifecycle = .captured ∨ stagingOf r ∈ directories)
  | .finalizing marker => ∃ r final, Sound S r ∧ last = some r ∧ marker = Manager.finalizationMarker r final ∧
      validateFinalization marker = .ok () ∧ FinalizingFiles S r v final ∧ stagingOf r ∈ directories

structure Inv (w : World) : Prop where
  sane : Sane S.path w
  consistent : Consistent S (w.store S.path) (w.ghost.last S.path) w.directories (view S.path w)

end FileGuard.Recovery
