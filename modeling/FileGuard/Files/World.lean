import FileGuard.Store.EntryModel
import FileGuard.CrashLogic.Run
import Mathlib.Data.List.AList
import Mathlib.Data.List.Sort

namespace FileGuard.Files

open Store

abbrev ObjectId := ℕ

/-- A directory entry: the one at an absolute path, or a named one of a staging directory. -/
inductive Slot where
  | at (path : Path)
  | staged (directory : Path) (name : String)
  deriving DecidableEq

def Slot.directory : Slot → Path
  | .at path => (Path.parent path).getD []
  | .staged directory _ => directory

structure Inode where
  number : UInt64
  mode : UInt32
  uid : UInt32
  gid : UInt32
  links : UInt64
  atime : Timestamp
  mtime : Timestamp
  ctime : Timestamp
  xattrs : List (Bytes × Bytes)
  contents : Bytes

/-- The machine the daemon runs on: what it never changes and nobody changes for it. -/
structure Host where
  device : UInt64
  parent : ObjectIdentity
  uid : UInt32
  gid : UInt32
  cwd : Path
  stagingRoot : Path

def Inode.identity (host : Host) (i : Inode) : ObjectIdentity where
  device := host.device
  inode := i.number
  ctime := i.ctime
  mtime := i.mtime
  size := UInt64.ofNat i.contents.length
  links := i.links
  mode := i.mode
  uid := i.uid
  gid := i.gid

inductive Errno where
  | noEntry
  | exists
  | notEmpty
  | tooBig
  deriving DecidableEq

inductive IoError where
  | os (errno : Errno)
  | other (message : String)
  deriving DecidableEq

def IoError.display : IoError → String
  | .os .noEntry => "No such file or directory (os error 2)"
  | .os .exists => "File exists (os error 17)"
  | .os .notEmpty => "Directory not empty (os error 39)"
  | .os .tooBig => "File too large (os error 27)"
  | .other message => message

abbrev IoResult (α : Type) := Except IoError α

abbrev Names := AList (fun _ : Slot => ObjectId)

def assign (names : Names) (slot : Slot) : Option ObjectId → Names
  | some object => names.insert slot object
  | none => names.erase slot

/-- One atomic change of directory entries, and the directories it still has to be synced in. -/
structure Change where
  assigns : List (Slot × Option ObjectId)
  unsynced : List Path

def Change.apply (names : Names) (change : Change) : Names :=
  change.assigns.foldl (fun names a => assign names a.1 a.2) names

/-- What the verification remembers beside the state of the machine. -/
structure Ghost where
  /-- the last committed row of each path -/
  last : Path → Option SnapshotRecord
  /-- the contents its generation was captured with -/
  captured : Path → Bytes
  /-- objects the coordinator created that never were at a watched path -/
  own : ObjectId → Bool
  /-- someone else changed the entry at the path since the coordinator last renamed onto it -/
  tampered : Path → Bool

structure World where
  store : Path → Entry
  durable : Names
  pending : List Change
  objects : ObjectId → Inode
  next : ObjectId
  dirty : ObjectId → Bool
  directories : List Path
  ghost : Ghost

namespace World

def names (w : World) : Names := w.pending.foldl Change.apply w.durable

def lookup (w : World) (slot : Slot) : Option ObjectId := w.names.lookup slot

def file (w : World) (slot : Slot) : Option Inode := (w.lookup slot).map w.objects

def entriesOf (w : World) (directory : Path) : List String :=
  (w.names.keys.filterMap fun slot => match slot with
    | .staged d name => if d = directory then some name else none
    | .at _ => none).insertionSort (· ≤ ·)

def record (w : World) (assigns : List (Slot × Option ObjectId)) : World :=
  { w with pending := w.pending ++ [⟨assigns, (assigns.map fun a => a.1.directory).dedup⟩] }

def alter (w : World) (object : ObjectId) (f : Inode → Inode) : World :=
  { w with
    objects := Function.update w.objects object (f (w.objects object))
    dirty := Function.update w.dirty object true }

def putEntry (w : World) (fileId : Path) (entry : Entry) : World :=
  { w with
    store := Function.update w.store fileId entry
    ghost := match entry with
      | .present record => { w.ghost with
          last := Function.update w.ghost.last fileId (some record)
          captured := if record.header.revision = 1 then
            Function.update w.ghost.captured fileId record.contents else w.ghost.captured }
      | _ => w.ghost }

/-- An object that comes to a watched path is out of the coordinator's hands. -/
def expose (w : World) (slot : Slot) (object : ObjectId) : World :=
  match slot with
  | .at path => { w with ghost := { w.ghost with
      own := Function.update w.ghost.own object false
      tampered := Function.update w.ghost.tampered path false } }
  | .staged _ _ => w

end World

inductive Alteration where
  | write (contents : Bytes)
  | owner (uid gid : UInt32)
  | mode (bits : UInt32)
  | xattr (name value : Bytes)
  | times (atime mtime : Timestamp)

def setXattr (xattrs : List (Bytes × Bytes)) (name value : Bytes) : List (Bytes × Bytes) :=
  if xattrs.any (fun x => x.1 == name) then
    xattrs.map (fun x => if x.1 = name then (name, value) else x)
  else xattrs ++ [(name, value)]

def Alteration.apply (now : Timestamp) (i : Inode) : Alteration → Inode
  | .write contents => { i with contents := contents, mtime := now, ctime := now }
  | .owner uid gid => { i with uid := uid, gid := gid, ctime := now }
  | .mode bits => { i with mode := i.mode &&& fileTypeMask ||| bits &&& 0o7777, ctime := now }
  | .xattr name value => { i with xattrs := setXattr i.xattrs name value, ctime := now }
  | .times atime mtime => { i with atime := atime, mtime := mtime, ctime := now }

theorem or_and_distrib (a b m : UInt32) : (a ||| b) &&& m = (a &&& m) ||| (b &&& m) := by
  apply UInt32.toBitVec_inj.1
  simp only [UInt32.toBitVec_and, UInt32.toBitVec_or]
  ext i hi
  simp [Bool.and_or_distrib_right]

theorem chmod_type {mode : UInt32} (bits : UInt32) (hm : mode &&& fileTypeMask = regularType) :
    (mode &&& fileTypeMask ||| bits &&& 0o7777) &&& fileTypeMask = regularType := by
  have h1 : regularType &&& fileTypeMask = regularType := by decide
  have h2 : (0o7777 : UInt32) &&& fileTypeMask = 0 := by decide
  rw [hm, or_and_distrib, UInt32.and_assoc, h1, h2]
  simp

theorem chmod_permissions {mode : UInt32} (bits : UInt32) (hm : mode &&& fileTypeMask = regularType) :
    (mode &&& fileTypeMask ||| bits &&& 0o7777) &&& 0o7777 = bits &&& 0o7777 := by
  have h1 : regularType &&& 0o7777 = 0 := by decide
  rw [hm, or_and_distrib, h1, UInt32.and_assoc, UInt32.and_self]
  simp

/-- `fstat`: the identity and the access time. -/
structure Stat where
  identity : ObjectIdentity
  atime : Timestamp

inductive Op where
  | load (fileId : Path)
  | commit (fileId : Path) (expected : Option RecordVersion) (next : SnapshotRecord)
  | beginFinalization (fileId : Path) (expected : RecordVersion) (marker : FinalizationRecord)
  | finishFinalization (fileId : Path) (expected : RecordVersion)
  | randomToken
  | parentStat
  | observe (slot : Slot)
  | openFile (slot : Slot)
  | fstat (file : ObjectId)
  | readToEnd (file : ObjectId)
  | listXattrs (file : ObjectId)
  | createDirectory (directory : Path) (device : UInt64)
  | openDirectory (directory : Path) (device : UInt64)
  | removeDirectory (directory : Path)
  | entries (directory : Path)
  | createExclusive (slot : Slot)
  | alter (file : ObjectId) (alteration : Alteration)
  | syncFile (file : ObjectId)
  | syncDirectory (directory : Path)
  | renameNoreplace (old new : Slot)
  | renameExchange (old new : Slot)
  | unlink (slot : Slot)
  | removeVerified (slot : Slot) (expected : ObjectIdentity)

@[reducible] def Op.Resp : Op → Type
  | .load _ => StoreResult Entry
  | .commit _ _ _ | .beginFinalization _ _ _ => StoreResult RecordVersion
  | .finishFinalization _ _ => StoreResult Unit
  | .randomToken => String
  | .parentStat | .fstat _ => Stat
  | .observe _ => Option ObjectIdentity
  | .openFile _ | .createExclusive _ => IoResult ObjectId
  | .readToEnd _ => Bytes
  | .listXattrs _ => List (Bytes × Bytes)
  | .entries _ => List String
  | .syncFile _ | .syncDirectory _ => Unit
  | .createDirectory _ _ | .openDirectory _ _ | .removeDirectory _ | .alter _ _ | .renameNoreplace _ _
  | .renameExchange _ _ | .unlink _ | .removeVerified _ _ => IoResult Unit

abbrev signature : CrashLogic.Signature := ⟨Op, Op.Resp⟩

/-- What is wrong with a staging directory: an ancestor, so many names below the root, is not to be trusted, or the
directory is not private. -/
inductive Distrust where
  | ancestor (depth : ℕ)
  | directory
  deriving DecidableEq

/-- What the machine decides at a call: the time, the number of a new inode, the next random token, the answer of the
database and what it finds wrong with a staging directory. -/
structure Choice where
  now : Timestamp
  number : UInt64
  token : String
  answer : SqliteStore.CommitOutcome
  distrust : Option Distrust

namespace World

variable (host : Host)

def commitEntry {α : Type} (w : World) (c : Choice) (fileId : Path) (what : String) (answer : α)
    (body : StoreResult Entry) : StoreResult α × World :=
  SqliteStore.settle w c.answer what answer (body.map (w.putEntry fileId))

/-- Links and unlinks change the status of the object they name. -/
def touch (w : World) (c : Choice) (object : ObjectId) : World :=
  { w with objects := Function.update w.objects object { w.objects object with ctime := c.now } }

def removeName (w : World) (c : Choice) (slot : Slot) (object : ObjectId) : World :=
  let w := w.alter object (fun i => { i with links := i.links - 1, ctime := c.now })
  w.record [(slot, none)]

def newInode (host : Host) (c : Choice) : Inode where
  number := c.number
  mode := regularType ||| 0o600
  uid := host.uid
  gid := host.gid
  links := 1
  atime := c.now
  mtime := c.now
  ctime := c.now
  xattrs := []
  contents := []

def create (w : World) (c : Choice) (slot : Slot) : World :=
  let object := w.next
  let w := { w with
    objects := Function.update w.objects object (newInode host c)
    dirty := Function.update w.dirty object true
    next := object + 1
    ghost := { w.ghost with own := Function.update w.ghost.own object true } }
  w.record [(slot, some object)]

def moveName (w : World) (c : Choice) (old new : Slot) (object : ObjectId) : World :=
  ((w.touch c object).record [(old, none), (new, some object)]).expose new object

def swapNames (w : World) (c : Choice) (old new : Slot) (moved displaced : ObjectId) : World :=
  ((((w.touch c moved).touch c displaced).record [(old, some displaced), (new, some moved)]).expose
    new moved).expose old displaced

def Change.synced (directory : Path) (change : Change) : Change :=
  { change with unsynced := change.unsynced.filter (· ≠ directory) }

/-- `validate_trusted_ancestors`: every directory from the root to the parent of the path. -/
def validateTrustedAncestors (c : Choice) (path : Path) : IoResult Unit :=
  match c.distrust with
  | some (.ancestor depth) =>
    let names := Path.normals path
    if depth < names.length then
      .error (.other (s!"staging ancestor {Path.display (Path.render (names.take depth))} must be owned by root or uid " ++
        s!"{host.uid.toNat}, and must not be group/world-writable unless it is a root-owned sticky directory"))
    else .ok ()
  | _ => .ok ()

def validatePrivateDirectory (c : Choice) (path : Path) (expectedDevice : UInt64) : IoResult Unit :=
  if expectedDevice ≠ host.device ∨ c.distrust = some .directory then
    .error (.other (s!"staging directory {Path.display path} must be a mode-0700 directory owned by uid " ++
      s!"{host.uid.toNat} on device {expectedDevice.toNat}"))
  else .ok ()

/-- What `StagingArea::create` finds of the directory that it makes the staging directory in. -/
def validateRoot (c : Choice) (directory : Path) (expectedDevice : UInt64) : IoResult Unit := do
  let root := (Path.parent directory).getD []
  validateTrustedAncestors host c root
  validatePrivateDirectory host c root expectedDevice

def identityMismatch : Slot → IoError
  | .staged _ name => .other ("refusing to remove staging entry \"" ++ name ++ "\": identity mismatch")
  | .at _ => .other "refusing to remove staging entry: identity mismatch"

def exec (w : World) (c : Choice) : (o : Op) → o.Resp × World
  | .load fileId => match c.answer with
    | .refused message => (.error (.sqlite message), w)
    | _ => (.ok (w.store fileId), w)
  | .commit fileId expected next =>
    w.commitEntry c fileId "snapshot commit" next.version ((w.store fileId).commit fileId expected next)
  | .beginFinalization fileId expected marker =>
    w.commitEntry c fileId "snapshot finalization" marker.version
      ((w.store fileId).beginFinalization fileId expected marker)
  | .finishFinalization fileId expected =>
    w.commitEntry c fileId "marker deletion" () ((w.store fileId).finishFinalization expected)
  | .randomToken => (c.token, w)
  | .parentStat => (⟨{ host.parent with ctime := c.now, mtime := c.now }, c.now⟩, w)
  | .observe slot => ((w.file slot).map (Inode.identity host), w)
  | .openFile slot => match w.lookup slot with
    | some object => (.ok object, w)
    | none => (.error (.os .noEntry), w)
  | .fstat file => (⟨(w.objects file).identity host, (w.objects file).atime⟩, w)
  | .readToEnd file => ((w.objects file).contents, w)
  | .listXattrs file => ((w.objects file).xattrs, w)
  | .createDirectory directory device => match validateRoot host c directory device with
    | .error error => (.error error, w)
    | .ok () => (.ok (), { w with directories := if directory ∈ w.directories then w.directories
        else directory :: w.directories })
  | .openDirectory directory device => match validateTrustedAncestors host c directory with
    | .error error => (.error error, w)
    | .ok () =>
      if directory ∈ w.directories then (validatePrivateDirectory host c directory device, w)
      else (.error (.os .noEntry), w)
  | .removeDirectory directory =>
    if w.entriesOf directory = [] then
      (.ok (), { w with directories := w.directories.filter (· ≠ directory) })
    else (.error (.os .notEmpty), w)
  | .entries directory => (w.entriesOf directory, w)
  | .createExclusive slot =>
    if (w.lookup slot).isSome then (.error (.os .exists), w)
    else if slot.directory ∈ w.directories then (.ok w.next, w.create host c slot)
    else (.error (.os .noEntry), w)
  | .alter file alteration => match alteration with
    | .write contents =>
      if contents.length < 2 ^ 63 then (.ok (), w.alter file (fun i => alteration.apply c.now i))
      else (.error (.os .tooBig), w)
    | _ => (.ok (), w.alter file (fun i => alteration.apply c.now i))
  | .syncFile file => ((), { w with dirty := Function.update w.dirty file false })
  | .syncDirectory directory => ((), { w with pending := w.pending.map (Change.synced directory) })
  | .renameNoreplace old new => match w.lookup old with
    | none => (.error (.os .noEntry), w)
    | some object =>
      if (w.lookup new).isSome then (.error (.os .exists), w)
      else (.ok (), w.moveName c old new object)
  | .renameExchange old new => match w.lookup old, w.lookup new with
    | some moved, some displaced => (.ok (), w.swapNames c old new moved displaced)
    | _, _ => (.error (.os .noEntry), w)
  | .unlink slot => match w.lookup slot with
    | some object => (.ok (), w.removeName c slot object)
    | none => (.error (.os .noEntry), w)
  | .removeVerified slot expected => match w.lookup slot with
    | some object =>
      if (w.objects object).identity host = expected then (.ok (), w.removeName c slot object)
      else (.error (identityMismatch slot), w)
    | none => (.error (identityMismatch slot), w)

end World

/-- The coordinator alone: nobody else touches the world between two of its calls. -/
def alone (host : Host) (allowed : World → Choice → Prop) : CrashLogic.Machine signature World where
  step o w r w' := ∃ c, allowed w c ∧ w.exec host c o = (r, w')
  rely := Eq
  rely_refl _ := rfl

/-- The run of a program in which the machine decides as listed. -/
def execute {ε α : Type} (host : Host) : List Choice → CrashLogic.Prog signature ε α → World →
    Option (Except ε α × World)
  | _, .pure a, w => some (.ok a, w)
  | _, .fail e, w => some (.error e, w)
  | [], .call _ _, _ => none
  | c :: cs, .call o k, w => execute host cs (k (w.exec host c o).1) (w.exec host c o).2

theorem finishes_of_execute {ε α : Type} {host : Host} {allowed : World → Choice → Prop}
    {cs : List Choice} {p : CrashLogic.Prog signature ε α} {w w' : World} {result : Except ε α}
    (hallowed : ∀ w, ∀ c ∈ cs, allowed w c) (h : execute host cs p w = some (result, w')) :
    CrashLogic.Finishes (alone host allowed) p w result w' := by
  induction cs generalizing p w with
  | nil =>
    cases p with
    | pure a => cases h; exact .pure a _
    | fail e => cases h; exact .fail e _
    | call o k => cases h
  | cons c cs ih =>
    cases p with
    | pure a => cases h; exact .pure a _
    | fail e => cases h; exact .fail e _
    | call o k =>
      exact .call rfl ⟨c, hallowed w c List.mem_cons_self, rfl⟩
        (ih (fun w c hc => hallowed w c (List.mem_cons_of_mem _ hc)) h)

theorem finishes_ok_of_execute {ε α : Type} {host : Host} {cs : List Choice}
    {p : CrashLogic.Prog signature ε α} {w : World} (test : α → World → Bool)
    (h : (execute host cs p w).any (fun r => r.1.toOption.any (test · r.2)) = true) :
    ∃ a w', CrashLogic.Finishes (alone host fun _ _ => True) p w (.ok a) w' ∧ test a w' = true := by
  obtain ⟨⟨result, w'⟩, hrun, htest⟩ := (Option.any_eq_true _ _).mp h
  obtain ⟨a, ha, htest⟩ := (Option.any_eq_true _ _).mp htest
  cases result with
  | error e => cases ha
  | ok a' =>
    cases ha
    exact ⟨a, w', finishes_of_execute (fun _ _ _ => trivial) hrun, htest⟩

section sample

/-- A machine that holds no file yet, for runs on fixed inputs. -/
def Host.sample : Host where
  device := 1
  parent := ⟨1, 2, ⟨0, 0⟩, ⟨0, 0⟩, 0, 2, directoryType ||| 0o700, 0, 0⟩
  uid := 0
  gid := 0
  cwd := utf8 "/"
  stagingRoot := utf8 "/staging"

def World.sample : World where
  store := fun _ => .missing
  durable := ∅
  pending := []
  objects := fun _ => World.newInode .sample ⟨⟨0, 0⟩, 0, "", .acknowledged, none⟩
  next := 0
  dirty := fun _ => false
  directories := []
  ghost := ⟨fun _ => none, fun _ => [], fun _ => false, fun _ => false⟩

/-- The row of an absent file that waits for its mount. -/
def sampleRecord (watched : Path) : SnapshotRecord where
  header := {
    format := formatVersion
    pathHex := pathToHex watched
    generation := "0123456789abcdef0123456789abcdef"
    revision := 4
    lifecycle := .mountIntent none
    original := .absent ⟨0, 0, 0o600, ⟨0, 0⟩, ⟨0, 0⟩, []⟩
    logicalPresent := false
    parent := Host.sample.parent
    stagingPathHex := pathToHex (utf8 "/staging/0123456789abcdef0123456789abcdef")
    swapName := "swap"
    storedName := "stored"
    placeholder := some ⟨1, 100, ⟨0, 0⟩, ⟨0, 0⟩, 0, 1, regularType ||| 0o600, 0, 0⟩
    mountToken := "0123456789abcdef0123456789abcdef"
    contentSha256 := sha256 []
    blockedReason := none }
  contents := []

/-- The clock runs, inode numbers and tokens are new, the database obeys and directories are trusted. -/
def Choice.samples (count : ℕ) : List Choice := (List.range count).map fun n => {
  now := ⟨Int64.ofNat n, 0⟩
  number := UInt64.ofNat (100 + n)
  token := String.ofList (List.replicate 30 'a' ++ ((Nat.toDigits 16 (16 + n % 240)).take 2))
  answer := .acknowledged
  distrust := none }

end sample

end FileGuard.Files
