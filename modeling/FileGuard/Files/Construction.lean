import FileGuard.CrashLogic.Cut
import FileGuard.Files.SecureFile

/-! `create_file` once more, over system calls each of which may fail. -/

namespace FileGuard.Construction

open Store Files CrashLogic

inductive Syscall where
  | observe (name : String)
  | createExclusive (name : String)
  | writeAll (file : ObjectId) (contents : Bytes)
  | alter (file : ObjectId) (alteration : Alteration)
  | syncFile (file : ObjectId)
  | fstat (file : ObjectId)
  | syncDirectory
  | renameNoreplace (old new : String)
  | unlink (name : String)

@[reducible] def Syscall.Resp : Syscall → Type
  | .observe _ => IoResult (Option ObjectIdentity)
  | .createExclusive _ => IoResult ObjectId
  | .fstat _ => IoResult Stat
  | .writeAll _ _ | .alter _ _ | .syncFile _ | .syncDirectory | .renameNoreplace _ _ | .unlink _ => IoResult Unit

abbrev syscalls : Signature := ⟨Syscall, Syscall.Resp⟩

abbrev Program := Prog syscalls IoError

def observe (name : String) : Program (Option ObjectIdentity) := .call (.observe name) .ofExcept

def createExclusive (name : String) : Program ObjectId := .call (.createExclusive name) .ofExcept

def writeAll (file : ObjectId) (contents : Bytes) : Program Unit := .call (.writeAll file contents) .ofExcept

def alter (file : ObjectId) (alteration : Alteration) : Program Unit := .call (.alter file alteration) .ofExcept

def syncFile (file : ObjectId) : Program Unit := .call (.syncFile file) .ofExcept

def fstat (file : ObjectId) : Program Stat := .call (.fstat file) .ofExcept

def syncDirectory : Program Unit := .call .syncDirectory .ofExcept

def renameNoreplace (old new : String) : Program Unit := .call (.renameNoreplace old new) .ofExcept

def unlink (name : String) : Program Unit := .call (.unlink name) .ofExcept

def otherIf (c : Prop) [Decidable c] (message : String) : Program Unit :=
  if c then .fail (.other message) else .pure ()

def discardEntry (name : String) : Program Unit := do
  match ← observe name with
  | none => return ()
  | some _ => do
    unlink name
    syncDirectory

def discardConstruction (name : String) : Program Unit := do
  let name ← Prog.ofExcept (entryName name)
  discardEntry (constructionEntryName name)

def applyOwnershipAndMode (file : ObjectId) (metadata : RestoreMetadata) : Program Unit := do
  otherIf (metadata.uid = 0xffffffff ∨ metadata.gid = 0xffffffff)
    "restore ownership contains the reserved unchanged value"
  alter file (.owner metadata.uid metadata.gid)
  alter file (.mode metadata.mode)

def applyXattrs (file : ObjectId) : List ExtendedAttribute → Program Unit
  | [] => return ()
  | xattr :: rest => do
    let name ← Prog.ofExcept (StagingArea.decodeXattrHex xattr.nameHex)
    let value ← Prog.ofExcept (StagingArea.decodeXattrHex xattr.valueHex)
    let name ← Prog.ofExcept (cstring name)
    alter file (.xattr name value)
    applyXattrs file rest

def fill (file : ObjectId) (contents : Bytes) (metadata : RestoreMetadata) (restoreExactMetadata : Bool) :
    Program Unit := do
  writeAll file contents
  applyOwnershipAndMode file metadata
  if restoreExactMetadata then do
    applyXattrs file metadata.xattrs
    alter file (.times metadata.atime metadata.mtime)
  syncFile file

def publish (file : ObjectId) (constructionName name : String) : Program ObjectIdentity := do
  let beforeRename ← fstat file
  syncDirectory
  let operation ← (renameNoreplace constructionName name).attempt
  let constructed ← observe constructionName
  let installed ← observe name
  match installed.filter fun actual =>
      constructed.isNone && sameFileAfterRename beforeRename.identity actual with
  | some installed => do
    syncDirectory
    return installed
  | none => match operation with
    | .ok _ => .fail (.other "constructed staging file was not atomically installed")
    | .error error => .fail error

def createFile (name : String) (contents : Bytes) (metadata : RestoreMetadata) (restoreExactMetadata : Bool) :
    Program ObjectIdentity := do
  otherIf (maxCredentialSize < contents.length) "credential exceeds maximum size"
  let name ← Prog.ofExcept (entryName name)
  let constructionName := constructionEntryName name
  discardEntry constructionName
  let file ← createExclusive constructionName
  let result ← (do
    fill file contents metadata restoreExactMetadata
    publish file constructionName name : Program ObjectIdentity).attempt
  match result with
  | .ok identity => return identity
  | .error error => do
    let _ ← (discardEntry constructionName).attempt
    .fail error

section translation

variable (s : StagingArea)

/-- The call of the coordinator's machine that a system call on this staging area is. -/
def Syscall.op : Syscall → Op
  | .observe name => .observe (s.slot name)
  | .createExclusive name => .createExclusive (s.slot name)
  | .writeAll file contents => .alter file (.write contents)
  | .alter file alteration => .alter file alteration
  | .syncFile file => .syncFile file
  | .fstat file => .fstat file
  | .syncDirectory => .syncDirectory s.path
  | .renameNoreplace old new => .renameNoreplace (s.slot old) (s.slot new)
  | .unlink name => .unlink (s.slot name)

/-- Where that machine knows no failure, its answer is a success. -/
def Syscall.answer : (o : Syscall) → (o.op s).Resp → o.Resp
  | .observe _, r => .ok r
  | .createExclusive _, r => r
  | .writeAll _ _, r => r
  | .alter _ _, r => r
  | .syncFile _, r => .ok r
  | .fstat _, r => .ok r
  | .syncDirectory, r => .ok r
  | .renameNoreplace _ _, r => r
  | .unlink _, r => r

def onArea {α : Type} (p : Program α) : FileProg α :=
  @Prog.translate syscalls signature IoError α (Syscall.op s) (Syscall.answer s) p

variable {s}

theorem onArea_bind {α β : Type} (p : Program α) (f : α → Program β) :
    onArea s (p.bind f) = (onArea s p).bind fun a => onArea s (f a) := Prog.translate_bind p f

theorem onArea_attempt {α : Type} (p : Program α) : onArea s p.attempt = (onArea s p).attempt :=
  Prog.translate_attempt p

theorem onArea_ofExcept {α : Type} (x : IoResult α) : onArea s (Prog.ofExcept x) = Prog.ofExcept x :=
  Prog.translate_ofExcept x

theorem onArea_otherIf (c : Prop) [Decidable c] (message : String) :
    onArea s (otherIf c message) = Files.otherIf c message := by
  unfold otherIf Files.otherIf failIf
  split_ifs <;> rfl

@[simp] theorem onArea_observe (name : String) : onArea s (observe name) = Files.observe (s.slot name) := rfl

@[simp] theorem onArea_syncFile (file : ObjectId) : onArea s (syncFile file) = Files.syncFile file := rfl

@[simp] theorem onArea_fstat (file : ObjectId) : onArea s (fstat file) = Files.fstat file := rfl

@[simp] theorem onArea_syncDirectory : onArea s syncDirectory = s.sync := rfl

@[simp] theorem onArea_createExclusive (name : String) :
    onArea s (createExclusive name) = Files.createExclusive (s.slot name) :=
  congrArg (@Prog.call signature IoError ObjectId (Op.createExclusive (s.slot name))) (funext fun r => onArea_ofExcept r)

@[simp] theorem onArea_writeAll (file : ObjectId) (contents : Bytes) :
    onArea s (writeAll file contents) = Files.alter file (.write contents) :=
  congrArg (@Prog.call signature IoError Unit (Op.alter file (.write contents))) (funext fun r => onArea_ofExcept r)

@[simp] theorem onArea_alter (file : ObjectId) (alteration : Alteration) :
    onArea s (alter file alteration) = Files.alter file alteration :=
  congrArg (@Prog.call signature IoError Unit (Op.alter file alteration)) (funext fun r => onArea_ofExcept r)

@[simp] theorem onArea_renameNoreplace (old new : String) :
    onArea s (renameNoreplace old new) = Files.renameNoreplace (s.slot old) (s.slot new) :=
  congrArg (@Prog.call signature IoError Unit (Op.renameNoreplace (s.slot old) (s.slot new))) (funext fun r => onArea_ofExcept r)

@[simp] theorem onArea_unlink (name : String) : onArea s (unlink name) = Files.unlink (s.slot name) :=
  congrArg (@Prog.call signature IoError Unit (Op.unlink (s.slot name))) (funext fun r => onArea_ofExcept r)

theorem onArea_discardEntry (name : String) : onArea s (discardEntry name) = s.discardEntry name := by
  simp only [discardEntry, StagingArea.discardEntry, Prog.bind_eq, onArea_bind, onArea_observe]
  congr 1
  funext observed
  cases observed with
  | none => rfl
  | some identity => simp only [onArea_bind, onArea_unlink, onArea_syncDirectory]

theorem onArea_applyXattrs (file : ObjectId) (xattrs : List ExtendedAttribute) :
    onArea s (applyXattrs file xattrs) = StagingArea.applyXattrs file xattrs := by
  induction xattrs with
  | nil => rfl
  | cons xattr rest ih =>
    simp only [applyXattrs, StagingArea.applyXattrs, Prog.bind_eq, onArea_bind, onArea_ofExcept, onArea_alter, ih]

theorem onArea_fill (file : ObjectId) (contents : Bytes) (metadata : RestoreMetadata) (restoreExactMetadata : Bool) :
    onArea s (fill file contents metadata restoreExactMetadata) =
      StagingArea.fill file contents metadata restoreExactMetadata := by
  cases restoreExactMetadata
  · simp only [fill, StagingArea.fill, applyOwnershipAndMode, StagingArea.applyOwnershipAndMode, Prog.bind_eq,
      onArea_bind, onArea_otherIf, onArea_writeAll, onArea_alter, Bool.false_eq_true, if_false, onArea_syncFile]
  · simp only [fill, StagingArea.fill, applyOwnershipAndMode, StagingArea.applyOwnershipAndMode, Prog.bind_eq,
      onArea_bind, onArea_otherIf, onArea_writeAll, onArea_alter, if_true, onArea_applyXattrs, onArea_syncFile]

theorem onArea_publish (file : ObjectId) (constructionName name : String) :
    onArea s (publish file constructionName name) = s.publish file constructionName name := by
  simp only [publish, StagingArea.publish, Prog.bind_eq, onArea_bind, onArea_fstat, onArea_syncDirectory,
    onArea_attempt, onArea_renameNoreplace, onArea_observe]
  congr 1
  funext beforeRename
  congr 1
  funext _
  congr 1
  funext operation
  congr 1
  funext constructed
  congr 1
  funext installed
  generalize installed.filter (fun actual => constructed.isNone && sameFileAfterRename beforeRename.identity actual) =
    accepted
  cases accepted with
  | none => cases operation <;> rfl
  | some installed =>
    simp only [onArea_bind, onArea_syncDirectory]
    rfl

/-- On a machine where only the calls fail that may fail there, this is the `create_file` of the coordinator. -/
theorem onArea_createFile (name : String) (contents : Bytes) (metadata : RestoreMetadata) (restoreExactMetadata : Bool) :
    onArea s (createFile name contents metadata restoreExactMetadata) =
      s.createFile name contents metadata restoreExactMetadata := by
  simp only [createFile, StagingArea.createFile, Prog.bind_eq, onArea_bind, onArea_otherIf, onArea_ofExcept,
    onArea_discardEntry, onArea_createExclusive, onArea_attempt, onArea_fill, onArea_publish]
  congr 1
  funext _
  congr 1
  funext name
  congr 1
  funext _
  congr 1
  funext file
  congr 1
  funext result
  cases result with
  | ok identity => rfl
  | error error =>
    simp only [onArea_bind, onArea_attempt, onArea_discardEntry]
    rfl

theorem onArea_discardConstruction (name : String) : onArea s (discardConstruction name) = s.discardConstruction name := by
  simp only [discardConstruction, StagingArea.discardConstruction, Prog.bind_eq, onArea_bind, onArea_ofExcept,
    onArea_discardEntry]

end translation

end FileGuard.Construction
