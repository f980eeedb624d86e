import FileGuard.CrashLogic.Directory
import FileGuard.Files.Construction

/-! A staging directory on a disk where every call may fail, done or not, and the power may go at any time. -/

namespace FileGuard.Construction

open Store Files CrashLogic Durable

structure Disk where
  directory : Directory String ObjectId
  inodes : ObjectId → Inode
  /-- what a file holds that is not known to be on the disk -/
  dirty : ObjectId → Bool
  next : ObjectId

/-- Renames and unlinks of other names leave a file like this. -/
def Same (i j : Inode) : Prop := j = { i with links := j.links, ctime := j.ctime }

namespace Disk

variable (host : Host) (c : Choice)

def entries (d : Disk) : String → Option ObjectId := d.directory.entries

def file (d : Disk) (name : String) : Option Inode := (d.entries name).map d.inodes

def record (d : Disk) (change : Rewrite String ObjectId) : Disk := { d with directory := d.directory.record change }

def touch (d : Disk) (file : ObjectId) (f : Inode → Inode) : Disk :=
  { d with inodes := Function.update d.inodes file (f (d.inodes file)) }

def change (d : Disk) (file : ObjectId) (f : Inode → Inode) : Disk :=
  { d.touch file f with dirty := Function.update d.dirty file true }

def allocate (d : Disk) : Disk :=
  { d with
    inodes := Function.update d.inodes d.next (World.newInode host c)
    dirty := Function.update d.dirty d.next true
    next := d.next + 1 }

def create (d : Disk) (name : String) : Disk := (d.allocate host c).record [(name, some d.next)]

def append (d : Disk) (file : ObjectId) (written : Bytes) : Disk :=
  d.change file fun i => { i with contents := i.contents ++ written, mtime := c.now, ctime := c.now }

def rename (d : Disk) (old new : String) (object : ObjectId) : Disk :=
  (d.touch object fun i => { i with ctime := c.now }).record [(old, none), (new, some object)]

def remove (d : Disk) (name : String) (object : ObjectId) : Disk :=
  (d.touch object fun i => { i with links := i.links - 1, ctime := c.now }).record [(name, none)]

def syncFile (d : Disk) (file : ObjectId) : Disk := { d with dirty := Function.update d.dirty file false }

def syncDirectory (d : Disk) : Disk := { d with directory := d.directory.sync }

@[simp] theorem entries_record {d : Disk} {change : Rewrite String ObjectId} :
    (d.record change).entries = change.apply d.entries := Directory.entries_record

theorem file_none {d : Disk} {name : String} (h : d.entries name = none) : d.file name = none := by
  rw [file, h, Option.map_none]

theorem file_some {d : Disk} {name : String} {object : ObjectId} (h : d.entries name = some object) :
    d.file name = some (d.inodes object) := by
  rw [file, h, Option.map_some]

@[simp] theorem entries_syncDirectory {d : Disk} : d.syncDirectory.entries = d.entries := Directory.entries_sync

end Disk

/-- A failure of the machine itself, on a machine that has them. -/
def Fails {α : Type} (faults : Prop) (r : IoResult α) : Prop := faults ∧ ∃ error, r = .error error

/-- What a call may answer and do. A failed one may have had its effect all the same, and a failed write some of it. -/
def step (host : Host) (faults : Prop) : (o : Syscall) → Disk → o.Resp → Disk → Prop
  | .observe name, d, r, d' => d' = d ∧ (r = .ok ((d.file name).map (Inode.identity host)) ∨ Fails faults r)
  | .createExclusive name, d, r, d' =>
    (∃ c, d.entries name = none ∧ d' = d.create host c name ∧ (r = .ok d.next ∨ Fails faults r)) ∨
      d' = d ∧ ((∃ object, d.entries name = some object) ∧ r = .error (.os .exists) ∨ Fails faults r)
  | .writeAll file contents, d, r, d' =>
    (∃ c : Choice, r = .ok () ∧ d' = d.append c file contents) ∨
      ∃ (c : Choice) (written : Bytes), Fails faults r ∧ written <+: contents ∧ d' = d.append c file written
  | .alter file alteration, d, r, d' =>
    (∃ c : Choice, d' = d.change file (fun i => alteration.apply c.now i) ∧ (r = .ok () ∨ Fails faults r)) ∨
      d' = d ∧ Fails faults r
  | .syncFile file, d, r, d' => r = .ok () ∧ d' = d.syncFile file ∨ Fails faults r ∧ d' = d
  | .fstat file, d, r, d' =>
    d' = d ∧ (r = .ok ⟨(d.inodes file).identity host, (d.inodes file).atime⟩ ∨ Fails faults r)
  | .syncDirectory, d, r, d' => r = .ok () ∧ d' = d.syncDirectory ∨ Fails faults r ∧ d' = d
  | .renameNoreplace old new, d, r, d' =>
    (∃ c object, d.entries old = some object ∧ d.entries new = none ∧ d' = d.rename c old new object ∧
        (r = .ok () ∨ Fails faults r)) ∨
      d' = d ∧ (d.entries old = none ∧ r = .error (.os .noEntry) ∨
        (∃ object, d.entries new = some object) ∧ r = .error (.os .exists) ∨ Fails faults r)
  | .unlink name, d, r, d' =>
    (∃ c object, d.entries name = some object ∧ d' = d.remove c name object ∧ (r = .ok () ∨ Fails faults r)) ∨
      d' = d ∧ (d.entries name = none ∧ r = .error (.os .noEntry) ∨ Fails faults r)

/-- The daemon alone in its staging directory. -/
def machine (host : Host) (faults : Prop) : Machine syscalls Disk where
  step := step host faults
  rely := Eq
  rely_refl _ := rfl

/-- Of the changes in memory some have reached the disk; a file that was synced is as it was, any other as it may be. -/
structure PowerLoss (d d' : Disk) : Prop where
  directory : d.directory.Leaves d'.directory.durable
  pending : d'.directory.pending = []
  synced : ∀ file, d.dirty file = false → Same (d.inodes file) (d'.inodes file)
  clean : ∀ file, d'.dirty file = false
  next : d'.next = d.next

end FileGuard.Construction
