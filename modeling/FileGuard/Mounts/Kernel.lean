import FileGuard.Framing.Words
import FileGuard.Store.Path

/-! Mounts and the way the kernel prints them in `/proc/self/mountinfo`. -/

namespace FileGuard.Mounts

open Store Framing

abbrev space : UInt8 := 0x20
abbrev comma : UInt8 := 0x2c
abbrev backslash : UInt8 := 0x5c

def dash : Bytes := [0x2d]

/-- `u8::is_ascii_whitespace`. -/
def isAsciiWhitespace (b : UInt8) : Bool := [0x20, 0x09, 0x0a, 0x0c, 0x0d].contains b

/-- The kernel's own words: flags, tags, names. -/
def Word (w : Bytes) : Prop := w ≠ [] ∧ ∀ b ∈ w, isAsciiWhitespace b = false

instance (w : Bytes) : Decidable (Word w) := inferInstanceAs (Decidable (_ ∧ _))

def decimal (n : ℕ) : Bytes :=
  if n < 10 then [UInt8.ofNat (48 + n)] else decimal (n / 10) ++ [UInt8.ofNat (48 + n % 10)]

/-- A byte as a backslash and three octal digits. -/
def code (b : UInt8) : Bytes := [backslash, 48 + b / 64, 48 + b / 8 % 8, 48 + b % 8]

def escapeByte (special : List UInt8) (b : UInt8) : Bytes := if special.contains b then code b else [b]

def escape (special : List UInt8) (s : Bytes) : Bytes := s.flatMap (escapeByte special)

def pathSpecial : List UInt8 := [0x20, 0x09, 0x0a, 0x5c]

def sourceSpecial : List UInt8 := [0x20, 0x09, 0x0a, 0x5c, 0x23]

def userIdPrefix : Bytes := utf8 "user_id="

inductive SuperOption where
  | userId (uid : UInt32)
  | word (option : Bytes)
deriving DecidableEq, Repr

namespace SuperOption

def print : SuperOption → Bytes
  | userId uid => userIdPrefix ++ decimal uid.toNat
  | word option => option

def Valid : SuperOption → Prop
  | userId _ => True
  | word option => (∀ b ∈ option, isAsciiWhitespace b = false) ∧ comma ∉ option ∧ ¬userIdPrefix <+: option

instance : DecidablePred Valid
  | userId _ => inferInstanceAs (Decidable True)
  | word _ => inferInstanceAs (Decidable (_ ∧ _))

end SuperOption

def flags (readOnly : Bool) (more : List Bytes) : Bytes :=
  spaced comma ((if readOnly then utf8 "ro" else utf8 "rw") :: more)

structure Mount where
  id : ℕ
  parent : ℕ
  major : ℕ
  minor : ℕ
  root : Bytes
  mountpoint : Bytes
  readOnly : Bool
  options : List Bytes
  optional : List Bytes
  fsType : String
  source : Bytes
  superReadOnly : Bool
  superOptions : List SuperOption
  id_lt : id < 2 ^ 31
  options_word : ∀ option ∈ options, Word option
  optional_word : ∀ tag ∈ optional, Word tag ∧ tag ≠ dash
  fsType_word : Word (utf8 fsType)
  /-- No file system is named like the flags of a mount. -/
  fsType_ne : utf8 fsType ≠ flags readOnly options
  superOptions_valid : ∀ option ∈ superOptions, option.Valid

namespace Mount

def device (m : Mount) : Bytes := decimal m.major ++ 0x3a :: decimal m.minor

def flagWord (m : Mount) : Bytes := flags m.readOnly m.options

def superWord (m : Mount) : Bytes := flags m.superReadOnly (m.superOptions.map SuperOption.print)

def mountWords (m : Mount) : List Bytes :=
  [decimal m.id, decimal m.parent, m.device, escape pathSpecial m.root, escape pathSpecial m.mountpoint, m.flagWord] ++
    m.optional

def filesystemWords (m : Mount) : List Bytes := [utf8 m.fsType, escape sourceSpecial m.source, m.superWord]

def line (m : Mount) : Bytes := spaced space (m.mountWords ++ dash :: m.filesystemWords)

/-- The user that a FUSE mount names as its owner. -/
def ownerUid (m : Mount) : Option UInt32 :=
  m.superOptions.findSome? fun option => match option with
    | .userId uid => some uid
    | .word _ => none

end Mount

/-- The text of the table, one line for each mount. -/
def mountinfo (mounts : List Mount) : Bytes := mounts.flatMap fun m => m.line ++ [newline]

end FileGuard.Mounts
