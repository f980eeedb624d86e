import FileGuard.Store.Path

namespace FileGuard.Policy

open Store

inductive Action where
  | allow
  | deny
  deriving DecidableEq

inductive Access where
  | read
  | write
  | any
  deriving DecidableEq

def oAccmode : UInt32 := 3
def oRdonly : UInt32 := 0
def oWronly : UInt32 := 1
def oRdwr : UInt32 := 2
def oTrunc : UInt32 := 0o1000
def oAppend : UInt32 := 0o2000

namespace Access

def covers (self req : Access) : Bool := self == .any || self == req

/-- The flag word of `open(2)`, given by its bit pattern. -/
def fromOpenFlags (flags : UInt32) : Access :=
  let accmode := flags &&& oAccmode
  if accmode = oWronly ∨ accmode = oRdwr ∨ flags &&& oTrunc ≠ 0 ∨ flags &&& oAppend ≠ 0 then .write
  else .read

end Access

inductive IdentityPin where
  | sha256 (value : String)
  | unpinned
  deriving DecidableEq

structure ScriptIdentity where
  path : String
  pin : IdentityPin
  deriving DecidableEq

/-- `file` and `binary` are compared as paths, component by component. -/
structure Rule where
  file : Path
  binary : Path
  action : Action
  access : Access
  identity : IdentityPin
  script : Option ScriptIdentity
  deriving DecidableEq

inductive Decision where
  | allowAlways
  | denyAlways
  | allowSession
  | allowOnce
  | denyOnce
  deriving DecidableEq

def Decision.isAllowed : Decision → Bool
  | .allowAlways | .allowSession | .allowOnce => true
  | .denyAlways | .denyOnce => false

end FileGuard.Policy
