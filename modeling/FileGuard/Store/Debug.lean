import FileGuard.Store.Record

/-! How the phases of a row read under `{:?}`. -/

namespace FileGuard.Store

/-- A text under `{:?}`. -/
def debugStr (s : String) : String :=
  let shown := s.toList.map fun c => if c.toNat = 0x22 then "\\\x22" else escapeDebug c
  "\x22" ++ String.join shown ++ "\x22"

def debugOption {α : Type} (debug : α → String) : Option α → String
  | none => "None"
  | some a => s!"Some({debug a})"

def debugStruct (name : String) (fields : List (String × String)) : String :=
  let shown := fields.map fun (field, value) => s!"{field}: {value}"
  name ++ " \x7b " ++ ", ".intercalate shown ++ " \x7d"

def Timestamp.debug (t : Timestamp) : String :=
  debugStruct "Timestamp" [("seconds", toString t.seconds), ("nanoseconds", toString t.nanoseconds)]

def ObjectIdentity.debug (identity : ObjectIdentity) : String :=
  debugStruct "ObjectIdentity" [("device", toString identity.device), ("inode", toString identity.inode),
    ("ctime", identity.ctime.debug), ("mtime", identity.mtime.debug), ("size", toString identity.size),
    ("links", toString identity.links), ("mode", toString identity.mode), ("uid", toString identity.uid),
    ("gid", toString identity.gid)]

def RestoreOrigin.debug : RestoreOrigin → String
  | .installed => "Installed"
  | .stored => "Stored"

def UnmountNext.debug : UnmountNext → String
  | .restore => "Restore"
  | .leaveInstalled => "LeaveInstalled"

namespace Lifecycle

def debugFinal (name : String) (origin : RestoreOrigin) (restoredIdentity : Option ObjectIdentity)
    (displacedName : Option String) (displacedIdentity : Option ObjectIdentity) (detachedName : Option String)
    (detachedIdentity : Option ObjectIdentity) : String :=
  debugStruct name [("origin", origin.debug),
    ("restored_identity", debugOption ObjectIdentity.debug restoredIdentity),
    ("displaced_name", debugOption debugStr displacedName),
    ("displaced_identity", debugOption ObjectIdentity.debug displacedIdentity),
    ("detached_name", debugOption debugStr detachedName),
    ("detached_identity", debugOption ObjectIdentity.debug detachedIdentity)]

def debug : Lifecycle → String
  | .captured => "Captured"
  | .installIntent => "InstallIntent"
  | .installed detachedOriginal =>
    debugStruct "Installed" [("detached_original", debugOption ObjectIdentity.debug detachedOriginal)]
  | .mountIntent detachedOriginal =>
    debugStruct "MountIntent" [("detached_original", debugOption ObjectIdentity.debug detachedOriginal)]
  | .unmountIntent next detachedOriginal =>
    debugStruct "UnmountIntent" [("next", next.debug),
      ("detached_original", debugOption ObjectIdentity.debug detachedOriginal)]
  | .restoreIntent origin restoreName restoreIdentity detachedName detachedIdentity =>
    debugStruct "RestoreIntent" [("origin", origin.debug), ("restore_name", debugOption debugStr restoreName),
      ("restore_identity", debugOption ObjectIdentity.debug restoreIdentity),
      ("detached_name", debugOption debugStr detachedName),
      ("detached_identity", debugOption ObjectIdentity.debug detachedIdentity)]
  | .restored origin restoredIdentity displacedName displacedIdentity detachedName detachedIdentity =>
    debugFinal "Restored" origin restoredIdentity displacedName displacedIdentity detachedName detachedIdentity
  | .deleteIntent origin restoredIdentity displacedName displacedIdentity detachedName detachedIdentity =>
    debugFinal "DeleteIntent" origin restoredIdentity displacedName displacedIdentity detachedName detachedIdentity
  | .storeIntent detachedName => debugStruct "StoreIntent" [("detached_name", debugStr detachedName)]
  | .stored detachedName detachedOriginal =>
    debugStruct "Stored" [("detached_name", debugStr detachedName), ("detached_original", detachedOriginal.debug)]

end Lifecycle

end FileGuard.Store
