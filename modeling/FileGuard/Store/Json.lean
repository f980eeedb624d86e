import FileGuard.Store.Record

namespace FileGuard.Store.Json

abbrev Text := List Char

/-- The bytes a text takes in UTF-8. -/
def byteLength (t : Text) : ℕ := (t.map Char.utf8Size).sum

def escape (c : Char) : Text :=
  if c = '"' then ['\\', '"']
  else if c = '\\' then ['\\', '\\']
  else if c.toNat = 8 then ['\\', 'b']
  else if c.toNat = 12 then ['\\', 'f']
  else if c = '\n' then ['\\', 'n']
  else if c = '\r' then ['\\', 'r']
  else if c = '\t' then ['\\', 't']
  else if c.toNat < 32 then
    ['\\', 'u', '0', '0', hexChar (c.toNat / 16), hexChar (c.toNat % 16)]
  else [c]

def string (s : String) : Text := '"' :: s.toList.flatMap escape ++ ['"']

def nat (n : ℕ) : Text := Nat.toDigits 10 n

def int : ℤ → Text
  | .ofNat n => nat n
  | .negSucc n => '-' :: nat (n + 1)

def bool : Bool → Text
  | true => "true".toList
  | false => "false".toList

def option {α : Type} (encode : α → Text) : Option α → Text
  | none => "null".toList
  | some a => encode a

def separated : List Text → Text
  | [] => []
  | [t] => t
  | t :: ts => t ++ ',' :: separated ts

def array {α : Type} (encode : α → Text) (items : List α) : Text :=
  '[' :: separated (items.map encode) ++ [']']

def field (name : String) (value : Text) : Text := '"' :: name.toList ++ '"' :: ':' :: value

def object (fields : List Text) : Text := '{' :: separated fields ++ ['}']

def timestamp (t : Timestamp) : Text :=
  object [field "seconds" (int t.seconds.toInt), field "nanoseconds" (int t.nanoseconds.toInt)]

def extendedAttribute (a : ExtendedAttribute) : Text :=
  object [field "name_hex" (string a.nameHex), field "value_hex" (string a.valueHex)]

def restoreMetadata (m : RestoreMetadata) : Text :=
  object [field "uid" (nat m.uid.toNat), field "gid" (nat m.gid.toNat),
    field "mode" (nat m.mode.toNat), field "atime" (timestamp m.atime),
    field "mtime" (timestamp m.mtime), field "xattrs" (array extendedAttribute m.xattrs)]

def objectIdentity (i : ObjectIdentity) : Text :=
  object [field "device" (nat i.device.toNat), field "inode" (nat i.inode.toNat),
    field "ctime" (timestamp i.ctime), field "mtime" (timestamp i.mtime),
    field "size" (nat i.size.toNat), field "links" (nat i.links.toNat),
    field "mode" (nat i.mode.toNat), field "uid" (nat i.uid.toNat), field "gid" (nat i.gid.toNat)]

def originalState : OriginalState → Text
  | .present identity metadata => object [field "kind" (string "present"),
      field "identity" (objectIdentity identity), field "metadata" (restoreMetadata metadata)]
  | .absent presentation => object [field "kind" (string "absent"),
      field "presentation" (restoreMetadata presentation)]

def restoreOrigin : RestoreOrigin → Text
  | .installed => string "installed"
  | .stored => string "stored"

def unmountNext : UnmountNext → Text
  | .restore => string "restore"
  | .leaveInstalled => string "leave_installed"

def finishedFields (origin : RestoreOrigin) (restored : Option ObjectIdentity)
    (displacedName : Option String) (displaced : Option ObjectIdentity)
    (detachedName : Option String) (detached : Option ObjectIdentity) : List Text :=
  [field "origin" (restoreOrigin origin),
    field "restored_identity" (option objectIdentity restored),
    field "displaced_name" (option string displacedName),
    field "displaced_identity" (option objectIdentity displaced),
    field "detached_name" (option string detachedName),
    field "detached_identity" (option objectIdentity detached)]

def lifecycle : Lifecycle → Text
  | .captured => object [field "phase" (string "captured")]
  | .installIntent => object [field "phase" (string "install_intent")]
  | .installed detached => object [field "phase" (string "installed"),
      field "detached_original" (option objectIdentity detached)]
  | .mountIntent detached => object [field "phase" (string "mount_intent"),
      field "detached_original" (option objectIdentity detached)]
  | .unmountIntent next detached => object [field "phase" (string "unmount_intent"),
      field "next" (unmountNext next), field "detached_original" (option objectIdentity detached)]
  | .restoreIntent origin name identity detachedName detached =>
      object [field "phase" (string "restore_intent"), field "origin" (restoreOrigin origin),
        field "restore_name" (option string name),
        field "restore_identity" (option objectIdentity identity),
        field "detached_name" (option string detachedName),
        field "detached_identity" (option objectIdentity detached)]
  | .restored origin restored displacedName displaced detachedName detached =>
      object (field "phase" (string "restored") ::
        finishedFields origin restored displacedName displaced detachedName detached)
  | .deleteIntent origin restored displacedName displaced detachedName detached =>
      object (field "phase" (string "delete_intent") ::
        finishedFields origin restored displacedName displaced detachedName detached)
  | .storeIntent name => object [field "phase" (string "store_intent"),
      field "detached_name" (string name)]
  | .stored name detached => object [field "phase" (string "stored"),
      field "detached_name" (string name), field "detached_original" (objectIdentity detached)]

def recordHeader (h : RecordHeader) : Text :=
  object [field "format" (nat h.format.toNat), field "path_hex" (string h.pathHex),
    field "generation" (string h.generation), field "revision" (nat h.revision),
    field "lifecycle" (lifecycle h.lifecycle), field "original" (originalState h.original),
    field "logical_present" (bool h.logicalPresent), field "parent" (objectIdentity h.parent),
    field "staging_path_hex" (string h.stagingPathHex), field "swap_name" (string h.swapName),
    field "stored_name" (string h.storedName),
    field "placeholder" (option objectIdentity h.placeholder),
    field "mount_token" (string h.mountToken), field "content_sha256" (string h.contentSha256),
    field "blocked_reason" (option string h.blockedReason)]

def finalizationRecord (m : FinalizationRecord) : Text :=
  object [field "format" (nat m.format.toNat), field "path_hex" (string m.pathHex),
    field "generation" (string m.generation), field "revision" (nat m.revision),
    field "logical_present" (bool m.logicalPresent), field "parent" (objectIdentity m.parent),
    field "staging_path_hex" (string m.stagingPathHex), field "final_name" (string m.finalName),
    field "final_identity" (option objectIdentity m.finalIdentity),
    field "restore_metadata" (restoreMetadata m.restoreMetadata),
    field "content_length" (nat m.contentLength), field "content_sha256" (string m.contentSha256)]

theorem byteLength_append (s t : Text) : byteLength (s ++ t) = byteLength s + byteLength t := by
  simp [byteLength]

theorem byteLength_cons (c : Char) (t : Text) : byteLength (c :: t) = c.utf8Size + byteLength t := by
  simp [byteLength]

end FileGuard.Store.Json

namespace FileGuard.Store

def encodeSnapshotHeader (h : RecordHeader) : Json.Text := Json.recordHeader h

def encodeFinalizationHeader (m : FinalizationRecord) : Json.Text := Json.finalizationRecord m

def headerLimit : ℕ := 1048576

def headerLength (h : RecordHeader) : ℕ := Json.byteLength (encodeSnapshotHeader h)

def markerLength (m : FinalizationRecord) : ℕ := Json.byteLength (encodeFinalizationHeader m)

end FileGuard.Store
