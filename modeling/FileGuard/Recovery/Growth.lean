import FileGuard.CrashLogic.Within
import FileGuard.Recovery.Commits

/-! How far the headers of a generation grow, and the calls that keep them within the limit of the database. -/

namespace FileGuard.Recovery

open Store Files Transaction CrashLogic

variable {p : Path} {r next : SnapshotRecord}

section lengths

open Json

/-- Room for the one path that an error may show: the watched one, or the staging directory. -/
def shownLimit (h : RecordHeader) : ℕ := max h.pathHex.length h.stagingPathHex.length

/-- The longest reason that the coordinator blocks a row for, in its encoding. -/
def conflictLimit (h : RecordHeader) : ℕ := 6 * (shownLimit h + 400)

/-- What a generation never changes of its headers leaves room for all that it may change. -/
def Roomy (h : RecordHeader) : Prop := headerLength h.fixed + growthLimit + conflictLimit h ≤ headerLimit

instance (h : RecordHeader) : Decidable (Roomy h) := inferInstanceAs (Decidable (_ ≤ _))

def unblocked (h : RecordHeader) : RecordHeader := { h with blockedReason := none }

theorem headerLength_blocked {h : RecordHeader} {reason : String} (hb : h.blockedReason = some reason) :
    headerLength h ≤ headerLength (unblocked h) + 6 * reason.length := by
  have hreason := byteLength_string reason
  have hnone : byteLength "null".toList = 4 := by decide
  simp only [headerLength, encodeSnapshotHeader, recordHeader, unblocked, byteLength_object, byteLength_field,
    List.map_cons, List.map_nil, List.sum_cons, List.sum_nil, hb, option, hnone]
  omega

theorem length_le_utf8Encode (l : List Char) : l.length ≤ l.utf8Encode.size := by
  induction l with
  | nil => exact Nat.zero_le _
  | cons c l ih =>
    have hc := c.utf8Size_pos
    rw [← List.singleton_append, List.utf8Encode_append, ByteArray.size_append, List.utf8Encode_singleton,
      List.size_toByteArray, String.length_utf8EncodeChar, List.length_append, List.length_singleton]
    omega

theorem display_length (p : Path) : (Path.display p).length ≤ 2 * p.length := by
  unfold Path.display String.fromUTF8?
  split_ifs with h
  · have hencoded := length_le_utf8Encode (String.fromUTF8 ⟨p.toArray⟩ h).toList
    rw [String.utf8Encode_toList, String.length_toList] at hencoded
    have hsize : (String.fromUTF8 ⟨p.toArray⟩ h).toByteArray.size = p.length := List.size_toArray
    rw [Option.getD_some]
    omega
  · rw [Option.getD_none, hexEncode, String.length_ofList, encodeChars_length]

theorem pathToHex_length (p : Path) : (pathToHex p).length = 2 * p.length := by
  rw [pathToHex, hexEncode, String.length_ofList, encodeChars_length]

/-- What the first step on the shorter of the two routes adds to a captured header. -/
def leastGrowth : ℕ := 29

theorem headerLength_storing {placeholder : Option ObjectIdentity} (hrev : r.header.revision = 1)
    (hphase : r.header.lifecycle = .captured) (hname : r.header.storedName = "stored")
    (hplaceholder : placeholder = r.header.placeholder) (hdigest : r.header.contentSha256 = sha256 r.contents) :
    headerLength (advance r (.storeIntent r.header.storedName) placeholder).header =
      headerLength r.header + leastGrowth := by
  have hone : byteLength (nat 1) = 1 := by decide
  have htwo : byteLength (nat (1 + 1)) = 1 := by decide
  have hcaptured : byteLength (lifecycle .captured) = 20 := by decide
  have hstoring : byteLength (lifecycle (.storeIntent "stored")) = 49 := by decide
  simp only [headerLength, encodeSnapshotHeader, recordHeader, advance, SnapshotRecord.successor, byteLength_object,
    byteLength_field, List.map_cons, List.map_nil, List.sum_cons, List.sum_nil, hrev, hphase, hname, hplaceholder,
    ← hdigest, hone, htwo, hcaptured, hstoring, leastGrowth]
  omega

theorem headerLength_installing {placeholder : ObjectIdentity} (hrev : r.header.revision = 1)
    (hphase : r.header.lifecycle = .captured) (hplaceholder : r.header.placeholder = none)
    (hdigest : r.header.contentSha256 = sha256 r.contents) :
    headerLength r.header + leastGrowth ≤ headerLength (advance r .installIntent (some placeholder)).header := by
  have hone : byteLength (nat 1) = 1 := by decide
  have htwo : byteLength (nat (1 + 1)) = 1 := by decide
  have hcaptured : byteLength (lifecycle .captured) = 20 := by decide
  have hinstalling : byteLength (lifecycle .installIntent) = 26 := by decide
  have hnone : byteLength "null".toList = 4 := by decide
  have hnames : byteLength "device".toList = 6 ∧ byteLength "inode".toList = 5 ∧ byteLength "ctime".toList = 5 ∧
      byteLength "mtime".toList = 5 := by decide
  simp only [headerLength, encodeSnapshotHeader, recordHeader, advance, SnapshotRecord.successor, byteLength_object,
    byteLength_field, List.map_cons, List.map_nil, List.sum_cons, List.sum_nil, hrev, hphase, hplaceholder, option,
    objectIdentity, ← hdigest, hone, htwo, hcaptured, hinstalling, hnone, hnames, leastGrowth]
  omega

end lengths

/-- A row of the coordinator whose generation has room to grow. -/
structure Grown (p : Path) (r : SnapshotRecord) : Prop where
  bound : r.header.pathHex = pathToHex p
  normal : p.Normal
  staging : ∃ directory, directory.Normal ∧ r.header.stagingPathHex = pathToHex directory
  swapName : r.header.swapName = "swap"
  storedName : r.header.storedName = "stored"
  digest : r.header.contentSha256.length = 64
  names : ∀ name ∈ lifecycleNames r.header.lifecycle, name.length ≤ 42
  room : Roomy r.header

/-- One that the database has taken. -/
structure Filed (p : Path) (r : SnapshotRecord) : Prop extends Grown p r where
  revision : r.header.revision < revisionLimit
  length : r.contents.length ≤ maxCredentialSize

theorem Grown.shown (h : Grown p r) : 2 * p.length ≤ shownLimit r.header := by
  rw [← pathToHex_length, ← h.bound]
  exact le_max_left _ _

theorem Grown.fits (h : Grown p r) (hrev : r.header.revision < 10 ^ 20)
    (hreason : ∀ reason ∈ r.header.blockedReason, reason.length ≤ shownLimit r.header + 400) :
    headerLength r.header ≤ headerLimit := by
  have hroom := h.room
  have hunblocked := headerLength_le (h := unblocked r.header) hrev (byteLength_lifecycle h.names) h.digest rfl
  have hfixed : (unblocked r.header).fixed = r.header.fixed := rfl
  rw [Roomy, conflictLimit] at hroom
  rw [hfixed] at hunblocked
  cases hb : r.header.blockedReason with
  | none =>
    have hsame : unblocked r.header = r.header := by
      ext <;> simp [unblocked, hb]
    rw [hsame] at hunblocked
    omega
  | some reason =>
    have hblocked := headerLength_blocked hb
    have := hreason reason hb
    omega

theorem Filed.marker (h : Filed p r) (final : Option ObjectIdentity) :
    markerLength (Manager.finalizationMarker r final) ≤ headerLimit := by
  have hroom := h.room
  have hrev := h.revision
  have hlen := h.length
  have hlimit : revisionLimit + maxCredentialSize < 10 ^ 20 := by decide
  have hmarker : markerLength (Manager.finalizationMarker r final) ≤ headerLength r.header.fixed + growthLimit := by
    apply markerLength_le ⟨rfl, rfl, rfl, rfl, rfl⟩
    · change r.header.revision + 1 < _
      omega
    · change r.contents.length < _
      omega
    · change finalName.length ≤ 42
      decide
    · exact h.digest
  rw [Roomy] at hroom
  omega

/-- The row after it in another phase, with another placeholder, other contents or a block. -/
theorem Grown.succeed (h : Grown p r) (hpath : next.header.pathHex = r.header.pathHex)
    (hstaging : next.header.stagingPathHex = r.header.stagingPathHex) (hswap : next.header.swapName = r.header.swapName)
    (hstored : next.header.storedName = r.header.storedName) (hfixed : next.header.fixed = r.header.fixed)
    (hdigest : next.header.contentSha256.length = 64)
    (hnames : ∀ name ∈ lifecycleNames next.header.lifecycle, name.length ≤ 42) : Grown p next where
  bound := hpath.trans h.bound
  normal := h.normal
  staging := by
    rw [hstaging]
    exact h.staging
  swapName := hswap.trans h.swapName
  storedName := hstored.trans h.storedName
  digest := hdigest
  names := hnames
  room := by
    have := h.room
    unfold Roomy conflictLimit shownLimit at this ⊢
    rw [hfixed, hpath, hstaging]
    exact this

end FileGuard.Recovery
