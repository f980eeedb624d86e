import FileGuard.Store.Json

/-! How long the encoding of a header is: what a generation never changes, and a bound for the rest. -/

namespace FileGuard.Store

namespace Json

theorem byteLength_nat (n : ℕ) : byteLength (nat n) = (nat n).length := by
  unfold byteLength
  have hones : ∀ c ∈ nat n, Char.utf8Size c = 1 := by
    intro c hc
    have hdigit : c.isDigit = true := Nat.isDigit_of_mem_toDigits (by decide) (by decide) hc
    simp only [Char.isDigit, Bool.and_eq_true, decide_eq_true_eq] at hdigit
    apply Char.utf8Size_eq_one_iff.mpr
    exact UInt32.le_trans hdigit.2 (by decide)
  rw [List.map_congr_left hones, List.map_const', List.sum_replicate, smul_eq_mul, mul_one]

theorem byteLength_nat_le {n k : ℕ} (hk : 0 < k) (h : n < 10 ^ k) : byteLength (nat n) ≤ k := by
  rw [byteLength_nat]
  exact (Nat.length_toDigits_le_iff (by decide) hk).mpr h

theorem byteLength_word (n : UInt64) : byteLength (nat n.toNat) ≤ 20 := by
  apply byteLength_nat_le (by decide)
  have := n.toNat_lt
  omega

theorem byteLength_half (n : UInt32) : byteLength (nat n.toNat) ≤ 10 := by
  apply byteLength_nat_le (by decide)
  have := n.toNat_lt
  omega

theorem byteLength_int (n : Int64) : byteLength (int n.toInt) ≤ 20 := by
  have hmax := n.toInt_lt
  have hmin := n.le_toInt
  cases hn : n.toInt with
  | ofNat k =>
    rw [hn, Int.ofNat_eq_natCast] at hmax
    exact byteLength_nat_le (by decide) (by omega)
  | negSucc k =>
    have hdigits : byteLength (nat (k + 1)) ≤ 19 := by
      apply byteLength_nat_le (by decide)
      omega
    rw [int, byteLength_cons]
    have hsign : Char.utf8Size '-' = 1 := by decide
    omega

theorem utf8Size_hexChar {n : ℕ} (h : n < 16) : Char.utf8Size (hexChar n) = 1 := by
  interval_cases n <;> decide

theorem byteLength_escape (c : Char) : byteLength (escape c) ≤ 6 := by
  unfold escape
  split_ifs with _ _ _ _ _ _ _ hcontrol
  · decide
  · decide
  · decide
  · decide
  · decide
  · decide
  · decide
  · simp only [byteLength_cons, utf8Size_hexChar (show c.toNat / 16 < 16 by omega),
      utf8Size_hexChar (show c.toNat % 16 < 16 by omega)]
    decide
  · have := c.utf8Size_le_four
    simp only [byteLength, List.map_cons, List.map_nil, List.sum_cons, List.sum_nil]
    omega

theorem byteLength_string (s : String) : byteLength (string s) ≤ 6 * s.length + 2 := by
  have hescaped (cs : List Char) : byteLength (cs.flatMap escape) ≤ 6 * cs.length := by
    induction cs with
    | nil => exact Nat.zero_le _
    | cons c cs ih =>
      rw [List.flatMap_cons, byteLength_append, List.length_cons]
      have := byteLength_escape c
      omega
  have hquote : Char.utf8Size '"' = 1 := by decide
  have hend : byteLength ['"'] = 1 := by decide
  have := hescaped s.toList
  rw [String.length_toList] at this
  rw [string, List.cons_append, byteLength_cons, byteLength_append, hquote, hend]
  omega

theorem byteLength_field (name : String) (value : Text) :
    byteLength (field name value) = byteLength name.toList + 3 + byteLength value := by
  have hquote : Char.utf8Size '"' = 1 := by decide
  have hcolon : Char.utf8Size ':' = 1 := by decide
  rw [field, List.cons_append, byteLength_cons, byteLength_append, byteLength_cons, byteLength_cons, hquote, hcolon]
  omega

theorem byteLength_separated (t : Text) (ts : List Text) :
    byteLength (separated (t :: ts)) = byteLength t + (ts.map fun t => byteLength t + 1).sum := by
  have hcomma : Char.utf8Size ',' = 1 := by decide
  induction ts generalizing t with
  | nil => simp [separated]
  | cons s ts ih =>
    have hcons : separated (t :: s :: ts) = t ++ ',' :: separated (s :: ts) := rfl
    rw [hcons, byteLength_append, byteLength_cons, ih, hcomma, List.map_cons, List.sum_cons]
    omega

theorem byteLength_object (t : Text) (ts : List Text) :
    byteLength (object (t :: ts)) = byteLength t + (ts.map fun t => byteLength t + 1).sum + 2 := by
  have hopen : Char.utf8Size '{' = 1 := by decide
  have hclose : byteLength ['}'] = 1 := by decide
  rw [object, List.cons_append, byteLength_cons, byteLength_append, byteLength_separated, hopen, hclose]
  omega

theorem byteLength_object_le {fields : List Text} {bounds : List ℕ}
    (h : List.Forall₂ (fun t k => byteLength t ≤ k) fields bounds) :
    byteLength (object fields) ≤ (bounds.map (· + 1)).sum + 2 := by
  have hrest {ts : List Text} {ks : List ℕ} (h : List.Forall₂ (fun t k => byteLength t ≤ k) ts ks) :
      (ts.map fun t => byteLength t + 1).sum ≤ (ks.map (· + 1)).sum := by
    induction h with
    | nil => exact le_rfl
    | cons hle _ ih =>
      simp only [List.map_cons, List.sum_cons]
      omega
  cases h with
  | nil => decide
  | cons hle hs =>
    have := hrest hs
    rw [byteLength_object, List.map_cons, List.sum_cons]
    omega

theorem byteLength_field_le {name : String} {value : Text} {k : ℕ} (h : byteLength value ≤ k) :
    byteLength (field name value) ≤ byteLength name.toList + 3 + k := by
  rw [byteLength_field]
  omega

theorem byteLength_option_le {α : Type} {encode : α → Text} {k : ℕ} (hk : 4 ≤ k)
    (h : ∀ a, byteLength (encode a) ≤ k) (a : Option α) : byteLength (option encode a) ≤ k := by
  cases a with
  | none => exact hk
  | some a => exact h a

theorem byteLength_bool (b : Bool) : byteLength (bool b) ≤ 5 := by
  cases b <;> decide

theorem byteLength_timestamp (t : Timestamp) : byteLength (timestamp t) ≤ 100 :=
  (byteLength_object_le (.cons (byteLength_field_le (byteLength_int _))
    (.cons (byteLength_field_le (byteLength_int _)) .nil))).trans (by decide)

theorem byteLength_objectIdentity (i : ObjectIdentity) : byteLength (objectIdentity i) ≤ 500 :=
  (byteLength_object_le (.cons (byteLength_field_le (byteLength_word _))
    (.cons (byteLength_field_le (byteLength_word _)) (.cons (byteLength_field_le (byteLength_timestamp _))
    (.cons (byteLength_field_le (byteLength_timestamp _)) (.cons (byteLength_field_le (byteLength_word _))
    (.cons (byteLength_field_le (byteLength_word _)) (.cons (byteLength_field_le (byteLength_half _))
    (.cons (byteLength_field_le (byteLength_half _)) (.cons (byteLength_field_le (byteLength_half _))
    .nil)))))))))).trans (by decide)

theorem byteLength_originalState (o : OriginalState) :
    byteLength (restoreMetadata o.metadata) ≤ byteLength (originalState o) := by
  cases o <;> simp only [originalState, OriginalState.metadata, byteLength_object, byteLength_field, List.map_cons,
    List.map_nil, List.sum_cons, List.sum_nil] <;> omega

end Json

/-- The header without what its generation changes. -/
def RecordHeader.fixed (h : RecordHeader) : RecordHeader :=
  { h with
    revision := 0
    lifecycle := .captured
    logicalPresent := false
    placeholder := none
    contentSha256 := ""
    blockedReason := none }

def growthLimit : ℕ := 4096

open Json

theorem headerLength_le {h : RecordHeader} (hrev : h.revision < 10 ^ 20)
    (hl : byteLength (lifecycle h.lifecycle) ≤ 3000) (hs : h.contentSha256.length = 64)
    (hb : h.blockedReason = none) : headerLength h ≤ headerLength h.fixed + growthLimit := by
  have hrevision : byteLength (nat h.revision) ≤ 20 := byteLength_nat_le (by decide) hrev
  have hpresent := byteLength_bool h.logicalPresent
  have hplaceholder : byteLength (option objectIdentity h.placeholder) ≤ 500 :=
    byteLength_option_le (by decide) byteLength_objectIdentity _
  have hsha := byteLength_string h.contentSha256
  simp only [headerLength, encodeSnapshotHeader, recordHeader, RecordHeader.fixed, byteLength_object,
    byteLength_field, List.map_cons, List.map_nil, List.sum_cons, List.sum_nil, hb, growthLimit]
  omega

/-- The marker of a generation repeats what stays of its headers. -/
structure MarkerOf (h : RecordHeader) (m : FinalizationRecord) : Prop where
  pathHex : m.pathHex = h.pathHex
  generation : m.generation = h.generation
  parent : m.parent = h.parent
  stagingPathHex : m.stagingPathHex = h.stagingPathHex
  restoreMetadata : m.restoreMetadata = h.original.metadata

theorem markerLength_le {h : RecordHeader} {m : FinalizationRecord} (hm : MarkerOf h m)
    (hrev : m.revision < 10 ^ 20) (hlen : m.contentLength < 10 ^ 20) (hname : m.finalName.length ≤ 42)
    (hs : m.contentSha256.length = 64) : markerLength m ≤ headerLength h.fixed + growthLimit := by
  have hformat := byteLength_half m.format
  have hrevision : byteLength (nat m.revision) ≤ 20 := byteLength_nat_le (by decide) hrev
  have hlength : byteLength (nat m.contentLength) ≤ 20 := byteLength_nat_le (by decide) hlen
  have hpresent := byteLength_bool m.logicalPresent
  have hfinal := byteLength_string m.finalName
  have hidentity : byteLength (option objectIdentity m.finalIdentity) ≤ 500 :=
    byteLength_option_le (by decide) byteLength_objectIdentity _
  have hmetadata := byteLength_originalState h.original
  have hsha := byteLength_string m.contentSha256
  have h₁ : byteLength "final_name".toList = 10 := by decide
  have h₂ : byteLength "final_identity".toList = 14 := by decide
  have h₃ : byteLength "restore_metadata".toList = 16 := by decide
  have h₄ : byteLength "content_length".toList = 14 := by decide
  simp only [headerLength, encodeSnapshotHeader, recordHeader, RecordHeader.fixed, markerLength,
    encodeFinalizationHeader, finalizationRecord, byteLength_object, byteLength_field, List.map_cons,
    List.map_nil, List.sum_cons, List.sum_nil, hm.pathHex, hm.generation, hm.parent, hm.stagingPathHex,
    hm.restoreMetadata, growthLimit]
  omega

end FileGuard.Store
