import Mathlib.Tactic

namespace FileGuard.Store

abbrev Bytes := List UInt8

abbrev newline : UInt8 := 0x0a

def utf8 (s : String) : Bytes := s.toUTF8.data.toList

theorem utf8_ofList (cs : List Char) : utf8 (String.ofList cs) = cs.flatMap String.utf8EncodeChar := by
  unfold utf8
  have h : (String.ofList cs).toUTF8 = cs.utf8Encode := rfl
  rw [h]
  unfold List.utf8Encode
  simp

def hexChar (n : ℕ) : Char :=
  if n < 10 then Char.ofNat (48 + n) else Char.ofNat (87 + n)

def hexValue (c : Char) : Option ℕ :=
  if '0' ≤ c ∧ c ≤ '9' then some (c.toNat - 48)
  else if 'a' ≤ c ∧ c ≤ 'f' then some (c.toNat - 87)
  else if 'A' ≤ c ∧ c ≤ 'F' then some (c.toNat - 55)
  else none

def isAsciiHexdigit (c : Char) : Bool := (hexValue c).isSome

def encodeChars (b : Bytes) : List Char :=
  b.flatMap (fun x => [hexChar (x.toNat / 16), hexChar (x.toNat % 16)])

def hexEncode (b : Bytes) : String := String.ofList (encodeChars b)

/-- `char::escape_debug` up to its quotes. From U+0100 on, where the unprintable characters are a table, all stand for
themselves. -/
def escapeDebug (c : Char) : String :=
  match c.toNat with
  | 0x00 => "\\0"
  | 0x09 => "\\t"
  | 0x0a => "\\n"
  | 0x0d => "\\r"
  | 0x5c => "\\\\"
  | n =>
    if n < 0x20 ∨ 0x7f ≤ n ∧ n ≤ 0xa0 ∨ n = 0xad then "\\u\x7b" ++ String.ofList (Nat.toDigits 16 n) ++ "\x7d"
    else String.singleton c

/-- A character under `{:?}`. -/
def debugChar (c : Char) : String := if c.toNat = 0x27 then "'\\''" else "'" ++ escapeDebug c ++ "'"

def decodeChars (index : ℕ) : List Char → Except String Bytes
  | [] => .ok []
  | [_] => .error "Odd number of digits"
  | a :: b :: rest => do
    let high ← (hexValue a).elim
      (.error s!"Invalid character {debugChar a} at position {index}") .ok
    let low ← (hexValue b).elim
      (.error s!"Invalid character {debugChar b} at position {index + 1}") .ok
    let tail ← decodeChars (index + 2) rest
    pure (UInt8.ofNat (16 * high + low) :: tail)

/-- `u8 as char`. -/
def byteChar (b : UInt8) : Char := Char.ofNat b.toNat

/-- `hex::decode`, which takes a text byte by byte. -/
def hexDecode (s : String) : Except String Bytes :=
  let digits := (utf8 s).map byteChar
  if digits.length % 2 = 1 then .error "Odd number of digits" else decodeChars 0 digits

theorem hexValue_hexChar (n : ℕ) (h : n < 16) : hexValue (hexChar n) = some n := by
  interval_cases n <;> decide

theorem encodeChars_length (b : Bytes) : (encodeChars b).length = 2 * b.length := by
  induction b with
  | nil => rfl
  | cons x xs ih => simp only [encodeChars, List.flatMap_cons, List.length_append] at *; simp; omega

theorem decodeChars_encodeChars (b : Bytes) (index : ℕ) :
    decodeChars index (encodeChars b) = .ok b := by
  induction b generalizing index with
  | nil => rfl
  | cons x xs ih =>
    have hx := x.toNat_lt
    have high : hexValue (hexChar (x.toNat / 16)) = some (x.toNat / 16) :=
      hexValue_hexChar _ (by omega)
    have low : hexValue (hexChar (x.toNat % 16)) = some (x.toNat % 16) :=
      hexValue_hexChar _ (by omega)
    have join : UInt8.ofNat (16 * (x.toNat / 16) + x.toNat % 16) = x := by
      rw [Nat.div_add_mod]; exact UInt8.ofNat_toNat
    change decodeChars index (hexChar (x.toNat / 16) :: hexChar (x.toNat % 16) :: encodeChars xs) = _
    simp only [decodeChars, high, low, ih, Option.elim_some]
    exact congrArg (fun y => Except.ok (y :: xs)) join

theorem byteChar_utf8 (n : ℕ) (h : n < 16) : (String.utf8EncodeChar (hexChar n)).map byteChar = [hexChar n] := by
  interval_cases n <;> decide

theorem map_byteChar_hexEncode (b : Bytes) : (utf8 (hexEncode b)).map byteChar = encodeChars b := by
  rw [hexEncode, utf8_ofList]
  induction b with
  | nil => rfl
  | cons x xs ih =>
    have hx := x.toNat_lt
    have hcons : encodeChars (x :: xs) = hexChar (x.toNat / 16) :: hexChar (x.toNat % 16) :: encodeChars xs := rfl
    rw [hcons, List.flatMap_cons, List.flatMap_cons, List.map_append, List.map_append, ih,
      byteChar_utf8 _ (by omega), byteChar_utf8 _ (by omega)]
    rfl

theorem hexDecode_hexEncode (b : Bytes) : hexDecode (hexEncode b) = .ok b := by
  have even : ¬ (encodeChars b).length % 2 = 1 := by
    rw [encodeChars_length]
    omega
  rw [hexDecode, map_byteChar_hexEncode, if_neg even, decodeChars_encodeChars]

end FileGuard.Store
