import FileGuard.Mounts.Kernel

/-! The daemon's reading of `/proc/self/mountinfo`. -/

namespace FileGuard.Mounts

open Store Framing

def isOctal (b : UInt8) : Bool := 0x30 ≤ b && b ≤ 0x37

def octalValue (x y z : UInt8) : ℕ := (x - 0x30).toNat * 64 + (y - 0x30).toNat * 8 + (z - 0x30).toNat

def unescapeMountField : Bytes → Bytes
  | b :: x :: y :: z :: rest =>
    if b = backslash ∧ isOctal x ∧ isOctal y ∧ isOctal z ∧ octalValue x y z ≤ 255 then
      UInt8.ofNat (octalValue x y z) :: unescapeMountField rest
    else b :: unescapeMountField (x :: y :: z :: rest)
  | b :: rest => b :: unescapeMountField rest
  | [] => []

structure MountInfo where
  id : ℕ
  target : Path
  fsType : String
  source : Bytes
  ownerUid : Option UInt32
deriving DecidableEq, Repr

/-- `std::str::from_utf8`. -/
def fromUtf8 (bytes : Bytes) : Option String := String.fromUTF8? ⟨bytes.toArray⟩

def parseDigit (limit n : ℕ) (b : UInt8) : Option ℕ :=
  if 0x30 ≤ b ∧ b ≤ 0x39 ∧ n * 10 + (b.toNat - 48) < limit then some (n * 10 + (b.toNat - 48)) else none

/-- `str::parse` for an unsigned type whose values lie below the limit. -/
def parseUnsigned (limit : ℕ) (s : Bytes) : Option ℕ :=
  let digits := if s.head? = some 0x2b ∧ 1 < s.length then s.tail else s
  if digits = [] then none
  else digits.foldlM (parseDigit limit) 0

def parseText (limit : ℕ) (bytes : Bytes) : Option ℕ := (fromUtf8 bytes).bind fun s => parseUnsigned limit (utf8 s)

def parseOwner (options : Bytes) : Option UInt32 :=
  (options.splitOn comma).findSome? fun option =>
    (userIdPrefix.isPrefixOf? option).bind fun value => (parseText (2 ^ 32) value).map UInt32.ofNat

def parseFields (mountFields filesystemFields : List Bytes) : Option MountInfo := do
  let ownerUid := filesystemFields[2]?.bind parseOwner
  let id ← parseText (2 ^ 64) (← mountFields[0]?)
  let target := unescapeMountField (← mountFields[4]?)
  let fsType ← fromUtf8 (← filesystemFields[0]?)
  let source := unescapeMountField (← filesystemFields[1]?)
  return ⟨id, target, fsType, source, ownerUid⟩

def separator : Bytes := space :: (dash ++ [space])

def parseLine (line : Bytes) : Option MountInfo :=
  (splitOnce separator line).bind fun (before, after) =>
    parseFields (fields isAsciiWhitespace before) (fields isAsciiWhitespace after)

def parseMountinfo (contents : Bytes) : List MountInfo := (contents.splitOn newline).filterMap parseLine

def mountsAt (contents : Bytes) (path : Path) : List MountInfo :=
  (parseMountinfo contents).filter fun mount => Path.same mount.target path

/-- What a mount is to be read as. -/
def Mount.info (m : Mount) : MountInfo := ⟨m.id, m.mountpoint, m.fsType, m.source, m.ownerUid⟩

theorem fromUtf8_utf8 (s : String) : fromUtf8 (utf8 s) = some s := by
  have hbytes : (⟨(utf8 s).toArray⟩ : ByteArray) = s.toByteArray := by
    rw [utf8, Array.toArray_toList]
    rfl
  rw [fromUtf8, hbytes, String.fromUTF8?, dif_pos s.isValidUTF8]
  rfl

theorem utf8_of_fromUtf8 {bytes : Bytes} {s : String} (h : fromUtf8 bytes = some s) : utf8 s = bytes := by
  unfold fromUtf8 String.fromUTF8? at h
  split at h
  · cases h
    rfl
  · cases h

theorem octal_digits (b : UInt8) : isOctal (48 + b / 64) = true ∧ isOctal (48 + b / 8 % 8) = true ∧
    isOctal (48 + b % 8) = true ∧ octalValue (48 + b / 64) (48 + b / 8 % 8) (48 + b % 8) = b.toNat := by
  have hall : ∀ n : Fin 256, isOctal (48 + UInt8.ofFin n / 64) = true ∧ isOctal (48 + UInt8.ofFin n / 8 % 8) = true ∧
      isOctal (48 + UInt8.ofFin n % 8) = true ∧
      octalValue (48 + UInt8.ofFin n / 64) (48 + UInt8.ofFin n / 8 % 8) (48 + UInt8.ofFin n % 8) =
        (UInt8.ofFin n).toNat := by
    decide +kernel
  exact hall b.toFin

theorem unescapeMountField_cons {b : UInt8} (h : b ≠ backslash) (rest : Bytes) :
    unescapeMountField (b :: rest) = b :: unescapeMountField rest := by
  match rest with
  | [] | [_] | [_, _] => rfl
  | x :: y :: z :: rest => rw [unescapeMountField, if_neg fun hescape => h hescape.1]

theorem unescape_escapeByte {special : List UInt8} (h : backslash ∈ special) (b : UInt8) (rest : Bytes) :
    unescapeMountField (escapeByte special b ++ rest) = b :: unescapeMountField rest := by
  rw [escapeByte]
  split_ifs with hb
  · obtain ⟨hx, hy, hz, hvalue⟩ := octal_digits b
    have hsmall : b.toNat ≤ 255 := Nat.le_of_lt_succ b.toNat_lt
    simp only [code, List.cons_append, List.nil_append]
    rw [unescapeMountField, if_pos ⟨rfl, hx, hy, hz, hvalue.trans_le hsmall⟩, hvalue, UInt8.ofNat_toNat]
  · have hplain : b ≠ backslash := fun he => hb (by simpa [he] using h)
    exact unescapeMountField_cons hplain rest

theorem unescape_escape {special : List UInt8} (h : backslash ∈ special) (s : Bytes) :
    unescapeMountField (escape special s) = s := by
  induction s with
  | nil => rfl
  | cons b s ih =>
    rw [escape, List.flatMap_cons, unescape_escapeByte h]
    exact congrArg (b :: ·) ih

theorem digit_bounds (n : ℕ) (h : n < 10) :
    (0x30 : UInt8) ≤ UInt8.ofNat (48 + n) ∧ UInt8.ofNat (48 + n) ≤ 0x39 ∧ (UInt8.ofNat (48 + n)).toNat - 48 = n := by
  interval_cases n <;> decide

theorem decimal_ne_nil (n : ℕ) : decimal n ≠ [] := by
  rw [decimal]
  split_ifs <;> simp

theorem digit_of_mem_decimal {n : ℕ} {b : UInt8} (h : b ∈ decimal n) : 0x30 ≤ b ∧ b ≤ 0x39 := by
  induction n using Nat.strong_induction_on with
  | _ n ih =>
    rw [decimal] at h
    split_ifs at h with hsmall
    · rw [List.mem_singleton.mp h]
      exact ⟨(digit_bounds n hsmall).1, (digit_bounds n hsmall).2.1⟩
    · rcases List.mem_append.mp h with hrest | hlast
      · exact ih (n / 10) (by omega) hrest
      · rw [List.mem_singleton.mp hlast]
        exact ⟨(digit_bounds _ (Nat.mod_lt n (by omega))).1, (digit_bounds _ (Nat.mod_lt n (by omega))).2.1⟩

theorem parseDigit_digit {limit n d : ℕ} (hd : d < 10) (h : n * 10 + d < limit) :
    parseDigit limit n (UInt8.ofNat (48 + d)) = some (n * 10 + d) := by
  obtain ⟨hlow, hhigh, hvalue⟩ := digit_bounds d hd
  rw [parseDigit, hvalue, if_pos ⟨hlow, hhigh, h⟩]

theorem parseDigits_decimal {limit n : ℕ} (h : n < limit) : (decimal n).foldlM (parseDigit limit) 0 = some n := by
  induction n using Nat.strong_induction_on with
  | _ n ih =>
    rw [decimal]
    split_ifs with hsmall
    · rw [List.foldlM_cons, parseDigit_digit hsmall (by omega), Nat.zero_mul, Nat.zero_add]
      rfl
    · rw [List.foldlM_append, ih (n / 10) (by omega) (by omega)]
      have hlast : parseDigit limit (n / 10) (UInt8.ofNat (48 + n % 10)) = some (n / 10 * 10 + n % 10) :=
        parseDigit_digit (Nat.mod_lt n (by omega)) (by omega)
      rw [Nat.div_add_mod'] at hlast
      change (parseDigit limit (n / 10) (UInt8.ofNat (48 + n % 10))).bind some = some n
      rw [hlast]
      rfl

theorem parseUnsigned_decimal {limit n : ℕ} (h : n < limit) : parseUnsigned limit (decimal n) = some n := by
  have hhead : (decimal n).head? ≠ some 0x2b := by
    intro hplus
    have hdigit := digit_of_mem_decimal (List.mem_of_head? hplus)
    exact absurd hdigit.1 (by decide)
  simp only [parseUnsigned, hhead, false_and, if_false, decimal_ne_nil]
  exact parseDigits_decimal h

theorem exists_ascii {bytes : Bytes} (h : ∀ b ∈ bytes, b < 128) : ∃ s, utf8 s = bytes := by
  have hchar : ∀ n : Fin 128, String.utf8EncodeChar (Char.ofNat n) = [UInt8.ofNat n] := by decide
  refine ⟨String.ofList (bytes.map fun b => Char.ofNat b.toNat), ?_⟩
  rw [utf8_ofList]
  induction bytes with
  | nil => rfl
  | cons b bytes ih =>
    have hb : b.toNat < 128 := h b List.mem_cons_self
    rw [List.map_cons, List.flatMap_cons, ih fun c hc => h c (List.mem_cons_of_mem _ hc), hchar ⟨b.toNat, hb⟩,
      UInt8.ofNat_toNat]
    rfl

theorem parseText_decimal {limit n : ℕ} (h : n < limit) : parseText limit (decimal n) = some n := by
  obtain ⟨s, hs⟩ : ∃ s, utf8 s = decimal n :=
    exists_ascii fun b hb => UInt8.lt_of_le_of_lt (digit_of_mem_decimal hb).2 (show (0x39 : UInt8) < 128 by decide)
  rw [parseText, ← hs, fromUtf8_utf8, Option.bind_some, hs, parseUnsigned_decimal h]

theorem not_whitespace_of_digit {b : UInt8} (h : 0x30 ≤ b) : isAsciiWhitespace b = false := by
  rw [isAsciiWhitespace, Bool.eq_false_iff]
  intro hspace
  rw [List.contains_iff_mem] at hspace
  fin_cases hspace <;> exact absurd h (by decide)

theorem word_decimal (n : ℕ) : Word (decimal n) :=
  ⟨decimal_ne_nil n, fun _ hb => not_whitespace_of_digit (digit_of_mem_decimal hb).1⟩

theorem Word.ne_space {w : Bytes} (h : Word w) : space ∉ w := fun hmem => Bool.noConfusion (h.2 space hmem)

theorem word_mode (readOnly : Bool) : Word (if readOnly then utf8 "ro" else utf8 "rw") := by
  cases readOnly <;> decide +kernel

theorem head_flags (readOnly : Bool) (more : List Bytes) : (flags readOnly more).head? = some 0x72 := by
  have hmode : (if readOnly then utf8 "ro" else utf8 "rw").head? = some 0x72 := by cases readOnly <;> decide
  rw [flags]
  cases more with
  | nil => rw [spaced_singleton, hmode]
  | cons option more => rw [spaced_cons (List.cons_ne_nil _ _), List.head?_append, hmode, Option.some_or]

theorem word_flags {readOnly : Bool} {more : List Bytes}
    (h : ∀ option ∈ more, ∀ b ∈ option, isAsciiWhitespace b = false) : Word (flags readOnly more) := by
  constructor
  · intro hnil
    have hhead := head_flags readOnly more
    rw [hnil] at hhead
    cases hhead
  · intro b hb
    rcases mem_spaced hb with rfl | ⟨option, hoption, hmem⟩
    · rfl
    · rcases List.mem_cons.mp hoption with rfl | hmore
      · exact (word_mode readOnly).2 b hmem
      · exact h option hmore b hmem

theorem not_mem_escape {special : List UInt8} {b : UInt8} (hb : b ∈ special) (hplain : b ≠ backslash ∧ isOctal b = false)
    (s : Bytes) : b ∉ escape special s := by
  intro hmem
  obtain ⟨c, -, hc⟩ := List.mem_flatMap.mp hmem
  rw [escapeByte] at hc
  split_ifs at hc with hspecial
  · obtain ⟨hx, hy, hz, -⟩ := octal_digits c
    simp only [code, List.mem_cons, List.not_mem_nil, or_false] at hc
    rcases hc with rfl | rfl | rfl | rfl
    · exact hplain.1 rfl
    · exact Bool.noConfusion (hx.symm.trans hplain.2)
    · exact Bool.noConfusion (hy.symm.trans hplain.2)
    · exact Bool.noConfusion (hz.symm.trans hplain.2)
  · rw [List.mem_singleton.mp hc] at hb
    exact hspecial (List.contains_iff_mem.mpr hb)

theorem escape_eq_dash {special : List UInt8} (h : backslash ∈ special) (hdash : 0x2d ∉ special)
    {s : Bytes} : escape special s = dash ↔ s = dash := by
  constructor
  · intro he
    rw [← unescape_escape h s, he]
    rfl
  · rintro rfl
    simp [escape, escapeByte, dash, hdash]

theorem stripPrefix_none {w option : Bytes} (h : ¬w <+: option) : w.isPrefixOf? option = none := by
  rw [Option.eq_none_iff_forall_ne_some]
  intro value hvalue
  exact h ⟨value, List.isPrefixOf?_eq_some_iff_append_eq.mp hvalue⟩

theorem noComma_print {option : SuperOption} (h : option.Valid) : comma ∉ option.print := by
  cases option with
  | userId uid =>
    intro hmem
    rcases List.mem_append.mp hmem with hstart | hdigits
    · exact absurd hstart (by decide)
    · exact absurd (digit_of_mem_decimal hdigits).1 (by decide)
  | word option => exact h.2.1

theorem parseOwner_superWord (m : Mount) : parseOwner m.superWord = m.ownerUid := by
  have hsplit : m.superWord.splitOn comma =
      (if m.superReadOnly then utf8 "ro" else utf8 "rw") :: m.superOptions.map SuperOption.print := by
    refine List.splitOn_intercalate comma ?_ (List.cons_ne_nil _ _)
    intro word hword
    rcases List.mem_cons.mp hword with rfl | hmore
    · cases m.superReadOnly <;> decide
    · obtain ⟨option, hoption, rfl⟩ := List.mem_map.mp hmore
      exact noComma_print (m.superOptions_valid option hoption)
  have hmode : ¬userIdPrefix <+: if m.superReadOnly then utf8 "ro" else utf8 "rw" := by
    cases m.superReadOnly <;> decide
  have hvalid := m.superOptions_valid
  rw [parseOwner, hsplit, List.findSome?_cons, stripPrefix_none hmode, Option.bind_none, Mount.ownerUid]
  generalize m.superOptions = options at hvalid
  induction options with
  | nil => rfl
  | cons option options ih =>
    have hmore := ih fun o ho => hvalid o (List.mem_cons_of_mem _ ho)
    rw [List.map_cons, List.findSome?_cons, List.findSome?_cons]
    cases option with
    | userId uid =>
      have hstrip : userIdPrefix.isPrefixOf? (SuperOption.userId uid).print = some (decimal uid.toNat) :=
        List.isPrefixOf?_eq_some_iff_append_eq.mpr rfl
      rw [hstrip, Option.bind_some, parseText_decimal uid.toNat_lt, Option.map_some, UInt32.ofNat_toNat]
    | word option =>
      have hstrip : userIdPrefix.isPrefixOf? (SuperOption.word option).print = none :=
        stripPrefix_none (hvalid _ List.mem_cons_self).2.2
      rw [hstrip, Option.bind_none]
      exact hmore

namespace Mount

variable (m : Mount)

theorem word_flagWord : Word m.flagWord := word_flags fun option hoption => (m.options_word option hoption).2

theorem word_superWord : Word m.superWord := by
  refine word_flags fun option hoption b hb => ?_
  obtain ⟨o, ho, rfl⟩ := List.mem_map.mp hoption
  cases o with
  | userId uid =>
    have hplain : ∀ b ∈ userIdPrefix, isAsciiWhitespace b = false := by decide +kernel
    rcases List.mem_append.mp hb with hstart | hdigits
    · exact hplain b hstart
    · exact not_whitespace_of_digit (digit_of_mem_decimal hdigits).1
  | word option => exact (m.superOptions_valid _ ho).1 b hb

theorem word_device : Word m.device := by
  refine ⟨by simp [device], fun b hb => ?_⟩
  rcases List.mem_append.mp hb with hmajor | hrest
  · exact not_whitespace_of_digit (digit_of_mem_decimal hmajor).1
  · rcases List.mem_cons.mp hrest with rfl | hminor
    · rfl
    · exact not_whitespace_of_digit (digit_of_mem_decimal hminor).1

/-- What whitespace cuts the fields of a mount from its root on into. -/
def pathWords : List Bytes :=
  fields isAsciiWhitespace (escape pathSpecial m.root) ++ fields isAsciiWhitespace (escape pathSpecial m.mountpoint) ++
    m.flagWord :: m.optional

def sourceWords : List Bytes := fields isAsciiWhitespace (escape sourceSpecial m.source) ++ [m.superWord]

theorem flatMap_fields_word {words : List Bytes} (h : ∀ w ∈ words, Word w) :
    words.flatMap (fields isAsciiWhitespace) = words := by
  induction words with
  | nil => rfl
  | cons w words ih =>
    rw [List.flatMap_cons, fields_word (h w List.mem_cons_self).1 (h w List.mem_cons_self).2,
      ih fun v hv => h v (List.mem_cons_of_mem _ hv)]
    rfl

theorem fields_mountWords : Framing.fields isAsciiWhitespace (spaced space m.mountWords) =
    [decimal m.id, decimal m.parent, m.device] ++ m.pathWords := by
  have hnumbers : ∀ w ∈ [decimal m.id, decimal m.parent, m.device], Word w := by
    simp [word_decimal, word_device]
  have htags : ∀ w ∈ m.flagWord :: m.optional, Word w := by
    simpa [word_flagWord] using fun w hw => (m.optional_word w hw).1
  have hwords : m.mountWords = [decimal m.id, decimal m.parent, m.device] ++
      ([escape pathSpecial m.root, escape pathSpecial m.mountpoint] ++ m.flagWord :: m.optional) := rfl
  rw [fields_spaced rfl, hwords, List.flatMap_append, List.flatMap_append, flatMap_fields_word hnumbers,
    flatMap_fields_word htags]
  simp [pathWords]

theorem fields_filesystemWords : Framing.fields isAsciiWhitespace (spaced space m.filesystemWords) =
    utf8 m.fsType :: m.sourceWords := by
  rw [fields_spaced rfl]
  simp [filesystemWords, sourceWords, fields_word m.fsType_word.1 m.fsType_word.2,
    fields_word m.word_superWord.1 m.word_superWord.2]

theorem noSpace_mountWords : ∀ w ∈ m.mountWords, space ∉ w := by
  have hroot : ∀ s, space ∉ escape pathSpecial s := not_mem_escape (by decide) (by decide)
  simp only [mountWords, List.cons_append, List.nil_append, List.forall_mem_cons]
  exact ⟨(word_decimal _).ne_space, (word_decimal _).ne_space, m.word_device.ne_space, hroot _, hroot _,
    m.word_flagWord.ne_space, fun w hw => (m.optional_word w hw).1.ne_space⟩

theorem numbers_ne_dash : ∀ w ∈ [decimal m.id, decimal m.parent, m.device], w ≠ dash := by
  have hdecimal (n : ℕ) : decimal n ≠ dash := fun h =>
    absurd (digit_of_mem_decimal (h ▸ List.mem_cons_self : 0x2d ∈ decimal n)).1 (by decide)
  have hdevice : m.device ≠ dash := fun h => by
    have hcolon : (0x3a : UInt8) ∈ m.device := by simp [device]
    rw [h] at hcolon
    exact absurd hcolon (by decide)
  simp [hdecimal, hdevice]

theorem flagWord_ne_dash : m.flagWord ≠ dash := fun h => by
  have hhead := head_flags m.readOnly m.options
  rw [← flagWord, h] at hhead
  exact absurd hhead (by decide)

theorem escape_ne_dash {s : Bytes} (h : s ≠ dash) : escape pathSpecial s ≠ dash :=
  fun he => h ((escape_eq_dash (by decide) (by decide)).mp he)

theorem escape_dash : escape pathSpecial dash = dash := (escape_eq_dash (by decide) (by decide)).mpr rfl

theorem parseLine_spaced {before after : List Bytes} (hbefore : before ≠ []) (hafter : after ≠ [])
    (hwords : ∀ w ∈ before, space ∉ w ∧ w ≠ dash) :
    parseLine (spaced space (before ++ dash :: after)) =
      parseFields (before.flatMap (fields isAsciiWhitespace)) (after.flatMap (fields isAsciiWhitespace)) := by
  rw [parseLine, separator, splitOnce_spaced (by decide) hbefore hafter hwords, Option.bind_some]
  dsimp only
  rw [fields_spaced rfl, fields_spaced rfl]

theorem ne_dash_mountWords (hroot : m.root ≠ dash) (hmountpoint : m.mountpoint ≠ dash) :
    ∀ w ∈ m.mountWords, w ≠ dash := by
  have hwords : m.mountWords = [decimal m.id, decimal m.parent, m.device] ++
      ([escape pathSpecial m.root, escape pathSpecial m.mountpoint, m.flagWord] ++ m.optional) := rfl
  intro w hw
  rw [hwords] at hw
  rcases List.mem_append.mp hw with hnumber | hrest
  · exact m.numbers_ne_dash w hnumber
  · rcases List.mem_append.mp hrest with hpath | htag
    · have hpaths : ∀ w ∈ [escape pathSpecial m.root, escape pathSpecial m.mountpoint, m.flagWord], w ≠ dash := by
        simp [escape_ne_dash hroot, escape_ne_dash hmountpoint, m.flagWord_ne_dash]
      exact hpaths w hpath
    · exact (m.optional_word w htag).2

theorem mountWords_of_root (h : m.root = dash) : m.mountWords ++ dash :: m.filesystemWords =
    [decimal m.id, decimal m.parent, m.device] ++ dash ::
      (escape pathSpecial m.mountpoint :: m.flagWord :: (m.optional ++ dash :: m.filesystemWords)) := by
  rw [mountWords, h, escape_dash]
  simp

theorem mountWords_of_mountpoint (h : m.mountpoint = dash) : m.mountWords ++ dash :: m.filesystemWords =
    [decimal m.id, decimal m.parent, m.device, escape pathSpecial m.root] ++ dash ::
      (m.flagWord :: (m.optional ++ dash :: m.filesystemWords)) := by
  rw [mountWords, h, escape_dash]
  simp

theorem numberWords : ∀ w ∈ [decimal m.id, decimal m.parent, m.device], space ∉ w ∧ w ≠ dash := by
  have hnumbers := m.numbers_ne_dash
  have hspace := m.noSpace_mountWords
  simp only [mountWords, List.cons_append, List.forall_mem_cons] at hnumbers hspace
  simp [hnumbers, hspace]

theorem rootWords (hroot : m.root ≠ dash) :
    ∀ w ∈ [decimal m.id, decimal m.parent, m.device, escape pathSpecial m.root], space ∉ w ∧ w ≠ dash := by
  have hnumbers := m.numbers_ne_dash
  have hspace := m.noSpace_mountWords
  simp only [mountWords, List.cons_append, List.forall_mem_cons] at hnumbers hspace
  simp [hnumbers, hspace, escape_ne_dash hroot]

theorem parseLine_line (hroot : m.root ≠ dash) (hmountpoint : m.mountpoint ≠ dash) :
    parseLine m.line = parseFields ([decimal m.id, decimal m.parent, m.device] ++ m.pathWords)
      (utf8 m.fsType :: m.sourceWords) := by
  rw [← fields_mountWords, ← fields_filesystemWords, fields_spaced rfl, fields_spaced rfl]
  exact parseLine_spaced (by simp [mountWords]) (by simp [filesystemWords]) fun w hw =>
    ⟨m.noSpace_mountWords w hw, m.ne_dash_mountWords hroot hmountpoint w hw⟩

theorem parseFields_eq : parseFields ([decimal m.id, decimal m.parent, m.device] ++ m.pathWords)
      (utf8 m.fsType :: m.sourceWords) =
    m.pathWords[1]?.bind fun target => m.sourceWords[0]?.map fun source =>
      ⟨m.id, unescapeMountField target, m.fsType, unescapeMountField source, m.sourceWords[1]?.bind parseOwner⟩ := by
  have hid : parseText (2 ^ 64) (decimal m.id) = some m.id := parseText_decimal (m.id_lt.trans (by decide))
  rw [parseFields]
  simp only [List.cons_append, List.nil_append, List.getElem?_cons_zero, List.getElem?_cons_succ, hid, fromUtf8_utf8,
    Option.bind_eq_bind, Option.bind_some, Option.pure_def]
  cases m.pathWords[1]? <;> cases m.sourceWords[0]? <;> rfl

end Mount

/-- The whitespace that the kernel leaves as it is. -/
def isFeed (b : UInt8) : Bool := b == 0x0c || b == 0x0d

theorem whitespace_of_feed {b : UInt8} (h : isFeed b = true) : isAsciiWhitespace b = true := by
  rw [isFeed, Bool.or_eq_true, beq_iff_eq, beq_iff_eq] at h
  rcases h with rfl | rfl <;> rfl

@[simp] theorem escape_cons (special : List UInt8) (b : UInt8) (s : Bytes) :
    escape special (b :: s) = escapeByte special b ++ escape special s := rfl

theorem escape_isEmpty (special : List UInt8) (s : Bytes) : (escape special s).isEmpty = s.isEmpty := by
  cases s with
  | nil => rfl
  | cons b s =>
    rw [escape_cons, escapeByte]
    split_ifs <;> rfl

/-- The set of escaped bytes holds every whitespace byte except form feed and carriage return. -/
def Covers (special : List UInt8) : Prop := ∀ b, isAsciiWhitespace b = true → special.contains b = !isFeed b

theorem covers_of_mem {special : List UInt8} (hspace : 0x20 ∈ special) (htab : 0x09 ∈ special) (hline : 0x0a ∈ special)
    (hfeed : 0x0c ∉ special) (hreturn : 0x0d ∉ special) : Covers special := by
  intro b hb
  rw [isAsciiWhitespace, List.contains_iff_mem] at hb
  fin_cases hb
  · exact List.contains_iff_mem.mpr hspace
  · exact List.contains_iff_mem.mpr htab
  · exact List.contains_iff_mem.mpr hline
  · exact Bool.eq_false_iff.mpr fun h => hfeed (List.contains_iff_mem.mp h)
  · exact Bool.eq_false_iff.mpr fun h => hreturn (List.contains_iff_mem.mp h)

theorem covers_path : Covers pathSpecial := covers_of_mem (by decide) (by decide) (by decide) (by decide) (by decide)

theorem covers_source : Covers sourceSpecial := covers_of_mem (by decide) (by decide) (by decide) (by decide) (by decide)

theorem not_whitespace_escapeByte {special : List UInt8} (hspecial : Covers special) {b : UInt8} (hb : isFeed b = false) :
    ∀ a ∈ escapeByte special b, isAsciiWhitespace a = false := by
  intro a ha
  rw [escapeByte] at ha
  split_ifs at ha with hescaped
  · have hoctal {c : UInt8} (hc : isOctal c = true) : isAsciiWhitespace c = false := by
      rw [isOctal, Bool.and_eq_true, decide_eq_true_iff] at hc
      exact not_whitespace_of_digit hc.1
    obtain ⟨hx, hy, hz, -⟩ := octal_digits b
    simp only [code, List.mem_cons, List.not_mem_nil, or_false] at ha
    rcases ha with rfl | rfl | rfl | rfl
    · rfl
    · exact hoctal hx
    · exact hoctal hy
    · exact hoctal hz
  · rw [List.mem_singleton.mp ha, Bool.eq_false_iff]
    intro hspace
    rw [hspecial b hspace, hb] at hescaped
    exact hescaped rfl

theorem fields_escape {special : List UInt8} (hspecial : Covers special) (s : Bytes) :
    fields isAsciiWhitespace (escape special s) = (fields isFeed s).map (escape special) := by
  have hsplit : (escape special s).splitOnP isAsciiWhitespace = (s.splitOnP isFeed).map (escape special) := by
    induction s with
    | nil => rfl
    | cons b s ih =>
      rw [escape_cons, List.splitOnP_cons_eq_if_modifyHead]
      split_ifs with hb
      · have hspace := whitespace_of_feed hb
        rw [escapeByte, hspecial b hspace, hb, if_neg (by decide), List.singleton_append,
          List.splitOnP_cons_eq_if_modifyHead, if_pos hspace, ih]
        rfl
      · rw [splitOnP_append_plain (not_whitespace_escapeByte hspecial (by simpa using hb)), ih]
        cases s.splitOnP isFeed <;> rfl
  rw [fields, fields, hsplit, List.filter_map]
  congr 1
  exact List.filter_congr fun x _ => congrArg (! ·) (escape_isEmpty special x)

theorem map_unescape_fields {special : List UInt8} (h : backslash ∈ special) (hspecial : Covers special) (s : Bytes) :
    (fields isAsciiWhitespace (escape special s)).map unescapeMountField = fields isFeed s := by
  rw [fields_escape hspecial, List.map_map]
  exact (List.map_congr_left fun word _ => unescape_escape h word).trans (List.map_id _)

/-- Bytes that the kernel prints as one word. -/
def Plain (s : Bytes) : Prop := s ≠ [] ∧ ∀ b ∈ s, isFeed b = false

theorem first_field_iff {s word : Bytes} {words : List Bytes} (hword : word.head? = some 0x72) :
    (fields isFeed s ++ unescapeMountField word :: words)[0]? = some s ↔ Plain s := by
  constructor
  · intro h
    cases hs : fields isFeed s with
    | nil =>
      obtain ⟨rest, rfl⟩ := List.head?_eq_some_iff.mp hword
      rw [hs, List.nil_append, List.getElem?_cons_zero, Option.some_inj, unescapeMountField_cons (by decide)] at h
      rw [← h] at hs
      exact (fields_cons_ne_nil (by decide) _ hs).elim
    | cons first more =>
      rw [hs, List.cons_append, List.getElem?_cons_zero, Option.some_inj] at h
      exact mem_fields (h ▸ hs ▸ List.mem_cons_self)
  · rintro ⟨hne, hplain⟩
    rw [fields_word hne hplain, List.singleton_append, List.getElem?_cons_zero]

namespace Mount

variable (m : Mount)

/-- What the bytes of root and mountpoint are cut into, and the words that follow them. -/
def readWords : List Bytes :=
  fields isFeed m.root ++ fields isFeed m.mountpoint ++ (m.flagWord :: m.optional).map unescapeMountField

/-- The line of the mount can be told apart again: its root and mountpoint are not the separator, its source is one
word, and of the words from its root on the second is its mountpoint. -/
structure Readable : Prop where
  root : m.root ≠ dash
  mountpoint : m.mountpoint ≠ dash
  target : m.readWords[1]? = some m.mountpoint
  source : Plain m.source

theorem map_pathWords : m.pathWords.map unescapeMountField = m.readWords := by
  rw [pathWords, List.map_append, List.map_append, map_unescape_fields (by decide) covers_path,
    map_unescape_fields (by decide) covers_path, readWords]

theorem sourceWords_eq : m.sourceWords = (fields isFeed m.source).map (escape sourceSpecial) ++ [m.superWord] := by
  rw [sourceWords, fields_escape covers_source]

theorem source_iff : m.sourceWords[0]?.map unescapeMountField = some m.source ↔ Plain m.source := by
  rw [← List.getElem?_map, sourceWords, List.map_append, map_unescape_fields (by decide) covers_source,
    List.map_singleton]
  exact first_field_iff (head_flags _ _)

theorem parseFields_of_short {mountFields : List Bytes} (h : mountFields[4]? = none) (filesystemFields : List Bytes) :
    parseFields mountFields filesystemFields = none := by
  rw [parseFields, h]
  cases mountFields[0]? with
  | none => rfl
  | some id => cases parseText (2 ^ 64) id <;> simp

theorem utf8_fsType_of_parseFields {mountFields filesystemFields : List Bytes} {word : Bytes} {info : MountInfo}
    (h : parseFields mountFields (word :: filesystemFields) = some info) : utf8 info.fsType = word := by
  rw [parseFields] at h
  simp only [Option.bind_eq_bind, Option.bind_eq_some_iff, Option.pure_def, Option.some_inj] at h
  obtain ⟨_, -, _, -, _, -, _, hword, fsType, hfsType, _, -, rfl⟩ := h
  rw [List.getElem?_cons_zero, Option.some_inj] at hword
  exact (utf8_of_fromUtf8 hfsType).trans hword.symm

theorem parseLine_root (h : m.root = dash) : parseLine m.line = none := by
  have hnumbers : ∀ w ∈ [decimal m.id, decimal m.parent, m.device], Word w := by
    simp [word_decimal, word_device]
  rw [line, m.mountWords_of_root h, parseLine_spaced (List.cons_ne_nil _ _) (List.cons_ne_nil _ _) m.numberWords]
  exact parseFields_of_short (by rw [flatMap_fields_word hnumbers]; rfl) _

theorem utf8_fsType_of_mountpoint (hroot : m.root ≠ dash) (h : m.mountpoint = dash) {info : MountInfo}
    (hinfo : parseLine m.line = some info) : utf8 info.fsType = m.flagWord := by
  have hafter (words : List Bytes) : (m.flagWord :: words).flatMap (fields isAsciiWhitespace) =
      m.flagWord :: words.flatMap (fields isAsciiWhitespace) := by
    rw [List.flatMap_cons, fields_word m.word_flagWord.1 m.word_flagWord.2]
    rfl
  rw [line, m.mountWords_of_mountpoint h,
    parseLine_spaced (List.cons_ne_nil _ _) (List.cons_ne_nil _ _) (m.rootWords hroot), hafter] at hinfo
  exact utf8_fsType_of_parseFields hinfo

/-- Where the root has no form feeds and carriage returns, the mountpoint and the source may not have any. -/
theorem readable_iff (hroot : Plain m.root) :
    m.Readable ↔ m.root ≠ dash ∧ m.mountpoint ≠ dash ∧ Plain m.mountpoint ∧ Plain m.source := by
  have htarget : m.readWords[1]? = some m.mountpoint ↔ Plain m.mountpoint := by
    rw [readWords, fields_word hroot.1 hroot.2, List.append_assoc, List.singleton_append, List.getElem?_cons_succ,
      List.map_cons]
    exact first_field_iff (head_flags _ _)
  exact ⟨fun h => ⟨h.root, h.mountpoint, htarget.mp h.target, h.source⟩,
    fun ⟨hroot, hmountpoint, hplain, hsource⟩ => ⟨hroot, hmountpoint, htarget.mpr hplain, hsource⟩⟩

/-- The daemon reads a line as its mount exactly if it can be told apart. -/
theorem parseLine_eq_info_iff : parseLine m.line = some m.info ↔ m.Readable := by
  by_cases hroot : m.root = dash
  · rw [m.parseLine_root hroot]
    exact ⟨fun h => (by cases h), fun h => (h.root hroot).elim⟩
  by_cases hmountpoint : m.mountpoint = dash
  · exact ⟨fun h => (m.fsType_ne (m.utf8_fsType_of_mountpoint hroot hmountpoint h)).elim,
      fun h => (h.mountpoint hmountpoint).elim⟩
  rw [m.parseLine_line hroot hmountpoint, m.parseFields_eq]
  constructor
  · intro h
    obtain ⟨target, htarget, h⟩ := Option.bind_eq_some_iff.mp h
    obtain ⟨source, hsource, h⟩ := Option.map_eq_some_iff.mp h
    rw [info, MountInfo.mk.injEq] at h
    refine ⟨hroot, hmountpoint, ?_, m.source_iff.mp ?_⟩
    · rw [← map_pathWords, List.getElem?_map, htarget, Option.map_some, h.2.1]
    · rw [hsource, Option.map_some, h.2.2.2.1]
  · intro h
    have hpath := h.target
    rw [← map_pathWords, List.getElem?_map] at hpath
    obtain ⟨target, htarget, hread⟩ := Option.map_eq_some_iff.mp hpath
    obtain ⟨source, hsource, hreadSource⟩ := Option.map_eq_some_iff.mp (m.source_iff.mpr h.source)
    have hwords : m.sourceWords = [escape sourceSpecial m.source, m.superWord] := by
      rw [sourceWords_eq, fields_word h.source.1 h.source.2]
      rfl
    rw [htarget, Option.bind_some, hsource, Option.map_some, hread, hreadSource, hwords]
    simp only [List.getElem?_cons_succ, List.getElem?_cons_zero, Option.bind_some, parseOwner_superWord, info]

end Mount

theorem Mount.noNewline_line (m : Mount) : newline ∉ m.line := by
  have hword {w : Bytes} (h : Word w) : newline ∉ w := fun hmem => Bool.noConfusion (h.2 newline hmem)
  have hpath : ∀ s, newline ∉ escape pathSpecial s := not_mem_escape (by decide) (by decide)
  have hsource : ∀ s, newline ∉ escape sourceSpecial s := not_mem_escape (by decide) (by decide)
  have hwords : ∀ w ∈ m.mountWords ++ dash :: m.filesystemWords, newline ∉ w := by
    simp only [mountWords, filesystemWords, List.cons_append, List.nil_append, List.forall_mem_cons,
      List.forall_mem_append]
    exact ⟨hword (word_decimal _), hword (word_decimal _), hword m.word_device, hpath _, hpath _, hword m.word_flagWord,
      fun w hw => hword (m.optional_word w hw).1, by decide, hword m.fsType_word, hsource _, hword m.word_superWord, by simp⟩
  intro hmem
  rcases mem_spaced hmem with hspace | ⟨w, hw, hline⟩
  · exact absurd hspace (by decide)
  · exact hwords w hw hline

theorem splitOn_mountinfo (mounts : List Mount) :
    (mountinfo mounts).splitOn newline = mounts.map Mount.line ++ [[]] := by
  induction mounts with
  | nil => rfl
  | cons m mounts ih =>
    rw [mountinfo, List.flatMap_cons, ← mountinfo, List.append_assoc, List.singleton_append,
      List.splitOn_append_cons_self_of_not_mem m.noNewline_line, ih]
    rfl

theorem parseMountinfo_eq (mounts : List Mount) :
    parseMountinfo (mountinfo mounts) = mounts.filterMap fun m => parseLine m.line := by
  rw [parseMountinfo, splitOn_mountinfo, List.filterMap_append, List.filterMap_map]
  exact List.append_nil _

theorem filterMap_eq_map_iff {α β : Type} {f : α → Option β} {g : α → β} {l : List α} :
    l.filterMap f = l.map g ↔ ∀ a ∈ l, f a = some (g a) := by
  induction l with
  | nil => simp
  | cons a l ih =>
    rw [List.forall_mem_cons, ← ih, List.map_cons]
    cases hf : f a with
    | none =>
      rw [List.filterMap_cons_none hf]
      refine ⟨fun h => ?_, fun h => (by cases h.1)⟩
      have hlength := congrArg List.length h
      have hle := List.length_filterMap_le f l
      rw [List.length_cons, List.length_map] at hlength
      omega
    | some b =>
      rw [List.filterMap_cons_some hf, List.cons.injEq, Option.some_inj]

/-- The daemon reads the table back, and finds at a path what is mounted there, exactly if every line can be told
apart, which a form feed or a carriage return may prevent and nothing else but the separator and an empty field. -/
theorem parseMountinfo_iff (mounts : List Mount) :
    (parseMountinfo (mountinfo mounts) = mounts.map Mount.info ∧
        (∀ path, mountsAt (mountinfo mounts) path =
          (mounts.filter fun m => Path.same m.mountpoint path).map Mount.info) ↔
      ∀ m ∈ mounts, m.Readable) ∧
    ∀ m ∈ mounts, Plain m.root →
      (m.Readable ↔ m.root ≠ dash ∧ m.mountpoint ≠ dash ∧ Plain m.mountpoint ∧ Plain m.source) := by
  refine ⟨?_, fun m _ => m.readable_iff⟩
  have hlines : parseMountinfo (mountinfo mounts) = mounts.map Mount.info ↔ ∀ m ∈ mounts, m.Readable := by
    rw [parseMountinfo_eq, filterMap_eq_map_iff]
    exact forall₂_congr fun m _ => m.parseLine_eq_info_iff
  rw [← hlines, and_iff_left_iff_imp]
  intro hread path
  rw [mountsAt, hread, List.filter_map]
  rfl

theorem nosuid_word : ∀ option ∈ [utf8 "nosuid"], Word option := by decide +kernel

theorem userId_valid : ∀ option ∈ [SuperOption.userId 0], option.Valid := by decide

def carriageReturnMount : Mount where
  id := 42
  parent := 31
  major := 0
  minor := 50
  root := utf8 "/"
  mountpoint := utf8 "/tmp/a\rb"
  readOnly := false
  options := [utf8 "nosuid"]
  optional := []
  fsType := "fuse.file-guard"
  source := utf8 "file-guard:abc"
  superReadOnly := false
  superOptions := [.userId 0]
  id_lt := by decide
  options_word := nosuid_word
  optional_word := by simp
  fsType_word := by decide +kernel
  fsType_ne := by decide
  superOptions_valid := userId_valid

/-- A mount with a carriage return in its path appears at another path and not at its own. -/
theorem carriageReturnMount_misread :
    let table := [carriageReturnMount]
    parseMountinfo (mountinfo table) = [{ carriageReturnMount.info with target := utf8 "/tmp/a" }] ∧
      mountsAt (mountinfo table) (utf8 "/tmp/a\rb") = [] ∧
      mountsAt (mountinfo table) (utf8 "/tmp/a") = [{ carriageReturnMount.info with target := utf8 "/tmp/a" }] := by
  decide +kernel

end FileGuard.Mounts
