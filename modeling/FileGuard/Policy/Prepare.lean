import FileGuard.Policy.RuleEntry

namespace FileGuard.Policy

open Store

abbrev PolicyResult (α : Type) := Except String α

/-- `Path::to_str`. -/
def toStr (p : Path) : Option String := String.fromUTF8? ⟨p.toArray⟩

theorem utf8_of_toStr {p : Path} {s : String} (h : toStr p = some s) : utf8 s = p := by
  unfold toStr String.fromUTF8? at h
  split at h
  · cases h
    rfl
  · cases h

theorem toStr_utf8 (s : String) : toStr (utf8 s) = some s := by
  have hbytes : (⟨(utf8 s).toArray⟩ : ByteArray) = s.toByteArray := by
    rw [utf8, Array.toArray_toList]
    rfl
  rw [toStr, hbytes, String.fromUTF8?, dif_pos s.isValidUTF8]
  rfl

def componentBytes : Component → Bytes
  | .rootDir => []
  | .curDir => Path.dot
  | .parentDir => Path.dotDot
  | .normal part => part

/-- `home` is what the environment answers for the target user; what follows the tilde is kept up to
repeated slashes. -/
def expandPath (home : PolicyResult (Option Path)) (path : Path) : PolicyResult Path :=
  match Path.components path with
  | .normal [126] :: rest => do
    match ← home with
    | some home => .ok (Path.join home (List.intercalate [Path.slash] (rest.map componentBytes)))
    | none => .ok path
  | _ => .ok path

def absoluteLexical (path : Path) : PolicyResult Path :=
  (Path.lexical [Path.slash] path).elim (.error "path escapes the filesystem root") .ok

def isSha256 (value : String) : Bool := value.length == 64 && value.toList.all isAsciiHexdigit

def toAsciiLowercase (value : String) : String := String.ofList (value.toList.map Char.toLower)

def normalizeHash (value : Option String) (field : String) : PolicyResult (Option String) :=
  match value with
  | some hash =>
    if isSha256 hash then .ok (some (toAsciiLowercase hash))
    else .error s!"rule {field} must be a 64-character hexadecimal SHA-256"
  | none => .ok none

def identityPin (value : Option String) (field : String) : PolicyResult IdentityPin :=
  match value with
  | none => .ok .unpinned
  | some value =>
    if isSha256 value then .ok (.sha256 (toAsciiLowercase value))
    else .error s!"rule {field} must be a 64-character hexadecimal SHA-256"

def scriptFromEntry (script scriptSha256 : Option String) : PolicyResult (Option ScriptIdentity) :=
  match script, scriptSha256 with
  | none, some _ => .error "script_sha256 requires a script path"
  | none, none => .ok none
  | some path, hash =>
    if Path.isAbsolute (utf8 path) = false then .error s!"rule script path must be absolute: {path}"
    else do
      let lexical ← absoluteLexical (utf8 path)
      let path ← (toStr lexical).elim (.error "rule script path must be valid UTF-8") .ok
      let pin ← identityPin hash "script_sha256"
      .ok (some ⟨path, pin⟩)

def RuleAction.compiled : RuleAction → Action
  | .allow => .allow
  | .deny => .deny

section

variable (home : PolicyResult (Option Path))

def ruleFromEntry (entry : RuleEntry) : PolicyResult Rule := do
  let file ← expandPath home (utf8 entry.file)
  if Path.isAbsolute file = false then .error s!"rule file path must be absolute: {entry.file}"
  else do
    let file ← absoluteLexical file
    let binary := utf8 entry.binary
    if Path.isAbsolute binary = false then .error s!"rule binary path must be absolute: {entry.binary}"
    else do
      let identity ← identityPin entry.sha256 "sha256"
      let script ← scriptFromEntry entry.script entry.scriptSha256
      .ok ⟨file, binary, entry.action.compiled, entry.access, identity, script⟩

def prepareRuleEntry (entry : RuleEntry) : PolicyResult (RuleEntry × Rule) := do
  let sha256 ← normalizeHash entry.sha256 "sha256"
  let scriptSha256 ← normalizeHash entry.scriptSha256 "script_sha256"
  let entry := { entry with sha256 := sha256, scriptSha256 := scriptSha256 }
  let compiled ← ruleFromEntry home entry
  let file ← (toStr compiled.file).elim (.error "rule file path must be valid UTF-8") .ok
  .ok ({ entry with file := file, script := compiled.script.map (·.path) }, compiled)

end

/-! Preparing is idempotent: a prepared entry is its own normal form and compiles to the same rule. -/

theorem bind_eq_ok {α β : Type} {x : PolicyResult α} {f : α → PolicyResult β} {b : β} :
    (x >>= f) = .ok b ↔ ∃ a, x = .ok a ∧ f a = .ok b := by
  cases x with
  | error e => exact ⟨nofun, fun ⟨_, h, _⟩ => nomatch h⟩
  | ok a => exact ⟨fun h => ⟨a, rfl, h⟩, fun ⟨_, h, hf⟩ => by cases h; exact hf⟩

theorem elim_eq_ok {α : Type} {x : Option α} {message : String} {a : α} :
    x.elim (.error message : PolicyResult α) .ok = .ok a ↔ x = some a := by
  cases x <;> simp

theorem isAsciiHexdigit_toLower {c : Char} (h : isAsciiHexdigit c = true) :
    isAsciiHexdigit c.toLower = true ∧ c.toLower.toLower = c.toLower := by
  have hlt : c.toNat < 128 := by
    unfold isAsciiHexdigit hexValue at h
    split_ifs at h with h₁ h₂ h₃
    · exact lt_of_le_of_lt (show c.toNat ≤ ('9' : Char).toNat from h₁.2) (by decide)
    · exact lt_of_le_of_lt (show c.toNat ≤ ('f' : Char).toNat from h₂.2) (by decide)
    · exact lt_of_le_of_lt (show c.toNat ≤ ('F' : Char).toNat from h₃.2) (by decide)
    · cases h
  have hall : ∀ n < 128, isAsciiHexdigit (Char.ofNat n) = true →
      isAsciiHexdigit (Char.ofNat n).toLower = true ∧
        (Char.ofNat n).toLower.toLower = (Char.ofNat n).toLower := by decide
  have := hall c.toNat hlt
  rw [Char.ofNat_toNat] at this
  exact this h

theorem isSha256_toAsciiLowercase {value : String} (h : isSha256 value = true) :
    isSha256 (toAsciiLowercase value) = true ∧
      toAsciiLowercase (toAsciiLowercase value) = toAsciiLowercase value := by
  obtain ⟨hlen, hall⟩ := (Bool.and_eq_true _ _).mp h
  rw [List.all_eq_true] at hall
  constructor
  · rw [isSha256, Bool.and_eq_true, List.all_eq_true]
    refine ⟨?_, ?_⟩
    · simpa [toAsciiLowercase, String.length_toList] using hlen
    · simp only [toAsciiLowercase, String.toList_ofList, List.mem_map]
      rintro _ ⟨c, hc, rfl⟩
      exact (isAsciiHexdigit_toLower (hall c hc)).1
  · simp only [toAsciiLowercase, String.toList_ofList, List.map_map]
    congr 1
    exact List.map_congr_left fun c hc => (isAsciiHexdigit_toLower (hall c hc)).2

theorem normalizeHash_normal {value normal : Option String} {field : String}
    (h : normalizeHash value field = .ok normal) : normalizeHash normal field = .ok normal := by
  cases value with
  | none => cases h; rfl
  | some hash =>
    simp only [normalizeHash] at h
    split_ifs at h with hsha
    cases h
    obtain ⟨hs, hl⟩ := isSha256_toAsciiLowercase hsha
    simp [normalizeHash, hs, hl]

theorem absoluteLexical_normal {p q : Path} (h : absoluteLexical p = .ok q) : Path.Normal q :=
  Path.lexical_normal (elim_eq_ok.mp h)

theorem Normal.absoluteLexical {p : Path} (h : Path.Normal p) : absoluteLexical p = .ok p := by
  rw [Policy.absoluteLexical, h.lexical]
  rfl

theorem Normal.expandPath (home : PolicyResult (Option Path)) {p : Path} (h : Path.Normal p) :
    expandPath home p = .ok p := by
  have hroot : ∃ rest, Path.components p = .rootDir :: rest := by
    rw [Path.components, if_pos h.isAbsolute]
    exact ⟨_, rfl⟩
  obtain ⟨rest, hrest⟩ := hroot
  rw [Policy.expandPath, hrest]

theorem scriptFromEntry_normal {script hash : Option String} {identity : Option ScriptIdentity}
    (h : scriptFromEntry script hash = .ok identity) :
    scriptFromEntry (identity.map (·.path)) hash = .ok identity := by
  cases script with
  | none =>
    cases hash with
    | none => cases h; rfl
    | some value => cases h
  | some path =>
    simp only [scriptFromEntry] at h
    split_ifs at h
    obtain ⟨lexical, hlexical, h⟩ := bind_eq_ok.mp h
    obtain ⟨normal, hnormal, h⟩ := bind_eq_ok.mp h
    obtain ⟨pin, hpin, h⟩ := bind_eq_ok.mp h
    cases h
    have hstr := elim_eq_ok.mp hnormal
    have hn := absoluteLexical_normal hlexical
    simp only [Option.map_some, scriptFromEntry, utf8_of_toStr hstr, hn.isAbsolute]
    rw [if_neg Bool.noConfusion, Normal.absoluteLexical hn]
    exact bind_eq_ok.mpr ⟨lexical, rfl, bind_eq_ok.mpr ⟨normal, hnormal, bind_eq_ok.mpr ⟨pin, hpin, rfl⟩⟩⟩

variable {home : PolicyResult (Option Path)}

theorem ruleFromEntry_normal {entry : RuleEntry} {rule : Rule} {file : String}
    (h : ruleFromEntry home entry = .ok rule) (hfile : toStr rule.file = some file) :
    ruleFromEntry home { entry with file := file, script := rule.script.map (·.path) } = .ok rule := by
  unfold ruleFromEntry at h ⊢
  obtain ⟨expanded, -, h⟩ := bind_eq_ok.mp h
  split_ifs at h
  obtain ⟨lexical, hlexical, h⟩ := bind_eq_ok.mp h
  simp only at h
  split_ifs at h with hbinary
  obtain ⟨identity, hidentity, h⟩ := bind_eq_ok.mp h
  obtain ⟨script, hscript, h⟩ := bind_eq_ok.mp h
  cases h
  have hn := absoluteLexical_normal hlexical
  simp only [utf8_of_toStr hfile]
  refine bind_eq_ok.mpr ⟨lexical, Normal.expandPath home hn, ?_⟩
  rw [if_neg (by simp [hn.isAbsolute])]
  refine bind_eq_ok.mpr ⟨lexical, Normal.absoluteLexical hn, ?_⟩
  rw [if_neg hbinary]
  exact bind_eq_ok.mpr ⟨identity, hidentity, bind_eq_ok.mpr ⟨script, scriptFromEntry_normal hscript, rfl⟩⟩

theorem prepareRuleEntry_prepared {entry prepared : RuleEntry} {rule : Rule}
    (h : prepareRuleEntry home entry = .ok (prepared, rule)) :
    prepareRuleEntry home prepared = .ok (prepared, rule) ∧ ruleFromEntry home prepared = .ok rule := by
  unfold prepareRuleEntry at h
  obtain ⟨sha256, hsha, h⟩ := bind_eq_ok.mp h
  obtain ⟨scriptSha256, hscriptSha, h⟩ := bind_eq_ok.mp h
  simp only at h
  obtain ⟨compiled, hcompiled, h⟩ := bind_eq_ok.mp h
  obtain ⟨file, hfile, h⟩ := bind_eq_ok.mp h
  cases h
  have hrule := ruleFromEntry_normal hcompiled (elim_eq_ok.mp hfile)
  refine ⟨?_, hrule⟩
  unfold prepareRuleEntry
  refine bind_eq_ok.mpr ⟨sha256, normalizeHash_normal hsha, ?_⟩
  refine bind_eq_ok.mpr ⟨scriptSha256, normalizeHash_normal hscriptSha, ?_⟩
  exact bind_eq_ok.mpr ⟨rule, hrule, bind_eq_ok.mpr ⟨file, hfile, rfl⟩⟩

end FileGuard.Policy
