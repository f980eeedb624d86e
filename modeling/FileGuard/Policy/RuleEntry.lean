import FileGuard.Policy.Rule

namespace FileGuard.Policy

open Store

inductive RuleAction where
  | allow
  | deny
  deriving DecidableEq

structure RuleEntry where
  file : String
  binary : String
  action : RuleAction
  access : Access
  sha256 : Option String
  script : Option String
  scriptSha256 : Option String
  deriving DecidableEq

/-! The JSON text of an entry, which the repository compares. -/

namespace Json

def quote : Char := Char.ofNat 34
def backslash : Char := Char.ofNat 92

/-- The letter that stands for a character behind a backslash. -/
def shorthand (c : Char) : Option Char :=
  if c = quote ∨ c = backslash then some c
  else if c = Char.ofNat 8 then some 'b'
  else if c = Char.ofNat 9 then some 't'
  else if c = Char.ofNat 10 then some 'n'
  else if c = Char.ofNat 12 then some 'f'
  else if c = Char.ofNat 13 then some 'r'
  else none

def escape (c : Char) : List Char :=
  match shorthand c with
  | some letter => [backslash, letter]
  | none =>
    if c.toNat < 32 then [backslash, 'u', '0', '0', hexChar (c.toNat / 16), hexChar (c.toNat % 16)]
    else [c]

def string (s : String) : List Char := quote :: s.toList.flatMap escape ++ [quote]

/-- One member of an object, behind the brace or the comma before it. -/
def member (separator : Char) (m : String × String) : List Char :=
  separator :: string m.1 ++ ':' :: string m.2

def object (first : String × String) (rest : List (String × String)) : List Char :=
  member '{' first ++ rest.flatMap (member ',') ++ ['}']

/-- What an escaped character was, and the text behind it. -/
def unescape : List Char → Option (Char × List Char)
  | [] => none
  | c :: rest =>
    if c ≠ backslash then some (c, rest)
    else match rest with
      | 'u' :: _ :: _ :: high :: low :: rest => do
        let high ← hexValue high
        let low ← hexValue low
        return (Char.ofNat (16 * high + low), rest)
      | 'b' :: rest => some (Char.ofNat 8, rest)
      | 't' :: rest => some (Char.ofNat 9, rest)
      | 'n' :: rest => some (Char.ofNat 10, rest)
      | 'f' :: rest => some (Char.ofNat 12, rest)
      | 'r' :: rest => some (Char.ofNat 13, rest)
      | letter :: rest => some (letter, rest)
      | [] => none

theorem unescape_escape (c : Char) (rest : List Char) : unescape (escape c ++ rest) = some (c, rest) := by
  by_cases hc : c.toNat < 32
  · have hofNat : c = Char.ofNat c.toNat := (Char.ofNat_toNat c).symm
    rw [hofNat]
    generalize c.toNat = n at hc
    interval_cases n <;> rfl
  · by_cases hq : c = quote
    · rw [hq]; rfl
    · by_cases hb : c = backslash
      · rw [hb]; rfl
      · have hs : shorthand c = none := by
          have hne : ∀ n < 32, c ≠ Char.ofNat n := by
            rintro n hn rfl
            interval_cases n <;> exact hc (by decide)
          simp [shorthand, hq, hb, hne]
        simp [escape, hs, hc, unescape, hb]

theorem escape_inj {c d : Char} {rest rest' : List Char} (h : escape c ++ rest = escape d ++ rest') :
    c = d ∧ rest = rest' := by
  have hu := congrArg unescape h
  rw [unescape_escape, unescape_escape] at hu
  simpa using hu

theorem escape_ne_quote (c : Char) (rest tail : List Char) : escape c ++ rest ≠ quote :: tail := by
  intro h
  have hu := congrArg unescape h
  rw [unescape_escape] at hu
  have hq : unescape (quote :: tail) = some (quote, tail) := rfl
  rw [hq] at hu
  cases hu
  have hlen := congrArg List.length h
  have hescape : (escape quote).length = 2 := rfl
  simp only [List.length_append, hescape, List.length_cons] at hlen
  omega

theorem flatMap_escape_inj (s t : List Char) (rest rest' : List Char)
    (h : s.flatMap escape ++ quote :: rest = t.flatMap escape ++ quote :: rest') :
    s = t ∧ rest = rest' := by
  induction s generalizing t with
  | nil =>
    cases t with
    | nil => simpa using h
    | cons d t =>
      rw [List.flatMap_cons, List.append_assoc] at h
      exact absurd h.symm (escape_ne_quote d _ _)
  | cons c s ih =>
    cases t with
    | nil =>
      rw [List.flatMap_cons, List.append_assoc] at h
      exact absurd h (escape_ne_quote c _ _)
    | cons d t =>
      simp only [List.flatMap_cons, List.append_assoc] at h
      obtain ⟨rfl, htail⟩ := escape_inj h
      obtain ⟨rfl, hrest⟩ := ih t htail
      exact ⟨rfl, hrest⟩

theorem string_inj {s t : String} {rest rest' : List Char} (h : string s ++ rest = string t ++ rest') :
    s = t ∧ rest = rest' := by
  simp only [string, List.cons_append, List.append_assoc, List.cons.injEq, true_and,
    List.nil_append] at h
  obtain ⟨hs, hrest⟩ := flatMap_escape_inj _ _ _ _ h
  exact ⟨String.toList_inj.mp hs, hrest⟩

theorem member_inj {separator : Char} {m n : String × String} {rest rest' : List Char}
    (h : member separator m ++ rest = member separator n ++ rest') : m = n ∧ rest = rest' := by
  simp only [member, List.cons_append, List.append_assoc, List.cons.injEq, true_and] at h
  obtain ⟨hkey, h⟩ := string_inj h
  simp only [List.cons.injEq, true_and] at h
  obtain ⟨hvalue, hrest⟩ := string_inj h
  exact ⟨Prod.ext hkey hvalue, hrest⟩

theorem members_inj (l l' : List (String × String))
    (h : l.flatMap (member ',') ++ ['}'] = l'.flatMap (member ',') ++ ['}']) : l = l' := by
  induction l generalizing l' with
  | nil =>
    cases l' with
    | nil => rfl
    | cons n l' => simp [member] at h
  | cons m l ih =>
    cases l' with
    | nil => simp [member] at h
    | cons n l' =>
      simp only [List.flatMap_cons, List.append_assoc] at h
      obtain ⟨rfl, htail⟩ := member_inj h
      rw [ih l' htail]

theorem object_inj {first first' : String × String} {rest rest' : List (String × String)}
    (h : object first rest = object first' rest') : first = first' ∧ rest = rest' := by
  simp only [object, List.append_assoc] at h
  obtain ⟨hfirst, h⟩ := member_inj h
  exact ⟨hfirst, members_inj rest rest' h⟩

end Json

namespace RuleEntry

def actionName : RuleAction → String
  | .allow => "allow"
  | .deny => "deny"

def accessName : Access → String
  | .read => "read"
  | .write => "write"
  | .any => "any"

/-- A field that is left out where it is `None`. -/
def optional (key : String) (value : Option String) : List (String × String) :=
  value.toList.map fun v => (key, v)

def members (e : RuleEntry) : List (String × String) :=
  [("binary", e.binary), ("action", actionName e.action)] ++
    (if e.access = .read then [] else [("access", accessName e.access)]) ++
    optional "sha256" e.sha256 ++ optional "script" e.script ++ optional "script_sha256" e.scriptSha256

def toJson (e : RuleEntry) : List Char := Json.object ("file", e.file) e.members

theorem lookup_members (e : RuleEntry) :
    e.members.lookup "binary" = some e.binary ∧
      e.members.lookup "action" = some (actionName e.action) ∧
      e.members.lookup "access" = (if e.access = .read then none else some (accessName e.access)) ∧
      e.members.lookup "sha256" = e.sha256 ∧ e.members.lookup "script" = e.script ∧
      e.members.lookup "script_sha256" = e.scriptSha256 := by
  obtain ⟨_, _, _, access, sha256, script, scriptSha256⟩ := e
  cases access <;> cases sha256 <;> cases script <;> cases scriptSha256 <;>
    exact ⟨rfl, rfl, rfl, rfl, rfl, rfl⟩

theorem actionName_injective : Function.Injective actionName := by
  intro a b h
  cases a <;> cases b <;> first | rfl | exact absurd h (by decide)

theorem members_inj {e f : RuleEntry} (hfile : e.file = f.file) (h : e.members = f.members) : e = f := by
  obtain ⟨hbinary, haction, haccess, hsha, hscript, hscriptSha⟩ := lookup_members e
  obtain ⟨hbinary', haction', haccess', hsha', hscript', hscriptSha'⟩ := lookup_members f
  rw [h] at hbinary haction haccess hsha hscript hscriptSha
  have hacc : e.access = f.access := by
    have heq := haccess.symm.trans haccess'
    revert heq
    cases e.access <;> cases f.access <;> first | exact fun _ => rfl | exact fun heq => absurd heq (by decide)
  have hact := actionName_injective (Option.some.inj (haction.symm.trans haction'))
  cases e
  cases f
  simp only [RuleEntry.mk.injEq]
  exact ⟨hfile, Option.some.inj (hbinary.symm.trans hbinary'), hact, hacc, hsha.symm.trans hsha',
    hscript.symm.trans hscript', hscriptSha.symm.trans hscriptSha'⟩

theorem toJson_injective : Function.Injective toJson := by
  intro e f h
  obtain ⟨hfile, hmembers⟩ := Json.object_inj h
  exact members_inj (congrArg Prod.snd hfile) hmembers

end RuleEntry

end FileGuard.Policy
