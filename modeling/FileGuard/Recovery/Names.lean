import FileGuard.Recovery.Layout

/-! Tokens make proper file names, and the names of the staging directory are told apart. -/

namespace FileGuard.Recovery

open Store Files Transaction

theorem hexdigit_plain {c : Char} (h : isAsciiHexdigit c = true) :
    (∃ b : UInt8, String.utf8EncodeChar c = [b] ∧ b ≠ Path.slash) ∧ c ≠ '/' ∧ c ≠ Char.ofNat 0 := by
  have hn : (48 ≤ c.toNat ∧ c.toNat ≤ 57) ∨ (97 ≤ c.toNat ∧ c.toNat ≤ 102) ∨
      (65 ≤ c.toNat ∧ c.toNat ≤ 70) := by
    unfold isAsciiHexdigit hexValue at h
    split_ifs at h with h1 h2 h3
    · exact .inl h1
    · exact .inr (.inl h2)
    · exact .inr (.inr h3)
    · cases h
  rw [← Char.ofNat_toNat c]
  generalize c.toNat = n at hn
  rcases hn with ⟨h1, h2⟩ | ⟨h1, h2⟩ | ⟨h1, h2⟩ <;> interval_cases n <;>
    exact ⟨⟨_, rfl, by decide⟩, by decide, by decide⟩

theorem utf8_token {token : String} (h : isToken token) :
    (utf8 token).length = 32 ∧ Path.slash ∉ utf8 token := by
  obtain ⟨hlen, hall⟩ := h
  rw [← String.ofList_toList (s := token), utf8_ofList]
  have hl : token.toList.length = 32 := by rw [String.length_toList, hlen]
  rw [List.all_eq_true] at hall
  rw [← hl]
  generalize token.toList = cs at hall
  clear hl hlen
  induction cs with
  | nil => simp
  | cons c cs ih =>
    obtain ⟨⟨b, hb, hne⟩, -⟩ := hexdigit_plain (hall c List.mem_cons_self)
    obtain ⟨hl, hs⟩ := ih fun d hd => hall d (List.mem_cons_of_mem _ hd)
    rw [List.flatMap_cons, hb]
    exact ⟨by simp [hl], by simp [hs, hne.symm]⟩

theorem proper_token {token : String} (h : isToken token) : Path.Proper (utf8 token) := by
  obtain ⟨hlen, hs⟩ := utf8_token h
  refine ⟨?_, ?_, ?_, hs⟩
  all_goals
    intro he
    rw [he] at hlen
    simp [Path.dot, Path.dotDot] at hlen

theorem isToken_of_validateToken {value label : String} (h : validateToken value label = .ok ()) :
    isToken value := not_not.mp (corruptIf_eq_ok.mp h)

/-- A name that `entryName` lets through. -/
def EntryName (name : String) : Prop :=
  ¬ (name = "" ∨ name = "." ∨ name = ".." ∨ '/' ∈ name.toList) ∧ Char.ofNat 0 ∉ name.toList

instance (name : String) : Decidable (EntryName name) := inferInstanceAs (Decidable (_ ∧ _))

theorem EntryName.entryName {name : String} (h : EntryName name) : Files.entryName name = .ok name := by
  rw [Files.entryName, if_neg h.1, if_neg h.2]

theorem EntryName.validate {name : String} (h : EntryName name) : validateEntryName name = .ok () :=
  check_eq_ok.mpr ⟨corruptIf_eq_ok.mpr h.1, corruptIf_eq_ok.mpr h.2⟩

theorem entryName_swap : EntryName "swap" := by decide

theorem entryName_stored : EntryName "stored" := by decide

theorem entryName_final : EntryName finalName := by decide

theorem entryName_retired : EntryName retiredName := by decide

theorem entryName_home (origin : RestoreOrigin) : EntryName (homeName origin) := by
  cases origin <;> decide

namespace CandidateName

variable {name : String}

theorem chars (h : CandidateName name) : ∃ cs, (∀ c ∈ cs, c ≠ '/' ∧ c ≠ Char.ofNat 0) ∧ cs.length = 32 ∧
    (name.toList = "restore-".toList ++ cs ∨ name.toList = "displaced-".toList ++ cs) := by
  obtain ⟨token, ⟨hlen, hall⟩, hname⟩ := h
  refine ⟨token.toList, fun c hc => (hexdigit_plain (List.all_eq_true.mp hall c hc)).2, ?_, ?_⟩
  · rw [String.length_toList, hlen]
  · rcases hname with rfl | rfl
    · exact .inl (String.toList_append ..)
    · exact .inr (String.toList_append ..)

theorem length_gt (h : CandidateName name) : 32 < name.length := by
  obtain ⟨cs, -, hlen, hname⟩ := h.chars
  rw [← String.length_toList]
  rcases hname with hname | hname <;> rw [hname, List.length_append, hlen] <;> decide

theorem entryName (h : CandidateName name) : EntryName name := by
  obtain ⟨cs, hcs, -, hname⟩ := h.chars
  have hlong := h.length_gt
  have hmem : '/' ∉ name.toList ∧ Char.ofNat 0 ∉ name.toList := by
    have hz : '/' ∉ cs ∧ Char.ofNat 0 ∉ cs := ⟨fun hc => (hcs _ hc).1 rfl, fun hc => (hcs _ hc).2 rfl⟩
    rcases hname with hname | hname
    · rw [hname, List.mem_append, List.mem_append, not_or, not_or]
      exact ⟨⟨by decide, hz.1⟩, ⟨by decide, hz.2⟩⟩
    · rw [hname, List.mem_append, List.mem_append, not_or, not_or]
      exact ⟨⟨by decide, hz.1⟩, ⟨by decide, hz.2⟩⟩
  refine ⟨?_, hmem.2⟩
  rintro (rfl | rfl | rfl | hs)
  · exact absurd hlong (by decide)
  · exact absurd hlong (by decide)
  · exact absurd hlong (by decide)
  · exact hmem.1 hs

theorem ne_of_length_le {other : String} (h : CandidateName name) (hlen : other.length ≤ 32) :
    name ≠ other := by
  rintro rfl
  exact absurd h.length_gt (not_lt.mpr hlen)

theorem ne_home (h : CandidateName name) (origin : RestoreOrigin) : name ≠ homeName origin :=
  h.ne_of_length_le (by cases origin <;> decide)

theorem ne_final (h : CandidateName name) : name ≠ finalName := h.ne_of_length_le (by decide)

theorem ne_retired (h : CandidateName name) : name ≠ retiredName := h.ne_of_length_le (by decide)

theorem ne_constructionFinal (h : CandidateName name) : name ≠ constructionEntryName finalName :=
  h.ne_of_length_le (by decide)

end CandidateName

theorem constructionEntryName_ne_home (name : String) (origin : RestoreOrigin) (h : CandidateName name) :
    constructionEntryName name ≠ homeName origin := by
  intro he
  have hlen := congrArg String.length he
  rw [constructionEntryName, String.length_append] at hlen
  have hlong := h.length_gt
  have hhome : (homeName origin).length ≤ 6 := by cases origin <;> decide
  omega

end FileGuard.Recovery
