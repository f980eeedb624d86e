import Mathlib.Data.List.Basic

/-! Words with a separator between them, and the lists that are found in such a text again. -/

namespace Framing

variable {α : Type}

/-- The parts before and after the first place where a pattern occurs. -/
def splitOnce [DecidableEq α] (pattern : List α) : List α → Option (List α × List α)
  | [] => none
  | a :: s =>
    if pattern <+: a :: s then some ([], (a :: s).drop pattern.length)
    else (splitOnce pattern s).map fun (before, after) => (a :: before, after)

/-- The nonempty parts of a text between the places where `p` holds. -/
def fields (p : α → Bool) (s : List α) : List (List α) := (s.splitOnP p).filter fun field => !field.isEmpty

/-- The words with `sep` between them. -/
def spaced (sep : α) (words : List (List α)) : List α := [sep].intercalate words

variable {sep : α} {p : α → Bool} {x y s t : List α} {words before after : List (List α)}

@[simp] theorem spaced_singleton : spaced sep [x] = x := List.intercalate_singleton

theorem spaced_cons (h : words ≠ []) : spaced sep (x :: words) = x ++ sep :: spaced sep words := by
  rw [spaced, List.intercalate_cons_of_ne_nil h, List.append_assoc]
  rfl

theorem spaced_append (hbefore : before ≠ []) (hafter : after ≠ []) :
    spaced sep (before ++ after) = spaced sep before ++ sep :: spaced sep after := by
  induction before with
  | nil => exact (hbefore rfl).elim
  | cons x before ih =>
    cases before with
    | nil => rw [List.singleton_append, spaced_cons hafter, spaced_singleton]
    | cons y before =>
      rw [List.cons_append, spaced_cons (by simp), ih (List.cons_ne_nil _ _), spaced_cons (List.cons_ne_nil y before),
        List.append_assoc]
      rfl

theorem mem_spaced {a : α} (h : a ∈ spaced sep words) : a = sep ∨ ∃ word ∈ words, a ∈ word := by
  induction words with
  | nil => cases h
  | cons x words ih =>
    by_cases hne : words = []
    · rw [hne, spaced_singleton] at h
      exact .inr ⟨x, List.mem_cons_self, h⟩
    · rw [spaced_cons hne, List.mem_append, List.mem_cons] at h
      rcases h with hx | hsep | hrest
      · exact .inr ⟨x, List.mem_cons_self, hx⟩
      · exact .inl hsep
      · exact (ih hrest).imp_right fun ⟨word, hword, ha⟩ => ⟨word, List.mem_cons_of_mem _ hword, ha⟩

theorem prefix_sep_iff (hx : sep ∉ x) (hy : sep ∉ y) : x ++ [sep] <+: y ++ sep :: t ↔ x = y := by
  induction x generalizing y with
  | nil =>
    cases y with
    | nil => simp
    | cons b y =>
      rw [List.mem_cons, not_or] at hy
      simp [hy.1]
  | cons a x ih =>
    rw [List.mem_cons, not_or] at hx
    cases y with
    | nil => simp [Ne.symm hx.1]
    | cons b y =>
      rw [List.mem_cons, not_or] at hy
      rw [List.cons_append, List.cons_append, List.cons_prefix_cons, ih hx.2 hy.2, List.cons.injEq]

theorem splitOnce_append_left [DecidableEq α] (pattern : List α) (h : ∀ k < x.length, ¬pattern <+: x.drop k ++ s) :
    splitOnce pattern (x ++ s) = (splitOnce pattern s).map fun (before, after) => (x ++ before, after) := by
  induction x with
  | nil => simp
  | cons a x ih =>
    rw [List.cons_append, splitOnce, if_neg (by simpa using h 0 (by simp)),
      ih fun k hk => by simpa using h (k + 1) (by simpa using hk), Option.map_map]
    rfl

theorem splitOnce_spaced [DecidableEq α] {dash : List α} (hdash : sep ∉ dash) (hbefore : before ≠ []) (hafter : after ≠ [])
    (hwords : ∀ word ∈ before, sep ∉ word ∧ word ≠ dash) :
    splitOnce (sep :: (dash ++ [sep])) (spaced sep (before ++ dash :: after)) =
      some (spaced sep before, spaced sep after) := by
  have hskip : ∀ word : List α, sep ∉ word → ∀ rest, ∀ k < word.length, ¬sep :: (dash ++ [sep]) <+: word.drop k ++ rest := by
    intro word hword rest k hk hstart
    rw [List.drop_eq_getElem_cons hk, List.cons_append, List.cons_prefix_cons] at hstart
    exact hword (hstart.1 ▸ List.getElem_mem hk)
  induction before with
  | nil => exact (hbefore rfl).elim
  | cons word before ih =>
    have hword := hwords word List.mem_cons_self
    rw [List.cons_append, spaced_cons (by simp), splitOnce_append_left _ (hskip word hword.1 _), splitOnce]
    cases before with
    | nil =>
      rw [List.nil_append, spaced_cons hafter, if_pos (by simp), spaced_singleton]
      simp
    | cons next before =>
      have hnext := hwords next (List.mem_cons_of_mem _ List.mem_cons_self)
      rw [if_neg, ih (List.cons_ne_nil _ _) fun w hw => hwords w (List.mem_cons_of_mem _ hw),
        spaced_cons (List.cons_ne_nil next before)]
      · rfl
      · rw [List.cons_append, spaced_cons (by simp), List.cons_prefix_cons, prefix_sep_iff hdash hnext.1]
        exact fun h => hnext.2 h.2.symm

@[simp] theorem fields_nil : fields p [] = [] := by simp [fields]

theorem fields_append_sep (h : p sep = true) (x s : List α) :
    fields p (x ++ sep :: s) = fields p x ++ fields p s := by
  rw [fields, List.splitOnP_append_cons x s h, List.filter_append]
  rfl

theorem fields_word (hne : x ≠ []) (h : ∀ a ∈ x, p a = false) : fields p x = [x] := by
  rw [fields, List.splitOnP_eq_singleton h]
  simp [hne]

theorem fields_spaced (h : p sep = true) : fields p (spaced sep words) = words.flatMap (fields p) := by
  induction words with
  | nil => simp [spaced]
  | cons word words ih =>
    cases words with
    | nil => simp
    | cons next words =>
      rw [spaced_cons (List.cons_ne_nil _ _), fields_append_sep h, ih]
      rfl

theorem splitOnP_append_plain (h : ∀ a ∈ x, p a = false) (s : List α) :
    (x ++ s).splitOnP p = (s.splitOnP p).modifyHead (x ++ ·) := by
  induction x with
  | nil => rw [List.nil_append]; cases s.splitOnP p <;> rfl
  | cons a x ih =>
    rw [List.cons_append, List.splitOnP_cons_eq_if_modifyHead, if_neg (by simp [h a List.mem_cons_self]),
      ih fun b hb => h b (List.mem_cons_of_mem _ hb)]
    cases s.splitOnP p <;> rfl

theorem fields_cons_ne_nil {a : α} (h : p a = false) (s : List α) : fields p (a :: s) ≠ [] := by
  rw [fields, List.splitOnP_cons_eq_if_modifyHead, if_neg (by simp [h])]
  cases hparts : s.splitOnP p with
  | nil => exact (List.splitOnP_ne_nil p s hparts).elim
  | cons part parts => simp

theorem plain_of_mem_splitOnP (h : x ∈ s.splitOnP p) : ∀ a ∈ x, p a = false := by
  induction s generalizing x with
  | nil =>
    rw [List.splitOnP_nil, List.mem_singleton] at h
    rw [h]
    exact fun a ha => (by cases ha)
  | cons b s ih =>
    rw [List.splitOnP_cons_eq_if_modifyHead] at h
    split_ifs at h with hb
    · rcases List.mem_cons.mp h with rfl | hmore
      · exact fun a ha => (by cases ha)
      · exact ih hmore
    · cases hparts : s.splitOnP p with
      | nil => exact (List.splitOnP_ne_nil p s hparts).elim
      | cons part parts =>
        rw [hparts] at h ih
        rcases List.mem_cons.mp h with rfl | hmore
        · exact List.forall_mem_cons.mpr ⟨by simpa using hb, ih List.mem_cons_self⟩
        · exact ih (List.mem_cons_of_mem _ hmore)

theorem mem_fields (h : x ∈ fields p s) : x ≠ [] ∧ ∀ a ∈ x, p a = false := by
  obtain ⟨hmem, hne⟩ := List.mem_filter.mp h
  exact ⟨by simpa using hne, plain_of_mem_splitOnP hmem⟩

end Framing
