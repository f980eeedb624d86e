import Mathlib.Data.List.DropRight

/-! Streams of records that a separator ends. -/

namespace Framing

variable {α : Type} [DecidableEq α] (sep : α)

/-- The records that end in a stream, the first of them already begun. -/
def records (begun : List α) : List α → List (List α)
  | [] => []
  | a :: s => if a = sep then begun :: records [] s else records (begun ++ [a]) s

/-- What a stream leaves unfinished. -/
def unfinished (begun : List α) : List α → List α
  | [] => begun
  | a :: s => if a = sep then unfinished [] s else unfinished (begun ++ [a]) s

variable {sep} {begun s t : List α}

@[simp] theorem records_nil : records sep begun [] = [] := rfl

@[simp] theorem unfinished_nil : unfinished sep begun [] = begun := rfl

@[simp] theorem records_sep : records sep begun (sep :: s) = begun :: records sep [] s := if_pos rfl

@[simp] theorem unfinished_sep : unfinished sep begun (sep :: s) = unfinished sep [] s := if_pos rfl

theorem records_append :
    records sep begun (s ++ t) = records sep begun s ++ records sep (unfinished sep begun s) t := by
  induction s generalizing begun with
  | nil => rfl
  | cons a s ih =>
    simp only [List.cons_append, records, unfinished]
    split_ifs
    · rw [ih, List.cons_append]
    · exact ih

theorem unfinished_append :
    unfinished sep begun (s ++ t) = unfinished sep (unfinished sep begun s) t := by
  induction s generalizing begun with
  | nil => rfl
  | cons a s ih =>
    simp only [List.cons_append, unfinished]
    split_ifs <;> exact ih

theorem records_of_notMem (h : sep ∉ s) : records sep begun s = [] := by
  induction s generalizing begun with
  | nil => rfl
  | cons a s ih =>
    rw [List.mem_cons, not_or] at h
    rw [records, if_neg (Ne.symm h.1), ih h.2]

theorem unfinished_of_notMem (h : sep ∉ s) : unfinished sep begun s = begun ++ s := by
  induction s generalizing begun with
  | nil => exact (List.append_nil _).symm
  | cons a s ih =>
    rw [List.mem_cons, not_or] at h
    rw [unfinished, if_neg (Ne.symm h.1), ih h.2, List.append_assoc, List.singleton_append]

theorem records_line (h : sep ∉ s) : records sep begun (s ++ sep :: t) = (begun ++ s) :: records sep [] t := by
  rw [records_append, records_of_notMem h, unfinished_of_notMem h, List.nil_append, records_sep]

theorem records_eq_nil : records sep begun s = [] ↔ sep ∉ s := by
  refine ⟨fun h hmem => ?_, records_of_notMem⟩
  induction s generalizing begun with
  | nil => cases hmem
  | cons a s ih =>
    rw [records] at h
    split_ifs at h with ha
    exact ih h ((List.mem_cons.mp hmem).resolve_left (Ne.symm ha))

theorem notMem_unfinished (h : sep ∉ begun) : sep ∉ unfinished sep begun s := by
  induction s generalizing begun with
  | nil => exact h
  | cons a s ih =>
    rw [unfinished]
    split_ifs with ha
    · exact ih List.not_mem_nil
    · exact ih (by simp [h, Ne.symm ha])

/-- Splitting at the separator gives the records and then what is left unfinished. -/
theorem splitOn_eq : s.splitOn sep = records sep [] s ++ [unfinished sep [] s] := by
  have hgeneral : ∀ begun, (s.splitOn sep).modifyHead (begun ++ ·) =
      records sep begun s ++ [unfinished sep begun s] := by
    induction s with
    | nil => intro begun; simp
    | cons a s ih =>
      intro begun
      rw [List.splitOn_cons_eq_if_modifyHead, records, unfinished]
      by_cases ha : a = sep
      · have hnil := ih []
        rw [if_pos (beq_iff_eq.mpr ha), if_pos ha, if_pos ha, List.cons_append, ← hnil]
        cases s.splitOn sep <;> simp
      · have hmore := ih (begun ++ [a])
        rw [if_neg (by simpa using ha), if_neg ha, if_neg ha, ← hmore]
        cases s.splitOn sep <;> simp
  have hnil := hgeneral []
  rw [← hnil]
  cases s.splitOn sep <;> simp

/-- A stream that ends where a record does. -/
def Whole (sep : α) (s : List α) : Prop := unfinished sep [] s = []

theorem whole_nil : Whole sep [] := rfl

theorem whole_sep : Whole sep (s ++ [sep]) := by rw [Whole, unfinished_append, unfinished_sep, unfinished_nil]

theorem Whole.records_append (h : Whole sep s) :
    records sep [] (s ++ t) = records sep [] s ++ records sep [] t := by
  rw [Framing.records_append, h]

theorem Whole.unfinished_append (h : Whole sep s) : unfinished sep [] (s ++ t) = unfinished sep [] t := by
  rw [Framing.unfinished_append, h]

theorem Whole.append (h : Whole sep s) (h' : Whole sep t) : Whole sep (s ++ t) := h.unfinished_append.trans h'

variable (sep) in
/-- The length of the whole records of a stream. -/
def boundary (s : List α) : ℕ := s.length - (unfinished sep [] s).length

variable (sep) in
theorem exists_whole (s : List α) : ∃ w, s = w ++ unfinished sep [] s ∧ Whole sep w := by
  have hgeneral : ∀ begun, sep ∉ begun →
      ∃ w, begun ++ s = w ++ unfinished sep begun s ∧ Whole sep w := by
    induction s with
    | nil => exact fun begun _ => ⟨[], by simp, whole_nil⟩
    | cons a s ih =>
      intro begun hbegun
      rw [unfinished]
      by_cases ha : a = sep
      · obtain ⟨w, hw, hwhole⟩ := ih [] List.not_mem_nil
        refine ⟨begun ++ [sep] ++ w, ?_, whole_sep.append hwhole⟩
        rw [if_pos ha, ha, List.append_assoc, ← hw]
        simp
      · obtain ⟨w, hw, hwhole⟩ := ih (begun ++ [a]) (by simp [hbegun, Ne.symm ha])
        exact ⟨w, by rw [if_neg ha, ← hw]; simp, hwhole⟩
  exact hgeneral [] List.not_mem_nil

theorem whole_of_append (hs : Whole sep s) (hu : sep ∉ t) : boundary sep (s ++ t) = s.length := by
  rw [boundary, hs.unfinished_append, unfinished_of_notMem hu]
  simp

theorem Whole.boundary_eq (h : Whole sep s) : boundary sep s = s.length := by rw [boundary, h]; rfl

theorem boundary_append_of_notMem (h : sep ∉ t) : boundary sep (s ++ t) = boundary sep s := by
  obtain ⟨w, hw, hwhole⟩ := exists_whole sep s
  have hrest : sep ∉ unfinished sep [] s := notMem_unfinished List.not_mem_nil
  have hs : boundary sep s = w.length := by
    conv_lhs => rw [hw]
    exact whole_of_append hwhole hrest
  rw [hs]
  conv_lhs => rw [hw, List.append_assoc]
  exact whole_of_append hwhole (by simp [hrest, h])

variable (sep) in
theorem take_boundary (s : List α) : Whole sep (s.take (boundary sep s)) ∧
    s.drop (boundary sep s) = unfinished sep [] s := by
  obtain ⟨w, hw, hwhole⟩ := exists_whole sep s
  have hlength : boundary sep s = w.length := by
    rw [boundary]
    have := congrArg List.length hw
    rw [List.length_append] at this
    omega
  rw [hlength]
  constructor
  · rw [hw, List.take_left]
    exact hwhole
  · conv_lhs => rw [hw]
    exact List.drop_left

theorem exists_line_end (h : sep ∈ s) : ∃ w t, s = w ++ [sep] ++ t ∧ sep ∉ t := by
  induction s with
  | nil => cases h
  | cons a s ih =>
    by_cases hs : sep ∈ s
    · obtain ⟨w, t, hw, ht⟩ := ih hs
      exact ⟨a :: w, t, by rw [hw]; rfl, ht⟩
    · rw [List.mem_cons, or_iff_left hs] at h
      exact ⟨[], s, by rw [h]; rfl, hs⟩

theorem begun_prefix (begun s : List α) :
    (∃ r rest, records sep begun s = r :: rest ∧ begun <+: r) ∨
      records sep begun s = [] ∧ begun <+: unfinished sep begun s := by
  induction s generalizing begun with
  | nil => exact .inr ⟨rfl, List.prefix_refl _⟩
  | cons a s ih =>
    rw [records, unfinished]
    split_ifs
    · exact .inl ⟨begun, _, rfl, List.prefix_refl _⟩
    · rcases ih (begun ++ [a]) with ⟨r, rest, hr, hstart⟩ | ⟨hnone, hstart⟩
      · exact .inl ⟨r, rest, hr, (List.prefix_append _ _).trans hstart⟩
      · exact .inr ⟨hnone, (List.prefix_append _ _).trans hstart⟩

theorem notMem_of_take {n : ℕ} (hn : n ≤ s.length) (hmem : sep ∉ s.take n)
    (hshort : ∀ r ∈ records sep [] s, r.length < n) : sep ∉ s := by
  have hfull : (s.take n).length = n := List.length_take_of_le hn
  have hbegun : records sep [] s = records sep (s.take n) (s.drop n) := by
    conv_lhs => rw [← List.take_append_drop n s]
    rw [records_append, records_of_notMem hmem, unfinished_of_notMem hmem, List.nil_append, List.nil_append]
  rw [← records_eq_nil, hbegun]
  rcases begun_prefix (s.take n) (s.drop n) with ⟨r, rest, hr, hstart⟩ | ⟨hnone, -⟩
  · have hlong := hshort r (hbegun ▸ hr ▸ List.mem_cons_self)
    exact absurd (hfull.ge.trans hstart.length_le) (not_le.mpr hlong)
  · exact hnone

theorem boundary_le (s : List α) : boundary sep s ≤ s.length := Nat.sub_le _ _

end Framing
