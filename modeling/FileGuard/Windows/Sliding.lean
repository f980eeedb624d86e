import Mathlib.Algebra.Order.Group.Defs
import Mathlib.Data.List.Basic
import Mathlib.Data.List.Induction

/-! Sequences of instants in order, and how many of them a window holds. -/

namespace Windows

section order

variable {α : Type} [LinearOrder α]

/-- A queue in order, trimmed at its front, is what lies past the cutoff. -/
theorem dropWhile_eq_filter {cutoff : α} {queue : List α} (sorted : queue.Pairwise (· ≤ ·)) :
    queue.dropWhile (· ≤ cutoff) = queue.filter (cutoff < ·) := by
  induction queue with
  | nil => rfl
  | cons a queue ih =>
    obtain ⟨hfirst, hrest⟩ := List.pairwise_cons.mp sorted
    by_cases ha : a ≤ cutoff
    · rw [List.dropWhile_cons_of_pos (by simpa using ha), List.filter_cons_of_neg (by simpa using ha), ih hrest]
    · have hpast : ∀ b ∈ a :: queue, cutoff < b := by
        intro b hb
        rcases List.mem_cons.mp hb with rfl | hb
        · exact not_le.mp ha
        · exact (not_le.mp ha).trans_le (hfirst b hb)
      rw [List.dropWhile_cons_of_neg (by simpa using ha), List.filter_eq_self.mpr (by simpa using hpast)]

theorem dropWhile_dropWhile {cutoff later : α} (h : cutoff ≤ later) (queue : List α) :
    (queue.dropWhile (· ≤ cutoff)).dropWhile (· ≤ later) = queue.dropWhile (· ≤ later) := by
  induction queue with
  | nil => rfl
  | cons a queue ih =>
    by_cases ha : a ≤ cutoff
    · have hlater : a ≤ later := ha.trans h
      rw [List.dropWhile_cons_of_pos (by simpa using ha), List.dropWhile_cons_of_pos (by simpa using hlater), ih]
    · rw [List.dropWhile_cons_of_neg (by simpa using ha)]

/-- A later cutoff leaves nothing of what an earlier one has dropped. -/
theorem filter_filter_lt {cutoff later : α} (h : cutoff ≤ later) (queue : List α) :
    (queue.filter (cutoff < ·)).filter (later < ·) = queue.filter (later < ·) := by
  rw [List.filter_filter]
  apply List.filter_congr
  intro a _
  have himp : later < a → cutoff < a := h.trans_lt
  simpa using himp

end order

variable {α : Type} [AddCommGroup α] [LinearOrder α] {max : ℕ} {window : α} {instants : List α}

/-- Each instant has fewer than `max` of the earlier ones in the window that ends with it. -/
def Spaced (max : ℕ) (window : α) (instants : List α) : Prop :=
  ∀ before t after, instants = before ++ t :: after → (before.filter (t - window < ·)).length < max

theorem spaced_nil : Spaced max window [] := by
  rintro before t after h
  simp at h

theorem Spaced.concat (h : Spaced max window instants) {t : α}
    (ht : (instants.filter (t - window < ·)).length < max) : Spaced max window (instants ++ [t]) := by
  intro before s after hsplit
  rcases List.eq_nil_or_concat' after with rfl | ⟨rest, last, rfl⟩
  · obtain ⟨rfl, hlast⟩ := List.append_inj' hsplit rfl
    cases hlast
    exact ht
  · have hassoc : instants ++ [t] = (before ++ s :: rest) ++ [last] := by simpa using hsplit
    exact h before s rest (List.append_inj' hassoc rfl).1

theorem Spaced.left {more : List α} (h : Spaced max window (instants ++ more)) : Spaced max window instants := by
  rintro before t after rfl
  exact h before t (after ++ more) (by simp)

/-- No set narrower than the window has more than `max` of the instants. -/
theorem Spaced.length_filter_le (h : Spaced max window instants) (sorted : instants.Pairwise (· ≤ ·)) {p : α → Bool}
    (narrow : ∀ s t, p s = true → p t = true → s ≤ t → t - window < s) : (instants.filter p).length ≤ max := by
  induction instants using List.reverseRecOn with
  | nil => exact Nat.zero_le _
  | append_singleton before t ih =>
    obtain ⟨hbefore, -, hle⟩ := List.pairwise_append.mp sorted
    rw [List.filter_append, List.length_append]
    by_cases ht : p t = true
    · have hcount := h before t [] rfl
      have hinside : before.countP p ≤ before.countP (t - window < ·) := by
        apply List.countP_mono_left
        intro s hmem hs
        simpa using narrow s t hs ht (hle s hmem t List.mem_cons_self)
      rw [List.countP_eq_length_filter, List.countP_eq_length_filter] at hinside
      rw [List.filter_cons_of_pos ht, List.filter_nil, List.length_singleton]
      omega
    · rw [List.filter_cons_of_neg ht, List.filter_nil, List.length_nil]
      exact ih h.left hbefore

variable [IsOrderedAddMonoid α]

theorem Spaced.length_Ioc_le (h : Spaced max window instants) (sorted : instants.Pairwise (· ≤ ·)) (a : α) :
    (instants.filter fun t => a < t ∧ t ≤ a + window).length ≤ max := by
  apply h.length_filter_le sorted
  intro s t hs ht _
  obtain ⟨hs, -⟩ := of_decide_eq_true hs
  obtain ⟨-, ht⟩ := of_decide_eq_true ht
  exact (sub_le_iff_le_add.mpr ht).trans_lt hs

theorem Spaced.length_Ico_le (h : Spaced max window instants) (sorted : instants.Pairwise (· ≤ ·)) (a : α) :
    (instants.filter fun t => a ≤ t ∧ t < a + window).length ≤ max := by
  apply h.length_filter_le sorted
  intro s t hs ht _
  obtain ⟨hs, -⟩ := of_decide_eq_true hs
  obtain ⟨-, ht⟩ := of_decide_eq_true ht
  exact (sub_lt_iff_lt_add.mpr ht).trans_le hs

end Windows
