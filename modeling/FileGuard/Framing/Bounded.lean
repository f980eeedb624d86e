import Mathlib.Data.List.Basic
import Mathlib.Data.List.Induction

/-! One line read from a stream that arrives in pieces, by a reader that holds no more than a limit. -/

namespace Framing

variable {α : Type} [DecidableEq α] {sep : α} {s t : List α}

variable (sep) in
/-- A list through the first separator in it. -/
def upTo (s : List α) : List α := s.take (s.idxOf sep + 1)

theorem upTo_of_notMem (h : sep ∉ s) : upTo sep s = s := by
  apply List.take_of_length_le
  rw [List.idxOf_of_notMem h]
  omega

theorem upTo_append_of_mem (h : sep ∈ s) : upTo sep (s ++ t) = upTo sep s := by
  have hlt := List.idxOf_lt_length_iff.mpr h
  rw [upTo, upTo, List.idxOf_append_of_mem h, List.take_append_of_le_length (by omega)]

theorem upTo_append_of_notMem (h : sep ∉ s) : upTo sep (s ++ t) = s ++ upTo sep t := by
  rw [upTo, upTo, List.idxOf_append_of_notMem h, Nat.add_assoc, List.take_length_add_append]

theorem upTo_line (h : sep ∉ s) : upTo sep (s ++ sep :: t) = s ++ [sep] := by
  rw [upTo_append_of_notMem h, upTo, List.idxOf_cons_self]
  rfl

theorem upTo_eq_nil : upTo sep s = [] ↔ s = [] := by simp [upTo]

variable (sep) in
theorem length_upTo_le (s : List α) : (upTo sep s).length ≤ s.length := List.length_take_le' _ _

/-- A reader between two reads: what it holds, what it may still take, and whether it has stopped. -/
structure LineReader (α : Type) where
  held : List α
  remaining : ℕ
  done : Bool

namespace LineReader

variable {limit : ℕ} {r : LineReader α}

def start (limit : ℕ) : LineReader α := ⟨[], limit, false⟩

variable (sep) in
/-- One read: of what the limit leaves of it, all through the first separator is taken. -/
def feed (r : LineReader α) (read : List α) : LineReader α :=
  if r.done then r
  else
    let available := read.take r.remaining
    let used := upTo sep available
    ⟨r.held ++ used, r.remaining - used.length, decide (sep ∈ available) || used.isEmpty⟩

variable (sep) in
def run (r : LineReader α) (reads : List (List α)) : LineReader α := reads.foldl (feed sep) r

theorem run_concat (reads : List (List α)) (read : List α) :
    r.run sep (reads ++ [read]) = (r.run sep reads).feed sep read := List.foldl_concat ..

theorem feed_of_done (h : r.done = true) (read : List α) : r.feed sep read = r := if_pos h

theorem feed_of_not_done (h : ¬r.done = true) (read : List α) :
    r.feed sep read = ⟨r.held ++ upTo sep (read.take r.remaining), r.remaining - (upTo sep (read.take r.remaining)).length,
      decide (sep ∈ read.take r.remaining) || (upTo sep (read.take r.remaining)).isEmpty⟩ := if_neg h

theorem length_held_feed (read : List α) (h : r.held.length + r.remaining = limit) :
    (r.feed sep read).held.length + (r.feed sep read).remaining = limit := by
  by_cases hdone : r.done = true
  · rw [feed_of_done hdone, h]
  · have hused := length_upTo_le sep (read.take r.remaining)
    rw [List.length_take] at hused
    rw [feed_of_not_done hdone]
    dsimp only
    rw [List.length_append]
    omega

variable (sep) in
theorem length_held_add (limit : ℕ) (reads : List (List α)) :
    ((start limit).run sep reads).held.length + ((start limit).run sep reads).remaining = limit := by
  induction reads using List.reverseRecOn with
  | nil => exact Nat.zero_add limit
  | append_singleton reads read ih =>
    rw [run_concat]
    exact length_held_feed read ih

/-- At no moment more is held than the limit, however the reads come. -/
theorem length_held_le (limit : ℕ) (reads : List (List α)) : ((start limit).run sep reads).held.length ≤ limit :=
  Nat.le.intro (length_held_add sep limit reads)

variable (sep) in
/-- A reader that was given this much of the input. -/
structure Holds (limit : ℕ) (input : List α) (r : LineReader α) : Prop where
  held_eq : r.held = upTo sep (input.take limit)
  done_of_mem : sep ∈ input.take limit → r.done = true
  of_done : r.done = true → sep ∈ input.take limit ∨ limit ≤ input.length

theorem Holds.start : Holds sep limit [] (start limit) where
  held_eq := by simp [LineReader.start, upTo]
  done_of_mem h := by simp at h
  of_done h := by simp [LineReader.start] at h

theorem Holds.feed {input read : List α} (h : Holds sep limit input r) (hadd : r.held.length + r.remaining = limit)
    (hread : read ≠ []) : Holds sep limit (input ++ read) (r.feed sep read) := by
  have htake : (input ++ read).take limit = input.take limit ++ read.take (limit - input.length) := List.take_append
  by_cases hdone : r.done = true
  · rw [feed_of_done hdone]
    have hstop := h.of_done hdone
    refine ⟨?_, fun _ => hdone, fun _ => ?_⟩
    · rcases hstop with hmem | hfull
      · rw [h.held_eq, htake, upTo_append_of_mem hmem]
      · rw [h.held_eq, List.take_append_of_le_length hfull]
    · rw [htake, List.length_append]
      exact hstop.imp (List.mem_append_left _) Nat.le_add_right_of_le
  · have hmem : sep ∉ input.take limit := fun hmem => hdone (h.done_of_mem hmem)
    have hheld : r.held = input.take limit := h.held_eq.trans (upTo_of_notMem hmem)
    have hremaining : r.remaining = limit - input.length := by
      rw [hheld, List.length_take] at hadd
      omega
    rw [feed_of_not_done hdone, hremaining]
    refine ⟨?_, fun hin => ?_, fun hstop => ?_⟩
    · rw [htake, upTo_append_of_notMem hmem, hheld]
    · rw [htake, List.mem_append] at hin
      simp [hin.resolve_left hmem]
    · rw [htake, List.mem_append, List.length_append]
      rcases Bool.or_eq_true_iff.mp hstop with hin | hnone
      · exact Or.inl (Or.inr (of_decide_eq_true hin))
      · -- nothing was taken of a read that offers something: the limit is used up
        rw [List.isEmpty_iff, upTo_eq_nil, List.take_eq_nil_iff] at hnone
        have hfull := hnone.resolve_right hread
        omega

theorem Holds.run {reads : List (List α)} (hreads : ∀ read ∈ reads, read ≠ []) :
    Holds sep limit reads.flatten ((LineReader.start limit).run sep reads) := by
  induction reads using List.reverseRecOn with
  | nil => exact Holds.start
  | append_singleton reads read ih =>
    have hbefore := ih fun read hread => hreads read (List.mem_append_left _ hread)
    rw [run_concat, List.flatten_concat]
    exact hbefore.feed (length_held_add sep limit reads) (hreads read (List.mem_append_right _ (List.mem_singleton_self read)))

end LineReader

/-- What a peer sends until it closes the stream, or until a read fails. -/
structure Incoming (α ε : Type) where
  reads : List (List α)
  failure : Option ε
  /-- Only the end of a stream answers a read with nothing. -/
  reads_ne_nil : ∀ read ∈ reads, read ≠ []

namespace Incoming

variable {ε : Type}

def input (stream : Incoming α ε) : List α := stream.reads.flatten

variable (sep) in
/-- Everything through the first separator, or through the limit, or up to the end of the stream. -/
def readLine (limit : ℕ) (stream : Incoming α ε) : Except ε (List α) :=
  let r := (LineReader.start limit).run sep stream.reads
  if r.done || r.remaining == 0 then .ok r.held
  else match stream.failure with
    | none => .ok r.held
    | some error => .error error

variable {limit : ℕ} {stream : Incoming α ε}

variable (sep) in
theorem holds_run (stream : Incoming α ε) (limit : ℕ) :
    LineReader.Holds sep limit stream.input ((LineReader.start limit).run sep stream.reads) :=
  LineReader.Holds.run stream.reads_ne_nil

theorem readLine_of_stop (h : sep ∈ stream.input.take limit ∨ limit ≤ stream.input.length) :
    stream.readLine sep limit = .ok (upTo sep (stream.input.take limit)) := by
  have hholds := stream.holds_run sep limit
  rw [← hholds.held_eq]
  apply if_pos
  rw [Bool.or_eq_true_iff, beq_iff_eq]
  by_cases hmem : sep ∈ stream.input.take limit
  · exact Or.inl (hholds.done_of_mem hmem)
  · have hadd := LineReader.length_held_add sep limit stream.reads
    have hfull := h.resolve_left hmem
    rw [hholds.held_eq, upTo_of_notMem hmem, List.length_take] at hadd
    omega

theorem readLine_of_not_stop (hmem : sep ∉ stream.input) (hlen : stream.input.length < limit) :
    stream.readLine sep limit = match stream.failure with
      | none => .ok stream.input
      | some error => .error error := by
  have htake : stream.input.take limit = stream.input := List.take_of_length_le (Nat.le_of_lt hlen)
  have hholds := stream.holds_run sep limit
  have hheld := hholds.held_eq
  rw [htake, upTo_of_notMem hmem] at hheld
  have hgoes : ¬(((LineReader.start limit).run sep stream.reads).done ||
      ((LineReader.start limit).run sep stream.reads).remaining == 0) = true := by
    rw [Bool.or_eq_true_iff, beq_iff_eq, not_or]
    constructor
    · intro hdone
      rcases hholds.of_done hdone with hin | hfull
      · exact hmem (htake ▸ hin)
      · omega
    · have hadd := LineReader.length_held_add sep limit stream.reads
      rw [hheld] at hadd
      omega
  rw [readLine, if_neg hgoes, hheld]

/-- The first line of a stream is read whatever follows it, as long as it keeps the limit. -/
theorem readLine_of_line {line rest : List α} (hinput : stream.input = line ++ sep :: rest) (hline : sep ∉ line)
    (hlen : line.length < limit) : stream.readLine sep limit = .ok (line ++ [sep]) := by
  have htake : stream.input.take limit = line ++ sep :: rest.take (limit - line.length - 1) := by
    rw [hinput, List.take_append, List.take_of_length_le (Nat.le_of_lt hlen)]
    obtain ⟨k, hk⟩ : ∃ k, limit - line.length = k + 1 := ⟨limit - line.length - 1, by omega⟩
    rw [hk, List.take_succ_cons, Nat.add_sub_cancel]
  rw [readLine_of_stop (Or.inl (by simp [htake])), htake, upTo_line hline]

/-- A stream whose first line does not end within the limit gives nothing that ends with the separator. -/
theorem readLine_of_notMem (hmem : sep ∉ stream.input.take limit) {held : List α}
    (h : stream.readLine sep limit = .ok held) : sep ∉ held ∧ (limit ≤ stream.input.length → held.length = limit) := by
  by_cases hfull : limit ≤ stream.input.length
  · rw [readLine_of_stop (Or.inr hfull), upTo_of_notMem hmem] at h
    cases h
    exact ⟨hmem, fun _ => List.length_take_of_le hfull⟩
  · have hlt : stream.input.length < limit := Nat.lt_of_not_le hfull
    rw [List.take_of_length_le (Nat.le_of_lt hlt)] at hmem
    rw [readLine_of_not_stop hmem hlt] at h
    cases hend : stream.failure with
    | none =>
      rw [hend] at h
      cases h
      exact ⟨hmem, fun hge => absurd hge hfull⟩
    | some error =>
      rw [hend] at h
      cases h

end Incoming

end Framing
