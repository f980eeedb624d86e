import FileGuard.Audit.Log

/-! The scan finds the last entries of a log, however its reader buffers it. -/

namespace FileGuard.Audit

open Store Framing

variable {fromSlice : Bytes → Option AccessLogEntry} {limit : ℕ} {seen : Bytes} {s : Scan}

@[simp] theorem parseable_nil : parseable fromSlice [] = [] := rfl

@[simp] theorem parseable_append (a b : List Bytes) :
    parseable fromSlice (a ++ b) = parseable fromSlice a ++ parseable fromSlice b := by
  simp only [parseable, List.filter_append, List.filterMap_append]

theorem parseable_singleton (line : Bytes) : parseable fromSlice [line] =
    if line.length ≤ maxAuditLineBytes then (fromSlice line).toList else [] := by
  by_cases h : line.length ≤ maxAuditLineBytes
  · cases hentry : fromSlice line <;> simp [parseable, h, hentry]
  · simp [parseable, h]

theorem Scan.push_rtake (hlimit : 0 < limit) (entries : List AccessLogEntry) (entry : AccessLogEntry) :
    Scan.push limit (entries.rtake limit) entry = (entries ++ [entry]).rtake limit := by
  obtain ⟨k, rfl⟩ : ∃ k, limit = k + 1 := ⟨limit - 1, by omega⟩
  rw [List.rtake_concat_succ, Scan.push]
  congr 1
  simp only [List.rtake, List.length_drop]
  split_ifs with hfull
  · rw [List.drop_drop]
    congr 1
    omega
  · congr 1
    omega

@[simp] theorem Scan.extend_consumed (s : Scan) (segment : Bytes) :
    (s.extend segment).consumed = s.consumed := by
  rw [Scan.extend]
  split_ifs <;> rfl

variable (fromSlice limit seen s) in
/-- What the variables of the scan hold once it has gone over some bytes. -/
structure Scan.Reads : Prop where
  recent : s.recent = (parseable fromSlice (records newline [] seen)).rtake limit
  discarding : s.discarding = decide (maxAuditLineBytes < (unfinished newline [] seen).length)
  line : s.line = if s.discarding then [] else unfinished newline [] seen
  completeOffset : s.completeOffset = boundary newline seen

namespace Scan.Reads

theorem start : Scan.Reads fromSlice limit [] ⟨[], [], false, 0, 0⟩ :=
  ⟨(List.rtake_nil limit).symm, rfl, rfl, rfl⟩

theorem consume (h : Scan.Reads fromSlice limit seen s) (consumed : ℕ) :
    Scan.Reads fromSlice limit seen { s with consumed := consumed } := ⟨h.1, h.2, h.3, h.4⟩

theorem extend (h : Scan.Reads fromSlice limit seen s) {segment : Bytes} (hsegment : newline ∉ segment) :
    Scan.Reads fromSlice limit (seen ++ segment) (s.extend segment) := by
  obtain ⟨hrecent, hdiscarding, hline, hoffset⟩ := h
  have hrecords : records newline [] (seen ++ segment) = records newline [] seen := by
    rw [records_append, records_of_notMem hsegment, List.append_nil]
  have hrest : unfinished newline [] (seen ++ segment) = unfinished newline [] seen ++ segment := by
    rw [unfinished_append, unfinished_of_notMem hsegment]
  have hboundary := boundary_append_of_notMem (s := seen) hsegment
  rw [Scan.extend]
  cases hd : s.discarding
  · rw [hd, if_neg Bool.false_ne_true] at hline
    rw [hd, eq_comm, decide_eq_false_iff_not, not_lt] at hdiscarding
    rw [if_neg Bool.false_ne_true]
    split_ifs with hfits
    · rw [hline] at hfits
      refine ⟨by rw [hrecords, hrecent], ?_, by rw [hrest, hline]; rfl, by rw [hboundary, hoffset]⟩
      rw [hrest, List.length_append, eq_comm, decide_eq_false_iff_not]
      omega
    · rw [hline] at hfits
      refine ⟨by rw [hrecords, hrecent], ?_, rfl, by rw [hboundary, hoffset]⟩
      rw [hrest, List.length_append, eq_comm, decide_eq_true_iff]
      omega
  · rw [hd, if_pos rfl] at hline
    rw [hd, eq_comm, decide_eq_true_iff] at hdiscarding
    rw [if_pos rfl]
    refine ⟨by rw [hrecords, hrecent], ?_, by rw [hline, hd]; rfl, by rw [hboundary, hoffset]⟩
    rw [hd, hrest, List.length_append, eq_comm, decide_eq_true_iff]
    omega

theorem endLine (h : Scan.Reads fromSlice limit seen s) :
    Scan.Reads fromSlice limit (seen ++ [newline]) (s.endLine fromSlice limit (seen.length + 1)) := by
  obtain ⟨hrecent, hdiscarding, hline, -⟩ := h
  have hwhole : unfinished newline [] (seen ++ [newline]) = [] := whole_sep
  refine ⟨?_, by rw [hwhole]; rfl, by rw [hwhole]; rfl, ?_⟩
  · have hrecords : records newline [] (seen ++ [newline]) =
        records newline [] seen ++ [unfinished newline [] seen] := by
      rw [records_append, records_sep, records_nil]
    rw [hrecords, parseable_append, parseable_singleton, Scan.endLine]
    cases hd : s.discarding
    · rw [hd, if_neg Bool.false_ne_true] at hline
      rw [hd, eq_comm, decide_eq_false_iff_not, not_lt] at hdiscarding
      rw [if_pos hdiscarding, if_neg Bool.false_ne_true, hline, hrecent]
      cases fromSlice (unfinished newline [] seen) with
      | none => rw [Option.toList_none, List.append_nil]
      | some entry =>
        dsimp only
        split_ifs with hlimit
        · exact push_rtake hlimit _ _
        · rw [Nat.eq_zero_of_not_pos hlimit, List.rtake_zero, List.rtake_zero]
    · rw [hd, eq_comm, decide_eq_true_iff] at hdiscarding
      rw [if_neg (not_le.mpr hdiscarding), if_pos rfl, List.append_nil]
      exact hrecent
  · rw [Whole.boundary_eq whole_sep, List.length_append]
    rfl

theorem scanBuffer {before available : Bytes} {position : ℕ} (hconsumed : s.consumed = before.length)
    (hposition : position ≤ available.length)
    (h : Scan.Reads fromSlice limit (before ++ available.take position) s) :
    Scan.Reads fromSlice limit (before ++ available) (scanBuffer fromSlice limit available position s) := by
  induction hn : available.length - position using Nat.strong_induction_on generalizing position s with
  | _ n ih =>
    rw [Audit.scanBuffer]
    split_ifs with hmore
    · dsimp only
      cases hfind : (available.drop position).findIdx? (· == newline) with
      | none =>
        have hnewline : newline ∉ available.drop position := by
          intro hmem
          simpa using List.findIdx?_eq_none_iff.mp hfind newline hmem
        have hread := h.extend hnewline
        rw [List.append_assoc, List.take_append_drop] at hread
        rw [List.length_drop, Nat.add_sub_cancel' hmore.le, Audit.scanBuffer, if_neg (lt_irrefl _)]
        exact hread
      | some segmentLen =>
        obtain ⟨hlt, hat, hbefore⟩ := List.findIdx?_eq_some_iff_getElem.mp hfind
        have hnewline : newline ∉ (available.drop position).take segmentLen := by
          intro hmem
          obtain ⟨i, hi, hget⟩ := List.getElem_of_mem hmem
          rw [List.length_take] at hi
          rw [List.getElem_take] at hget
          simpa [hget] using hbefore i (by omega)
        have hline : (available.drop position).take (segmentLen + 1) =
            (available.drop position).take segmentLen ++ [newline] := by
          rw [List.take_succ_eq_append_getElem hlt, eq_of_beq hat]
        rw [List.length_drop] at hlt
        have hread := (h.extend hnewline).endLine
        rw [List.append_assoc, List.append_assoc, List.append_assoc, ← hline, ← List.take_add, ← Nat.add_assoc] at hread
        refine ih _ ?_ ?_ ?_ ?_ rfl
        · omega
        · exact (Scan.extend_consumed _ _).trans hconsumed
        · omega
        · convert hread using 2
          simp only [List.length_append, List.length_take, List.length_drop, hconsumed]
          omega
    · rw [List.take_of_length_le (by omega)] at h
      exact h

theorem scanBuffers {buffers : List Bytes} (hbuffers : [] ∉ buffers) (hconsumed : s.consumed = seen.length)
    (h : Scan.Reads fromSlice limit seen s) :
    Scan.Reads fromSlice limit (seen ++ buffers.flatten) (scanBuffers fromSlice limit buffers s) := by
  induction buffers generalizing seen s with
  | nil =>
    rw [List.flatten_nil, List.append_nil]
    exact h
  | cons available rest ih =>
    rw [List.mem_cons, not_or] at hbuffers
    have hread : Scan.Reads fromSlice limit (seen ++ available) (Audit.scanBuffer fromSlice limit available 0 s) :=
      scanBuffer hconsumed (Nat.zero_le _) (by simpa using h)
    rw [Audit.scanBuffers, if_neg (by simpa using Ne.symm hbuffers.1), List.flatten_cons, ← List.append_assoc]
    exact ih hbuffers.2 (by rw [List.length_append, hconsumed]) (hread.consume _)

end Scan.Reads

/-- Whatever the buffers, the scan keeps the last entries and stops past the last newline. -/
theorem scanRecent_eq {grants : ℕ → Bool} {buffers : List Bytes} (hbuffers : [] ∉ buffers)
    (hgranted : withCapacity grants limit = true) :
    scanRecent fromSlice grants buffers limit =
      some ((parseable fromSlice (records newline [] buffers.flatten)).rtake limit, boundary newline buffers.flatten) := by
  have hstart : Scan.Reads fromSlice limit [] ⟨[], [], false, 0, 0⟩ := Scan.Reads.start
  have h := hstart.scanBuffers hbuffers rfl
  rw [scanRecent, if_pos hgranted]
  dsimp only
  rw [h.recent, h.completeOffset, List.nil_append]

theorem scanRecent_refused {grants : ℕ → Bool} {buffers : List Bytes} (hrefused : withCapacity grants limit ≠ true) :
    scanRecent fromSlice grants buffers limit = none := if_neg hrefused

end FileGuard.Audit
