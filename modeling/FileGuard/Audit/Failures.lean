import FileGuard.Audit.Rotation

/-! Appends that fail part of the way, and what the readers find of the others. -/

namespace FileGuard.Audit

open Store Framing

section

variable (toVec : AccessLogEntry → Bytes) (fromSlice : Bytes → Option AccessLogEntry)

/-- A call of `append_entry` that fails or crashes has opened the log, and written a part of its line, or not. -/
inductive Call where
  | append (entry : AccessLogEntry)
  | fail (entry : AccessLogEntry) (written : Option ℕ)
  | poll
deriving DecidableEq, Repr

/-- `append_entry` with nothing between its open and its write. -/
def appendEntry (log : LogFiles) (entry : AccessLogEntry) : Except String LogFiles :=
  (openEntry toVec log entry).map fun (file, log) => writeEntry toVec log file entry

def failedAppend (log : LogFiles) (entry : AccessLogEntry) (written : Option ℕ) : LogFiles :=
  if maxAuditLineBytes < (toVec entry).length then log
  else written.elim log fun count => log.append ((toVec entry).take count)

/-- The entries whose `append_entry` returns `Ok`. -/
def Call.appended : Call → List AccessLogEntry
  | .append entry => if maxAuditLineBytes < (toVec entry).length then [] else [entry]
  | _ => []

namespace Follower

def call (f : Follower) : Call → Follower
  | .append entry =>
    match appendEntry toVec f.log entry with
    | .ok log => { f with log := log }
    | .error _ => f
  | .fail entry written => { f with log := failedAppend toVec f.log entry written }
  | .poll => f.step fromSlice (.poll maxLogReadBytes)

def calls (f : Follower) (cs : List Call) : Follower := cs.foldl (call toVec fromSlice) f

end Follower

/-- What failed calls leave behind, one after the other. -/
inductive Leftover : Bytes → Prop where
  | none : Leftover []
  | more {left : Bytes} (h : Leftover left) (entry : AccessLogEntry) (count : ℕ) :
    Leftover (left ++ (toVec entry).take count)

/-- An append that succeeds starts on a line of its own. -/
def Call.Starts (log : LogFiles) : Call → Prop
  | .append entry => (toVec entry).length ≤ maxAuditLineBytes → Whole newline log.bytes
  | _ => True

/-- The line a call writes at has no line break in it. -/
def Call.Clean : Call → Prop
  | .append entry | .fail entry _ => newline ∉ toVec entry
  | .poll => True

end

variable {toVec : AccessLogEntry → Bytes} {fromSlice : Bytes → Option AccessLogEntry}
  {lines : List Bytes} {f : Follower} {c : Call}

namespace Follower

theorem calls_append (f : Follower) (a b : List Call) :
    f.calls toVec fromSlice (a ++ b) = (f.calls toVec fromSlice a).calls toVec fromSlice b :=
  List.foldl_append

variable (fromSlice) in
theorem call_append (f : Follower) {entry : AccessLogEntry} (hlength : (toVec entry).length ≤ maxAuditLineBytes) :
    Call.appended toVec (.append entry) = [entry] ∧
      f.call toVec fromSlice (.append entry) = f.step fromSlice (.append (toVec entry ++ [newline])) := by
  rw [call, appendEntry, openEntry, Call.appended, if_neg (not_lt.mpr hlength), if_neg (not_lt.mpr hlength)]
  exact ⟨rfl, rfl⟩

variable (fromSlice) in
theorem call_cases (f : Follower) (c : Call) (hclean : c.Clean toVec) :
    (f.call toVec fromSlice c = f ∧ c.appended toVec = []) ∨
      (∃ entry, c = .append entry ∧ (toVec entry).length ≤ maxAuditLineBytes ∧ c.appended toVec = [entry] ∧
        f.call toVec fromSlice c = f.step fromSlice (.append (toVec entry ++ [newline]))) ∨
      (∃ entry count, newline ∉ (toVec entry).take count ∧ c.appended toVec = [] ∧
        f.call toVec fromSlice c = f.step fromSlice (.append ((toVec entry).take count))) ∨
      f.call toVec fromSlice c = f.step fromSlice (.poll maxLogReadBytes) ∧ c.appended toVec = [] := by
  cases c with
  | append entry =>
    by_cases hlarge : maxAuditLineBytes < (toVec entry).length
    · rw [call, appendEntry, openEntry, Call.appended, if_pos hlarge, if_pos hlarge]
      exact .inl ⟨rfl, rfl⟩
    · exact .inr (.inl ⟨entry, rfl, not_lt.mp hlarge, f.call_append fromSlice (not_lt.mp hlarge)⟩)
  | fail entry written =>
    rw [call, failedAppend]
    by_cases hlarge : maxAuditLineBytes < (toVec entry).length
    · rw [if_pos hlarge]
      exact .inl ⟨rfl, rfl⟩
    · rw [if_neg hlarge]
      cases written with
      | none => exact .inl ⟨rfl, rfl⟩
      | some count =>
        exact .inr (.inr (.inl ⟨entry, count, fun hmem => hclean (List.mem_of_mem_take hmem), rfl, rfl⟩))
  | poll => exact .inr (.inr (.inr ⟨rfl, rfl⟩))

theorem log_poll (f : Follower) (maxBytes : ℕ) : (f.step fromSlice (.poll maxBytes)).log = f.log := rfl

def answered (f : Follower) : Follower := { f with updates := f.updates.filter Except.isOk }

theorem delivered_answered (f : Follower) : f.answered.delivered = f.delivered := by
  rw [delivered, delivered, answered]
  induction f.updates with
  | nil => rfl
  | cons update updates ih =>
    cases update with
    | ok batch => rw [List.filter_cons_of_pos rfl, List.flatMap_cons, List.flatMap_cons, ih]
    | error message => rw [List.filter_cons_of_neg Bool.false_ne_true, List.flatMap_cons, ih]; rfl

@[simp] theorem log_answered (f : Follower) : f.answered.log = f.log := rfl

@[simp] theorem unread_answered (f : Follower) : f.answered.unread = f.unread := rfl

end Follower

namespace Follows

theorem short (h : Follows fromSlice lines f) {maxBytes : ℕ} (hlines : ∀ line ∈ lines, line.length < maxBytes) :
    ∀ line ∈ records newline [] f.unread, line.length < maxBytes := by
  obtain ⟨read, hread, -⟩ := h.read
  intro line hline
  exact hlines line (hread ▸ List.mem_append_right _ hline)

/-- A read passes whole records, one at least where there is one that it can hold, even if it ends in an error. -/
theorem pollAnswered (hnil : fromSlice [] = none) (h : Follows fromSlice lines f.answered) {maxBytes : ℕ}
    (hpositive : 0 < maxBytes) :
    let g := f.step fromSlice (.poll maxBytes)
    Follows fromSlice lines g.answered ∧ ((∀ line ∈ lines, line.length < maxBytes) →
      (records newline [] g.unread).length ≤ (records newline [] f.unread).length - 1) := by
  obtain ⟨piece, rest, update, cursor, htakes, hread, hcursor, hrest, hwhole⟩ := h.read_reads hnil hpositive
  have hread' : readNew fromSlice f.log f.cursor maxBytes = (update, cursor) := hread
  have hrest' : Follower.unread { f with cursor := cursor } = rest := hrest
  have hunread : f.unread = piece ++ rest := htakes.split
  rw [Follower.step, hread']
  constructor
  · have hkept : Follower.answered { f with cursor := cursor, updates := f.updates ++ [update] } =
        { f.answered with cursor := cursor, updates := f.answered.updates ++ [update].filter Except.isOk } := by
      rw [Follower.answered, List.filter_append]
      rfl
    rw [hkept]
    apply h.advance htakes.split htakes.whole (hcursor.imp_left And.right) hrest hwhole
    · exact fun answer hanswer => (List.mem_filter.mp hanswer).2
    · rcases htakes.answer with rfl | ⟨rfl, herror⟩
      · exact List.append_nil _
      · rw [List.filter_cons_of_neg (by simp [herror])]
        rfl
  · intro hlines
    rw [show Follower.unread { f with cursor := cursor, updates := f.updates ++ [update] } = rest from hrest', hunread,
      htakes.whole.records_append, List.length_append]
    by_cases hempty : records newline [] piece = []
    · have hpieceNil : piece = [] := by
        rw [← htakes.whole, unfinished_of_notMem (records_eq_nil.mp hempty), List.nil_append]
      rw [htakes.advances (h.short hlines) hpieceNil]
      exact Nat.zero_le _
    · have := List.length_pos_iff.mpr hempty
      omega

theorem call (hnil : fromSlice [] = none) (h : Follows fromSlice lines f.answered)
    (hclean : c.Clean toVec) (hstart : c.Starts toVec f.log) :
    Follows fromSlice (lines ++ (c.appended toVec).map toVec) (f.call toVec fromSlice c).answered := by
  rcases f.call_cases fromSlice c hclean with ⟨hcall, hnone⟩ | ⟨entry, rfl, hlength, hone, hcall⟩ |
    ⟨entry, count, hpiece, hnone, hcall⟩ | ⟨hcall, hnone⟩
  · rw [hcall, hnone, List.map_nil, List.append_nil]
    exact h
  · have harrived : f.answered.completed (.append (toVec entry ++ [newline])) = [toVec entry] := by
      rw [Follower.completed, Follower.log_answered, hstart hlength, records_line hclean, records_nil, List.nil_append]
    rw [hcall, hone, List.map_singleton, ← harrived]
    exact h.append _
  · have harrived : f.answered.completed (.append ((toVec entry).take count)) = [] := records_of_notMem hpiece
    rw [hcall, hnone, List.map_nil, ← harrived]
    exact h.append _
  · rw [hcall, hnone, List.map_nil, List.append_nil]
    exact (h.pollAnswered hnil (by decide)).1

end Follows

theorem Call.mem_appended {cs : List Call} {entry : AccessLogEntry} (h : entry ∈ cs.flatMap (Call.appended toVec)) :
    .append entry ∈ cs ∧ (toVec entry).length ≤ maxAuditLineBytes := by
  obtain ⟨c, hc, hadded⟩ := List.mem_flatMap.mp h
  cases c with
  | append entry' =>
    rw [Call.appended] at hadded
    split_ifs at hadded with hlarge
    · cases hadded
    · rw [List.mem_singleton] at hadded
      exact ⟨hadded ▸ hc, hadded ▸ not_lt.mp hlarge⟩
  | fail => cases hadded
  | poll => cases hadded

theorem appended_short {cs : List Call} : ∀ line ∈ (cs.flatMap (Call.appended toVec)).map toVec,
    line.length < maxLogReadBytes := by
  intro line hline
  obtain ⟨entry, hentry, rfl⟩ := List.mem_map.mp hline
  exact (Call.mem_appended hentry).2.trans_lt (by decide)

theorem Follows.calls (hnil : fromSlice [] = none) (before cs : List Call)
    (h : Follows fromSlice ((before.flatMap (Call.appended toVec)).map toVec) f.answered)
    (hclean : ∀ c ∈ cs, c.Clean toVec)
    (hstarts : ∀ earlier c later, cs = earlier ++ c :: later → c.Starts toVec (f.calls toVec fromSlice earlier).log) :
    Follows fromSlice (((before ++ cs).flatMap (Call.appended toVec)).map toVec)
      (f.calls toVec fromSlice cs).answered := by
  induction cs generalizing before f with
  | nil => simpa [Follower.calls] using h
  | cons c cs ih =>
    have hnext := h.call hnil (hclean c List.mem_cons_self) (hstarts [] c cs rfl)
    have hone : (before.flatMap (Call.appended toVec)).map toVec ++ (c.appended toVec).map toVec =
        ((before ++ [c]).flatMap (Call.appended toVec)).map toVec := by simp
    rw [hone] at hnext
    rw [List.append_cons]
    exact ih (before ++ [c]) hnext (fun c hc => hclean c (List.mem_cons_of_mem _ hc))
      fun earlier c' later hsplit => hstarts (c :: earlier) c' later (by rw [hsplit, List.cons_append])

theorem records_calls (cs : List Call) (hclean : ∀ c ∈ cs, c.Clean toVec)
    (hstarts : ∀ earlier c later, cs = earlier ++ c :: later → c.Starts toVec (f.calls toVec fromSlice earlier).log) :
    records newline [] (f.calls toVec fromSlice cs).log.bytes =
      records newline [] f.log.bytes ++ (cs.flatMap (Call.appended toVec)).map toVec := by
  induction cs generalizing f with
  | nil => simp [Follower.calls]
  | cons c cs ih =>
    have hfirst : records newline [] (f.call toVec fromSlice c).log.bytes =
        records newline [] f.log.bytes ++ (c.appended toVec).map toVec := by
      rcases f.call_cases fromSlice c (hclean c List.mem_cons_self) with ⟨hcall, hnone⟩ | ⟨entry, rfl, hlength, hone, hcall⟩ |
        ⟨entry, count, hpiece, hnone, hcall⟩ | ⟨hcall, hnone⟩
      · rw [hcall, hnone, List.map_nil, List.append_nil]
      · have hwhole : Whole newline f.log.bytes := hstarts [] _ cs rfl hlength
        have hline : newline ∉ toVec entry := hclean _ List.mem_cons_self
        rw [hcall, hone, Follower.step, LogFiles.bytes_append, hwhole.records_append, records_line hline]
        rfl
      · rw [hcall, hnone, Follower.step, LogFiles.bytes_append, records_append, records_of_notMem hpiece]
        rfl
      · rw [hcall, hnone, Follower.log_poll, List.map_nil, List.append_nil]
    have hrest := ih (f := f.call toVec fromSlice c) (fun c hc => hclean c (List.mem_cons_of_mem _ hc))
      fun earlier c' later hsplit => hstarts (c :: earlier) c' later (by rw [hsplit, List.cons_append])
    rw [List.flatMap_cons, List.map_append, ← List.append_assoc, ← hfirst]
    exact hrest

theorem leftover_calls (cs : List Call) (hclean : ∀ c ∈ cs, c.Clean toVec)
    (h : Leftover toVec (unfinished newline [] f.log.bytes)) :
    Leftover toVec (unfinished newline [] (f.calls toVec fromSlice cs).log.bytes) := by
  induction cs generalizing f with
  | nil => exact h
  | cons c cs ih =>
    apply ih fun c hc => hclean c (List.mem_cons_of_mem _ hc)
    rcases f.call_cases fromSlice c (hclean c List.mem_cons_self) with ⟨hcall, -⟩ | ⟨entry, -, -, -, hcall⟩ |
      ⟨entry, count, hpiece, -, hcall⟩ | ⟨hcall, -⟩
    · rw [hcall]
      exact h
    · rw [hcall, Follower.step, LogFiles.bytes_append, ← List.append_assoc, unfinished_append, unfinished_sep]
      exact .none
    · rw [hcall, Follower.step, LogFiles.bytes_append, unfinished_append, unfinished_of_notMem hpiece]
      exact h.more entry count
    · rw [hcall]
      exact h

theorem Follower.calls_poll_succ (f : Follower) (polls : ℕ) :
    f.calls toVec fromSlice (List.replicate (polls + 1) .poll) =
      (f.calls toVec fromSlice (List.replicate polls .poll)).step fromSlice (.poll maxLogReadBytes) := by
  rw [List.replicate_succ', calls_append]
  rfl

theorem Follows.reaches (hnil : fromSlice [] = none) (h : Follows fromSlice lines f.answered) (polls : ℕ) :
    let g := f.calls toVec fromSlice (List.replicate polls .poll)
    Follows fromSlice lines g.answered ∧ ((∀ line ∈ lines, line.length < maxLogReadBytes) →
      (records newline [] g.unread).length ≤ (records newline [] f.unread).length - polls) := by
  induction polls with
  | zero => exact ⟨h, fun _ => le_rfl⟩
  | succ polls ih =>
    obtain ⟨hpolled, hprogress⟩ := ih
    obtain ⟨hnext, hfewer⟩ := hpolled.pollAnswered hnil (by decide : 0 < maxLogReadBytes)
    rw [Follower.calls_poll_succ]
    refine ⟨hnext, fun hlines => (hfewer hlines).trans ?_⟩
    have := hprogress hlines
    omega

theorem parseable_calls {cs : List Call} (hround : ∀ entry, .append entry ∈ cs → fromSlice (toVec entry) = some entry) :
    parseable fromSlice ((cs.flatMap (Call.appended toVec)).map toVec) = cs.flatMap (Call.appended toVec) :=
  parseable_map fun entry hentry =>
    ⟨(Call.mem_appended hentry).2, hround entry (Call.mem_appended hentry).1⟩

theorem Follower.log_call_congr {f g : Follower} (h : f.log = g.log) (c : Call) :
    (f.call toVec fromSlice c).log = (g.call toVec fromSlice c).log := by
  cases c with
  | append entry =>
    rw [call, call, h]
    cases appendEntry toVec g.log entry with
    | ok log => rfl
    | error message => exact h
  | fail entry written => rw [call, call, h]
  | poll => exact h

theorem Follower.log_congr {f g : Follower} (h : f.log = g.log) (cs : List Call) :
    (f.calls toVec fromSlice cs).log = (g.calls toVec fromSlice cs).log := by
  induction cs generalizing f g with
  | nil => exact h
  | cons c cs ih => exact ih (log_call_congr h c)

/-- A line that is written where a failed call has left something is lost to whoever follows the log. -/
theorem leftover_loses (hnil : fromSlice [] = none) (h : Follows fromSlice [] f.answered) {entry : AccessLogEntry}
    (hlength : (toVec entry).length ≤ maxAuditLineBytes) (hline : newline ∉ toVec entry)
    (hlost : fromSlice (unfinished newline [] f.log.bytes ++ toVec entry) = none) (polls : ℕ) :
    ((f.call toVec fromSlice (.append entry)).calls toVec fromSlice (List.replicate polls .poll)).delivered = [] := by
  have hmerged : f.answered.completed (.append (toVec entry ++ [newline])) =
      [unfinished newline [] f.log.bytes ++ toVec entry] := by
    rw [Follower.completed, Follower.log_answered, records_line hline, records_nil]
  have hstep := h.append (toVec entry ++ [newline])
  rw [List.nil_append, hmerged] at hstep
  obtain ⟨-, hcall⟩ := f.call_append fromSlice hlength
  rw [hcall]
  set g := f.step fromSlice (.append (toVec entry ++ [newline]))
  have hpolled : Follows fromSlice [unfinished newline [] f.log.bytes ++ toVec entry]
      (g.calls toVec fromSlice (List.replicate polls .poll)).answered := (Follows.reaches hnil (f := g) hstep polls).1
  obtain ⟨read, hread, hdelivered⟩ := hpolled.read
  have hnone : parseable fromSlice [unfinished newline [] f.log.bytes ++ toVec entry] = [] := by
    rw [parseable_singleton, hlost, Option.toList_none, ite_self]
  rw [hread, parseable_append, List.append_eq_nil_iff] at hnone
  rw [← Follower.delivered_answered, hdelivered, hnone.1]

/-- Exactly where no append that succeeds starts in what a failed one has left, every reading returns every entry once
and in order. -/
theorem failures_harmless_iff (hnil : fromSlice [] = none) {fillBuf : Bytes → List Bytes}
    (hbuffers : ∀ contents, (fillBuf contents).flatten = contents ∧ [] ∉ fillBuf contents) (grants : ℕ → Bool)
    (log : LogFiles) (hlog : log.bytes = []) (cs : List Call) (hclean : ∀ c ∈ cs, c.Clean toVec)
    (hround : ∀ entry, .append entry ∈ cs → fromSlice (toVec entry) = some entry)
    (hmerged : ∀ left entry, Leftover toVec left → left ≠ [] → .append entry ∈ cs →
      fromSlice (left ++ toVec entry) = none) :
    let start : Follower := ⟨log, ⟨none, 0⟩, []⟩
    let appended (cs : List Call) := cs.flatMap (Call.appended toVec)
    (∀ earlier later rest n batch, cs = earlier ++ later ++ rest →
      let seen := (start.calls toVec fromSlice earlier).log
      readRecentBatch fromSlice grants seen fillBuf n = some batch →
      let reached := Follower.calls toVec fromSlice ⟨seen, batch.cursor, []⟩ later
      batch.entries = (appended earlier).rtake n ∧ reached.delivered <+: appended later ∧
        ∃ enough, ∀ polls ≥ enough,
          (reached.calls toVec fromSlice (List.replicate polls .poll)).delivered = appended later) ↔
      ∀ before entry after, cs = before ++ .append entry :: after → (toVec entry).length ≤ maxAuditLineBytes →
        Whole newline (start.calls toVec fromSlice before).log.bytes := by
  intro start appended
  constructor
  · intro hright before entry after hsplit hlength
    have hentry : .append entry ∈ cs := hsplit ▸ List.mem_append_right _ List.mem_cons_self
    have hbefore : ∀ c ∈ before, c.Clean toVec := fun c hc => hclean c (hsplit ▸ List.mem_append_left _ hc)
    set seen := (start.calls toVec fromSlice before).log
    obtain ⟨batch, hbatch⟩ : ∃ batch, readRecentBatch fromSlice grants seen fillBuf 0 = some batch :=
      ⟨_, (readRecentBatch_eq_some hbuffers).mpr ⟨.inr (by simp [withCapacity]), rfl⟩⟩
    obtain ⟨-, -, enough, hreturned⟩ := hright before [.append entry] after 0 batch (by simpa using hsplit) hbatch
    by_contra hpart
    have hleft : Leftover toVec (unfinished newline [] seen.bytes) :=
      leftover_calls before hbefore (by rw [hlog]; exact .none)
    have hnone := leftover_loses hnil (f := ⟨seen, batch.cursor, []⟩) (follows_batch hbuffers hbatch) hlength
      (hclean _ hentry) (hmerged _ entry hleft hpart hentry) enough
    have hone : appended [.append entry] = [entry] := by
      obtain ⟨hadded, -⟩ := Follower.call_append fromSlice ⟨seen, batch.cursor, []⟩ hlength
      simp [appended, hadded]
    have hlost := hnone.symm.trans ((hreturned enough le_rfl).trans hone)
    cases hlost
  · intro hwhole earlier later rest n batch hsplit seen hbatch reached
    have hstarts : ∀ before c after, earlier ++ later = before ++ c :: after →
        c.Starts toVec (start.calls toVec fromSlice before).log := by
      intro before c after hsplit'
      cases c with
      | append entry => exact hwhole before entry (after ++ rest) (by rw [hsplit, hsplit']; simp)
      | fail => trivial
      | poll => trivial
    have hmem : ∀ c ∈ earlier ++ later, c ∈ cs := fun c hc => hsplit ▸ List.mem_append_left _ hc
    have hlines := records_calls (f := start) earlier (fun c hc => hclean c (hmem c (List.mem_append_left _ hc)))
      fun before c after hsplit' => hstarts before c (after ++ later) (by rw [hsplit']; simp)
    rw [show records newline [] start.log.bytes = [] by rw [hlog, records_nil], List.nil_append] at hlines
    have hfollows : Follows fromSlice ((appended later).map toVec) reached.answered := by
      have hbatch : Follows fromSlice ((appended []).map toVec)
          (Follower.answered ⟨seen, batch.cursor, []⟩) := follows_batch hbuffers hbatch
      refine Follows.calls hnil [] later hbatch (fun c hc => hclean c (hmem c (List.mem_append_right _ hc))) ?_
      intro before c after hsplit'
      have hstart := hstarts (earlier ++ before) c after (by rw [hsplit', List.append_assoc])
      rw [Follower.calls_append] at hstart
      have hsame : Follower.log ⟨seen, batch.cursor, []⟩ = (start.calls toVec fromSlice earlier).log := rfl
      rwa [Follower.log_congr hsame]
    have hentries : parseable fromSlice ((appended later).map toVec) = appended later :=
      parseable_calls fun entry hentry => hround entry (hmem _ (List.mem_append_right _ hentry))
    refine ⟨?_, ?_, (records newline [] reached.unread).length, ?_⟩
    · obtain ⟨-, rfl⟩ := (readRecentBatch_eq_some hbuffers).mp hbatch
      dsimp only
      rw [hlines, parseable_calls fun entry hentry => hround entry (hmem _ (List.mem_append_left _ hentry))]
    · obtain ⟨read, hread, hdelivered⟩ := hfollows.read
      rw [hread, parseable_append] at hentries
      rw [← hentries, ← Follower.delivered_answered, hdelivered]
      exact List.prefix_append _ _
    · intro polls hpolls
      obtain ⟨hpolled, hfewer⟩ := hfollows.reaches hnil polls
      have hleft := hfewer appended_short
      obtain ⟨read, hread, hdelivered⟩ := hpolled.read
      rw [Nat.sub_eq_zero_of_le hpolls, Nat.le_zero, List.length_eq_zero_iff] at hleft
      rw [Follower.unread_answered, hleft, List.append_nil] at hread
      rw [← Follower.delivered_answered, hdelivered, ← hread, hentries]

theorem failures_harmless_iff_example :
    let cs : List Call := [.append (exampleEntry 1), .fail (exampleEntry 1) (some 0), .append (exampleEntry 2),
      .fail (exampleEntry 1) (some 10)]
    let seen := (Follower.calls exampleVec exampleSlice ⟨exampleLog, ⟨none, 0⟩, []⟩ cs).log
    (readRecentBatch exampleSlice (fun bytes => decide (bytes ≤ 4096)) seen exampleBuf 5).map AuditBatch.entries =
      some [exampleEntry 1, exampleEntry 2] := by
  intro cs seen
  have hentry : ∀ entry, .append entry ∈ cs → entry = exampleEntry 1 ∨ entry = exampleEntry 2 := by
    simp [cs]
  have hclean : ∀ c ∈ cs, c.Clean exampleVec := by
    intro c hc
    obtain rfl | rfl | rfl | rfl : c = _ ∨ c = _ ∨ c = _ ∨ c = _ := by simpa [cs] using hc
    all_goals
      unfold Call.Clean
      decide +kernel
  have hround : ∀ entry, .append entry ∈ cs → exampleSlice (exampleVec entry) = some entry := by
    intro entry h
    rcases hentry entry h with rfl | rfl
    all_goals decide +kernel
  have hlength : ∀ entry ∈ [exampleEntry 1, exampleEntry 2],
      (exampleVec entry).length = (exampleVec (exampleEntry 1)).length := by decide +kernel
  have hmerged : ∀ left entry, Leftover exampleVec left → left ≠ [] → .append entry ∈ cs →
      exampleSlice (left ++ exampleVec entry) = none := by
    intro left entry _ hleft h
    have hmem : entry ∈ [exampleEntry 1, exampleEntry 2] := by simpa using hentry entry h
    rw [exampleSlice, List.find?_eq_none]
    intro found hfound hsame
    have hsame' := congrArg List.length (of_decide_eq_true hsame)
    rw [hlength found hfound, List.length_append, hlength entry hmem] at hsame'
    exact hleft (List.eq_nil_of_length_eq_zero (by omega))
  have hright := (failures_harmless_iff exampleSlice_nil exampleBuf_flatten
    (fun bytes => decide (bytes ≤ 4096)) exampleLog rfl cs hclean hround hmerged).mpr ?_
  · obtain ⟨batch, hbatch⟩ : ∃ batch, readRecentBatch exampleSlice (fun bytes => decide (bytes ≤ 4096)) seen exampleBuf 5 =
        some batch :=
      ⟨_, (readRecentBatch_eq_some exampleBuf_flatten).mpr ⟨.inr (by decide), rfl⟩⟩
    rw [hbatch, Option.map_some, (hright cs [] [] 5 batch (by simp) hbatch).1]
    decide +kernel
  · intro before entry after hsplit _
    match before, hsplit with
    | [], _ => exact whole_nil
    | [_, _], hsplit =>
      obtain ⟨rfl, rfl, -⟩ : _ = _ ∧ _ = _ ∧ _ := by simpa [cs] using hsplit
      unfold Whole
      decide +kernel
    | [_], hsplit => simp [cs] at hsplit
    | [_, _, _], hsplit => simp [cs] at hsplit
    | _ :: _ :: _ :: _ :: before, hsplit => simp [cs] at hsplit

/-- The entry after a failed call is lost to every reader. -/
theorem failure_loses :
    let cs : List Call := [.fail (exampleEntry 1) (some 10), .append (exampleEntry 2)]
    let start : Follower := ⟨exampleLog, ⟨none, 0⟩, []⟩
    let seen := (start.calls exampleVec exampleSlice cs).log
    let reached := Follower.calls exampleVec exampleSlice exampleStart (cs ++ [.poll])
    cs.flatMap (Call.appended exampleVec) = [exampleEntry 2] ∧
      (readRecentBatch exampleSlice (fun bytes => decide (bytes ≤ 4096)) seen exampleBuf 5).map AuditBatch.entries =
        some [] ∧
      reached.delivered = [] ∧ reached.unread = [] := by
  decide +kernel

end FileGuard.Audit
