import FileGuard.Audit.Following

/-! What `file-guard log --follow` shows of a log that only grows. -/

namespace FileGuard.Audit

open Store Framing

variable {fromSlice : Bytes → Option AccessLogEntry} {lines : List Bytes} {f : Follower} {maxBytes : ℕ}

variable (fromSlice maxBytes) in
/-- The inner loop of `tail_log`: read until a read has not advanced. -/
def Follower.drain : ℕ → Follower → Option (Except String Follower)
  | 0, _ => none
  | fuel + 1, f =>
    match readNew fromSlice f.log f.cursor maxBytes with
    | (.error error, _) => some (.error error)
    | (.ok batch, cursor) =>
      let f := { f with cursor := cursor, updates := f.updates ++ [.ok batch] }
      if batch.advanced then f.drain fuel else some (.ok f)

/-- How much the reads have before them. -/
def Follower.pending (f : Follower) : ℕ :=
  f.unread.length + if f.log.path.isSome && f.cursor.file != f.log.path then 1 else 0

theorem Follows.cursor_eq (h : Follows fromSlice lines f) (hread : records newline [] f.unread = [])
    {file : ℕ} (hpath : f.log.path = some file) (hfile : f.cursor.file = some file) :
    f.cursor = ⟨some file, boundary newline f.log.bytes⟩ := by
  obtain ⟨hoffset, hwhole⟩ := h.whole file hfile hpath
  rw [records_eq_nil, Follower.unread, if_pos (hfile.trans hpath.symm)] at hread
  have hboundary : boundary newline f.log.bytes = f.cursor.offset := by
    conv_lhs => rw [← List.take_append_drop f.cursor.offset f.log.bytes]
    rw [boundary_append_of_notMem hread, hwhole.boundary_eq, List.length_take, min_eq_left hoffset]
  rw [hboundary, ← hfile]

/-- Reading on until a read has not advanced ends, past the last complete record. -/
theorem Follows.drains (hnil : fromSlice [] = none) (h : Follows fromSlice lines f)
    (hfits : Fits maxBytes f.log.bytes) :
    ∃ fuel g, f.drain fromSlice maxBytes fuel = some (.ok g) ∧ Follows fromSlice lines g ∧ g.log = f.log ∧
      records newline [] g.unread = [] ∧ ∀ file ∈ g.log.path, g.cursor = ⟨some file, boundary newline g.log.bytes⟩ := by
  induction hn : f.pending using Nat.strong_induction_on generalizing f with
  | _ n ih =>
    have hafter := h.poll hnil hfits
    obtain ⟨piece, rest, cursor, hunread, hpiece, hnone, hread, hcursor, hrest, -⟩ := h.poll_reads hnil hfits
    rw [Follower.step, hread] at hafter
    set replaced := f.log.path.isSome && f.cursor.file != f.log.path with hreplaced
    set batch : AuditUpdate := ⟨parseable fromSlice (records newline [] piece), replaced || !piece.isEmpty⟩
    set g : Follower := { f with cursor := cursor, updates := f.updates ++ [.ok batch] }
    have hunreadG : g.unread = rest := hrest
    have hsame : (g.log.path.isSome && g.cursor.file != g.log.path) = false := by
      rcases hcursor with ⟨hmissing, -⟩ | hsame
      · rw [show g.log.path = none from hmissing]; rfl
      · rw [show g.cursor.file = g.log.path from hsame, bne_self_eq_false, Bool.and_false]
    cases hadvanced : batch.advanced
    · have hread' : records newline [] g.unread = [] := by
        have hpieceNil : piece = [] := by simpa using (Bool.or_eq_false_iff.mp hadvanced).2
        rw [hunreadG, hnone hpieceNil]
      refine ⟨1, g, ?_, hafter, rfl, hread', ?_⟩
      · rw [Follower.drain, hread]
        dsimp only
        rw [hadvanced, if_neg Bool.false_ne_true]
      · intro file hpath
        refine hafter.cursor_eq hread' hpath ?_
        rw [show g.log.path = some file from hpath] at hsame
        simpa using hsame
    · have hless : g.pending < n := by
        rw [← hn, Follower.pending, Follower.pending, hunreadG, hunread, hsame, ← hreplaced, List.length_append]
        have hone : replaced = true ∨ piece.length ≠ 0 := by simpa [batch] using hadvanced
        split_ifs <;> grind
      obtain ⟨fuel, last, hdrain, hlast, hlog, hdone, hoffset⟩ := ih g.pending hless hafter hfits rfl
      refine ⟨fuel + 1, last, ?_, hlast, hlog, hdone, hoffset⟩
      rw [Follower.drain, hread]
      dsimp only
      rw [hadvanced, if_pos rfl, ← hdrain]

section

variable {fillBuf : Bytes → List Bytes}
  (hbuffers : ∀ contents, (fillBuf contents).flatten = contents ∧ [] ∉ fillBuf contents)
include hbuffers

theorem readRecentBatch_eq_some {grants : ℕ → Bool} {log : LogFiles} {n : ℕ} {batch : AuditBatch} :
    readRecentBatch fromSlice grants log fillBuf n = some batch ↔
      (log.path = none ∨ withCapacity grants n = true) ∧
        batch = ⟨(parseable fromSlice (records newline [] log.bytes)).rtake n, ⟨log.path, boundary newline log.bytes⟩⟩ := by
  rw [readRecentBatch]
  cases hpath : log.path with
  | none =>
    have hempty : log.bytes = [] := by simp [LogFiles.bytes, hpath]
    rw [hempty, records_nil, parseable_nil, List.rtake_nil, Option.some_inj, eq_comm]
    exact ⟨fun hbatch => ⟨.inl rfl, hbatch⟩, And.right⟩
  | some file =>
    obtain ⟨hflatten, hfilled⟩ := hbuffers (log.contents file)
    have hbytes : log.bytes = log.contents file := by simp [LogFiles.bytes, hpath]
    dsimp only
    by_cases hgranted : withCapacity grants n = true
    · rw [scanRecent_eq hfilled hgranted, hflatten, hbytes, Option.map_some, Option.some_inj, eq_comm]
      exact ⟨fun hbatch => ⟨.inr hgranted, hbatch⟩, And.right⟩
    · rw [scanRecent_refused hgranted, Option.map_none]
      refine ⟨fun hbatch => (by cases hbatch), ?_⟩
      rintro ⟨hmissing | hmemory, -⟩
      · cases hmissing
      · exact absurd hmemory hgranted

theorem follows_batch {grants : ℕ → Bool} {log : LogFiles} {n : ℕ} {batch : AuditBatch}
    (hbatch : readRecentBatch fromSlice grants log fillBuf n = some batch) :
    Follows fromSlice [] ⟨log, batch.cursor, []⟩ := by
  obtain ⟨hwhole, hdrop⟩ := take_boundary newline log.bytes
  obtain ⟨-, rfl⟩ := (readRecentBatch_eq_some hbuffers).mp hbatch
  refine ⟨log.bound, fun file hfile hpath => ⟨boundary_le _, hwhole⟩, fun update hupdate => (by cases hupdate), [], ?_, rfl⟩
  rw [Follower.unread, if_pos rfl, hdrop, records_of_notMem (notMem_unfinished List.not_mem_nil)]
  rfl

end

/-- What following a log that only grows from a first batch comes to, at any state that a run reaches. -/
structure Follower.Delivers (fromSlice : Bytes → Option AccessLogEntry) (reached : Follower) (arrived : List Bytes) :
    Prop where
  answered : ∀ update ∈ reached.updates, update.isOk = true
  read : ∃ read, arrived = read ++ records newline [] reached.unread ∧ reached.delivered = parseable fromSlice read
  drains : ∀ maxBytes, Fits maxBytes reached.log.bytes → ∃ fuel last,
    reached.drain fromSlice maxBytes fuel = some (.ok last) ∧ last.log = reached.log ∧
      (∀ file ∈ last.log.path, last.cursor = ⟨some file, boundary newline last.log.bytes⟩) ∧
      last.delivered = parseable fromSlice arrived

theorem Follows.delivers (hnil : fromSlice [] = none) (h : Follows fromSlice lines f) : f.Delivers fromSlice lines where
  answered := h.answered
  read := h.read
  drains maxBytes hfits := by
    obtain ⟨fuel, last, hdrain, hlast, hlog, hdone, hcursor⟩ := h.drains hnil hfits
    obtain ⟨read, hread, hdelivered⟩ := hlast.read
    refine ⟨fuel, last, hdrain, hlog, hcursor, ?_⟩
    rw [hdelivered, hread, hdone, List.append_nil]

/-- A log that is only appended to is shown once, whatever cuts it into chunks, buffers and reads, exactly where there is
room for its last `n` entries. -/
theorem following_delivers (hnil : fromSlice [] = none) {fillBuf : Bytes → List Bytes}
    (hbuffers : ∀ contents, (fillBuf contents).flatten = contents ∧ [] ∉ fillBuf contents) (grants : ℕ → Bool)
    (log : LogFiles) (n : ℕ) :
    (∃ batch, readRecentBatch fromSlice grants log fillBuf n = some batch ∧
      batch.entries = (parseable fromSlice (records newline [] log.bytes)).rtake n ∧
      batch.cursor = ⟨log.path, boundary newline log.bytes⟩ ∧
      ∀ events, .rename ∉ events →
        (∀ before maxBytes after, events = before ++ .poll maxBytes :: after →
          Fits maxBytes (Follower.run fromSlice ⟨log, batch.cursor, []⟩ before).log.bytes) →
        (Follower.run fromSlice ⟨log, batch.cursor, []⟩ events).Delivers fromSlice
          (Follower.arrived fromSlice ⟨log, batch.cursor, []⟩ events)) ↔
      log.path = none ∨ n = 0 ∨ entrySize * n ≤ maxAllocation ∧ grants (entrySize * n) = true := by
  have hcapacity : withCapacity grants n = true ↔ n = 0 ∨ entrySize * n ≤ maxAllocation ∧ grants (entrySize * n) = true := by
    simp only [withCapacity, Bool.or_eq_true, Bool.and_eq_true, beq_iff_eq, decide_eq_true_eq]
  rw [← hcapacity]
  constructor
  · rintro ⟨batch, hbatch, -⟩
    exact ((readRecentBatch_eq_some hbuffers).mp hbatch).1
  · intro hroom
    obtain ⟨batch, hbatch⟩ : ∃ batch, readRecentBatch fromSlice grants log fillBuf n = some batch :=
      ⟨_, (readRecentBatch_eq_some hbuffers).mpr ⟨hroom, rfl⟩⟩
    obtain ⟨-, rfl⟩ := (readRecentBatch_eq_some hbuffers).mp hbatch
    refine ⟨_, hbatch, rfl, rfl, fun events hkept hfits => ?_⟩
    have hreached := (follows_batch hbuffers hbatch).run hnil events fun before event after hsplit => ?_
    · rw [List.nil_append] at hreached
      exact hreached.delivers hnil
    · cases event with
      | append chunk => trivial
      | create => trivial
      | rename => exact (hkept (hsplit ▸ List.mem_append_right _ List.mem_cons_self)).elim
      | poll maxBytes => exact hfits before maxBytes after hsplit

def exampleEntry (pid : UInt32) : AccessLogEntry :=
  ⟨"2026-01-01T00:00:00Z", "ALLOW", "READ", "/credential", "/usr/bin/tool", pid, none⟩

/-- What `serde_json` writes for an entry with no detail and nothing to escape. -/
def exampleVec (entry : AccessLogEntry) : Bytes :=
  utf8 ("\x7b\"timestamp\":\"" ++ entry.timestamp ++ "\",\"decision\":\"" ++ entry.decision ++ "\",\"access\":\"" ++
    entry.access ++ "\",\"file\":\"" ++ entry.file ++ "\",\"binary\":\"" ++ entry.binary ++ "\",\"pid\":" ++
    toString entry.pid.toNat ++ "\x7d")

def exampleSlice (line : Bytes) : Option AccessLogEntry :=
  [exampleEntry 1, exampleEntry 2].find? fun entry => exampleVec entry = line

def exampleLog : LogFiles := ⟨some 0, 1, fun _ => [], by simp⟩

def exampleBuf (contents : Bytes) : List Bytes := [contents].filter (· ≠ [])

def exampleStart : Follower := ⟨exampleLog, ⟨some 0, 0⟩, []⟩

theorem exampleSlice_nil : exampleSlice [] = none := by decide

theorem exampleBuf_flatten (contents : Bytes) :
    (exampleBuf contents).flatten = contents ∧ [] ∉ exampleBuf contents := by
  by_cases h : contents = [] <;> simp [exampleBuf, h]

example : exampleSlice (exampleVec (exampleEntry 2)) = some (exampleEntry 2) := by decide

/-- Two entries and the beginning of a third. -/
def exampleGrown : LogFiles where
  path := some 0
  created := 1
  contents := fun _ => exampleVec (exampleEntry 1) ++ newline :: exampleVec (exampleEntry 2) ++ newline ::
    (exampleVec (exampleEntry 1)).take 20
  bound := by simp

theorem following_delivers_example :
    ∃ batch, readRecentBatch exampleSlice (fun bytes => decide (bytes ≤ 4096)) exampleGrown exampleBuf 1 = some batch ∧
      batch.entries = [exampleEntry 2] ∧
      ∃ fuel last, (Follower.run exampleSlice ⟨exampleGrown, batch.cursor, []⟩
        [.append ((exampleVec (exampleEntry 1)).drop 20), .poll 1024, .append [newline]]).drain exampleSlice 1024 fuel =
          some (.ok last) ∧ last.delivered = [exampleEntry 1] := by
  obtain ⟨batch, hbatch, hentries, hcursor, hruns⟩ := (following_delivers exampleSlice_nil exampleBuf_flatten
    (fun bytes => decide (bytes ≤ 4096)) exampleGrown 1).mpr (by decide)
  refine ⟨batch, hbatch, hentries.trans (by decide +kernel), ?_⟩
  rw [hcursor] at hruns ⊢
  have hdelivers := hruns [.append ((exampleVec (exampleEntry 1)).drop 20), .poll 1024, .append [newline]] (by simp) ?_
  · obtain ⟨fuel, last, hdrain, -, -, hdelivered⟩ := hdelivers.drains 1024 (by unfold Fits; decide +kernel)
    exact ⟨fuel, last, hdrain, hdelivered.trans (by decide +kernel)⟩
  · intro before maxBytes after hsplit
    match before, hsplit with
    | [_], hsplit =>
      obtain ⟨rfl, rfl, -⟩ : _ = _ ∧ _ = _ ∧ _ := by simpa using hsplit
      unfold Fits
      decide +kernel
    | _ :: _ :: before, hsplit => simp [List.cons_eq_append_iff] at hsplit
    | [], hsplit => simp at hsplit

/-- A number of entries that no buffer can hold, however much memory there is. -/
theorem following_overflows :
    readRecentBatch exampleSlice (fun _ => true) exampleGrown exampleBuf (2 ^ 64 - 1) = none := rfl

end FileGuard.Audit
