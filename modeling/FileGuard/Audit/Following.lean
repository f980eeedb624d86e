import FileGuard.Audit.Scanning

/-! Following a log: what the reads deliver of the records that arrive. -/

namespace FileGuard.Audit

open Store Framing

variable {fromSlice : Bytes → Option AccessLogEntry}

/-- Every record of the log, its unfinished end included, is smaller than a read. -/
def Fits (maxBytes : ℕ) (contents : Bytes) : Prop := ∀ line ∈ contents.splitOn newline, line.length < maxBytes

theorem fits_iff {maxBytes : ℕ} {contents : Bytes} : Fits maxBytes contents ↔
    (∀ line ∈ records newline [] contents, line.length < maxBytes) ∧
      (unfinished newline [] contents).length < maxBytes := by
  rw [Fits, splitOn_eq]
  simp only [List.mem_append, List.mem_singleton, or_imp, forall_and, forall_eq]

theorem Fits.drop {maxBytes offset : ℕ} {contents : Bytes} (h : Fits maxBytes contents)
    (hwhole : Whole newline (contents.take offset)) : Fits maxBytes (contents.drop offset) := by
  rw [← List.take_append_drop offset contents, fits_iff, hwhole.records_append, hwhole.unfinished_append] at h
  exact fits_iff.mpr ⟨fun line hline => h.1 line (List.mem_append_right _ hline), h.2⟩

theorem completeLen_eq (bytes : Bytes) :
    completeLen bytes = if newline ∈ bytes then some (boundary newline bytes) else none := by
  split_ifs with hmem
  · obtain ⟨whole, rest, hbytes, hrest⟩ := exists_line_end hmem
    have hboundary : boundary newline bytes = whole.length + 1 := by
      rw [hbytes, boundary_append_of_notMem hrest, Whole.boundary_eq whole_sep, List.length_append]
      rfl
    have hfind : bytes.reverse.findIdx? (· == newline) = some rest.length := by
      rw [hbytes]
      simp only [List.reverse_append, List.reverse_cons, List.reverse_nil, List.nil_append,
        List.cons_append]
      rw [List.findIdx?_append, List.findIdx?_eq_none_iff.mpr]
      · rw [List.findIdx?_cons, if_pos (beq_self_eq_true _), Option.none_or, Option.map_some, List.length_reverse,
          Nat.zero_add]
      · intro b hb
        rw [List.mem_reverse] at hb
        simpa using ne_of_mem_of_not_mem hb hrest
    rw [completeLen, hfind, hboundary, Option.map_some, hbytes]
    simp only [List.length_append, List.length_singleton]
    congr 1
    omega
  · rw [completeLen, List.findIdx?_eq_none_iff.mpr, Option.map_none]
    intro b hb
    rw [List.mem_reverse] at hb
    simpa using ne_of_mem_of_not_mem hb hmem

theorem entriesOf_whole (hnil : fromSlice [] = none) {bytes : Bytes} (h : Whole newline bytes) :
    entriesOf fromSlice bytes = parseable fromSlice (records newline [] bytes) := by
  rw [entriesOf, splitOn_eq, h, parseable, List.filterMap_filter, List.filterMap_filter, List.filterMap_append]
  have hskip (line : Bytes) :
      (if (!line.isEmpty && decide (line.length ≤ maxAuditLineBytes)) = true then fromSlice line else none) =
        if decide (line.length ≤ maxAuditLineBytes) = true then fromSlice line else none := by
    cases line with
    | nil => simp [hnil]
    | cons b line => rfl
  simp only [hskip, List.filterMap_cons, List.filterMap_nil, hnil, ite_self, List.append_nil]

variable (fromSlice) in
/-- What a read makes of the bytes past the cursor: it takes whole records, at least one where there is one that it can
hold, and fails only on one that fills it. -/
structure Takes (maxBytes : ℕ) (replaced : Bool) (unread piece rest : Bytes) (update : Except String AuditUpdate) :
    Prop where
  split : unread = piece ++ rest
  whole : Whole newline piece
  answer : update = .ok ⟨parseable fromSlice (records newline [] piece), replaced || !piece.isEmpty⟩ ∨
    piece = [] ∧ update.isOk = false
  advances : (∀ line ∈ records newline [] unread, line.length < maxBytes) → piece = [] → records newline [] rest = []
  long : (∀ line ∈ records newline [] unread, line.length < maxBytes) → update.isOk = false →
    maxBytes ≤ (unfinished newline [] rest).length

theorem Takes.entries {maxBytes : ℕ} {replaced : Bool} {unread piece rest : Bytes} {update : Except String AuditUpdate}
    (h : Takes fromSlice maxBytes replaced unread piece rest update) :
    update.toOption.elim [] AuditUpdate.entries = parseable fromSlice (records newline [] piece) := by
  rcases h.answer with rfl | ⟨rfl, herror⟩
  · rfl
  · cases update with
    | ok batch => cases herror
    | error message => rfl

theorem Takes.answered {maxBytes : ℕ} {replaced : Bool} {unread piece rest : Bytes} {update : Except String AuditUpdate}
    (h : Takes fromSlice maxBytes replaced unread piece rest update)
    (hlines : ∀ line ∈ records newline [] unread, line.length < maxBytes)
    (hlast : (unfinished newline [] unread).length < maxBytes) :
    update = .ok ⟨parseable fromSlice (records newline [] piece), replaced || !piece.isEmpty⟩ := by
  refine h.answer.resolve_right fun hfailed => ?_
  rw [h.split, h.whole.unfinished_append] at hlast
  exact absurd hlast (not_lt.mpr (h.long hlines hfailed.2))

theorem readFile_reads (hnil : fromSlice [] = none) {contents : Bytes} {cursor : AuditCursor}
    (hoffset : cursor.offset ≤ contents.length) (replaced : Bool) (maxBytes : ℕ) :
    ∃ piece rest update, Takes fromSlice maxBytes replaced (contents.drop cursor.offset) piece rest update ∧
      readFile fromSlice contents cursor replaced maxBytes =
        (update, { cursor with offset := cursor.offset + piece.length }) := by
  rw [readFile]
  simp only [not_lt.mpr hoffset, decide_false, Bool.false_eq_true, if_false, Bool.or_false]
  by_cases hend : cursor.offset = contents.length
  · rw [if_pos hend]
    refine ⟨[], [], _, ⟨?_, whole_nil, .inl ?_, fun _ _ => rfl, fun _ herror => (by cases herror)⟩, rfl⟩
    · rw [hend, List.drop_length]; rfl
    · simp
  · rw [if_neg hend]
    set rest := contents.drop cursor.offset with hrestDef
    have hbytes : rest.take (min (contents.length - cursor.offset) maxBytes) = rest.take maxBytes := by
      rw [List.take_eq_take_iff, hrestDef, List.length_drop]
      omega
    rw [hbytes, completeLen_eq]
    by_cases hmem : newline ∈ rest.take maxBytes
    · rw [if_pos hmem]
      set piece := (rest.take maxBytes).take (boundary newline (rest.take maxBytes)) with hpiece
      obtain ⟨hwhole, -⟩ := take_boundary newline (rest.take maxBytes)
      obtain ⟨before, after, hsplit, hafter⟩ := exists_line_end hmem
      have hboundary : boundary newline (rest.take maxBytes) = before.length + 1 := by
        rw [hsplit, boundary_append_of_notMem hafter, Whole.boundary_eq whole_sep, List.length_append]
        rfl
      have hlength : piece.length = boundary newline (rest.take maxBytes) := by
        rw [hpiece, List.length_take, min_eq_left (boundary_le _)]
      have hstart : piece <+: rest := (List.take_prefix _ _).trans (List.take_prefix _ _)
      have hne : piece ≠ [] := List.ne_nil_of_length_eq_add_one (hlength.trans hboundary)
      obtain ⟨tail, htail⟩ := hstart
      refine ⟨piece, tail, _, ⟨htail.symm, hwhole, .inl rfl, fun _ h => (hne h).elim, fun _ herror => (by cases herror)⟩,
        ?_⟩
      dsimp only
      rw [entriesOf_whole hnil hwhole, hlength, List.isEmpty_eq_false_iff.mpr hne, Bool.not_false, Bool.or_true]
    · rw [if_neg hmem]
      rcases Nat.lt_or_ge rest.length maxBytes with hfew | hmany
      · rw [List.take_of_length_le hfew.le] at hmem ⊢
        refine ⟨[], rest, _, ⟨rfl, whole_nil, .inl rfl, fun _ _ => records_of_notMem hmem, fun _ herror => (by cases herror)⟩,
          ?_⟩
        simp [hfew.ne]
      · rw [if_pos (List.length_take_of_le hmany)]
        refine ⟨[], rest, _, ⟨rfl, whole_nil, .inr ⟨rfl, rfl⟩, fun hlines _ => ?_, fun hlines _ => ?_⟩, rfl⟩
        · exact records_of_notMem (notMem_of_take hmany hmem hlines)
        · rw [unfinished_of_notMem (notMem_of_take hmany hmem hlines)]
          exact hmany

inductive Event where
  | append (chunk : Bytes)
  | rename
  | create
  | poll (maxBytes : ℕ)
deriving DecidableEq, Repr

/-- Whoever follows a log, with the answers its reads have had so far. -/
structure Follower where
  log : LogFiles
  cursor : AuditCursor
  updates : List (Except String AuditUpdate)

section

variable (fromSlice)

def Follower.step (f : Follower) : Event → Follower
  | .append chunk => { f with log := f.log.append chunk }
  | .rename => { f with log := f.log.rename }
  | .create => { f with log := if f.log.path = none then f.log.create else f.log }
  | .poll maxBytes =>
    let (update, cursor) := readNew fromSlice f.log f.cursor maxBytes
    { f with cursor := cursor, updates := f.updates ++ [update] }

def Follower.run (f : Follower) : List Event → Follower
  | [] => f
  | event :: events => (f.step fromSlice event).run events

end

namespace Follower

/-- The entries that the reads have returned, in order. -/
def delivered (f : Follower) : List AccessLogEntry :=
  f.updates.flatMap fun update => update.toOption.elim [] AuditUpdate.entries

/-- What the log at the path holds past the cursor. -/
def unread (f : Follower) : Bytes :=
  if f.cursor.file = f.log.path then f.log.bytes.drop f.cursor.offset else f.log.bytes

/-- The records that end with an event. -/
def completed (f : Follower) : Event → List Bytes
  | .append chunk => records newline (unfinished newline [] f.log.bytes) chunk
  | _ => []

variable (fromSlice) in
/-- The records that end during a run. -/
def arrived (f : Follower) : List Event → List Bytes
  | [] => []
  | event :: events => f.completed event ++ (f.step fromSlice event).arrived events

end Follower

namespace LogFiles

variable (log : LogFiles) (chunk : Bytes)

@[simp] theorem bytes_rename : log.rename.bytes = [] := rfl

@[simp] theorem bytes_create : log.create.bytes = [] := by simp [bytes, create]

@[simp] theorem bytes_append : (log.append chunk).bytes = log.bytes ++ chunk := by
  cases hpath : log.path with
  | none => simp [append, openAppend, bytes, write, create, hpath]
  | some file => simp [append, openAppend, bytes, write, hpath]

theorem path_append : (log.append chunk).path = some (log.path.getD log.created) := by
  cases hpath : log.path with
  | none => simp [append, openAppend, write, create, hpath]
  | some file => simp [append, openAppend, write, hpath]

theorem created_append : log.created ≤ (log.append chunk).created := by
  cases hpath : log.path with
  | none => simp [append, openAppend, write, create, hpath]
  | some file => simp [append, openAppend, write, hpath]

end LogFiles

variable {lines : List Bytes} {f : Follower}

variable (fromSlice lines f) in
/-- The reads so far have delivered what arrived, in order, except for what is unread. -/
structure Follows : Prop where
  opened : ∀ file ∈ f.cursor.file, file < f.log.created
  whole : ∀ file ∈ f.cursor.file, f.log.path = some file →
    f.cursor.offset ≤ f.log.bytes.length ∧ Whole newline (f.log.bytes.take f.cursor.offset)
  answered : ∀ update ∈ f.updates, update.isOk = true
  read : ∃ read, lines = read ++ records newline [] f.unread ∧ f.delivered = parseable fromSlice read

theorem isOk_of_mem (batch : AuditUpdate) (update : Except String AuditUpdate) (h : update ∈ [.ok batch]) :
    update.isOk = true := by
  rw [List.mem_singleton.mp h]
  rfl

namespace Follows

theorem unfinished_unread (h : Follows fromSlice lines f) :
    unfinished newline [] f.unread = unfinished newline [] f.log.bytes := by
  rw [Follower.unread]
  split_ifs with hsame
  · cases hpath : f.log.path with
    | none => simp [LogFiles.bytes, hpath]
    | some file =>
      obtain ⟨-, hwhole⟩ := h.whole file (hsame.trans hpath) hpath
      conv_rhs => rw [← List.take_append_drop f.cursor.offset f.log.bytes, hwhole.unfinished_append]
  · rfl

theorem unread_append (h : Follows fromSlice lines f) (chunk : Bytes) :
    (f.step fromSlice (.append chunk)).unread = f.unread ++ chunk := by
  simp only [Follower.unread, Follower.step, LogFiles.bytes_append, LogFiles.path_append]
  cases hpath : f.log.path with
  | none =>
    have hother : f.cursor.file ≠ some f.log.created := fun hfile => (h.opened _ hfile).false
    rw [Option.getD_none, if_neg hother]
    simp [LogFiles.bytes, hpath]
  | some file =>
    rw [Option.getD_some]
    split_ifs with hsame
    · exact List.drop_append_of_le_length (h.whole file hsame hpath).1
    · rfl

theorem append (h : Follows fromSlice lines f) (chunk : Bytes) :
    Follows fromSlice (lines ++ f.completed (.append chunk)) (f.step fromSlice (.append chunk)) := by
  refine ⟨fun file hfile => (h.opened file hfile).trans_le (LogFiles.created_append _ _), ?_, h.answered, ?_⟩
  · intro file hfile hpath
    rw [Follower.step, LogFiles.path_append, Option.some_inj] at hpath
    cases hold : f.log.path with
    | none =>
      rw [hold, Option.getD_none] at hpath
      exact absurd (h.opened file hfile) (by omega)
    | some old =>
      rw [hold, Option.getD_some] at hpath
      obtain ⟨hoffset, hwhole⟩ := h.whole file hfile (hpath ▸ hold)
      simp only [Follower.step, LogFiles.bytes_append, List.length_append]
      exact ⟨hoffset.trans (Nat.le_add_right _ _), by rwa [List.take_append_of_le_length hoffset]⟩
  · obtain ⟨read, hlines, hdelivered⟩ := h.read
    refine ⟨read, ?_, hdelivered⟩
    rw [h.unread_append, records_append, h.unfinished_unread, hlines, List.append_assoc]
    rfl

theorem rename (h : Follows fromSlice lines f) (hread : records newline [] f.unread = []) :
    Follows fromSlice lines (f.step fromSlice .rename) := by
  refine ⟨h.opened, fun file _ hpath => (by cases hpath), h.answered, ?_⟩
  obtain ⟨read, hlines, hdelivered⟩ := h.read
  refine ⟨read, ?_, hdelivered⟩
  rw [hlines, hread]
  simp [Follower.unread, Follower.step]

theorem create (h : Follows fromSlice lines f) : Follows fromSlice lines (f.step fromSlice .create) := by
  rw [Follower.step]
  split_ifs with hpath
  · refine ⟨fun file hfile => Nat.lt_succ_of_lt (h.opened file hfile), ?_, h.answered, ?_⟩
    · intro file hfile hnew
      exact absurd (h.opened file hfile) (by rw [← Option.some_inj.mp hnew]; omega)
    · obtain ⟨read, hlines, hdelivered⟩ := h.read
      refine ⟨read, ?_, hdelivered⟩
      rw [hlines]
      simp [Follower.unread, LogFiles.bytes, LogFiles.create, hpath]
  · exact h

theorem advance (h : Follows fromSlice lines f) {piece rest : Bytes} {cursor : AuditCursor}
    {updates : List (Except String AuditUpdate)} (hunread : f.unread = piece ++ rest) (hpiece : Whole newline piece)
    (hcursor : cursor = f.cursor ∨ cursor.file = f.log.path)
    (hrest : Follower.unread { f with cursor := cursor } = rest)
    (hwhole : ∀ file ∈ cursor.file, f.log.path = some file →
      cursor.offset ≤ f.log.bytes.length ∧ Whole newline (f.log.bytes.take cursor.offset))
    (hanswered : ∀ update ∈ updates, update.isOk = true)
    (hentries : updates.flatMap (fun update => update.toOption.elim [] AuditUpdate.entries) =
      parseable fromSlice (records newline [] piece)) :
    Follows fromSlice lines { f with cursor := cursor, updates := f.updates ++ updates } := by
  refine ⟨?_, hwhole, ?_, ?_⟩
  · intro file hfile
    rcases hcursor with rfl | hsame
    · exact h.opened file hfile
    · exact f.log.bound file (hsame ▸ hfile)
  · intro update hupdate
    rcases List.mem_append.mp hupdate with hold | hnew
    · exact h.answered update hold
    · exact hanswered update hnew
  · obtain ⟨read, hlines, hdelivered⟩ := h.read
    refine ⟨read ++ records newline [] piece, ?_, ?_⟩
    · rw [hlines, hunread, hpiece.records_append, ← List.append_assoc]
      exact congrArg (_ ++ records newline [] ·) hrest.symm
    · rw [Follower.delivered] at hdelivered ⊢
      rw [List.flatMap_append, hdelivered, hentries, parseable_append]

/-- Opening the path moves the cursor to the file there, and to its start where that is another file. -/
theorem openRead_reads (h : Follows fromSlice lines f) {candidate : ℕ} (hpath : f.log.path = some candidate) :
    ∃ cursor, openRead f.log f.cursor = some (f.cursor.file != f.log.path, cursor) ∧ cursor.file = f.log.path ∧
      Follower.unread { f with cursor := cursor } = f.unread ∧ Follows fromSlice lines { f with cursor := cursor } := by
  have hold (hsame : f.cursor.file = some candidate) : openRead f.log f.cursor =
      some (f.cursor.file != f.log.path, f.cursor) := by
    rw [openRead, hpath, Option.map_some, hsame, bne_self_eq_false, if_neg Bool.false_ne_true]
  by_cases hsame : f.cursor.file = some candidate
  · exact ⟨f.cursor, hold hsame, hsame.trans hpath.symm, rfl, h⟩
  · have hother : (f.cursor.file != some candidate) = true := by simpa using hsame
    have hunread : Follower.unread { f with cursor := ⟨some candidate, 0⟩ } = f.unread := by
      rw [Follower.unread, Follower.unread, if_pos hpath.symm, hpath, if_neg hsame]
      rfl
    refine ⟨⟨some candidate, 0⟩, ?_, hpath.symm, hunread, ?_, ?_, h.answered, ?_⟩
    · rw [openRead, hpath, Option.map_some, hother, if_pos rfl]
    · exact fun file hfile => f.log.bound file (hpath ▸ hfile)
    · exact fun _ _ _ => ⟨Nat.zero_le _, whole_nil⟩
    · rw [hunread]
      exact h.read

/-- What the part of a read under the lock makes of the file at the path. -/
theorem readFile_unread (hnil : fromSlice [] = none) (h : Follows fromSlice lines f) {candidate : ℕ}
    (hpath : f.log.path = some candidate) (hfile : f.cursor.file = f.log.path) (replaced : Bool) (maxBytes : ℕ) :
    ∃ piece rest update cursor, Takes fromSlice maxBytes replaced f.unread piece rest update ∧
      readFile fromSlice (f.cursor.contents f.log) f.cursor replaced maxBytes = (update, cursor) ∧
      cursor.file = f.log.path ∧ Follower.unread { f with cursor := cursor } = rest ∧
      ∀ file ∈ cursor.file, f.log.path = some file →
        cursor.offset ≤ f.log.bytes.length ∧ Whole newline (f.log.bytes.take cursor.offset) := by
  have hbytes : f.cursor.contents f.log = f.log.bytes := by rw [AuditCursor.contents, hfile, LogFiles.bytes]
  have hunread : f.unread = f.log.bytes.drop f.cursor.offset := if_pos hfile
  obtain ⟨hoffset, hwhole⟩ := h.whole candidate (hfile.trans hpath) hpath
  obtain ⟨piece, rest, update, htakes, hread⟩ := readFile_reads hnil hoffset replaced maxBytes
  rw [hbytes, hunread]
  refine ⟨piece, rest, update, { f.cursor with offset := f.cursor.offset + piece.length }, htakes, hread, hfile, ?_, ?_⟩
  · rw [Follower.unread, if_pos hfile]
    dsimp only
    rw [← List.drop_drop, htakes.split, List.drop_left]
  · intro file _ _
    have hlength := congrArg List.length htakes.split
    simp only [List.length_drop, List.length_append] at hlength
    dsimp only
    refine ⟨by omega, ?_⟩
    rw [List.take_add, htakes.split, List.take_left]
    exact hwhole.append htakes.whole

theorem read_reads (hnil : fromSlice [] = none) (h : Follows fromSlice lines f) {maxBytes : ℕ}
    (hpositive : 0 < maxBytes) :
    ∃ piece rest update cursor,
      Takes fromSlice maxBytes (f.log.path.isSome && f.cursor.file != f.log.path) f.unread piece rest update ∧
      readNew fromSlice f.log f.cursor maxBytes = (update, cursor) ∧
      (f.log.path = none ∧ cursor = f.cursor ∨ cursor.file = f.log.path) ∧
      Follower.unread { f with cursor := cursor } = rest ∧
      ∀ file ∈ cursor.file, f.log.path = some file →
        cursor.offset ≤ f.log.bytes.length ∧ Whole newline (f.log.bytes.take cursor.offset) := by
  rw [readNew, if_neg hpositive.ne']
  cases hpath : f.log.path with
  | none =>
    have hempty : f.unread = [] := by simp [Follower.unread, LogFiles.bytes, hpath]
    have hmissing : openRead f.log f.cursor = none := by rw [openRead, hpath, Option.map_none]
    rw [hmissing]
    exact ⟨[], [], _, f.cursor, ⟨hempty, whole_nil, .inl (by simp), fun _ _ => rfl, fun _ herror => (by cases herror)⟩,
      rfl, .inl ⟨rfl, rfl⟩, hempty, fun file _ hnone => (by cases hnone)⟩
  | some candidate =>
    obtain ⟨start, hopened, hfile, hunread, hstart⟩ := h.openRead_reads hpath
    rw [← hunread]
    obtain ⟨piece, rest, update, cursor, htakes, hread, hcursor, hrest⟩ :=
      hstart.readFile_unread hnil hpath hfile (f.cursor.file != f.log.path) maxBytes
    rw [hopened, ← hpath]
    refine ⟨piece, rest, update, cursor, ?_, hread, .inr hcursor, hrest⟩
    rwa [hpath, Option.isSome_some, Bool.true_and, ← hpath]

theorem fits_unread (h : Follows fromSlice lines f) {maxBytes : ℕ} (hfits : Fits maxBytes f.log.bytes) :
    Fits maxBytes f.unread := by
  rw [Follower.unread]
  split_ifs with hsame
  · cases hpath : f.log.path with
    | none => simpa [LogFiles.bytes, hpath] using hfits
    | some file => exact hfits.drop (h.whole file (hsame.trans hpath) hpath).2
  · exact hfits

theorem poll_reads (hnil : fromSlice [] = none) (h : Follows fromSlice lines f) {maxBytes : ℕ}
    (hfits : Fits maxBytes f.log.bytes) :
    ∃ piece rest cursor, f.unread = piece ++ rest ∧ Whole newline piece ∧
      (piece = [] → records newline [] rest = []) ∧
      readNew fromSlice f.log f.cursor maxBytes =
        (.ok ⟨parseable fromSlice (records newline [] piece),
          (f.log.path.isSome && f.cursor.file != f.log.path) || !piece.isEmpty⟩, cursor) ∧
      (f.log.path = none ∧ cursor = f.cursor ∨ cursor.file = f.log.path) ∧
      Follower.unread { f with cursor := cursor } = rest ∧
      ∀ file ∈ cursor.file, f.log.path = some file →
        cursor.offset ≤ f.log.bytes.length ∧ Whole newline (f.log.bytes.take cursor.offset) := by
  obtain ⟨hlines, hlast⟩ := fits_iff.mp (h.fits_unread hfits)
  obtain ⟨piece, rest, update, cursor, htakes, hread, hafter⟩ := h.read_reads hnil (Nat.zero_lt_of_lt hlast)
  refine ⟨piece, rest, cursor, htakes.split, htakes.whole, htakes.advances hlines, ?_, hafter⟩
  rw [hread, htakes.answered hlines hlast]

theorem poll (hnil : fromSlice [] = none) (h : Follows fromSlice lines f) {maxBytes : ℕ}
    (hfits : Fits maxBytes f.log.bytes) : Follows fromSlice lines (f.step fromSlice (.poll maxBytes)) := by
  obtain ⟨piece, rest, cursor, hunread, hpiece, -, hread, hcursor, hrest, hwhole⟩ := h.poll_reads hnil hfits
  rw [Follower.step, hread]
  exact h.advance hunread hpiece (hcursor.imp_left And.right) hrest hwhole (isOk_of_mem _) (List.append_nil _)

end Follows

variable (fromSlice f) in
/-- What a run relies on at each of its events. -/
def Event.Safe : Event → Prop
  | .append _ | .create => True
  | .rename => records newline [] f.unread = []
  | .poll maxBytes => Fits maxBytes f.log.bytes

theorem Follows.step (hnil : fromSlice [] = none) (h : Follows fromSlice lines f) {event : Event}
    (hsafe : event.Safe f) : Follows fromSlice (lines ++ f.completed event) (f.step fromSlice event) := by
  cases event with
  | append chunk => exact h.append chunk
  | rename => simpa [Follower.completed] using h.rename hsafe
  | create => simpa [Follower.completed] using h.create
  | poll maxBytes => simpa [Follower.completed] using h.poll hnil hsafe

theorem Follows.run (hnil : fromSlice [] = none) (h : Follows fromSlice lines f) (events : List Event)
    (hsafe : ∀ before event after, events = before ++ event :: after → event.Safe (f.run fromSlice before)) :
    Follows fromSlice (lines ++ f.arrived fromSlice events) (f.run fromSlice events) := by
  induction events generalizing lines f with
  | nil => simpa [Follower.arrived, Follower.run] using h
  | cons event events ih =>
    have hfirst := h.step hnil (hsafe [] event events rfl)
    rw [Follower.arrived, Follower.run, ← List.append_assoc]
    exact ih hfirst fun before next after hsplit =>
      hsafe (event :: before) next after (by rw [hsplit, List.cons_append])

end FileGuard.Audit
