import FileGuard.Audit.Delivery

/-! Following a log that is rotated by renaming it and creating a new one. -/

namespace FileGuard.Audit

open Store Framing

def maxLogReadBytes : ℕ := 16 * 1024 * 1024

section

variable (toVec : AccessLogEntry → Bytes) (fromSlice : Bytes → Option AccessLogEntry)

/-- `append_entry` until it waits for the lock of the file that it has opened. -/
def openEntry (log : LogFiles) (entry : AccessLogEntry) : Except String (ℕ × LogFiles) :=
  let line := toVec entry
  if maxAuditLineBytes < line.length then .error s!"audit entry exceeds {maxAuditLineBytes} bytes"
  else .ok log.openAppend

/-- What `append_entry` does under that lock. -/
def writeEntry (log : LogFiles) (file : ℕ) (entry : AccessLogEntry) : LogFiles :=
  log.write file (toVec entry ++ [newline])

/-- One step of an append, of who rotates the log, or of a poll. -/
inductive Turn where
  | openAppend (entry : AccessLogEntry)
  | write (index : ℕ)
  | rename
  | create
  | openRead
  | read
deriving DecidableEq, Repr

/-- A followed log, the appends that have opened a file and not written, the poll that has opened one and not read, and
the entries that have been written. -/
structure Rotating where
  follower : Follower
  writers : List (ℕ × AccessLogEntry)
  reading : Option Bool
  appended : List AccessLogEntry

namespace Rotating

/-- Following starts while some appends are on their way. -/
def start (log : LogFiles) (cursor : AuditCursor) (writers : List (ℕ × AccessLogEntry)) : Rotating :=
  ⟨⟨log, cursor, []⟩, writers, none, []⟩

def turn (r : Rotating) : Turn → Rotating
  | .openAppend entry =>
    match openEntry toVec r.follower.log entry with
    | .ok (file, log) => { r with follower := { r.follower with log := log }, writers := r.writers ++ [(file, entry)] }
    | .error _ => r
  | .write index =>
    match r.writers[index]? with
    | none => r
    | some (file, entry) =>
      { r with
        follower := { r.follower with log := writeEntry toVec r.follower.log file entry }
        writers := r.writers.eraseIdx index
        appended := r.appended ++ [entry] }
  | .rename => { r with follower := r.follower.step fromSlice .rename }
  | .create => { r with follower := r.follower.step fromSlice .create }
  | .openRead =>
    if r.reading.isSome then r
    else
      match openRead r.follower.log r.follower.cursor with
      | none => { r with follower := { r.follower with updates := r.follower.updates ++ [.ok ⟨[], false⟩] } }
      | some (replaced, cursor) =>
        { r with follower := { r.follower with cursor := cursor }, reading := some replaced }
  | .read =>
    match r.reading with
    | none => r
    | some replaced =>
      let (update, cursor) :=
        readFile fromSlice (r.follower.cursor.contents r.follower.log) r.follower.cursor replaced maxLogReadBytes
      { r with
        follower := { r.follower with cursor := cursor, updates := r.follower.updates ++ [update] }
        reading := none }

def turns (r : Rotating) (ts : List Turn) : Rotating := ts.foldl (turn toVec fromSlice) r

end Rotating

/-- An entry that `append_entry` writes as one line and that reads back. -/
structure Legible (entry : AccessLogEntry) : Prop where
  short : (toVec entry).length ≤ maxAuditLineBytes
  line : newline ∉ toVec entry
  round : fromSlice (toVec entry) = some entry

end

/-- The log holds whole records, each smaller than a read. -/
structure Written (log : LogFiles) : Prop where
  whole : Whole newline log.bytes
  fits : Fits maxLogReadBytes log.bytes

variable {toVec : AccessLogEntry → Bytes} {fromSlice : Bytes → Option AccessLogEntry}
  {lines : List Bytes} {f : Follower} {r : Rotating}

theorem written_nil {log : LogFiles} (h : log.bytes = []) : Written log := by
  constructor
  · rw [h]; exact whole_nil
  · rw [h, fits_iff]
    exact ⟨fun line hline => (by cases hline), by simp [maxLogReadBytes]⟩

theorem Written.append {log : LogFiles} (h : Written log) {line : Bytes} (hline : newline ∉ line)
    (hlength : line.length ≤ maxAuditLineBytes) : Written (log.append (line ++ [newline])) := by
  have hend : Whole newline (line ++ [newline]) := whole_sep
  constructor
  · rw [LogFiles.bytes_append]
    exact h.whole.append hend
  · obtain ⟨hlines, -⟩ := fits_iff.mp h.fits
    rw [LogFiles.bytes_append, fits_iff, h.whole.records_append, h.whole.unfinished_append, records_line hline,
      records_nil, hend]
    have hsmall : line.length < maxLogReadBytes := hlength.trans_lt (by decide)
    refine ⟨fun r hr => ?_, by simp [maxLogReadBytes]⟩
    rcases List.mem_append.mp hr with hold | hnew
    · exact hlines r hold
    · rw [List.mem_singleton.mp hnew]
      exact hsmall

theorem parseable_map {entries : List AccessLogEntry}
    (h : ∀ entry ∈ entries, (toVec entry).length ≤ maxAuditLineBytes ∧ fromSlice (toVec entry) = some entry) :
    parseable fromSlice (entries.map toVec) = entries := by
  induction entries with
  | nil => rfl
  | cons entry entries ih =>
    obtain ⟨hlength, hround⟩ := h entry List.mem_cons_self
    rw [List.map_cons, ← List.singleton_append, parseable_append, parseable_singleton, if_pos hlength, hround,
      ih fun e he => h e (List.mem_cons_of_mem _ he)]
    rfl

theorem LogFiles.openAppend_eq (log : LogFiles) :
    log.openAppend.2 = (if log.path = none then log.create else log) ∧ log.openAppend.2.path = some log.openAppend.1 := by
  cases hpath : log.path with
  | none => simp [openAppend, create, hpath]
  | some file => simp [openAppend, hpath]

theorem LogFiles.write_eq_append {log : LogFiles} {file : ℕ} (hpath : log.path = some file) (chunk : Bytes) :
    log.write file chunk = log.append chunk := by
  simp [append, openAppend, hpath]

theorem readFile_end {contents : Bytes} {cursor : AuditCursor} (hend : contents.length = cursor.offset) (replaced : Bool)
    (maxBytes : ℕ) : readFile fromSlice contents cursor replaced maxBytes = (.ok ⟨[], replaced⟩, cursor) := by
  rw [readFile, hend]
  simp

variable (toVec fromSlice r) in
theorem Rotating.turn_read :
    (r.turn toVec fromSlice .read).follower.log = r.follower.log ∧
      (r.turn toVec fromSlice .read).appended = r.appended := by
  rw [turn]
  cases r.reading with
  | none => exact ⟨rfl, rfl⟩
  | some replaced => exact ⟨rfl, rfl⟩

variable (toVec fromSlice r) in
/-- Every append and every poll that is on its way has the file at the path open, except for a poll that has nothing
more to read in its own. -/
structure Rotates : Prop where
  follows : Follows fromSlice (r.appended.map toVec) r.follower
  written : Written r.follower.log
  writers : ∀ w ∈ r.writers, r.follower.log.path = some w.1 ∧ Legible toVec fromSlice w.2
  appended : ∀ entry ∈ r.appended, Legible toVec fromSlice entry
  reading : r.reading.isSome → ∃ file, r.follower.cursor.file = some file ∧
    (r.follower.log.path = some file ∨ (r.follower.log.contents file).length = r.follower.cursor.offset)

namespace Rotates

theorem create (h : Rotates toVec fromSlice r) :
    Rotates toVec fromSlice { r with follower := r.follower.step fromSlice .create } := by
  have hfollows := h.follows.create
  rw [Follower.step] at hfollows ⊢
  split_ifs at hfollows ⊢ with hpath
  · refine ⟨hfollows, written_nil (LogFiles.bytes_create _), fun w hw => ?_, h.appended, fun hreading => ?_⟩
    · have hsome := (h.writers w hw).1
      rw [hpath] at hsome
      cases hsome
    · obtain ⟨file, hfile, hold | hend⟩ := h.reading hreading
      · rw [hpath] at hold
        cases hold
      · refine ⟨file, hfile, .inr ?_⟩
        rw [← hend]
        exact congrArg List.length (Function.update_of_ne (h.follows.opened file hfile).ne _ _)
  · exact h

theorem openAppend (h : Rotates toVec fromSlice r) {entry : AccessLogEntry} (hentry : Legible toVec fromSlice entry) :
    Rotates toVec fromSlice (r.turn toVec fromSlice (.openAppend entry)) := by
  obtain ⟨hlog, hopened⟩ := r.follower.log.openAppend_eq
  have hcreate := h.create
  rw [Follower.step, ← hlog] at hcreate
  rw [Rotating.turn, openEntry, if_neg (not_lt.mpr hentry.short)]
  refine ⟨hcreate.follows, hcreate.written, fun w hw => ?_, hcreate.appended, hcreate.reading⟩
  rcases List.mem_append.mp hw with hold | hnew
  · exact hcreate.writers w hold
  · rw [List.mem_singleton.mp hnew]
    exact ⟨hopened, hentry⟩

theorem write (h : Rotates toVec fromSlice r) (index : ℕ) :
    Rotates toVec fromSlice (r.turn toVec fromSlice (.write index)) := by
  rw [Rotating.turn]
  cases hwriter : r.writers[index]? with
  | none => exact h
  | some w =>
    obtain ⟨file, entry⟩ := w
    obtain ⟨hpath, hentry⟩ := h.writers _ (List.mem_of_getElem? hwriter)
    have hfollows := h.follows.append (toVec entry ++ [newline])
    have hcompleted : r.follower.completed (.append (toVec entry ++ [newline])) = [toVec entry] := by
      rw [Follower.completed, h.written.whole, records_line hentry.line, records_nil, List.nil_append]
    have hwritten := h.written.append hentry.line hentry.short
    rw [hcompleted, Follower.step] at hfollows
    rw [← LogFiles.write_eq_append hpath] at hfollows hwritten
    refine ⟨by rwa [List.map_append], hwritten, fun w hw => ?_, fun e he => ?_, fun hreading => ?_⟩
    · exact h.writers w (List.mem_of_mem_eraseIdx hw)
    · rcases List.mem_append.mp he with hold | hnew
      · exact h.appended e hold
      · rwa [List.mem_singleton.mp hnew]
    · obtain ⟨reader, hreader, hat⟩ := h.reading hreading
      refine ⟨reader, hreader, ?_⟩
      by_cases hsame : reader = file
      · exact .inl (hsame ▸ hpath)
      · rcases hat with hat | hend
        · exact .inl hat
        · refine .inr ?_
          rw [← hend]
          exact congrArg List.length (Function.update_of_ne hsame _ _)

theorem rename (h : Rotates toVec fromSlice r) (hread : r.follower.unread = []) (hwriters : r.writers = []) :
    Rotates toVec fromSlice { r with follower := r.follower.step fromSlice .rename } := by
  refine ⟨h.follows.rename (by rw [hread, records_nil]), written_nil (LogFiles.bytes_rename _), ?_, h.appended, ?_⟩
  · intro w hw
    rw [hwriters] at hw
    cases hw
  · intro hreading
    obtain ⟨file, hfile, hpath | hend⟩ := h.reading hreading
    · obtain ⟨hoffset, -⟩ := h.follows.whole file hfile hpath
      rw [Follower.unread, if_pos (hfile.trans hpath.symm), List.drop_eq_nil_iff] at hread
      have hbytes : r.follower.log.bytes = r.follower.log.contents file := by rw [LogFiles.bytes, hpath]; rfl
      rw [hbytes] at hread hoffset
      exact ⟨file, hfile, .inr (le_antisymm hread hoffset)⟩
    · exact ⟨file, hfile, .inr hend⟩

theorem openRead (h : Rotates toVec fromSlice r) : Rotates toVec fromSlice (r.turn toVec fromSlice .openRead) := by
  rw [Rotating.turn]
  split_ifs with hreading
  · exact h
  · cases hpath : r.follower.log.path with
    | none =>
      have hmissing : Audit.openRead r.follower.log r.follower.cursor = none := by
        rw [Audit.openRead, hpath, Option.map_none]
      rw [hmissing]
      refine ⟨?_, h.written, h.writers, h.appended, h.reading⟩
      exact h.follows.advance (List.nil_append _).symm whole_nil (.inl rfl) rfl h.follows.whole (isOk_of_mem _) rfl
    | some candidate =>
      obtain ⟨cursor, hopened, hfile, -, hfollows⟩ := h.follows.openRead_reads hpath
      rw [hopened]
      exact ⟨hfollows, h.written, h.writers, h.appended, fun _ => ⟨candidate, hfile.trans hpath, .inl hpath⟩⟩

theorem read (hnil : fromSlice [] = none) (h : Rotates toVec fromSlice r) :
    Rotates toVec fromSlice (r.turn toVec fromSlice .read) := by
  rw [Rotating.turn]
  cases hreading : r.reading with
  | none => exact h
  | some replaced =>
    refine ⟨?_, h.written, h.writers, h.appended, fun hnone => (by cases hnone)⟩
    dsimp only
    obtain ⟨file, hfile, hpath | hend⟩ := h.reading (by rw [hreading]; rfl)
    · obtain ⟨hlines, hlast⟩ := fits_iff.mp (h.follows.fits_unread h.written.fits)
      obtain ⟨piece, rest, update, cursor, htakes, hread, hcursor, hrest, hwhole⟩ :=
        h.follows.readFile_unread hnil hpath (hfile.trans hpath.symm) replaced maxLogReadBytes
      rw [hread, htakes.answered hlines hlast]
      exact h.follows.advance htakes.split htakes.whole (.inr hcursor) hrest hwhole (isOk_of_mem _) (List.append_nil _)
    · have hidle : readFile fromSlice (r.follower.cursor.contents r.follower.log) r.follower.cursor replaced
          maxLogReadBytes = (.ok ⟨[], replaced⟩, r.follower.cursor) := by
        rw [AuditCursor.contents, hfile]
        exact readFile_end hend _ _
      rw [hidle]
      exact h.follows.advance (List.nil_append _).symm whole_nil (.inl rfl) rfl h.follows.whole (isOk_of_mem _) rfl

theorem turn (hnil : fromSlice [] = none) (h : Rotates toVec fromSlice r) {t : Turn}
    (hcodec : ∀ entry, t = .openAppend entry → fromSlice (toVec entry) = some entry ∧ newline ∉ toVec entry)
    (hsettled : t = .rename → r.follower.unread = [] ∧ r.writers = []) :
    Rotates toVec fromSlice (r.turn toVec fromSlice t) := by
  cases t with
  | openAppend entry =>
    by_cases hlarge : maxAuditLineBytes < (toVec entry).length
    · rw [Rotating.turn, openEntry, if_pos hlarge]
      exact h
    · obtain ⟨hround, hline⟩ := hcodec entry rfl
      exact h.openAppend ⟨not_lt.mp hlarge, hline, hround⟩
  | write index => exact h.write index
  | rename =>
    obtain ⟨hread, hwriters⟩ := hsettled rfl
    exact h.rename hread hwriters
  | create => exact h.create
  | openRead => exact h.openRead
  | read => exact h.read hnil

theorem turns (hnil : fromSlice [] = none) (h : Rotates toVec fromSlice r) (ts : List Turn)
    (hcodec : ∀ entry, .openAppend entry ∈ ts → fromSlice (toVec entry) = some entry ∧ newline ∉ toVec entry)
    (hsettled : ∀ before after, ts = before ++ .rename :: after →
      (r.turns toVec fromSlice before).follower.unread = [] ∧ (r.turns toVec fromSlice before).writers = []) :
    Rotates toVec fromSlice (r.turns toVec fromSlice ts) := by
  induction ts generalizing r with
  | nil => exact h
  | cons t ts ih =>
    have hnext := h.turn hnil (fun entry ht => hcodec entry (ht ▸ List.mem_cons_self))
      fun ht => hsettled [] ts (ht ▸ rfl)
    exact ih hnext (fun entry hentry => hcodec entry (List.mem_cons_of_mem _ hentry))
      fun before after hsplit => hsettled (t :: before) after (by rw [hsplit, List.cons_append])

theorem parseable_eq (h : Rotates toVec fromSlice r) : parseable fromSlice (r.appended.map toVec) = r.appended :=
  parseable_map fun entry hentry => ⟨(h.appended entry hentry).short, (h.appended entry hentry).round⟩

theorem delivered_prefix (h : Rotates toVec fromSlice r) : r.follower.delivered <+: r.appended := by
  obtain ⟨read, hread, hdelivered⟩ := h.follows.read
  have hentries := h.parseable_eq
  rw [hread, parseable_append] at hentries
  rw [← hentries, hdelivered]
  exact List.prefix_append _ _

theorem drains (hnil : fromSlice [] = none) (h : Rotates toVec fromSlice r) :
    ∃ fuel last, r.follower.drain fromSlice maxLogReadBytes fuel = some (.ok last) ∧ last.log = r.follower.log ∧
      last.delivered = r.appended := by
  obtain ⟨fuel, last, hdrain, hlog, -, hdelivered⟩ := (h.follows.delivers hnil).drains maxLogReadBytes h.written.fits
  exact ⟨fuel, last, hdrain, hlog, hdelivered.trans h.parseable_eq⟩

end Rotates

/-- Where every log is read to its end before it is renamed away, and no append that has opened it is still to write,
rotation loses nothing. -/
theorem rotation_delivers (hnil : fromSlice [] = none) {fillBuf : Bytes → List Bytes}
    (hbuffers : ∀ contents, (fillBuf contents).flatten = contents ∧ [] ∉ fillBuf contents) (grants : ℕ → Bool)
    (log : LogFiles) (hlog : Written log) (n : ℕ) (batch : AuditBatch)
    (hbatch : readRecentBatch fromSlice grants log fillBuf n = some batch) (writers : List (ℕ × AccessLogEntry))
    (hwriters : ∀ w ∈ writers, log.path = some w.1 ∧ Legible toVec fromSlice w.2) (ts : List Turn)
    (hcodec : ∀ entry, .openAppend entry ∈ ts → fromSlice (toVec entry) = some entry ∧ newline ∉ toVec entry)
    (hsettled : ∀ before after, ts = before ++ .rename :: after →
      let here := (Rotating.start log batch.cursor writers).turns toVec fromSlice before
      here.follower.unread = [] ∧ here.writers = []) :
    let reached := (Rotating.start log batch.cursor writers).turns toVec fromSlice ts
    (∀ update ∈ reached.follower.updates, update.isOk = true) ∧ reached.follower.delivered <+: reached.appended ∧
      ∃ fuel last, (reached.turn toVec fromSlice .read).follower.drain fromSlice maxLogReadBytes fuel = some (.ok last) ∧
        last.log = reached.follower.log ∧ last.delivered = reached.appended := by
  intro reached
  have hstart : Rotates toVec fromSlice (.start log batch.cursor writers) :=
    ⟨follows_batch hbuffers hbatch, hlog, hwriters, fun entry hnone => (by cases hnone), fun hnone => (by cases hnone)⟩
  have hreached : Rotates toVec fromSlice reached := hstart.turns hnil ts hcodec hsettled
  refine ⟨hreached.follows.answered, hreached.delivered_prefix, ?_⟩
  obtain ⟨hlogRead, happended⟩ := Rotating.turn_read toVec fromSlice reached
  rw [← hlogRead, ← happended]
  exact (hreached.read hnil).drains hnil

theorem rotation_delivers_example :
    let ts : List Turn := [.write 0, .openRead, .read, .rename, .create, .openAppend (exampleEntry 2), .openRead, .write 0]
    let reached := (Rotating.start exampleLog ⟨some 0, 0⟩ [(0, exampleEntry 1)]).turns exampleVec exampleSlice ts
    ∃ fuel last, (reached.turn exampleVec exampleSlice .read).follower.drain exampleSlice maxLogReadBytes fuel =
      some (.ok last) ∧ last.delivered = [exampleEntry 1, exampleEntry 2] := by
  intro ts reached
  have hwriters : ∀ w ∈ [(0, exampleEntry 1)],
      exampleLog.path = some w.1 ∧ Legible exampleVec exampleSlice w.2 := by
    intro w hw
    rw [List.mem_singleton.mp hw]
    exact ⟨rfl, by decide +kernel, by decide +kernel, by decide +kernel⟩
  have hcodec : ∀ entry, .openAppend entry ∈ ts →
      exampleSlice (exampleVec entry) = some entry ∧ newline ∉ exampleVec entry := by
    intro entry hentry
    obtain rfl : entry = exampleEntry 2 := by simpa [ts] using hentry
    decide +kernel
  have hsettled : ∀ before after, ts = before ++ .rename :: after →
      let here := (Rotating.start exampleLog ⟨some 0, 0⟩ [(0, exampleEntry 1)]).turns exampleVec exampleSlice before
      here.follower.unread = [] ∧ here.writers = [] := by
    intro before after hsplit
    match before, hsplit with
    | [_, _, _], hsplit =>
      obtain ⟨rfl, rfl, rfl, -⟩ : _ = _ ∧ _ = _ ∧ _ = _ ∧ _ := by simpa [ts] using hsplit
      decide +kernel
    | _ :: _ :: _ :: _ :: before, hsplit => simp [ts, List.cons_eq_append_iff] at hsplit
    | [], hsplit => simp [ts] at hsplit
    | [_], hsplit => simp [ts] at hsplit
    | [_, _], hsplit => simp [ts] at hsplit
  obtain ⟨-, -, fuel, last, hdrain, -, hdelivered⟩ := rotation_delivers exampleSlice_nil exampleBuf_flatten
    (fun bytes => decide (bytes ≤ 4096)) exampleLog (written_nil rfl) 10 ⟨[], ⟨some 0, 0⟩⟩ rfl [(0, exampleEntry 1)]
    hwriters ts hcodec hsettled
  exact ⟨fuel, last, hdrain, hdelivered.trans (by decide +kernel)⟩

theorem rotation_loses :
    let ts : List Turn := [.openAppend (exampleEntry 1), .write 0, .rename, .create, .openAppend (exampleEntry 2), .write 0,
      .openRead, .read]
    let reached := (Rotating.start exampleLog ⟨some 0, 0⟩ []).turns exampleVec exampleSlice ts
    reached.appended = [exampleEntry 1, exampleEntry 2] ∧ reached.follower.delivered = [exampleEntry 2] ∧
      (reached.follower.drain exampleSlice maxLogReadBytes 1).map (Except.map Follower.delivered) =
        some (.ok [exampleEntry 2]) := by
  decide +kernel

-- An append that opened the old file and writes after the rename is lost as well.
example :
    let ts : List Turn := [.openAppend (exampleEntry 1), .rename, .create, .write 0, .openRead, .read]
    let reached := (Rotating.start exampleLog ⟨some 0, 0⟩ []).turns exampleVec exampleSlice ts
    reached.appended = [exampleEntry 1] ∧ reached.follower.delivered = [] ∧ reached.follower.unread = [] := by
  decide +kernel

end FileGuard.Audit
