import FileGuard.Framing.Records
import FileGuard.Store.Hex

/-! The audit log, the scan that shows its end and the reads that follow it. -/

namespace FileGuard.Audit

open Store Framing

structure AccessLogEntry where
  timestamp : String
  decision : String
  access : String
  file : String
  binary : String
  pid : UInt32
  detail : Option String
deriving DecidableEq, Repr

def maxAuditLineBytes : ℕ := 64 * 1024

/-- The size of an entry in memory: six strings and a process id, in bytes. -/
def entrySize : ℕ := 152

/-- `isize::MAX`, rounded down to the alignment of an entry. -/
def maxAllocation : ℕ := 2 ^ 63 - 8

/-- The path of the log, the file that is there, and every file that ever was. -/
structure LogFiles where
  path : Option ℕ
  created : ℕ
  contents : ℕ → Bytes
  bound : ∀ file ∈ path, file < created

namespace LogFiles

/-- The bytes a reader of the path sees. -/
def bytes (log : LogFiles) : Bytes := log.path.elim [] log.contents

def create (log : LogFiles) : LogFiles where
  path := some log.created
  created := log.created + 1
  contents := Function.update log.contents log.created []
  bound := by simp

def write (log : LogFiles) (file : ℕ) (chunk : Bytes) : LogFiles :=
  { log with contents := Function.update log.contents file (log.contents file ++ chunk) }

/-- The file keeps its contents and loses the path. -/
def rename (log : LogFiles) : LogFiles := { log with path := none, bound := by simp }

/-- `open_audit_append`: the file at the path, which is created where there is none. -/
def openAppend (log : LogFiles) : ℕ × LogFiles :=
  match log.path with
  | some file => (file, log)
  | none => (log.created, log.create)

/-- Open the path for appending and write, with no rename in between. -/
def append (log : LogFiles) (chunk : Bytes) : LogFiles := log.openAppend.2.write log.openAppend.1 chunk

end LogFiles

structure AuditCursor where
  file : Option ℕ
  offset : ℕ
deriving DecidableEq, Repr

structure AuditBatch where
  entries : List AccessLogEntry
  cursor : AuditCursor
deriving DecidableEq, Repr

structure AuditUpdate where
  entries : List AccessLogEntry
  advanced : Bool
deriving DecidableEq, Repr

/-- The variables of `scan_recent`. -/
structure Scan where
  recent : List AccessLogEntry
  line : Bytes
  discarding : Bool
  consumed : ℕ
  completeOffset : ℕ

section

variable (fromSlice : Bytes → Option AccessLogEntry)

namespace Scan

def extend (s : Scan) (segment : Bytes) : Scan :=
  if s.discarding then s
  else if s.line.length + segment.length ≤ maxAuditLineBytes then { s with line := s.line ++ segment }
  else { s with line := [], discarding := true }

def push (limit : ℕ) (recent : List AccessLogEntry) (entry : AccessLogEntry) : List AccessLogEntry :=
  (if recent.length = limit then recent.drop 1 else recent) ++ [entry]

def endLine (limit : ℕ) (s : Scan) (completeOffset : ℕ) : Scan where
  recent :=
    if s.discarding then s.recent
    else match fromSlice s.line with
      | some entry => if 0 < limit then push limit s.recent entry else s.recent
      | none => s.recent
  line := []
  discarding := false
  consumed := s.consumed
  completeOffset := completeOffset

end Scan

/-- The loop over one buffer, from the position it has reached. -/
def scanBuffer (limit : ℕ) (available : Bytes) (position : ℕ) (s : Scan) : Scan :=
  if position < available.length then
    let remainder := available.drop position
    match remainder.findIdx? (· == newline) with
    | some segmentLen =>
      scanBuffer limit available (position + segmentLen + 1)
        ((s.extend (remainder.take segmentLen)).endLine fromSlice limit (s.consumed + (position + segmentLen + 1)))
    | none => scanBuffer limit available (position + remainder.length) (s.extend remainder)
  else s
termination_by available.length - position
decreasing_by
  · omega
  · simp only [List.length_drop]; omega

def scanBuffers (limit : ℕ) : List Bytes → Scan → Scan
  | [], s => s
  | available :: rest, s =>
    if available.isEmpty then s
    else
      scanBuffers limit rest
        { scanBuffer fromSlice limit available 0 s with consumed := s.consumed + available.length }

variable (grants : ℕ → Bool)

/-- Whether `VecDeque::with_capacity` returns; `grants` is what the allocator answers to a number of bytes. A buffer of
more bytes than an `isize` counts is a panic, and one that the allocator refuses aborts the process. -/
def withCapacity (limit : ℕ) : Bool :=
  limit == 0 || decide (entrySize * limit ≤ maxAllocation) && grants (entrySize * limit)

/-- `scan_recent`, given what each `fill_buf` of its reader returns; no answer where the process ends. -/
def scanRecent (buffers : List Bytes) (limit : ℕ) : Option (List AccessLogEntry × ℕ) :=
  if withCapacity grants limit then
    let s := scanBuffers fromSlice limit buffers ⟨[], [], false, 0, 0⟩
    some (s.recent, s.completeOffset)
  else none

def readRecentBatch (log : LogFiles) (fillBuf : Bytes → List Bytes) (n : ℕ) : Option AuditBatch :=
  match log.path with
  | none => some ⟨[], ⟨none, 0⟩⟩
  | some file => (scanRecent fromSlice grants (fillBuf (log.contents file)) n).map fun (entries, offset) =>
    ⟨entries, ⟨some file, offset⟩⟩

/-- One past the last newline. -/
def completeLen (bytes : Bytes) : Option ℕ :=
  (bytes.reverse.findIdx? (· == newline)).map (bytes.length - ·)

def entriesOf (bytes : Bytes) : List AccessLogEntry :=
  ((bytes.splitOn newline).filter fun line => !line.isEmpty && decide (line.length ≤ maxAuditLineBytes)).filterMap
    fromSlice

/-- The part of `read_new` that runs under the lock of the file. -/
def readFile (contents : Bytes) (cursor : AuditCursor) (replaced : Bool) (maxBytes : ℕ) :
    Except String AuditUpdate × AuditCursor :=
  let truncated := decide (contents.length < cursor.offset)
  let cursor := if truncated then { cursor with offset := 0 } else cursor
  let start := cursor.offset
  if start = contents.length then (.ok ⟨[], replaced || truncated⟩, cursor)
  else
    let bytes := (contents.drop start).take (min (contents.length - start) maxBytes)
    match completeLen bytes with
    | none =>
      if bytes.length = maxBytes then
        (.error s!"audit log contains a record larger than {maxBytes} bytes", cursor)
      else (.ok ⟨[], replaced || truncated⟩, cursor)
    | some complete =>
      (.ok ⟨entriesOf fromSlice (bytes.take complete), true⟩, { cursor with offset := start + complete })

/-- What the cursor's file holds. -/
def AuditCursor.contents (cursor : AuditCursor) (log : LogFiles) : Bytes := cursor.file.elim [] log.contents

/-- The part of `read_new` before that: the cursor moves to the file at the path, where that is another one. -/
def openRead (log : LogFiles) (cursor : AuditCursor) : Option (Bool × AuditCursor) :=
  log.path.map fun candidate =>
    if cursor.file != some candidate then (true, ⟨some candidate, 0⟩) else (false, cursor)

/-- `read_new` with no rename between its two parts. -/
def readNew (log : LogFiles) (cursor : AuditCursor) (maxBytes : ℕ) :
    Except String AuditUpdate × AuditCursor :=
  if maxBytes = 0 then (.error "audit read limit must be greater than zero", cursor)
  else match openRead log cursor with
  | none => (.ok ⟨[], false⟩, cursor)
  | some (replaced, cursor) => readFile fromSlice (cursor.contents log) cursor replaced maxBytes

/-- The entries that a list of complete records holds. -/
def parseable (lines : List Bytes) : List AccessLogEntry :=
  (lines.filter fun line => decide (line.length ≤ maxAuditLineBytes)).filterMap fromSlice

end

end FileGuard.Audit
