import FileGuard.Framing.Messages
import FileGuard.Policy.Engine

/-! The wire protocol between the daemon and the prompt agent: one request and one response per connection, each a
line of JSON. -/

namespace FileGuard.Prompt

open Framing Policy Store

def protocolVersion : UInt32 := 1
def maxMessageBytes : ℕ := 64 * 1024

structure ParentDesc where
  pid : UInt32
  name : String
  binaryPath : Option String
  deriving DecidableEq

structure ProcessDesc where
  pid : UInt32
  binaryPath : String
  binaryName : String
  script : Option String
  parents : List ParentDesc
  deriving DecidableEq

structure AgentRequest where
  v : UInt32
  id : UInt64
  access : Access
  file : String
  process : ProcessDesc
  timeoutMs : UInt64
  deriving DecidableEq

inductive PromptOutcome where
  | decided (choice : UserChoice)
  | noResponse
  deriving DecidableEq

structure AgentResponse where
  v : UInt32
  id : UInt64
  outcome : PromptOutcome
  deriving DecidableEq

def refusals : Refusals String where
  closed := "prompt peer closed without a message"
  tooLong := s!"prompt message exceeds {maxMessageBytes} bytes"
  unterminated := "prompt message is not newline-terminated"

variable {α : Type} (json : Codec α UInt8 String)

def readJsonLine (stream : Incoming UInt8 String) : PolicyResult α := do
  let bytes ← stream.readMessage newline refusals maxMessageBytes
  json.decode bytes

def writeJsonLine (written : PolicyResult Unit) (message : α) : PolicyResult Bytes :=
  json.writeMessage newline refusals.tooLong maxMessageBytes written message

variable {json} {written : PolicyResult Unit} {message : α} {line rest : Bytes} {stream : Incoming UInt8 String}

theorem readJsonLine_eq_ok :
    readJsonLine json stream = .ok message ↔
      ∃ text rest, stream.input = text ++ newline :: rest ∧ newline ∉ text ∧ text.length < maxMessageBytes ∧
        json.decode text = .ok message := by
  constructor
  · intro h
    cases hread : stream.readMessage newline refusals maxMessageBytes with
    | error error =>
      rw [readJsonLine, hread] at h
      cases h
    | ok text =>
      rw [readJsonLine, hread] at h
      obtain ⟨rest, hinput, htext, hlen⟩ := Incoming.readMessage_eq_ok.mp hread
      exact ⟨text, rest, hinput, htext, hlen, h⟩
  · rintro ⟨text, rest, hinput, htext, hlen, hdecode⟩
    rw [readJsonLine, Incoming.readMessage_eq_ok.mpr ⟨rest, hinput, htext, hlen⟩]
    exact hdecode

theorem readJsonLine_written (h : json.Serves newline message) (hline : writeJsonLine json written message = .ok line)
    (hinput : stream.input = line ++ rest) : readJsonLine json stream = .ok message := by
  obtain ⟨text, hread, hdecode⟩ : ∃ text, stream.readMessage newline refusals maxMessageBytes = .ok text ∧
      json.decode text = .ok message := Incoming.readMessage_written h hline hinput
  rw [readJsonLine, hread]
  exact hdecode

end FileGuard.Prompt
