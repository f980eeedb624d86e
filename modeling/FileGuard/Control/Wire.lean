import FileGuard.Control.Api
import FileGuard.Prompt.Protocol

/-! Requests and responses of the control API as bytes on the socket. -/

namespace FileGuard.Control.Wire

open Framing Policy Store

def refusals : Refusals String where
  closed := "control peer closed without a message"
  tooLong := s!"control message exceeds {maxRequestBytes} bytes"
  unterminated := "control message is not newline-terminated"

/-- A read that takes too long is one that fails with "timed out reading control message". -/
def readMessage (stream : Incoming UInt8 String) : PolicyResult Bytes :=
  stream.readMessage newline refusals maxRequestBytes

/-- `ControlResponse::Error` on a response that is too large. -/
def oversized : ControlResponse := .error s!"control response exceeds {maxRequestBytes} bytes; reduce the rule set"

variable (requests : Codec ControlRequest UInt8 String) (responses : Codec ControlResponse UInt8 String)

/-- The part of `request_at` that writes; `written` is what the socket answers. -/
def writeRequest (written : PolicyResult Unit) (command : ControlCommand) : PolicyResult Bytes :=
  requests.writeMessage newline s!"control request exceeds {maxRequestBytes} bytes" maxRequestBytes written (.new command)

/-- What a client makes of a response. -/
def result : ControlResponse → PolicyResult ControlPayload
  | .ok payload => .ok payload
  | .error message => .error message

/-- `peer` is the user at the other end, once connected, and `answer` what comes back from there. -/
def requestAt (ourUid : ℕ) (peer : PolicyResult ℕ) (written : PolicyResult Unit) (answer : Incoming UInt8 String)
    (command : ControlCommand) : PolicyResult ControlPayload := do
  let peerUid ← peer
  if peerUid ≠ 0 ∧ peerUid ≠ ourUid then throw s!"control socket peer uid {peerUid} is not trusted"
  let _ ← writeRequest requests written command
  let response ← readMessage answer
  result (← responses.decode response)

def encodeResponse (response : ControlResponse) : PolicyResult Bytes := do
  let bytes ← responses.encode response
  let bytes ← if maxRequestBytes < bytes.length + 1 then responses.encode oversized else pure bytes
  return bytes ++ [newline]

/-- A connection to the daemon: the bytes it answers and the rules it leaves. -/
def handleConnection (ids : IdSource) (uids : Uids) (home : PolicyResult (Option Path)) (m : RuleManager)
    (refused : Option String) (peerUid : ℕ) (stream : Incoming UInt8 String) : PolicyResult Bytes × RuleManager :=
  match readMessage stream with
  | .error error => (.error error, m)
  | .ok bytes => match requests.decode bytes with
    | .ok request =>
      let (response, m) := Control.handleConnection ids uids home m refused peerUid request
      (encodeResponse responses response, m)
    | .error error => (encodeResponse responses (.error s!"invalid control request: {error}"), m)

/-- The text of `ControlResponse::Error`. -/
def errorText (message : String) : Bytes :=
  utf8 (String.ofList (Policy.Json.object ("status", "error") [("message", message)]))

def oversizedText : Bytes := errorText s!"control response exceeds {maxRequestBytes} bytes; reduce the rule set"

theorem length_oversizedText : oversizedText.length < maxRequestBytes := by
  have hlen : oversizedText.length = 90 := by decide +kernel
  rw [hlen]
  decide

variable {requests responses} {response : ControlResponse} {command : ControlCommand} {written : PolicyResult Unit}
  {text line rest : Bytes} {stream answer : Incoming UInt8 String}

theorem readMessage_eq_ok :
    readMessage stream = .ok text ↔
      ∃ rest, stream.input = text ++ newline :: rest ∧ newline ∉ text ∧ text.length < maxRequestBytes :=
  Incoming.readMessage_eq_ok

theorem readMessage_request (h : requests.Serves newline (.new command))
    (hline : writeRequest requests written command = .ok line) (hinput : stream.input = line ++ rest) :
    ∃ text, readMessage stream = .ok text ∧ requests.decode text = .ok (.new command) :=
  Incoming.readMessage_written h hline hinput

theorem encodeResponse_of_fits (htext : responses.encode response = .ok text) (hfits : text.length < maxRequestBytes) :
    encodeResponse responses response = .ok (text ++ [newline]) := by
  have hle : ¬maxRequestBytes < text.length + 1 := Nat.not_lt.mpr hfits
  rw [encodeResponse, htext]
  exact if_neg hle

theorem encodeResponse_of_not_fits (htext : responses.encode response = .ok text)
    (hfits : ¬text.length < maxRequestBytes) (hoversized : responses.encode oversized = .ok oversizedText) :
    encodeResponse responses response = .ok (oversizedText ++ [newline]) := by
  have hlt : maxRequestBytes < text.length + 1 := Nat.lt_of_not_le hfits
  rw [encodeResponse, htext]
  refine (if_pos hlt).trans ?_
  rw [hoversized]
  rfl

/-- The line of a response carries it, or the error in its place when it is too large. -/
theorem encodeResponse_eq (hresponse : responses.Serves newline response) (hserves : responses.Serves newline oversized)
    (htext : responses.encode response = .ok text) (hoversized : responses.encode oversized = .ok oversizedText) :
    ∃ sent, encodeResponse responses response = .ok (sent ++ [newline]) ∧ sent.length < maxRequestBytes ∧ newline ∉ sent ∧
      responses.decode sent = .ok (Control.encodeResponse (decide (text.length < maxRequestBytes)) response) := by
  by_cases hfits : text.length < maxRequestBytes
  · refine ⟨text, encodeResponse_of_fits htext hfits, hfits, hresponse.sep_notMem text htext, ?_⟩
    rw [decide_eq_true hfits]
    exact hresponse.decode_encode text htext
  · refine ⟨oversizedText, encodeResponse_of_not_fits htext hfits hoversized, length_oversizedText,
      hserves.sep_notMem oversizedText hoversized, ?_⟩
    rw [decide_eq_false hfits]
    exact hserves.decode_encode oversizedText hoversized

theorem requestAt_answered {ourUid peerUid : ℕ} (hpeer : peerUid = 0 ∨ peerUid = ourUid)
    (hline : writeRequest requests written command = .ok line) (hanswer : readMessage answer = .ok text)
    (hdecode : responses.decode text = .ok response) :
    requestAt requests responses ourUid (.ok peerUid) written answer command = result response := by
  have htrusted : ¬(peerUid ≠ 0 ∧ peerUid ≠ ourUid) := by tauto
  unfold requestAt
  rw [hline, hanswer]
  refine (if_neg htrusted).trans ?_
  show responses.decode text >>= result = result response
  rw [hdecode]
  rfl

/-- A whole exchange over the socket is one call of the daemon, however the bytes are cut on either way. -/
theorem exchange {ids : IdSource} {uids : Uids} {home : PolicyResult (Option Path)} {m : RuleManager}
    {refused : Option String} {ourUid peerUid : ℕ} (hpeer : peerUid = 0 ∨ peerUid = ourUid)
    (hrequest : requests.Serves newline (.new command)) (hline : writeRequest requests written command = .ok line)
    (hinput : stream.input = line ++ rest)
    (hresponse : responses.Serves newline (Control.handleConnection ids uids home m refused ourUid (.new command)).1)
    (hserves : responses.Serves newline oversized)
    (htext : responses.encode (Control.handleConnection ids uids home m refused ourUid (.new command)).1 = .ok text)
    (hoversized : responses.encode oversized = .ok oversizedText) :
    ∃ sent, handleConnection requests responses ids uids home m refused ourUid stream =
        (.ok sent, (Control.handleConnection ids uids home m refused ourUid (.new command)).2) ∧
      ∀ answer : Incoming UInt8 String, ∀ after, answer.input = sent ++ after →
        requestAt requests responses ourUid (.ok peerUid) written answer command =
          result (Control.encodeResponse (decide (text.length < maxRequestBytes))
            (Control.handleConnection ids uids home m refused ourUid (.new command)).1) := by
  obtain ⟨received, hread, hdecode⟩ := readMessage_request hrequest hline hinput
  obtain ⟨sent, hencode, hlen, hsep, hsent⟩ := encodeResponse_eq hresponse hserves htext hoversized
  refine ⟨sent ++ [newline], ?_, fun answer after hafter => ?_⟩
  · unfold handleConnection
    rw [hread]
    simp only [hdecode, hencode]
  · refine requestAt_answered hpeer hline (readMessage_eq_ok.mpr ⟨after, ?_, hsep, hlen⟩) hsent
    rw [hafter, List.append_assoc, List.singleton_append]

/-- Framing on both sockets. -/
theorem framing :
    (∀ (α : Type) (json : Codec α UInt8 String) (message : α) (written : PolicyResult Unit) (line rest : Bytes)
      (stream : Incoming UInt8 String), json.Serves newline message →
      Prompt.writeJsonLine json written message = .ok line → stream.input = line ++ rest →
      Prompt.readJsonLine json stream = .ok message) ∧
    (∀ (requests : Codec ControlRequest UInt8 String) (command : ControlCommand) (written : PolicyResult Unit)
      (line rest : Bytes) (stream : Incoming UInt8 String), requests.Serves newline (.new command) →
      writeRequest requests written command = .ok line → stream.input = line ++ rest →
      (readMessage stream).bind requests.decode = .ok (.new command)) ∧
    (∀ (α : Type) (json : Codec α UInt8 String) (message : α) (stream : Incoming UInt8 String),
      Prompt.readJsonLine json stream = .ok message ↔
        ∃ text rest, stream.input = text ++ newline :: rest ∧ newline ∉ text ∧ text.length < Prompt.maxMessageBytes ∧
          json.decode text = .ok message) ∧
    (∀ (text : Bytes) (stream : Incoming UInt8 String), readMessage stream = .ok text ↔
      ∃ rest, stream.input = text ++ newline :: rest ∧ newline ∉ text ∧ text.length < maxRequestBytes) ∧
    (∀ reads : List Bytes,
      ((LineReader.start (Prompt.maxMessageBytes + 1)).run newline reads).held.length ≤ Prompt.maxMessageBytes + 1 ∧
      ((LineReader.start (maxRequestBytes + 1)).run newline reads).held.length ≤ maxRequestBytes + 1) ∧
    (∀ (responses : Codec ControlResponse UInt8 String) (response : ControlResponse) (text : Bytes),
      responses.Serves newline response → responses.Serves newline oversized →
      responses.encode response = .ok text → responses.encode oversized = .ok oversizedText →
      ∃ line, encodeResponse responses response = .ok line ∧ line.length ≤ maxRequestBytes ∧
        line.getLast? = some newline ∧
        ∀ (stream : Incoming UInt8 String) (rest : Bytes), stream.input = line ++ rest →
          (readMessage stream).bind responses.decode =
            .ok (if text.length + 1 ≤ maxRequestBytes then response else oversized)) := by
  refine ⟨?_, ?_, ?_, ?_, ?_, ?_⟩
  · intro α json message written line rest stream h hline hinput
    exact Prompt.readJsonLine_written h hline hinput
  · intro requests command written line rest stream h hline hinput
    obtain ⟨text, hread, hdecode⟩ := readMessage_request h hline hinput
    rw [hread]
    exact hdecode
  · intro α json message stream
    exact Prompt.readJsonLine_eq_ok
  · intro text stream
    exact readMessage_eq_ok
  · intro reads
    exact ⟨LineReader.length_held_le _ reads, LineReader.length_held_le _ reads⟩
  · intro responses response text hresponse hserves htext hoversized
    obtain ⟨sent, hencode, hlen, hsep, hsent⟩ := encodeResponse_eq hresponse hserves htext hoversized
    refine ⟨sent ++ [newline], hencode, ?_, List.getLast?_concat, ?_⟩
    · rw [List.length_append, List.length_singleton]
      exact hlen
    · intro stream rest hinput
      have hread : readMessage stream = .ok sent := by
        apply readMessage_eq_ok.mpr
        refine ⟨rest, ?_, hsep, hlen⟩
        rw [hinput, List.append_assoc, List.singleton_append]
      rw [hread]
      refine hsent.trans (congrArg Except.ok ?_)
      by_cases hfits : text.length < maxRequestBytes
      · rw [decide_eq_true hfits, if_pos (show text.length + 1 ≤ maxRequestBytes from hfits)]
        rfl
      · rw [decide_eq_false hfits, if_neg (show ¬text.length + 1 ≤ maxRequestBytes from hfits)]
        rfl

def listRulesText : Bytes := utf8 "\x7b\"version\":1,\"command\":\x7b\"type\":\"list_rules\"\x7d\x7d"

def replacedText : Bytes := utf8 "\x7b\"status\":\"ok\",\"payload\":\x7b\"type\":\"replaced\"\x7d\x7d"

/-- The text form of the requests, as far as `ListRules` goes. -/
def listRulesJson : Codec ControlRequest UInt8 String where
  encode
    | ⟨1, .listRules⟩ => .ok listRulesText
    | _ => .error "another request"
  decode bytes := if bytes = listRulesText then .ok (.new .listRules) else .error "another request"

/-- The text form of the responses, as far as `Replaced` and the bounded error go. -/
def replacedJson : Codec ControlResponse UInt8 String where
  encode response :=
    if response = .ok .replaced then .ok replacedText
    else if response = oversized then .ok oversizedText
    else .error "another response"
  decode bytes :=
    if bytes = replacedText then .ok (.ok .replaced)
    else if bytes = oversizedText then .ok oversized
    else .error "another response"

theorem listRulesJson_serves : listRulesJson.Serves newline (.new .listRules) where
  sep_notMem text h := by
    cases h
    decide
  decode_encode text h := by
    cases h
    rfl

theorem replacedJson_serves : replacedJson.Serves newline (.ok .replaced) where
  sep_notMem text h := by
    cases h
    decide
  decode_encode text h := by
    cases h
    rfl

theorem replacedJson_oversized : replacedJson.encode oversized = .ok oversizedText := by
  simp [replacedJson, oversized]

theorem replacedJson_serves_oversized : replacedJson.Serves newline oversized where
  sep_notMem text h := by
    rw [replacedJson_oversized] at h
    cases h
    decide
  decode_encode text h := by
    rw [replacedJson_oversized] at h
    cases h
    have hne : oversizedText ≠ replacedText := by decide
    simp only [replacedJson, if_neg hne, if_pos]

theorem framing_replaced :
    (∀ stream : Incoming UInt8 String, stream.input = listRulesText ++ [newline] ++ listRulesText →
      (readMessage stream).bind listRulesJson.decode = .ok (.new .listRules)) ∧
    ∃ line, encodeResponse replacedJson (.ok .replaced) = .ok line ∧ line.length ≤ maxRequestBytes := by
  constructor
  · intro stream hinput
    exact framing.2.1 listRulesJson .listRules (.ok ()) _ _ stream listRulesJson_serves rfl hinput
  · obtain ⟨line, hencode, hlen, -⟩ := framing.2.2.2.2.2 replacedJson (.ok .replaced) replacedText replacedJson_serves
      replacedJson_serves_oversized rfl replacedJson_oversized
    exact ⟨line, hencode, hlen⟩

end FileGuard.Control.Wire
