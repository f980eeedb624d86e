import FileGuard.Prompt.Protocol
import FileGuard.Prompt.RateLimiter

/-! The prompt agent of the user's session: one connection, one request, at most one dialog. -/

namespace FileGuard.Prompt

open Framing Policy Store

inductive PromptMethod where
  | gui
  | terminal
  | logOnly
  deriving DecidableEq

inductive GuiResult where
  | choice (choice : UserChoice)
  | dismissed
  | unavailable
  deriving DecidableEq

/-- What the user makes of a request within a number of milliseconds, at each backend. -/
structure User where
  terminal : AgentRequest → ℕ → Option UserChoice
  gui : AgentRequest → ℕ → GuiResult

def decidedOrNone : Option UserChoice → PromptOutcome
  | some choice => .decided choice
  | none => .noResponse

def render (user : User) (method : PromptMethod) (request : AgentRequest) : PromptOutcome :=
  let timeout := max request.timeoutMs.toNat 1
  match method with
  | .terminal => decidedOrNone (user.terminal request timeout)
  | .gui => match user.gui request timeout with
    | .choice choice => .decided choice
    | .dismissed => .noResponse
    | .unavailable => decidedOrNone (user.terminal request timeout)
  | .logOnly => .noResponse

structure PromptServer where
  method : PromptMethod
  rateLimiter : RateLimiter

def PromptServer.new (method : PromptMethod) : PromptServer := ⟨method, .new 10 (60 * 10 ^ 9)⟩

/-- A connection: who made it, what arrives on it, what writing to it answers, and when its request reaches the rate
limiter. -/
structure Connection where
  peer : PolicyResult ℕ
  stream : Incoming UInt8 String
  written : PolicyResult Unit
  now : Instant

/-- The request of a connection that gets as far as the rate limiter. -/
def Connection.request (json : Codec AgentRequest UInt8 String) (ourUid : ℕ) (conn : Connection) :
    PolicyResult AgentRequest := do
  let peer ← conn.peer
  if peer ≠ 0 ∧ peer ≠ ourUid then throw s!"rejecting prompt request from uid {peer}"
  let request ← readJsonLine json conn.stream
  if request.v ≠ protocolVersion then throw s!"client protocol version {request.v} != {protocolVersion}"
  return request

section

variable (requests : Codec AgentRequest UInt8 String) (responses : Codec AgentResponse UInt8 String) (ourUid : ℕ)
  (user : User)

/-- The answer to a connection, the request that a dialog was shown for, and the server after it; no answer is a panic. -/
def PromptServer.handleConn (server : PromptServer) (conn : Connection) :
    Option (PolicyResult Bytes) × Option AgentRequest × PromptServer :=
  match conn.request requests ourUid with
  | .error error => (some (.error error), none, server)
  | .ok request =>
    let answer (outcome : PromptOutcome) := writeJsonLine responses conn.written ⟨protocolVersion, request.id, outcome⟩
    match server.rateLimiter.allow conn.now with
    | (none, rateLimiter) => (none, none, { server with rateLimiter })
    | (some false, rateLimiter) => (some (answer .noResponse), none, { server with rateLimiter })
    | (some true, rateLimiter) =>
      (some (answer (render user server.method request)), some request, { server with rateLimiter })

/-- The dialogs shown over these connections, in the order in which they reach the rate limiter. -/
def PromptServer.dialogs (server : PromptServer) : List Connection → List (Instant × AgentRequest)
  | [] => []
  | conn :: later =>
    ((server.handleConn requests responses ourUid user conn).2.1.map fun request => (conn.now, request)).toList ++
      dialogs (server.handleConn requests responses ourUid user conn).2.2 later

/-- The instants at which connections reach the rate limiter. -/
def calls (conns : List Connection) : List Instant :=
  (conns.filter fun conn => (conn.request requests ourUid).toBool).map (·.now)

variable {requests responses ourUid user} {server : PromptServer} {conn : Connection} {conns : List Connection}

theorem handleConn_rejected {error : String} (h : conn.request requests ourUid = .error error) :
    server.handleConn requests responses ourUid user conn = (some (.error error), none, server) := by
  simp only [PromptServer.handleConn, h]

/-- A request past the checks is one call of the rate limiter, and what this allows is one dialog. -/
theorem handleConn_request {request : AgentRequest} (h : conn.request requests ourUid = .ok request) :
    (server.handleConn requests responses ourUid user conn).2 =
      (if (server.rateLimiter.allow conn.now).1 = some true then some request else none,
        { server with rateLimiter := (server.rateLimiter.allow conn.now).2 }) := by
  rcases RateLimiter.allow_cases server.rateLimiter conn.now with ⟨-, hallow⟩ | ⟨-, -, hallow⟩ | ⟨-, -, hallow⟩
  all_goals simp [PromptServer.handleConn, h, hallow]

theorem dialogs_eq_allowed :
    (server.dialogs requests responses ourUid user conns).map (·.1) =
      server.rateLimiter.allowed (calls requests ourUid conns) := by
  induction conns generalizing server with
  | nil => rfl
  | cons conn conns ih =>
    rw [PromptServer.dialogs, List.map_append, ih]
    cases hrequest : conn.request requests ourUid with
    | error error =>
      rw [handleConn_rejected hrequest]
      have hcalls : calls requests ourUid (conn :: conns) = calls requests ourUid conns := by
        simp [calls, hrequest, Except.toBool]
      rw [hcalls]
      rfl
    | ok request =>
      rw [handleConn_request hrequest]
      have hcalls : calls requests ourUid (conn :: conns) = conn.now :: calls requests ourUid conns := by
        simp [calls, hrequest, Except.toBool]
      rw [hcalls, RateLimiter.allowed]
      by_cases hallow : (server.rateLimiter.allow conn.now).1 = some true
      · rw [if_pos hallow, if_pos hallow]
        rfl
      · rw [if_neg hallow, if_neg hallow]
        rfl

/-- However many requests come in, no minute shows more than ten dialogs. -/
theorem dialogs_le (method : PromptMethod) (sorted : conns.Pairwise fun c d => c.now ≤ d.now) (a : Instant) :
    ((PromptServer.new method).dialogs requests responses ourUid user conns).countP
      (fun dialog => a ≤ dialog.1 ∧ dialog.1 < a + 60 * 10 ^ 9) ≤ 10 := by
  have hcalls : (calls requests ourUid conns).Pairwise (· ≤ ·) :=
    List.pairwise_map.mpr (sorted.sublist List.filter_sublist)
  have hwindow := (RateLimiter.allowed_window_le 10 (60 * 10 ^ 9) hcalls a).1
  have hdialogs : ((PromptServer.new method).dialogs requests responses ourUid user conns).map (·.1) =
      (RateLimiter.new 10 (60 * 10 ^ 9)).allowed (calls requests ourUid conns) := dialogs_eq_allowed
  rw [← hdialogs, List.countP_map] at hwindow
  exact hwindow

end

end FileGuard.Prompt
