import FileGuard.Policy.RuleManager
import Mathlib.Logic.Function.Basic

/-! The control API: clients and the daemon, one request and one response on a connection, and the lease of the rule
database. -/

namespace FileGuard.Control

open Policy

inductive ControlCommand where
  | listRules
  | addRule (entry : RuleEntry)
  | importRules (entries : List RuleEntry)
  | editRule (id : ℤ) (action : Option RuleAction) (access : Option Access) (pin : RulePinUpdate)
  | removeRule (id : ℤ)

def ControlCommand.mutates : ControlCommand → Bool
  | .listRules => false
  | _ => true

inductive ControlPayload where
  | rules (rules : List ManagedRule)
  | added (added : Bool)
  | imported (count : ℕ)
  | replaced
  | removed (entry : RuleEntry)
  deriving DecidableEq

inductive ControlResponse where
  | ok (payload : ControlPayload)
  | error (message : String)
  deriving DecidableEq

structure ControlRequest where
  version : ℕ
  command : ControlCommand

def protocolVersion : ℕ := 1
def maxRequestBytes : ℕ := 1024 * 1024

def ControlRequest.new (command : ControlCommand) : ControlRequest := ⟨protocolVersion, command⟩

section

variable (ids : IdSource)

def execute (home : PolicyResult (Option Store.Path)) (m : RuleManager) (refused : Option String) :
    ControlCommand → PolicyResult ControlPayload × RuleManager
  | .listRules => (.ok (.rules m.managedRules), m)
  | .addRule entry =>
    let (result, m) := m.addManagedRule home ids refused entry
    (result.map .added, m)
  | .importRules entries =>
    let (result, m) := m.importManagedRules home ids refused entries
    (result.map .imported, m)
  | .editRule id action access pin =>
    let (result, m) := m.editManagedRule home refused id action access pin
    (result.map fun _ => .replaced, m)
  | .removeRule id =>
    let (result, m) := m.removeManagedRule refused id
    (result.map .removed, m)

/-- The users that the daemon tells apart. -/
structure Uids where
  daemon : ℕ
  guarded : ℕ

/-- The response of `handle_connection` to a request that it could decode. -/
def handleConnection (uids : Uids) (home : PolicyResult (Option Store.Path)) (m : RuleManager) (refused : Option String)
    (peerUid : ℕ) (request : ControlRequest) : ControlResponse × RuleManager :=
  if request.version ≠ protocolVersion then
    (.error s!"control protocol version {request.version} is not supported", m)
  else if peerUid ≠ uids.daemon ∧ peerUid ≠ uids.guarded then
    (.error s!"uid {peerUid} may not access file-guard control state", m)
  else if request.command.mutates = true ∧ peerUid ≠ uids.daemon then
    (.error "rule mutations require root; re-run with sudo", m)
  else match execute ids home m refused request.command with
    | (.ok payload, m) => (.ok payload, m)
    | (.error message, m) => (.error message, m)

/-- `fits` says whether the text of the response keeps the size limit. -/
def encodeResponse (fits : Bool) (response : ControlResponse) : ControlResponse :=
  if fits then response
  else .error s!"control response exceeds {maxRequestBytes} bytes; reduce the rule set"

/-- What a process finds when it opens the rules: the home of the target user, the declared rules, and whether the
database answers. -/
structure Launch where
  home : PolicyResult (Option Store.Path)
  config : PolicyResult (List RuleEntry)
  refused : Option String

def Launch.load (launch : Launch) (store : RuleStore) : PolicyResult RuleManager := do
  let config ← launch.config
  RuleManager.new launch.home config store launch.refused

def executeOffline (launch : Launch) (uid : ℕ) (store : RuleStore) (refused : Option String) (command : ControlCommand) :
    PolicyResult ControlPayload × RuleStore :=
  if command.mutates = true ∧ uid ≠ 0 then (.error "offline rule mutations require root; re-run with sudo", store)
  else match launch.load store with
    | .error message => (.error message, store)
    | .ok m =>
      let (result, m) := execute ids launch.home m refused command
      (result, m.ruleStore)

/-- Where a call of `dispatch` stands; `retries` where `dispatch_to_endpoint` made the request. -/
inductive Stage where
  | dispatching
  | connecting (retries : Bool)
  | requesting (retries : Bool) (response : Option ControlResponse)
  | failed (message : String)
  | waiting
  | owner
  | done (result : PolicyResult ControlPayload)
  deriving DecidableEq

structure Client where
  uid : ℕ
  command : ControlCommand
  stage : Stage

/-- A daemon holds the lease from before its rules are loaded until it is gone. -/
structure Daemon where
  home : PolicyResult (Option Store.Path)
  rules : List ActiveRule
  listening : Bool

/-- The parties, the repository and the socket path; `changes` counts how often a command has changed the repository. -/
structure System (κ : Type) where
  store : RuleStore
  daemon : Option Daemon
  owner : Option κ
  socket : Bool
  requests : List κ
  clients : κ → Client
  changes : κ → ℕ

inductive Turn (κ : Type) where
  | start (launch : Launch)
  | publish
  | withdraw
  | stop
  | prompt (rule : Rule) (refused : Option String)
  | serve (c : κ) (refused : Option String) (fits : Bool)
  | drop (c : κ)
  | dispatch (c : κ)
  | send (c : κ)
  | receive (c : κ)
  | fail (c : κ) (message : String)
  | acquire (c : κ)
  | poll (c : κ)
  | offline (c : κ) (launch : Launch) (refused : Option String)
  | abandon (c : κ) (message : String)

namespace System

variable {κ : Type} [DecidableEq κ] (uids : Uids)

def launched (store : RuleStore) (parties : κ → ℕ × ControlCommand) : System κ :=
  ⟨store, none, none, false, [], fun c => ⟨(parties c).1, (parties c).2, .dispatching⟩, fun _ => 0⟩

def stage (s : System κ) (c : κ) : Stage := (s.clients c).stage

def leaseFree (s : System κ) : Bool := s.daemon.isNone && s.owner.isNone

def setStage (s : System κ) (c : κ) (stage : Stage) : System κ :=
  { s with clients := Function.update s.clients c { s.clients c with stage := stage } }

def requestFailed (s : System κ) (c : κ) (retries : Bool) (message : String) : System κ :=
  s.setStage c (if retries then .failed message else .done (.error message))

/-- A client that still waits for the response gets it. -/
def answered (s : System κ) (c : κ) (response : ControlResponse) : System κ :=
  match s.stage c with
  | .requesting retries none => s.setStage c (.requesting retries (some response))
  | _ => s

/-- The repository after the command of `c`. -/
def commit (s : System κ) (c : κ) (store : RuleStore) : System κ :=
  { s with
    store := store
    changes := if store = s.store then s.changes else Function.update s.changes c (s.changes c + 1) }

def own (s : System κ) (c : κ) : System κ := { s.setStage c .owner with owner := some c, socket := false }

/-- One step of a party; the daemon ends with its connections and its lease, and leaves the socket where it is. -/
def step (s : System κ) : Turn κ → System κ
  | .start launch =>
    if s.leaseFree then
      match launch.load s.store with
      | .ok m => { s with daemon := some ⟨launch.home, m.rules, false⟩ }
      | .error _ => s
    else s
  | .publish => match s.daemon with
    | some d => { s with daemon := some { d with listening := true }, socket := true }
    | none => s
  | .withdraw => match s.daemon with
    | some d => { s with daemon := some { d with listening := false }, socket := false }
    | none => s
  | .stop => { s with daemon := none, requests := [] }
  | .prompt rule refused => match s.daemon with
    | some d =>
      let m := ((⟨d.rules, s.store⟩ : RuleManager).addPersistentRule d.home ids refused rule).2
      { s with store := m.ruleStore, daemon := some { d with rules := m.rules } }
    | none => s
  | .serve c refused fits => match s.daemon with
    | some d =>
      if c ∈ s.requests then
        let (response, m) := handleConnection ids uids d.home ⟨d.rules, s.store⟩ refused (s.clients c).uid
          (.new (s.clients c).command)
        { (s.commit c m.ruleStore).answered c (encodeResponse fits response) with
          daemon := some { d with rules := m.rules }
          requests := s.requests.erase c }
      else s
    | none => s
  | .drop c => { s with requests := s.requests.erase c }
  | .dispatch c => match s.stage c with
    | .dispatching => s.setStage c (if s.socket then .connecting true else .waiting)
    | _ => s
  | .send c => match s.stage c, s.daemon with
    | .connecting retries, some d =>
      if d.listening = true ∧ (uids.daemon = 0 ∨ uids.daemon = (s.clients c).uid) then
        { s.setStage c (.requesting retries none) with requests := s.requests ++ [c] }
      else s
    | _, _ => s
  | .receive c => match s.stage c with
    | .requesting _ (some (.ok payload)) => s.setStage c (.done (.ok payload))
    | .requesting retries (some (.error message)) => s.requestFailed c retries message
    | _ => s
  | .fail c message => match s.stage c with
    | .connecting retries => s.requestFailed c retries message
    | .requesting retries _ => s.requestFailed c retries message
    | _ => s
  | .acquire c => match s.stage c with
    | .failed message => if s.leaseFree then s.own c else s.setStage c (.done (.error message))
    | _ => s
  | .poll c => match s.stage c with
    | .waiting =>
      if s.leaseFree then s.own c
      else if s.socket then s.setStage c (.connecting false) else s
    | _ => s
  | .offline c launch refused => match s.stage c with
    | .owner =>
      let (result, store) := executeOffline ids launch (s.clients c).uid s.store refused (s.clients c).command
      { (s.commit c store).setStage c (.done result) with owner := none }
    | _ => s
  | .abandon c message => match s.stage c with
    | .dispatching | .failed _ | .waiting => s.setStage c (.done (.error message))
    | .owner => { s.setStage c (.done (.error message)) with owner := none }
    | _ => s

def run (s : System κ) (turns : List (Turn κ)) : System κ := turns.foldl (step ids uids) s

end System

end

end FileGuard.Control
