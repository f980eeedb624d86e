import FileGuard.Policy.RuleManager

namespace FileGuard.Policy

open Store

structure ProcessInfo where
  pid : UInt32
  startTime : UInt64
  binaryPath : Path
  binaryName : String
  binarySha256 : String
  script : Option Path
  deriving DecidableEq

structure ProcessId where
  pid : UInt32
  startTime : UInt64
  binaryPath : Path
  binarySha256 : String
  script : Option Path
  deriving DecidableEq

def ProcessInfo.id (info : ProcessInfo) : ProcessId where
  pid := info.pid
  startTime := info.startTime
  binaryPath := info.binaryPath
  binarySha256 := info.binarySha256
  script := info.script

def sameScript : Option Path → Option Path → Bool
  | none, none => true
  | some a, some b => Path.same a b
  | _, _ => false

def ProcessId.same (a b : ProcessId) : Bool :=
  a.pid == b.pid && a.startTime == b.startTime && Path.same a.binaryPath b.binaryPath &&
    a.binarySha256 == b.binarySha256 && sameScript a.script b.script

structure GrantKey where
  proc : ProcessId
  file : Path
  access : Access
  deriving DecidableEq

def GrantKey.same (a b : GrantKey) : Bool :=
  a.proc.same b.proc && Path.same a.file b.file && a.access == b.access

/-- The set of session grants. -/
abbrev SessionState := List GrantKey

namespace SessionState

def contains (session : SessionState) (key : GrantKey) : Bool := session.any fun k => k.same key

def grantSession (session : SessionState) (proc : ProcessId) (file : Path) (access : Access) : SessionState :=
  if session.contains ⟨proc, file, access⟩ then session else ⟨proc, file, access⟩ :: session

def isSessionAllowed (session : SessionState) (proc : ProcessId) (file : Path) (access : Access) : Bool :=
  session.contains ⟨proc, file, access⟩ || session.contains ⟨proc, file, .any⟩

end SessionState

inductive DefaultAction where
  | allow
  | deny
  deriving DecidableEq

inductive UserChoice where
  | allowOnce
  | allowAlways
  | allowSession
  | denyOnce
  | denyAlways
  deriving DecidableEq

def defaultChoice : DefaultAction → UserChoice
  | .allow => .allowOnce
  | .deny => .denyOnce

/-- What the agent makes of a prompt; `unreachable` is every error of the request. -/
inductive PromptAnswer where
  | decided (choice : UserChoice)
  | noResponse
  | unreachable
  deriving DecidableEq

/-- `PromptClient::prompt` behind the answer of the agent. -/
def PromptAnswer.choice (default : DefaultAction) : PromptAnswer → UserChoice
  | .decided choice => choice
  | .noResponse | .unreachable => defaultChoice default

/-- What `hash_file` answers at one moment. -/
abbrev Hashes := Path → PolicyResult String

def trimVersion (name : String) : String :=
  String.ofList ((name.toList.reverse.dropWhile fun c => ('0' ≤ c && c ≤ '9') || c == '.').reverse)

def isInterpreter (name : String) : Bool :=
  "python".toList.isPrefixOf name.toList ||
    ["pypy", "node", "nodejs", "deno", "bun", "ruby", "perl", "php", "lua", "luajit", "tclsh", "wish",
      "bash", "sh", "dash", "zsh", "ksh", "Rscript", "java"].contains (trimVersion name)

def scriptMatches (hashFile : Hashes) (expected : ScriptIdentity) (script : Option Path) : Bool :=
  if script.bind toStr ≠ some expected.path then false
  else match expected.pin with
    | .unpinned => true
    | .sha256 expectedHash => match script with
      | none => false
      | some script => match hashFile script with
        | .ok actual => actual == expectedHash
        | .error _ => false

/-- A pin that does not match is a non-match, not a deny. -/
def identityMatches (hashFile : Hashes) (rule : Rule) (process : ProcessInfo) : Bool :=
  (match rule.identity with
    | .unpinned => true
    | .sha256 expected => process.binarySha256 == expected) &&
  match rule.script with
    | none => true
    | some expected => scriptMatches hashFile expected process.script

def ruleMatches (hashFile : Hashes) (process : ProcessInfo) (file : Path) (req : Access) (rule : ActiveRule) :
    Bool :=
  Path.same rule.compiled.file file && Path.same rule.compiled.binary process.binaryPath &&
    rule.compiled.access.covers req && identityMatches hashFile rule.compiled process

/-- The loop of `lookup_rule`; `hashes n` is what the file system answers at the `n`-th rule. -/
def lookupLoop (hashes : ℕ → Hashes) (process : ProcessInfo) (file : Path) (req : Access)
    (n : ℕ) (matchedAllow : Bool) : List ActiveRule → Option Action
  | [] => if matchedAllow then some .allow else none
  | rule :: rest =>
    if ruleMatches (hashes n) process file req rule then
      match rule.compiled.action with
      | .deny => some .deny
      | .allow => lookupLoop hashes process file req (n + 1) true rest
    else lookupLoop hashes process file req (n + 1) matchedAllow rest

structure PolicyEngine where
  rules : RuleManager
  session : SessionState
  globalDefault : DefaultAction
  fileDefaults : List (Path × DefaultAction)

namespace PolicyEngine

def defaultFor (engine : PolicyEngine) (file : Path) : DefaultAction :=
  ((engine.fileDefaults.find? fun d => Path.same d.1 file).map (·.2)).getD engine.globalDefault

def lookupRule (engine : PolicyEngine) (hashes : ℕ → Hashes) (process : ProcessInfo) (file : Path)
    (req : Access) : Option Action :=
  lookupLoop hashes process file req 0 false engine.rules.rules

def scriptIdentity (hashFile : Hashes) : Option Path → PolicyResult (Option ScriptIdentity)
  | none => .ok none
  | some path => do
    let scriptPath ← (toStr path).elim
      (.error s!"rule script path must be valid UTF-8: {Path.display path}") .ok
    let sha256 ← (hashFile path).mapError fun error =>
      s!"cannot hash script {Path.display path} to create a permanent rule: {error}"
    .ok (some ⟨scriptPath, .sha256 sha256⟩)

def persistedRule (hashFile : Hashes) (process : ProcessInfo) (file : Path) (access : Access)
    (action : Action) : PolicyResult Rule :=
  if isInterpreter process.binaryName = true ∧ process.script = none then
    .error "cannot create a permanent interpreter rule without a resolved script"
  else do
    let script ← scriptIdentity hashFile process.script
    .ok ⟨file, process.binaryPath, action, access, .sha256 process.binarySha256, script⟩

section

variable (home : PolicyResult (Option Path)) (ids : IdSource)

def persistRule (engine : PolicyEngine) (refused : Option String) (hashFile : Hashes) (process : ProcessInfo)
    (file : Path) (access : Access) (action : Action) : PolicyResult Unit × PolicyEngine :=
  match persistedRule hashFile process file access action with
  | .error e => (.error e, engine)
  | .ok rule =>
    let (result, rules) := engine.rules.addPersistentRule home ids refused rule
    (result, { engine with rules := rules })

/-- What `prompt_and_apply` does with the choice. -/
def applyChoice (engine : PolicyEngine) (refused : Option String) (hashFile : Hashes) (process : ProcessInfo)
    (file : Path) : UserChoice → Decision × PolicyEngine
  | .allowOnce => (.allowOnce, engine)
  | .allowAlways =>
    match engine.persistRule home ids refused hashFile process file .any .allow with
    | (.ok (), engine) => (.allowAlways, engine)
    | (.error _, engine) => (.allowOnce, engine)
  | .allowSession =>
    (.allowSession, { engine with session := engine.session.grantSession process.id file .any })
  | .denyOnce => (.denyOnce, engine)
  | .denyAlways =>
    match engine.persistRule home ids refused hashFile process file .any .deny with
    | (.ok (), engine) => (.denyAlways, engine)
    | (.error _, engine) => (.denyOnce, engine)

end

end PolicyEngine

/-- An answered prompt. -/
structure Answer where
  process : ProcessInfo
  file : Path
  answer : PromptAnswer
  deriving DecidableEq

/-- What one direction was looked up against: the active rules, the files behind their pins, and the
prompts answered before its session grants were read. -/
structure Look where
  access : Access
  rules : List ActiveRule
  hashes : ℕ → Hashes
  answers : List Answer

/-- Where a running `evaluate_open` stands. -/
inductive Stage where
  | lookup (access : Access) (rest : List Access) (allPreAuthorized : Bool)
  | session (access : Access) (rest : List Access) (allPreAuthorized : Bool)
  | prompt
  | decided (decision : Decision)
  deriving DecidableEq

def enter (allPreAuthorized : Bool) : List Access → Stage
  | access :: rest => .lookup access rest allPreAuthorized
  | [] => if allPreAuthorized then .decided .allowAlways else .prompt

def directions (needsRead needsWrite : Bool) : List Access :=
  (if needsRead then [.read] else []) ++ if needsWrite then [.write] else []

/-- A call of `evaluate_open`; `looks` and `answer` remember what it has seen. -/
structure Evaluation where
  process : ProcessInfo
  watchedFile : Path
  needsRead : Bool
  needsWrite : Bool
  stage : Stage
  looks : List Look
  answer : Option PromptAnswer

namespace Evaluation

def start (process : ProcessInfo) (watchedFile : Path) (needsRead needsWrite : Bool) : Evaluation :=
  ⟨process, watchedFile, needsRead, needsWrite, enter true (directions needsRead needsWrite), [], none⟩

def lookupStep (e : Evaluation) (engine : PolicyEngine) (hashes : ℕ → Hashes) : Evaluation :=
  match e.stage with
  | .lookup access rest allPreAuthorized => { e with
      looks := ⟨access, engine.rules.rules, hashes, []⟩ :: e.looks
      stage := match engine.lookupRule hashes e.process e.watchedFile access with
        | some .deny => .decided .denyAlways
        | some .allow => enter allPreAuthorized rest
        | none => .session access rest allPreAuthorized }
  | _ => e

def sessionStep (e : Evaluation) (engine : PolicyEngine) (answers : List Answer) : Evaluation :=
  match e.stage with
  | .session access rest allPreAuthorized => { e with
      looks := match e.looks with
        | look :: looks => { look with answers := answers } :: looks
        | [] => []
      stage :=
        if engine.session.isSessionAllowed e.process.id e.watchedFile access then enter allPreAuthorized rest
        else enter false rest }
  | _ => e

end Evaluation

/-- The engine, the calls of `evaluate_open` in the order they were made, and the answered prompts. -/
structure PolicyRun where
  engine : PolicyEngine
  opens : List Evaluation
  answers : List Answer

/-- What happens next: a new call, the next step of a running one, or a managed rule change. -/
inductive PolicyEvent where
  | call (process : ProcessInfo) (file : Path) (needsRead needsWrite : Bool)
  | lookup (index : ℕ) (hashes : ℕ → Hashes)
  | session (index : ℕ)
  | answer (index : ℕ) (answer : PromptAnswer) (refused : Option String) (hashFile : Hashes)
  | manage (refused : Option String) (call : RuleManager.Call)

namespace PolicyRun

variable (home : PolicyResult (Option Path)) (ids : IdSource)

def start (engine : PolicyEngine) : PolicyRun := ⟨{ engine with session := [] }, [], []⟩

def answered (s : PolicyRun) (e : Evaluation) (answer : PromptAnswer) (refused : Option String)
    (hashFile : Hashes) : Decision × PolicyEngine :=
  s.engine.applyChoice home ids refused hashFile e.process e.watchedFile
    (answer.choice (s.engine.defaultFor e.watchedFile))

/-- An event that does not fit the stage of its call changes nothing. -/
def step (s : PolicyRun) : PolicyEvent → PolicyRun
  | .call process file needsRead needsWrite =>
    { s with opens := s.opens ++ [.start process file needsRead needsWrite] }
  | .lookup index hashes => { s with opens := s.opens.modify index (·.lookupStep s.engine hashes) }
  | .session index => { s with opens := s.opens.modify index (·.sessionStep s.engine s.answers) }
  | .answer index answer refused hashFile => match s.opens[index]? with
    | some e =>
      if e.stage = .prompt then
        let (decision, engine) := s.answered home ids e answer refused hashFile
        { engine := engine
          opens := s.opens.modify index fun e => { e with stage := .decided decision, answer := some answer }
          answers := ⟨e.process, e.watchedFile, answer⟩ :: s.answers }
      else s
    | none => s
  | .manage refused call =>
    { s with engine := { s.engine with rules := (s.engine.rules.step home ids refused call).2 } }

def run (s : PolicyRun) (events : List PolicyEvent) : PolicyRun := events.foldl (step home ids) s

end PolicyRun

end FileGuard.Policy
