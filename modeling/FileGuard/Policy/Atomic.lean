import FileGuard.Policy.Justified
import FileGuard.Policy.Transfer

/-! One `evaluate_open` beside changes of the rules: which single rule set its decision belongs to. -/

namespace FileGuard.Policy

open Store

/-- The rule set and the files that decide a lookup by itself. -/
structure Lookup where
  process : ProcessInfo
  file : Path
  hashFile : Hashes
  session : SessionState

namespace Lookup

def action (l : Lookup) (rules : List ActiveRule) (access : Access) : Option Action :=
  lookupLoop (fun _ => l.hashFile) l.process l.file access 0 false rules

def sessionAllowed (l : Lookup) (access : Access) : Bool := l.session.isSessionAllowed l.process.id l.file access

/-- A direction that the rules, or without a rule the session grants, authorize. -/
def authorizes (l : Lookup) (rules : List ActiveRule) (access : Access) : Prop :=
  l.action rules access = some .allow ∨ l.action rules access = none ∧ l.sessionAllowed access = true

/-- The decision of `evaluate_open` on one rule set where no prompt is needed. -/
def decide (l : Lookup) (rules : List ActiveRule) (allPreAuthorized : Bool) : List Access → Option Decision
  | [] => if allPreAuthorized then some .allowAlways else none
  | access :: rest => match l.action rules access with
    | some .deny => some .denyAlways
    | some .allow => decide l rules allPreAuthorized rest
    | none => decide l rules (allPreAuthorized && l.sessionAllowed access) rest

variable {l : Lookup} {rules : List ActiveRule} {access : Access} {done rest : List Access} {allPreAuthorized : Bool}

theorem decide_deny (h : l.action rules access = some .deny) :
    l.decide rules allPreAuthorized (done ++ access :: rest) = some .denyAlways := by
  induction done generalizing allPreAuthorized with
  | nil => rw [List.nil_append, decide, h]
  | cons a done ih =>
    rw [List.cons_append, decide]
    cases l.action rules a with
    | none => exact ih
    | some action => cases action <;> [exact ih; rfl]

theorem decide_allow (h : ∀ a ∈ done, l.authorizes rules a) : l.decide rules true done = some .allowAlways := by
  induction done with
  | nil => rfl
  | cons a done ih =>
    obtain ⟨ha, hdone⟩ := List.forall_mem_cons.mp h
    rw [decide]
    rcases ha with hallow | ⟨hnone, hsession⟩
    · rw [hallow]
      exact ih hdone
    · rw [hnone, hsession]
      exact ih hdone

theorem authorizes_ne_deny (h : l.authorizes rules access) : l.action rules access ≠ some .deny := by
  rcases h with hallow | ⟨hnone, -⟩
  · rw [hallow]; nofun
  · rw [hnone]; nofun

end Lookup

/-- What happens while the call runs. -/
inductive OpenTurn where
  | lookup
  | session
  | answer (answer : PromptAnswer) (refused : Option String)
  | manage (refused : Option String) (call : RuleManager.Call)

/-- The engine, the call, and the rule sets that were in force since it began, the last one first. -/
structure OpenRun where
  engine : PolicyEngine
  evaluation : Evaluation
  inForce : List (List ActiveRule)

def Stage.Decided : Stage → Prop
  | .decided _ => True
  | _ => False

instance : DecidablePred Stage.Decided
  | .decided _ => inferInstanceAs (Decidable True)
  | .lookup .. | .session .. | .prompt => inferInstanceAs (Decidable False)

namespace OpenRun

variable (home : PolicyResult (Option Path)) (ids : IdSource) (hashFile : Hashes)

def start (engine : PolicyEngine) (process : ProcessInfo) (file : Path) (needsRead needsWrite : Bool) : OpenRun :=
  ⟨engine, .start process file needsRead needsWrite, [engine.rules.rules]⟩

/-- Session grants change only when the call itself is answered, and nothing is recorded of it once it is decided. -/
def step (s : OpenRun) : OpenTurn → OpenRun
  | .lookup => { s with evaluation := s.evaluation.lookupStep s.engine fun _ => hashFile }
  | .session => { s with evaluation := s.evaluation.sessionStep s.engine [] }
  | .answer answer refused =>
    if s.evaluation.stage = .prompt then
      let (decision, engine) := s.engine.applyChoice home ids refused hashFile s.evaluation.process
        s.evaluation.watchedFile (answer.choice (s.engine.defaultFor s.evaluation.watchedFile))
      { s with
        engine := engine
        evaluation := { s.evaluation with stage := .decided decision, answer := some answer } }
    else s
  | .manage refused call =>
    let rules := (s.engine.rules.step home ids refused call).2
    { s with
      engine := { s.engine with rules := rules }
      inForce := if s.evaluation.stage.Decided then s.inForce else rules.rules :: s.inForce }

def run (s : OpenRun) (turns : List OpenTurn) : OpenRun := turns.foldl (step home ids hashFile) s

/-- What the call looks up, with the session grants of the engine. -/
def lookup (s : OpenRun) : Lookup := ⟨s.evaluation.process, s.evaluation.watchedFile, hashFile, s.engine.session⟩

/-- The directions that the call has looked up before the one it looks up now. -/
def earlier (s : OpenRun) : List Access :=
  match s.evaluation.stage with
  | .lookup _ rest _ => s.evaluation.needed.take (s.evaluation.needed.length - (rest.length + 1))
  | _ => []

def preAuthorized (s : OpenRun) : Bool :=
  match s.evaluation.stage with
  | .lookup _ _ allPreAuthorized => allPreAuthorized
  | _ => false

/-- The rules now in force deny no direction that was looked up before, and while everything was authorized they still
authorize it. -/
def Steady (s : OpenRun) : Prop :=
  ∀ access ∈ s.earlier, (s.lookup hashFile).action s.engine.rules.rules access ≠ some .deny ∧
    (s.preAuthorized = true → (s.lookup hashFile).authorizes s.engine.rules.rules access)

instance (s : OpenRun) : Decidable (s.Steady hashFile) := inferInstanceAs (Decidable (∀ _ ∈ _, _ ∧ (_ → _ ∨ _ ∧ _)))

variable {home ids hashFile}

/-- What the stage of a call says about the rule sets that were in force. -/
def StageHolds (l : Lookup) (needed : List Access) (inForce : List (List ActiveRule)) (prompted : Bool) :
    Stage → Prop
  | .lookup access rest _ => prompted = false ∧ ∃ done, needed = done ++ access :: rest
  | .session access rest allPreAuthorized => prompted = false ∧ ∃ done, needed = done ++ access :: rest ∧
      ∃ rules ∈ inForce, (∀ a ∈ done, l.action rules a ≠ some .deny ∧ (allPreAuthorized = true → l.authorizes rules a)) ∧
        l.action rules access = none
  | .prompt => ∃ rules ∈ inForce, ∀ a ∈ needed, l.action rules a ≠ some .deny
  | .decided decision =>
      (prompted = false → ∃ rules ∈ inForce, l.decide rules true needed = some decision) ∧
        (decision.isAllowed = true → ∃ rules ∈ inForce, ∀ a ∈ needed, l.action rules a ≠ some .deny)

theorem StageHolds.mono {l : Lookup} {needed : List Access} {inForce : List (List ActiveRule)} {prompted : Bool}
    {stage : Stage} (h : StageHolds l needed inForce prompted stage) (rules : List ActiveRule) :
    StageHolds l needed (rules :: inForce) prompted stage := by
  cases stage with
  | lookup access rest allPreAuthorized => exact h
  | session access rest allPreAuthorized =>
    obtain ⟨hprompted, done, hneeded, r, hr, hrest⟩ := h
    exact ⟨hprompted, done, hneeded, r, List.mem_cons_of_mem _ hr, hrest⟩
  | prompt =>
    obtain ⟨r, hr, hdeny⟩ := h
    exact ⟨r, List.mem_cons_of_mem _ hr, hdeny⟩
  | decided decision =>
    exact ⟨fun hp => (h.1 hp).imp fun r ⟨hr, hd⟩ => ⟨List.mem_cons_of_mem _ hr, hd⟩,
      fun ha => (h.2 ha).imp fun r ⟨hr, hd⟩ => ⟨List.mem_cons_of_mem _ hr, hd⟩⟩

theorem stageHolds_enter {l : Lookup} {needed done rest : List Access} {inForce : List (List ActiveRule)}
    {rules : List ActiveRule} {allPreAuthorized : Bool} (hneeded : needed = done ++ rest) (hrules : rules ∈ inForce)
    (hdone : ∀ a ∈ done, l.action rules a ≠ some .deny ∧ (allPreAuthorized = true → l.authorizes rules a)) :
    StageHolds l needed inForce false (enter allPreAuthorized rest) := by
  cases rest with
  | cons next rest => exact ⟨rfl, done, hneeded⟩
  | nil =>
    rw [List.append_nil] at hneeded
    rw [hneeded]
    cases allPreAuthorized with
    | false => exact ⟨rules, hrules, fun a ha => (hdone a ha).1⟩
    | true =>
      exact ⟨fun _ => ⟨rules, hrules, Lookup.decide_allow fun a ha => (hdone a ha).2 rfl⟩,
        fun _ => ⟨rules, hrules, fun a ha => (hdone a ha).1⟩⟩

variable (hashFile) in
/-- The invariant of the call: its grants are fixed until it is answered, and what it has seen belongs to rule sets that
were in force. -/
structure Atomic (l : Lookup) (needed : List Access) (s : OpenRun) : Prop where
  call : s.evaluation.process = l.process ∧ s.evaluation.watchedFile = l.file ∧ hashFile = l.hashFile ∧
    s.evaluation.needed = needed
  session : s.evaluation.answer = none → s.engine.session = l.session
  current : ¬s.evaluation.stage.Decided → s.engine.rules.rules ∈ s.inForce
  stage : StageHolds l needed s.inForce s.evaluation.answer.isSome s.evaluation.stage

variable {l : Lookup} {needed : List Access} {s : OpenRun}

theorem atomic_start (engine : PolicyEngine) (process : ProcessInfo) (file : Path) (needsRead needsWrite : Bool) :
    Atomic hashFile ⟨process, file, hashFile, engine.session⟩ (directions needsRead needsWrite)
      (start engine process file needsRead needsWrite) :=
  ⟨⟨rfl, rfl, rfl, rfl⟩, fun _ => rfl, fun _ => List.mem_singleton_self _,
    stageHolds_enter (List.nil_append _).symm (List.mem_singleton_self _) nofun⟩

theorem Atomic.lookup_eq (h : Atomic hashFile l needed s) (hanswer : s.evaluation.answer.isSome = false) :
    s.lookup hashFile = l := by
  obtain ⟨hprocess, hfile, hhash, -⟩ := h.call
  rw [OpenRun.lookup, h.session (by simpa using hanswer), hprocess, hfile, hhash]

theorem Atomic.lookupStep (h : Atomic hashFile l needed s) (hsteady : s.Steady hashFile) :
    Atomic hashFile l needed (s.step home ids hashFile .lookup) := by
  cases hstage : s.evaluation.stage with
  | session access rest allPreAuthorized =>
    have hsame : s.step home ids hashFile .lookup = s := by rw [step, Evaluation.lookupStep, hstage]
    rwa [hsame]
  | prompt =>
    have hsame : s.step home ids hashFile .lookup = s := by rw [step, Evaluation.lookupStep, hstage]
    rwa [hsame]
  | decided decision =>
    have hsame : s.step home ids hashFile .lookup = s := by rw [step, Evaluation.lookupStep, hstage]
    rwa [hsame]
  | lookup access rest allPreAuthorized =>
    have hholds := h.stage
    rw [hstage] at hholds
    obtain ⟨hprompted, done, hneeded⟩ := hholds
    have hlookup := h.lookup_eq hprompted
    have hforce : s.engine.rules.rules ∈ s.inForce := h.current (by rw [hstage]; exact not_false)
    have hearlier : s.earlier = done := by
      rw [earlier, hstage, h.call.2.2.2, hneeded]
      simp
    have hdone : ∀ a ∈ done, l.action s.engine.rules.rules a ≠ some .deny ∧
        (allPreAuthorized = true → l.authorizes s.engine.rules.rules a) := by
      intro a ha
      rw [Steady, hearlier, hlookup] at hsteady
      exact ⟨(hsteady a ha).1, fun htrue => (hsteady a ha).2 (by rw [preAuthorized, hstage, htrue])⟩
    have hrule : s.engine.lookupRule (fun _ => hashFile) s.evaluation.process s.evaluation.watchedFile access =
        l.action s.engine.rules.rules access := by
      rw [← hlookup]
      rfl
    rw [step, Evaluation.lookupStep, hstage]
    dsimp only
    rw [hrule]
    refine ⟨h.call, h.session, fun _ => hforce, ?_⟩
    dsimp only
    rw [hprompted]
    cases haction : l.action s.engine.rules.rules access with
    | none => exact ⟨rfl, done, hneeded, _, hforce, hdone, haction⟩
    | some action =>
      cases action with
      | deny => exact ⟨fun _ => ⟨_, hforce, hneeded ▸ Lookup.decide_deny haction⟩, nofun⟩
      | allow =>
        refine stageHolds_enter (hneeded.trans (List.append_cons _ _ _)) hforce ?_
        refine List.forall_mem_append.mpr ⟨hdone, List.forall_mem_singleton.mpr ⟨?_, fun _ => .inl haction⟩⟩
        exact Lookup.authorizes_ne_deny (.inl haction)

theorem Atomic.sessionStep (h : Atomic hashFile l needed s) :
    Atomic hashFile l needed (s.step home ids hashFile .session) := by
  cases hstage : s.evaluation.stage with
  | lookup access rest allPreAuthorized =>
    have hsame : s.step home ids hashFile .session = s := by rw [step, Evaluation.sessionStep, hstage]
    rwa [hsame]
  | prompt =>
    have hsame : s.step home ids hashFile .session = s := by rw [step, Evaluation.sessionStep, hstage]
    rwa [hsame]
  | decided decision =>
    have hsame : s.step home ids hashFile .session = s := by rw [step, Evaluation.sessionStep, hstage]
    rwa [hsame]
  | session access rest allPreAuthorized =>
    have hholds := h.stage
    rw [hstage] at hholds
    obtain ⟨hprompted, done, hneeded, rules, hrules, hdone, hnone⟩ := hholds
    have hforce : s.engine.rules.rules ∈ s.inForce := h.current (by rw [hstage]; exact not_false)
    have hallowed : s.engine.session.isSessionAllowed s.evaluation.process.id s.evaluation.watchedFile access =
        l.sessionAllowed access := by
      rw [← h.lookup_eq hprompted]
      rfl
    have hlast : ∀ authorized : Bool, (authorized = true → allPreAuthorized = true ∧ l.sessionAllowed access = true) →
        ∀ a ∈ done ++ [access], l.action rules a ≠ some .deny ∧ (authorized = true → l.authorizes rules a) := by
      intro authorized hauthorized
      refine List.forall_mem_append.mpr ⟨fun a ha => ⟨(hdone a ha).1, fun htrue => (hdone a ha).2 (hauthorized htrue).1⟩,
        List.forall_mem_singleton.mpr ⟨by rw [hnone]; nofun, fun htrue => .inr ⟨hnone, (hauthorized htrue).2⟩⟩⟩
    rw [step, Evaluation.sessionStep, hstage]
    dsimp only
    rw [hallowed]
    refine ⟨h.call, h.session, fun _ => hforce, ?_⟩
    dsimp only
    rw [hprompted]
    split_ifs with hyes
    · exact stageHolds_enter (hneeded.trans (List.append_cons _ _ _)) hrules (hlast _ fun htrue => ⟨htrue, hyes⟩)
    · exact stageHolds_enter (hneeded.trans (List.append_cons _ _ _)) hrules (hlast _ nofun)

theorem Atomic.answerStep (h : Atomic hashFile l needed s) (answer : PromptAnswer) (refused : Option String) :
    Atomic hashFile l needed (s.step home ids hashFile (.answer answer refused)) := by
  rw [step]
  split_ifs with hstage
  · have hholds := h.stage
    rw [hstage] at hholds
    exact ⟨h.call, nofun, fun hopen => (hopen trivial).elim, nofun, fun _ => hholds⟩
  · exact h

theorem Atomic.manageStep (h : Atomic hashFile l needed s) (refused : Option String) (call : RuleManager.Call) :
    Atomic hashFile l needed (s.step home ids hashFile (.manage refused call)) := by
  rw [step]
  by_cases hdecided : s.evaluation.stage.Decided
  · rw [if_pos hdecided]
    exact ⟨h.call, h.session, fun hopen => (hopen hdecided).elim, h.stage⟩
  · rw [if_neg hdecided]
    exact ⟨h.call, h.session, fun _ => List.mem_cons_self, h.stage.mono _⟩

theorem Atomic.run (h : Atomic hashFile l needed s) (turns : List OpenTurn)
    (hsteady : ∀ before after, turns = before ++ .lookup :: after → (s.run home ids hashFile before).Steady hashFile) :
    Atomic hashFile l needed (s.run home ids hashFile turns) := by
  induction turns generalizing s with
  | nil => exact h
  | cons turn turns ih =>
    have hnext : Atomic hashFile l needed (s.step home ids hashFile turn) := by
      cases turn with
      | lookup => exact h.lookupStep (hsteady [] turns rfl)
      | session => exact h.sessionStep
      | answer answer refused => exact h.answerStep answer refused
      | manage refused call => exact h.manageStep refused call
    exact ih hnext fun before after hsplit => hsteady (turn :: before) after (by rw [hsplit, List.cons_append])

/-! Without changes beside it, a call comes to the decision of its one rule set. -/

theorem run_decided {decision : Decision} (hstage : s.evaluation.stage = .decided decision) (turns : List OpenTurn)
    (hturns : ∀ turn ∈ turns, turn = .lookup ∨ turn = .session) : s.run home ids hashFile turns = s := by
  induction turns with
  | nil => rfl
  | cons turn turns ih =>
    have hsame : s.step home ids hashFile turn = s := by
      rcases hturns turn List.mem_cons_self with rfl | rfl
      · rw [step, Evaluation.lookupStep, hstage]
      · rw [step, Evaluation.sessionStep, hstage]
    rw [run, List.foldl_cons, hsame]
    exact ih fun t ht => hturns t (List.mem_cons_of_mem _ ht)

theorem run_alone (rest : List Access) (allPreAuthorized : Bool)
    (hstage : s.evaluation.stage = enter allPreAuthorized rest) :
    (s.run home ids hashFile (rest.flatMap fun _ => [.lookup, .session])).evaluation.stage =
      ((s.lookup hashFile).decide s.engine.rules.rules allPreAuthorized rest).elim .prompt .decided := by
  induction rest generalizing s allPreAuthorized with
  | nil => cases allPreAuthorized <;> exact hstage
  | cons access rest ih =>
    have hturns : ∀ turn ∈ rest.flatMap fun _ => [OpenTurn.lookup, .session], turn = .lookup ∨ turn = .session := by
      simp
    have hlook : s.evaluation.stage = .lookup access rest allPreAuthorized := hstage
    have hrule : s.engine.lookupRule (fun _ => hashFile) s.evaluation.process s.evaluation.watchedFile access =
        (s.lookup hashFile).action s.engine.rules.rules access := rfl
    have hrun (first second : OpenTurn) (more : List OpenTurn) :
        s.run home ids hashFile ([first, second] ++ more) =
          ((s.step home ids hashFile first).step home ids hashFile second).run home ids hashFile more := rfl
    have hfirst {action : Option Action} (haction : s.engine.lookupRule (fun _ => hashFile) s.evaluation.process
        s.evaluation.watchedFile access = action) :
        ∃ looks, s.step home ids hashFile .lookup = { s with evaluation := { s.evaluation with
          looks := looks
          stage := match action with
            | some .deny => .decided .denyAlways
            | some .allow => enter allPreAuthorized rest
            | none => .session access rest allPreAuthorized } } := by
      rw [step, Evaluation.lookupStep, hlook]
      dsimp only
      rw [haction]
      exact ⟨_, rfl⟩
    rw [List.flatMap_cons, hrun, Lookup.decide, ← hrule]
    cases haction : s.engine.lookupRule (fun _ => hashFile) s.evaluation.process s.evaluation.watchedFile access with
    | none =>
      obtain ⟨looks, hstep⟩ := hfirst haction
      have hsecond : ∃ looks', step home ids hashFile { s with evaluation := { s.evaluation with
            looks := looks, stage := .session access rest allPreAuthorized } } .session =
          { s with evaluation := { s.evaluation with
            looks := looks'
            stage := enter (allPreAuthorized && (s.lookup hashFile).sessionAllowed access) rest } } := by
        rw [step, Evaluation.sessionStep]
        dsimp only
        rw [Lookup.sessionAllowed, OpenRun.lookup]
        dsimp only
        cases s.engine.session.isSessionAllowed s.evaluation.process.id s.evaluation.watchedFile access
        · rw [if_neg Bool.false_ne_true, Bool.and_false]
          exact ⟨_, rfl⟩
        · rw [if_pos rfl, Bool.and_true]
          exact ⟨_, rfl⟩
      obtain ⟨looks', hstep'⟩ := hsecond
      rw [hstep, hstep']
      exact ih _ rfl
    | some action =>
      cases action with
      | deny =>
        obtain ⟨looks, hstep⟩ := hfirst haction
        rw [hstep, run_decided rfl _ hturns]
        rfl
      | allow =>
        obtain ⟨looks, hstep⟩ := hfirst haction
        rw [hstep]
        have hsecond : step home ids hashFile { s with evaluation := { s.evaluation with
              looks := looks, stage := enter allPreAuthorized rest } } .session =
            { s with evaluation := { s.evaluation with looks := looks, stage := enter allPreAuthorized rest } } := by
          rw [step, Evaluation.sessionStep]
          dsimp only
          cases rest with
          | cons next rest => rfl
          | nil => cases allPreAuthorized <;> rfl
        rw [hsecond]
        exact ih _ rfl

end OpenRun

/-- Where the rules at every lookup still answer for the directions looked up before, a decision without a prompt is
the decision of one rule set that was in force, and nothing is allowed that every rule set in force denied. -/
theorem open_atomic (home : PolicyResult (Option Path)) (ids : IdSource) (hashFile : Hashes) (engine : PolicyEngine)
    (process : ProcessInfo) (file : Path) (needsRead needsWrite : Bool) (turns : List OpenTurn)
    (hsteady : ∀ before after, turns = before ++ .lookup :: after →
      ((OpenRun.start engine process file needsRead needsWrite).run home ids hashFile before).Steady hashFile) :
    let l : Lookup := ⟨process, file, hashFile, engine.session⟩
    let needed := directions needsRead needsWrite
    let reached := (OpenRun.start engine process file needsRead needsWrite).run home ids hashFile turns
    ∀ decision, reached.evaluation.stage = .decided decision →
      (reached.evaluation.answer = none → ∃ rules ∈ reached.inForce, l.decide rules true needed = some decision) ∧
        ((∀ rules ∈ reached.inForce, ∃ access ∈ needed, l.action rules access = some .deny) →
          decision.isAllowed = false) := by
  intro l needed reached decision hdecided
  have hstart : OpenRun.Atomic hashFile l needed (.start engine process file needsRead needsWrite) :=
    OpenRun.atomic_start engine process file needsRead needsWrite
  have h : OpenRun.Atomic hashFile l needed reached := hstart.run turns hsteady
  have hstage := h.stage
  rw [hdecided] at hstage
  obtain ⟨hprompt, hallowed⟩ := hstage
  refine ⟨fun hanswer => hprompt (by rw [hanswer]; rfl), fun hdenied => ?_⟩
  by_contra hne
  obtain ⟨rules, hrules, hnone⟩ := hallowed (by simpa using hne)
  obtain ⟨access, haccess, hdeny⟩ := hdenied rules hrules
  exact hnone access haccess hdeny

def readAllowed : RuleEntry := ⟨"/a", "/bin/b", .allow, .read, none, none, none⟩
def writeDenied : RuleEntry := ⟨"/a", "/bin/b", .deny, .write, none, none, none⟩

def exampleHome : PolicyResult (Option Path) := .ok (some (utf8 "/home/u"))

def exampleEngine : PolicyEngine :=
  ⟨RuleManager.run exampleHome .autoincrement ⟨[], .empty⟩ [(none, .add readAllowed), (none, .add writeDenied)], [],
    .deny, []⟩

def exampleProcess : ProcessInfo := ⟨7, 1, utf8 "/bin/b", "b", "", none⟩

def exampleHashes : Hashes := fun _ => .error "no such file"

def exampleLookup : Lookup := ⟨exampleProcess, utf8 "/a", exampleHashes, []⟩

/-- The read is looked up before the two rules are exchanged and the write after it. -/
def exchanged : List OpenTurn :=
  [.lookup, .manage none (.edit 1 (some .deny) none .keep), .manage none (.edit 2 (some .allow) none .keep), .lookup]

theorem open_atomic_exchanged :
    let reached := (OpenRun.start exampleEngine exampleProcess (utf8 "/a") true true).run exampleHome .autoincrement
      exampleHashes exchanged
    reached.evaluation.stage = .decided .allowAlways ∧ reached.evaluation.answer = none ∧
      (∀ rules ∈ reached.inForce, exampleLookup.decide rules true [.read, .write] ≠ some .allowAlways) ∧
      ∀ rules ∈ reached.inForce, ∃ access ∈ [Access.read, .write], exampleLookup.action rules access = some .deny := by
  decide +kernel

/-- The read is looked up before the second rule is changed to allow the write, and the write after it. -/
theorem open_atomic_steady :
    let turns : List OpenTurn := [.lookup, .manage none (.edit 2 (some .allow) none .keep), .lookup]
    let reached := (OpenRun.start exampleEngine exampleProcess (utf8 "/a") true true).run exampleHome .autoincrement
      exampleHashes turns
    reached.evaluation.stage = .decided .allowAlways ∧ reached.evaluation.answer = none ∧
      ∃ rules ∈ reached.inForce, exampleLookup.decide rules true [.read, .write] = some .allowAlways := by
  intro turns reached
  have hsteady : ∀ before after, turns = before ++ .lookup :: after →
      ((OpenRun.start exampleEngine exampleProcess (utf8 "/a") true true).run exampleHome .autoincrement exampleHashes
        before).Steady exampleHashes := by
    intro before after hsplit
    match before, hsplit with
    | [], _ => decide +kernel
    | [_, _], hsplit =>
      obtain ⟨rfl, rfl, -⟩ : _ = _ ∧ _ = _ ∧ _ := by simpa [turns] using hsplit
      decide +kernel
    | [_], hsplit => simp [turns] at hsplit
    | _ :: _ :: _ :: before, hsplit => simp [turns] at hsplit
  have hdecided : reached.evaluation.stage = .decided .allowAlways := by decide +kernel
  have hanswer : reached.evaluation.answer = none := by decide +kernel
  exact ⟨hdecided, hanswer, (open_atomic exampleHome .autoincrement exampleHashes exampleEngine exampleProcess (utf8 "/a")
    true true turns hsteady .allowAlways hdecided).1 hanswer⟩

end FileGuard.Policy
