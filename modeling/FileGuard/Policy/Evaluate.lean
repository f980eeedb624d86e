import FileGuard.Policy.Atomic

/-! One `evaluate_open` on rules, grants and files that stand still. -/

namespace FileGuard.Policy

open Store

/-- What the rule, its pins and the files say of an access, with no loop around it. -/
structure Rule.Applies (rule : Rule) (l : Lookup) (access : Access) : Prop where
  file : Path.same rule.file l.file = true
  binary : Path.same rule.binary l.process.binaryPath = true
  access : rule.access = .any ∨ rule.access = access
  identity : ∀ hash, rule.identity = .sha256 hash → l.process.binarySha256 = hash
  script : ∀ expected, rule.script = some expected → ∃ script, l.process.script = some script ∧
    toStr script = some expected.path ∧ ∀ hash, expected.pin = .sha256 hash → l.hashFile script = .ok hash

theorem scriptMatches_iff {hashFile : Hashes} {expected : ScriptIdentity} {script : Option Path} :
    scriptMatches hashFile expected script = true ↔ ∃ path, script = some path ∧
      toStr path = some expected.path ∧ ∀ hash, expected.pin = .sha256 hash → hashFile path = .ok hash := by
  unfold scriptMatches
  cases script with
  | none => simp
  | some path =>
    by_cases hpath : toStr path = some expected.path
    · rw [Option.bind_some, if_neg (not_not.mpr hpath)]
      cases hpin : expected.pin with
      | unpinned => simp [hpath]
      | sha256 hash =>
        cases hhash : hashFile path with
        | error message => simp [hhash]
        | ok actual => simp [hhash, hpath]
    · rw [Option.bind_some, if_pos hpath]
      simp [hpath]

theorem identityMatches_iff {hashFile : Hashes} {rule : Rule} {process : ProcessInfo} :
    identityMatches hashFile rule process = true ↔
      (∀ hash, rule.identity = .sha256 hash → process.binarySha256 = hash) ∧
        ∀ expected, rule.script = some expected → ∃ script, process.script = some script ∧
          toStr script = some expected.path ∧ ∀ hash, expected.pin = .sha256 hash → hashFile script = .ok hash := by
  rw [identityMatches, Bool.and_eq_true]
  apply and_congr
  · cases rule.identity <;> simp
  · cases rule.script <;> simp [scriptMatches_iff]

theorem ruleMatches_iff {l : Lookup} {access : Access} {rule : ActiveRule} :
    ruleMatches l.hashFile l.process l.file access rule = true ↔ rule.compiled.Applies l access := by
  have hcovers : rule.compiled.access.covers access = true ↔
      rule.compiled.access = .any ∨ rule.compiled.access = access := by
    simp [Access.covers]
  rw [ruleMatches, Bool.and_eq_true, Bool.and_eq_true, Bool.and_eq_true, hcovers, identityMatches_iff]
  constructor
  · rintro ⟨⟨⟨hfile, hbinary⟩, haccess⟩, hid, hscript⟩
    exact ⟨hfile, hbinary, haccess, hid, hscript⟩
  · intro h
    exact ⟨⟨⟨h.file, h.binary⟩, h.access⟩, h.identity, h.script⟩

namespace Lookup

/-- Some rule with this action applies to the access. -/
def Ruled (l : Lookup) (rules : List ActiveRule) (action : Action) (access : Access) : Prop :=
  ∃ rule ∈ rules, rule.compiled.action = action ∧ rule.compiled.Applies l access

def Granted (l : Lookup) (access : Access) : Prop :=
  ∃ key ∈ l.session, key.proc.same l.process.id = true ∧ Path.same key.file l.file = true ∧
    (key.access = access ∨ key.access = .any)

variable {l : Lookup} {rules : List ActiveRule} {access : Access} {needed : List Access} {allPreAuthorized : Bool}

theorem any_iff_ruled {action : Action} :
    (rules.any fun r => ruleMatches l.hashFile l.process l.file access r && r.compiled.action == action) = true ↔
      l.Ruled rules action access := by
  rw [List.any_eq_true]
  constructor
  · rintro ⟨rule, hrule, h⟩
    obtain ⟨hmatch, haction⟩ := Bool.and_eq_true_iff.mp h
    exact ⟨rule, hrule, eq_of_beq haction, ruleMatches_iff.mp hmatch⟩
  · rintro ⟨rule, hrule, rfl, happlies⟩
    exact ⟨rule, hrule, Bool.and_eq_true_iff.mpr ⟨ruleMatches_iff.mpr happlies, beq_self_eq_true _⟩⟩

theorem action_deny : l.action rules access = some .deny ↔ l.Ruled rules .deny access := by
  rw [action, lookupLoop_eq, ← any_iff_ruled]
  split_ifs <;> simp_all

theorem action_allow : l.action rules access = some .allow ↔
    ¬ l.Ruled rules .deny access ∧ l.Ruled rules .allow access := by
  rw [action, lookupLoop_eq, ← any_iff_ruled, ← any_iff_ruled]
  split_ifs <;> simp_all

theorem action_none : l.action rules access = none ↔
    ¬ l.Ruled rules .deny access ∧ ¬ l.Ruled rules .allow access := by
  rw [action, lookupLoop_eq, ← any_iff_ruled, ← any_iff_ruled]
  split_ifs <;> simp_all

theorem sessionAllowed_iff : l.sessionAllowed access = true ↔ l.Granted access := by
  simp only [sessionAllowed, SessionState.isSessionAllowed, SessionState.contains, Bool.or_eq_true, List.any_eq_true,
    GrantKey.same, Bool.and_eq_true, beq_iff_eq]
  constructor
  · rintro (⟨key, hkey, ⟨hproc, hfile⟩, haccess⟩ | ⟨key, hkey, ⟨hproc, hfile⟩, haccess⟩)
    · exact ⟨key, hkey, hproc, hfile, .inl haccess⟩
    · exact ⟨key, hkey, hproc, hfile, .inr haccess⟩
  · rintro ⟨key, hkey, hproc, hfile, haccess | haccess⟩
    · exact .inl ⟨key, hkey, ⟨hproc, hfile⟩, haccess⟩
    · exact .inr ⟨key, hkey, ⟨hproc, hfile⟩, haccess⟩

theorem decide_deny_iff : l.decide rules allPreAuthorized needed = some .denyAlways ↔
    ∃ access ∈ needed, l.Ruled rules .deny access := by
  induction needed generalizing allPreAuthorized with
  | nil => cases allPreAuthorized <;> simp [decide]
  | cons access rest ih =>
    rw [decide, List.exists_mem_cons_iff]
    cases haction : l.action rules access with
    | none => simp [ih, (action_none.mp haction).1]
    | some action =>
      cases action with
      | deny => simp [action_deny.mp haction]
      | allow => simp [ih, (action_allow.mp haction).1]

theorem decide_allow_iff : l.decide rules allPreAuthorized needed = some .allowAlways ↔
    allPreAuthorized = true ∧ ∀ access ∈ needed, ¬ l.Ruled rules .deny access ∧
      (l.Ruled rules .allow access ∨ l.Granted access) := by
  induction needed generalizing allPreAuthorized with
  | nil => cases allPreAuthorized <;> simp [decide]
  | cons access rest ih =>
    rw [decide, List.forall_mem_cons]
    cases haction : l.action rules access with
    | none =>
      obtain ⟨hdeny, hallow⟩ := action_none.mp haction
      simp only [ih, Bool.and_eq_true, sessionAllowed_iff, hdeny, hallow, not_false_eq_true, false_or, true_and,
        and_assoc]
    | some action =>
      cases action with
      | deny => simp [action_deny.mp haction]
      | allow =>
        obtain ⟨hdeny, hallow⟩ := action_allow.mp haction
        simp [ih, hdeny, hallow]

theorem decide_cases : l.decide rules allPreAuthorized needed = some .denyAlways ∨
    l.decide rules allPreAuthorized needed = some .allowAlways ∨ l.decide rules allPreAuthorized needed = none := by
  induction needed generalizing allPreAuthorized with
  | nil => cases allPreAuthorized <;> simp [decide]
  | cons access rest ih =>
    rw [decide]
    cases l.action rules access with
    | none => exact ih
    | some action =>
      cases action with
      | deny => exact .inl rfl
      | allow => exact ih

theorem decide_none_iff : l.decide rules true needed = none ↔ (∀ access ∈ needed, ¬ l.Ruled rules .deny access) ∧
    ¬ ∀ access ∈ needed, l.Ruled rules .allow access ∨ l.Granted access := by
  have hdeny := @decide_deny_iff l rules needed true
  have hallow := @decide_allow_iff l rules needed true
  rcases @decide_cases l rules needed true with h | h | h
  · obtain ⟨access, hmem, hruled⟩ := hdeny.mp h
    rw [h]
    exact ⟨nofun, fun hnone => absurd hruled (hnone.1 access hmem)⟩
  · have hall := (hallow.mp h).2
    rw [h]
    exact ⟨nofun, fun hnone => absurd (fun access hmem => (hall access hmem).2) hnone.2⟩
  · rw [h] at hdeny hallow ⊢
    have hnodeny : ∀ access ∈ needed, ¬ l.Ruled rules .deny access := by
      intro access hmem hruled
      exact absurd (hdeny.mpr ⟨access, hmem, hruled⟩) nofun
    refine ⟨fun _ => ⟨hnodeny, fun hall => ?_⟩, fun _ => rfl⟩
    exact absurd (hallow.mpr ⟨rfl, fun access hmem => ⟨hnodeny access hmem, hall access hmem⟩⟩) nofun

end Lookup

structure Question where
  process : ProcessInfo
  file : Path
  access : Access
  default : DefaultAction
  deriving DecidableEq

def promptAccess : Bool → Bool → Access
  | true, true => .any
  | false, true => .write
  | _, false => .read

namespace PolicyEngine

section

variable (home : PolicyResult (Option Path)) (ids : IdSource) (refused : Option String) (hashFile : Hashes)
  (prompter : Question → PromptAnswer)

def promptAndApply (engine : PolicyEngine) (process : ProcessInfo) (file : Path) (access : Access) :
    Decision × PolicyEngine × List Question :=
  let question : Question := ⟨process, file, access, engine.defaultFor file⟩
  let choice := (prompter question).choice question.default
  let (decision, engine) := engine.applyChoice home ids refused hashFile process file choice
  (decision, engine, [question])

def evaluateOpen (engine : PolicyEngine) (process : ProcessInfo) (file : Path) (needsRead needsWrite : Bool) :
    Decision × PolicyEngine × List Question :=
  let l : Lookup := ⟨process, file, hashFile, engine.session⟩
  match l.decide engine.rules.rules true (directions needsRead needsWrite) with
  | some decision => (decision, engine, [])
  | none => engine.promptAndApply home ids refused hashFile prompter process file (promptAccess needsRead needsWrite)

variable {home : PolicyResult (Option Path)} {ids : IdSource} {refused : Option String} {hashFile : Hashes}
  {prompter : Question → PromptAnswer} {engine : PolicyEngine} {process : ProcessInfo} {file : Path}
  {needsRead needsWrite : Bool}

theorem evaluateOpen_some {decision : Decision}
    (h : (Lookup.mk process file hashFile engine.session).decide engine.rules.rules true
      (directions needsRead needsWrite) = some decision) :
    engine.evaluateOpen home ids refused hashFile prompter process file needsRead needsWrite =
      (decision, engine, []) := by
  simp only [evaluateOpen, h]

theorem evaluateOpen_none
    (h : (Lookup.mk process file hashFile engine.session).decide engine.rules.rules true
      (directions needsRead needsWrite) = none) :
    engine.evaluateOpen home ids refused hashFile prompter process file needsRead needsWrite =
      engine.promptAndApply home ids refused hashFile prompter process file (promptAccess needsRead needsWrite) := by
  simp only [evaluateOpen, h]

end

end PolicyEngine

namespace OpenRun

variable {home : PolicyResult (Option Path)} {ids : IdSource} {hashFile : Hashes} {s : OpenRun}

theorem run_keeps (turns : List OpenTurn) (hturns : ∀ turn ∈ turns, turn = .lookup ∨ turn = .session) :
    (s.run home ids hashFile turns).engine = s.engine ∧
      (s.run home ids hashFile turns).evaluation.process = s.evaluation.process ∧
      (s.run home ids hashFile turns).evaluation.watchedFile = s.evaluation.watchedFile := by
  induction turns generalizing s with
  | nil => exact ⟨rfl, rfl, rfl⟩
  | cons turn turns ih =>
    obtain ⟨hturn, hrest⟩ := List.forall_mem_cons.mp hturns
    have hstep : (s.step home ids hashFile turn).engine = s.engine ∧
        (s.step home ids hashFile turn).evaluation.process = s.evaluation.process ∧
        (s.step home ids hashFile turn).evaluation.watchedFile = s.evaluation.watchedFile := by
      rcases hturn with rfl | rfl
      · refine ⟨rfl, ?_⟩
        simp only [step, Evaluation.lookupStep]
        split <;> exact ⟨rfl, rfl⟩
      · refine ⟨rfl, ?_⟩
        simp only [step, Evaluation.sessionStep]
        split <;> exact ⟨rfl, rfl⟩
    obtain ⟨hengine, hprocess, hfile⟩ := @ih (s.step home ids hashFile turn) hrest
    exact ⟨hengine.trans hstep.1, hprocess.trans hstep.2.1, hfile.trans hstep.2.2⟩

/-- The call that runs by itself: every direction is looked up, and the agent is asked where they leave it open. -/
theorem run_evaluateOpen (prompter : Question → PromptAnswer) (refused : Option String) (engine : PolicyEngine)
    (process : ProcessInfo) (file : Path) (needsRead needsWrite : Bool) :
    let alone := (OpenRun.start engine process file needsRead needsWrite).run home ids hashFile
      ((directions needsRead needsWrite).flatMap fun _ => [.lookup, .session])
    let question : Question := ⟨process, file, promptAccess needsRead needsWrite, engine.defaultFor file⟩
    let answered := alone.step home ids hashFile (.answer (prompter question) refused)
    let evaluated := engine.evaluateOpen home ids refused hashFile prompter process file needsRead needsWrite
    answered.evaluation.stage = .decided evaluated.1 ∧ answered.engine = evaluated.2.1 ∧
      (evaluated.2.2 = [] ↔ alone.evaluation.stage ≠ .prompt) := by
  intro alone question answered evaluated
  have hturns : ∀ turn ∈ (directions needsRead needsWrite).flatMap fun _ => [OpenTurn.lookup, .session],
      turn = .lookup ∨ turn = .session := by
    simp
  obtain ⟨hengine, hprocess, hfile⟩ : alone.engine = engine ∧ alone.evaluation.process = process ∧
      alone.evaluation.watchedFile = file := run_keeps _ hturns
  have hstage : alone.evaluation.stage = ((Lookup.mk process file hashFile engine.session).decide engine.rules.rules
      true (directions needsRead needsWrite)).elim .prompt .decided := run_alone _ true rfl
  cases hdecide : (Lookup.mk process file hashFile engine.session).decide engine.rules.rules true
      (directions needsRead needsWrite) with
  | some decision =>
    have hdecided : alone.evaluation.stage = .decided decision := by rw [hstage, hdecide]; rfl
    have hanswered : answered = alone := by
      simp only [answered, step, hdecided]
      exact if_neg (by simp)
    have hevaluated : evaluated = (decision, engine, []) := PolicyEngine.evaluateOpen_some hdecide
    rw [hanswered, hevaluated, hdecided, hengine]
    exact ⟨rfl, rfl, by simp⟩
  | none =>
    have hprompt : alone.evaluation.stage = .prompt := by rw [hstage, hdecide]; rfl
    have hevaluated : evaluated = engine.promptAndApply home ids refused hashFile prompter process file
      (promptAccess needsRead needsWrite) := PolicyEngine.evaluateOpen_none hdecide
    have hanswered : answered.evaluation.stage = .decided evaluated.1 ∧ answered.engine = evaluated.2.1 := by
      simp only [answered, step, hprompt, hengine, hprocess, hfile, ↓reduceIte, hevaluated]
      exact ⟨rfl, rfl⟩
    refine ⟨hanswered.1, hanswered.2, ?_⟩
    rw [hevaluated, hprompt]
    exact ⟨fun h => absurd h (List.cons_ne_nil _ _), fun h => absurd rfl h⟩

end OpenRun

namespace Lookup

variable {l : Lookup} {rules rules' : List ActiveRule} {action : Action} {access : Access} {needed : List Access}

theorem Ruled.mono (h : l.Ruled rules action access)
    (hrules : ∀ rule ∈ rules, rule.compiled.action = action → rule ∈ rules') : l.Ruled rules' action access := by
  obtain ⟨rule, hrule, haction, happlies⟩ := h
  exact ⟨rule, hrules rule hrule haction, haction, happlies⟩

theorem ruled_congr (h : ∀ rule, rule ∈ rules' ↔ rule ∈ rules) :
    l.Ruled rules' action access ↔ l.Ruled rules action access :=
  ⟨fun hruled => hruled.mono fun rule hrule _ => (h rule).mp hrule,
    fun hruled => hruled.mono fun rule hrule _ => (h rule).mpr hrule⟩

theorem decide_deny_mono (hrules : ∀ rule ∈ rules, rule ∈ rules') (h : l.decide rules true needed = some .denyAlways) :
    l.decide rules' true needed = some .denyAlways := by
  obtain ⟨access, hmem, hruled⟩ := decide_deny_iff.mp h
  exact decide_deny_iff.mpr ⟨access, hmem, hruled.mono fun rule hrule _ => hrules rule hrule⟩

theorem decide_congr (h : ∀ rule, rule ∈ rules' ↔ rule ∈ rules) :
    l.decide rules' true needed = l.decide rules true needed := by
  have hdeny : l.decide rules' true needed = some .denyAlways ↔ l.decide rules true needed = some .denyAlways := by
    simp only [decide_deny_iff, ruled_congr h]
  have hallow : l.decide rules' true needed = some .allowAlways ↔ l.decide rules true needed = some .allowAlways := by
    simp only [decide_allow_iff, ruled_congr h]
  rcases @decide_cases l rules needed true with hd | hd | hd
  · rw [hd, hdeny.mpr hd]
  · rw [hd, hallow.mpr hd]
  · rcases @decide_cases l rules' needed true with hd' | hd' | hd'
    · exact absurd (hdeny.mp hd') (by rw [hd]; nofun)
    · exact absurd (hallow.mp hd') (by rw [hd]; nofun)
    · rw [hd, hd']

end Lookup

namespace PolicyEngine

variable {home : PolicyResult (Option Path)} {ids : IdSource} {refused : Option String} {hashFile : Hashes}
  {engine engine' : PolicyEngine} {process : ProcessInfo} {file : Path}

def withRules (engine : PolicyEngine) (rules : List ActiveRule) (ruleStore : RuleStore) : PolicyEngine :=
  { engine with rules := ⟨rules, ruleStore⟩ }

theorem applyChoice_allowAlways : (engine.applyChoice home ids refused hashFile process file .allowAlways).1 =
    (engine.persistRule home ids refused hashFile process file .any .allow).1.toOption.elim .allowOnce
      fun _ => .allowAlways := by
  simp only [applyChoice]
  split <;> rename_i heq <;> rw [heq] <;> rfl

theorem applyChoice_denyAlways : (engine.applyChoice home ids refused hashFile process file .denyAlways).1 =
    (engine.persistRule home ids refused hashFile process file .any .deny).1.toOption.elim .denyOnce
      fun _ => .denyAlways := by
  simp only [applyChoice]
  split <;> rename_i heq <;> rw [heq] <;> rfl

theorem applyChoice_isAllowed (choice : UserChoice) :
    (engine.applyChoice home ids refused hashFile process file choice).1.isAllowed =
      (engine'.applyChoice home ids refused hashFile process file choice).1.isAllowed := by
  have helim (decided otherwise : Decision) (h : decided.isAllowed = otherwise.isAllowed) (result : Option Unit) :
      (result.elim otherwise fun _ => decided).isAllowed = otherwise.isAllowed := by
    cases result <;> [rfl; exact h]
  cases choice with
  | allowOnce | allowSession | denyOnce => rfl
  | allowAlways =>
    rw [applyChoice_allowAlways, applyChoice_allowAlways]
    exact (helim .allowAlways .allowOnce rfl _).trans (helim .allowAlways .allowOnce rfl _).symm
  | denyAlways =>
    rw [applyChoice_denyAlways, applyChoice_denyAlways]
    exact (helim .denyAlways .denyOnce rfl _).trans (helim .denyAlways .denyOnce rfl _).symm

theorem addManagedRule_congr {rules : List ActiveRule} {m : RuleManager} (entry : RuleEntry)
    (h : ∀ rule, rule ∈ rules ↔ rule ∈ m.rules) :
    ((RuleManager.mk rules m.ruleStore).addManagedRule home ids refused entry).1 =
      (m.addManagedRule home ids refused entry).1 := by
  have hholds (entry : RuleEntry) : (RuleManager.mk rules m.ruleStore).holds entry = m.holds entry := by
    rw [Bool.eq_iff_iff]
    simp only [RuleManager.holds, List.any_eq_true, h]
  unfold RuleManager.addManagedRule
  cases prepareRuleEntry home entry with
  | error message => rfl
  | ok prepared =>
    simp only [hholds]
    split_ifs
    · rfl
    · cases m.ruleStore.insert ids refused prepared.1 with
      | error message => rfl
      | ok inserted =>
        obtain ⟨_ | stored, ruleStore⟩ := inserted <;> rfl

theorem persistRule_congr {rules : List ActiveRule} {access : Access} {action : Action}
    (h : ∀ rule, rule ∈ rules ↔ rule ∈ engine.rules.rules) :
    ((engine.withRules rules engine.rules.ruleStore).persistRule home ids refused hashFile process file access action).1 =
      (engine.persistRule home ids refused hashFile process file access action).1 := by
  unfold persistRule
  cases persistedRule hashFile process file access action with
  | error message => rfl
  | ok rule =>
    simp only [RuleManager.addPersistentRule]
    cases RuleManager.entryOf rule with
    | error message => rfl
    | ok entry => exact congrArg (Except.map fun _ => ()) (addManagedRule_congr entry h)

theorem applyChoice_congr {rules : List ActiveRule} (choice : UserChoice)
    (h : ∀ rule, rule ∈ rules ↔ rule ∈ engine.rules.rules) :
    ((engine.withRules rules engine.rules.ruleStore).applyChoice home ids refused hashFile process file choice).1 =
      (engine.applyChoice home ids refused hashFile process file choice).1 := by
  cases choice with
  | allowOnce | allowSession | denyOnce => rfl
  | allowAlways => rw [applyChoice_allowAlways, applyChoice_allowAlways, persistRule_congr h]
  | denyAlways => rw [applyChoice_denyAlways, applyChoice_denyAlways, persistRule_congr h]

section

variable {prompter : Question → PromptAnswer} {needsRead needsWrite : Bool}

theorem evaluateOpen_unprompted {decision : Decision} :
    (engine.evaluateOpen home ids refused hashFile prompter process file needsRead needsWrite).1 = decision ∧
        (engine.evaluateOpen home ids refused hashFile prompter process file needsRead needsWrite).2.2 = [] ↔
      (Lookup.mk process file hashFile engine.session).decide engine.rules.rules true
        (directions needsRead needsWrite) = some decision := by
  cases hdecide : (Lookup.mk process file hashFile engine.session).decide engine.rules.rules true
      (directions needsRead needsWrite) with
  | none =>
    rw [evaluateOpen_none hdecide]
    exact ⟨fun h => absurd h.2 nofun, nofun⟩
  | some _ =>
    rw [evaluateOpen_some hdecide]
    exact ⟨fun h => congrArg some h.1, fun h => ⟨Option.some.inj h, rfl⟩⟩

theorem evaluateOpen_congr {rules : List ActiveRule} (h : ∀ rule, rule ∈ rules ↔ rule ∈ engine.rules.rules) :
    ((engine.withRules rules engine.rules.ruleStore).evaluateOpen home ids refused hashFile prompter process file
        needsRead needsWrite).1 =
        (engine.evaluateOpen home ids refused hashFile prompter process file needsRead needsWrite).1 ∧
      ((engine.withRules rules engine.rules.ruleStore).evaluateOpen home ids refused hashFile prompter process file
        needsRead needsWrite).2.2 =
        (engine.evaluateOpen home ids refused hashFile prompter process file needsRead needsWrite).2.2 := by
  have hsame : (Lookup.mk process file hashFile (engine.withRules rules engine.rules.ruleStore).session).decide
      (engine.withRules rules engine.rules.ruleStore).rules.rules true (directions needsRead needsWrite) =
      (Lookup.mk process file hashFile engine.session).decide engine.rules.rules true
        (directions needsRead needsWrite) := Lookup.decide_congr h
  cases hdecide : (Lookup.mk process file hashFile engine.session).decide engine.rules.rules true
      (directions needsRead needsWrite) with
  | none =>
    rw [evaluateOpen_none (hsame.trans hdecide), evaluateOpen_none hdecide]
    exact ⟨applyChoice_congr _ h, rfl⟩
  | some _ =>
    rw [evaluateOpen_some (hsame.trans hdecide), evaluateOpen_some hdecide]
    exact ⟨rfl, rfl⟩

/-- A deny rule more can only take away what was allowed: where it leaves a prompt, there was one before. -/
theorem evaluateOpen_deny_added {rules : List ActiveRule} {ruleStore : RuleStore}
    (hrules : ∀ rule ∈ engine.rules.rules, rule ∈ rules)
    (hadded : ∀ rule ∈ rules, rule.compiled.action = .allow → rule ∈ engine.rules.rules)
    (h : ((engine.withRules rules ruleStore).evaluateOpen home ids refused hashFile prompter process file
      needsRead needsWrite).1.isAllowed = true) :
    (engine.evaluateOpen home ids refused hashFile prompter process file needsRead needsWrite).1.isAllowed = true := by
  have hdenied : ∀ access, (Lookup.mk process file hashFile engine.session).Ruled engine.rules.rules .deny access →
      (Lookup.mk process file hashFile engine.session).Ruled rules .deny access :=
    fun access hruled => hruled.mono fun rule hrule _ => hrules rule hrule
  have hallowed : ∀ access, (Lookup.mk process file hashFile engine.session).Ruled rules .allow access ↔
      (Lookup.mk process file hashFile engine.session).Ruled engine.rules.rules .allow access :=
    fun access => ⟨fun hruled => hruled.mono hadded, fun hruled => hruled.mono fun rule hrule _ => hrules rule hrule⟩
  rcases @Lookup.decide_cases ⟨process, file, hashFile, engine.session⟩ engine.rules.rules
      (directions needsRead needsWrite) true with hdeny | hallow | hnone
  · obtain ⟨access, hmem, hruled⟩ := Lookup.decide_deny_iff.mp hdeny
    have hdeny' : (Lookup.mk process file hashFile (engine.withRules rules ruleStore).session).decide
        (engine.withRules rules ruleStore).rules.rules true (directions needsRead needsWrite) = some .denyAlways :=
      Lookup.decide_deny_iff.mpr ⟨access, hmem, hdenied access hruled⟩
    rw [evaluateOpen_some hdeny'] at h
    cases h
  · rw [evaluateOpen_some hallow]
    rfl
  · rw [evaluateOpen_none hnone]
    obtain ⟨-, hungranted⟩ := Lookup.decide_none_iff.mp hnone
    rcases @Lookup.decide_cases ⟨process, file, hashFile, (engine.withRules rules ruleStore).session⟩
        (engine.withRules rules ruleStore).rules.rules (directions needsRead needsWrite) true with
      hdeny' | hallow' | hnone'
    · rw [evaluateOpen_some hdeny'] at h
      cases h
    · have hgranted := (Lookup.decide_allow_iff.mp hallow').2
      refine absurd (fun access hmem => ?_) hungranted
      exact (hgranted access hmem).2.imp_left (hallowed access).mp
    · rw [evaluateOpen_none hnone'] at h
      exact (applyChoice_isAllowed _).trans h

end

end PolicyEngine

/-- Without a prompt an open is decided exactly by the rules that apply and by the grants: one deny is enough, and
every direction needs an allow or a grant. -/
theorem evaluation_exact (home : PolicyResult (Option Path)) (ids : IdSource) (refused : Option String)
    (hashFile : Hashes) (prompter : Question → PromptAnswer) (engine : PolicyEngine) (process : ProcessInfo)
    (file : Path) (needsRead needsWrite : Bool) :
    let l : Lookup := ⟨process, file, hashFile, engine.session⟩
    let rules := engine.rules.rules
    let needed := directions needsRead needsWrite
    let denied := ∃ access ∈ needed, l.Ruled rules .deny access
    let granted := ∀ access ∈ needed, l.Ruled rules .allow access ∨ l.Granted access
    let evaluate (engine : PolicyEngine) :=
      engine.evaluateOpen home ids refused hashFile prompter process file needsRead needsWrite
    let unprompted (engine : PolicyEngine) (decision : Decision) :=
      (evaluate engine).1 = decision ∧ (evaluate engine).2.2 = []
    (unprompted engine .denyAlways ↔ denied) ∧
      (¬ denied → (unprompted engine .allowAlways ↔ granted)) ∧
      (¬ denied → ¬ granted → ∃ question, (evaluate engine).2.2 = [question] ∧ question.process = process ∧
        question.file = file ∧ (needsRead = true → needsWrite = true → question.access = .any)) ∧
      (∀ rules', (∀ rule, rule ∈ rules' ↔ rule ∈ rules) →
        (evaluate (engine.withRules rules' engine.rules.ruleStore)).1 = (evaluate engine).1 ∧
          (evaluate (engine.withRules rules' engine.rules.ruleStore)).2.2 = (evaluate engine).2.2) ∧
      (∀ before rule after ruleStore, rules = before ++ after →
        (rule.compiled.action = .deny →
          (evaluate (engine.withRules (before ++ rule :: after) ruleStore)).1.isAllowed = true →
            (evaluate engine).1.isAllowed = true) ∧
        (rule.compiled.action = .allow → unprompted engine .denyAlways →
          unprompted (engine.withRules (before ++ rule :: after) ruleStore) .denyAlways)) ∧
      (needsRead = true →
        (∀ rule ∈ rules, rule.compiled.action = .allow → Path.same rule.compiled.file file = true →
          Path.same rule.compiled.binary process.binaryPath = true → rule.compiled.access = .write) →
        (∀ key ∈ engine.session, key.proc.same process.id = true → Path.same key.file file = true →
          key.access = .write) →
          ¬ ((evaluate engine).1.isAllowed = true ∧ (evaluate engine).2.2 = [])) := by
  intro l rules needed denied granted evaluate unprompted
  have hnodeny (h : ¬ denied) : ∀ access ∈ needed, ¬ l.Ruled rules .deny access :=
    fun access hmem hruled => h ⟨access, hmem, hruled⟩
  have hsub {before after : List ActiveRule} (rule : ActiveRule) (hsplit : rules = before ++ after) :
      ∀ r ∈ rules, r ∈ before ++ rule :: after := by
    intro r hr
    rw [hsplit] at hr
    simp only [List.mem_append, List.mem_cons] at hr ⊢
    exact hr.imp_right .inr
  have hdeny : unprompted engine .denyAlways ↔ denied :=
    PolicyEngine.evaluateOpen_unprompted.trans Lookup.decide_deny_iff
  have hallow : unprompted engine .allowAlways ↔ true = true ∧ ∀ access ∈ needed, ¬ l.Ruled rules .deny access ∧
      (l.Ruled rules .allow access ∨ l.Granted access) :=
    PolicyEngine.evaluateOpen_unprompted.trans Lookup.decide_allow_iff
  refine ⟨hdeny, fun hd => ?_, fun hd hgranted => ?_, fun rules' hrules => PolicyEngine.evaluateOpen_congr hrules,
    fun before rule after ruleStore hsplit => ⟨fun haction h => ?_, fun haction h => ?_⟩,
    fun hread hrules hsession h => ?_⟩
  · rw [hallow]
    refine ⟨fun h access hmem => (h.2 access hmem).2, fun h => ⟨rfl, fun access hmem => ?_⟩⟩
    exact ⟨hnodeny hd access hmem, h access hmem⟩
  · have hnone : l.decide rules true needed = none := Lookup.decide_none_iff.mpr ⟨hnodeny hd, hgranted⟩
    refine ⟨⟨process, file, promptAccess needsRead needsWrite, engine.defaultFor file⟩, ?_, rfl, rfl, ?_⟩
    · simp only [evaluate, PolicyEngine.evaluateOpen_none hnone]
      rfl
    · rintro rfl rfl
      rfl
  · refine PolicyEngine.evaluateOpen_deny_added (hsub rule hsplit) (fun r hr hallowed => ?_) h
    show r ∈ rules
    rw [hsplit]
    simp only [List.mem_append, List.mem_cons] at hr ⊢
    rcases hr with hr | rfl | hr
    · exact .inl hr
    · rw [haction] at hallowed
      cases hallowed
    · exact .inr hr
  · have hd : l.decide rules true needed = some .denyAlways := PolicyEngine.evaluateOpen_unprompted.mp h
    exact PolicyEngine.evaluateOpen_unprompted.mpr (Lookup.decide_deny_mono (hsub rule hsplit) hd)
  · obtain ⟨hallowed, hquiet⟩ := h
    have hread' : Access.read ∈ needed := by simp [needed, directions, hread]
    have hdecide : l.decide rules true needed = some (evaluate engine).1 :=
      PolicyEngine.evaluateOpen_unprompted.mp ⟨rfl, hquiet⟩
    rcases @Lookup.decide_cases l rules needed true with hd | hd | hd
    · rw [hd] at hdecide
      rw [← Option.some.inj hdecide] at hallowed
      cases hallowed
    · rcases ((Lookup.decide_allow_iff.mp hd).2 _ hread').2 with
        ⟨rule, hrule, haction, happlies⟩ | ⟨key, hkey, hproc, hfile, haccess⟩
      · have hwrite := hrules rule hrule haction happlies.file happlies.binary
        rcases happlies.access with haccess | haccess <;> exact absurd (hwrite.symm.trans haccess) nofun
      · have hwrite := hsession key hkey hproc hfile
        rcases haccess with haccess | haccess <;> exact absurd (hwrite.symm.trans haccess) nofun
    · rw [hd] at hdecide
      cases hdecide

end FileGuard.Policy
