import FileGuard.Policy.Engine

namespace FileGuard.Policy

open Store

namespace Look

/-- A rule that was active at the look and that the process matched then. -/
def Matching (look : Look) (e : Evaluation) (rule : ActiveRule) : Prop :=
  ∃ n, look.rules[n]? = some rule ∧
    ruleMatches (look.hashes n) e.process e.watchedFile look.access rule = true

def NoDeny (look : Look) (e : Evaluation) : Prop :=
  ∀ rule, look.Matching e rule → rule.compiled.action = .allow

/-- An earlier prompt for the same file and the identical process was answered for the session. -/
def Granted (look : Look) (e : Evaluation) : Prop :=
  ∃ a ∈ look.answers, a.answer = .decided .allowSession ∧ a.process.id.same e.process.id = true ∧
    Path.same a.file e.watchedFile = true

def Authorized (look : Look) (e : Evaluation) : Prop :=
  (∃ rule, look.Matching e rule ∧ rule.compiled.action = .allow) ∨ look.Granted e

end Look

section lookup

variable {hashes : ℕ → Hashes} {process : ProcessInfo} {file : Path} {req : Access}

theorem lookupLoop_deny {n : ℕ} {matched : Bool} {rules : List ActiveRule}
    (h : lookupLoop hashes process file req n matched rules ≠ some .deny) (i : ℕ) (rule : ActiveRule)
    (hrule : rules[i]? = some rule) (hm : ruleMatches (hashes (n + i)) process file req rule = true) :
    rule.compiled.action = .allow := by
  induction rules generalizing n matched i with
  | nil => cases hrule
  | cons r rules ih =>
    rw [lookupLoop] at h
    cases i with
    | zero =>
      cases hrule
      rw [Nat.add_zero] at hm
      rw [if_pos hm] at h
      cases ha : rule.compiled.action with
      | allow => rfl
      | deny => simp [ha] at h
    | succ i =>
      rw [← Nat.succ_add_eq_add_succ] at hm
      split_ifs at h with hr
      · cases ha : r.compiled.action with
        | allow =>
          simp only [ha] at h
          exact ih h i hrule hm
        | deny => simp [ha] at h
      · exact ih h i hrule hm

theorem lookupLoop_allow {n : ℕ} {matched : Bool} {rules : List ActiveRule}
    (h : lookupLoop hashes process file req n matched rules = some .allow) :
    matched = true ∨ ∃ i rule, rules[i]? = some rule ∧
      ruleMatches (hashes (n + i)) process file req rule = true ∧ rule.compiled.action = .allow := by
  induction rules generalizing n matched with
  | nil =>
    rw [lookupLoop] at h
    split_ifs at h with hm
    exact .inl hm
  | cons r rules ih =>
    rw [lookupLoop] at h
    split_ifs at h with hr
    · cases ha : r.compiled.action with
      | allow => exact .inr ⟨0, r, rfl, hr, ha⟩
      | deny => simp [ha] at h
    · rcases ih h with hm | ⟨i, rule, hrule, hmatch, ha⟩
      · exact .inl hm
      · rw [Nat.succ_add_eq_add_succ] at hmatch
        exact .inr ⟨i + 1, rule, hrule, hmatch, ha⟩

end lookup

/-- The answers of a prompt that allow: by the user, or by the default where nobody decided. -/
def PromptAnswer.Allows (default : DefaultAction) : PromptAnswer → Prop
  | .decided choice => choice = .allowOnce ∨ choice = .allowSession ∨ choice = .allowAlways
  | .noResponse | .unreachable => default = .allow

namespace Evaluation

def needed (e : Evaluation) : List Access := directions e.needsRead e.needsWrite

/-- The looks so far are those of the directions before `rest`, newest first, and none met a deny. -/
structure Looked (e : Evaluation) (looks : List Look) (rest : List Access) : Prop where
  covered : e.needed = (looks.map (·.access)).reverse ++ rest
  noDeny : ∀ look ∈ looks, look.NoDeny e

def AllAuthorized (e : Evaluation) (looks : List Look) : Prop := ∀ look ∈ looks, look.Authorized e

/-- What a call has seen by the stage it stands in. -/
def Sound (default : Path → DefaultAction) (e : Evaluation) : Prop :=
  match e.stage, e.answer with
  | .lookup access rest allPreAuthorized, none =>
    e.Looked e.looks (access :: rest) ∧ (allPreAuthorized = true → e.AllAuthorized e.looks)
  | .session access rest allPreAuthorized, none => ∃ look looks, e.looks = look :: looks ∧
    look.access = access ∧ e.Looked e.looks rest ∧ (allPreAuthorized = true → e.AllAuthorized looks)
  | .prompt, none => e.Looked e.looks []
  | .decided decision, none => decision.isAllowed = true → e.Looked e.looks [] ∧ e.AllAuthorized e.looks
  | .decided decision, some answer =>
    e.Looked e.looks [] ∧ (decision.isAllowed = true → answer.Allows (default e.watchedFile))
  | _, some _ => False

variable {default : Path → DefaultAction} {e : Evaluation}

theorem sound_enter {looks : List Look} {rest : List Access} {allPreAuthorized : Bool}
    (hanswer : e.answer = none) (hlooked : e.Looked looks rest)
    (hall : allPreAuthorized = true → e.AllAuthorized looks) :
    Sound default { e with looks := looks, stage := enter allPreAuthorized rest } := by
  cases rest with
  | cons access rest =>
    simp only [enter, Sound, hanswer]
    exact ⟨⟨hlooked.covered, hlooked.noDeny⟩, hall⟩
  | nil =>
    cases allPreAuthorized with
    | true =>
      simp only [enter, Sound, hanswer]
      exact fun _ => ⟨⟨hlooked.covered, hlooked.noDeny⟩, hall rfl⟩
    | false =>
      simp only [enter, Sound, hanswer]
      exact ⟨hlooked.covered, hlooked.noDeny⟩

theorem sound_start (process : ProcessInfo) (file : Path) (needsRead needsWrite : Bool) :
    Sound default (start process file needsRead needsWrite) :=
  sound_enter (e := start process file needsRead needsWrite) rfl ⟨rfl, nofun⟩ (fun _ => nofun)

theorem stage_answer (h : e.Sound default) (hs : ∀ decision, e.stage ≠ .decided decision) :
    e.answer = none := by
  unfold Sound at h
  split at h
  · assumption
  · assumption
  · assumption
  · assumption
  · rename_i hstage _
    exact absurd hstage (hs _)
  · exact h.elim

theorem sound_lookupStep {engine : PolicyEngine} {hashes : ℕ → Hashes} (h : e.Sound default) :
    (e.lookupStep engine hashes).Sound default := by
  unfold lookupStep
  split
  case h_2 => exact h
  case h_1 access rest allPreAuthorized hstage =>
    have hanswer := stage_answer h (by simp [hstage])
    simp only [Sound, hstage, hanswer] at h
    obtain ⟨hlooked, hall⟩ := h
    let look : Look := ⟨access, engine.rules.rules, hashes, []⟩
    have hnext (hno : engine.lookupRule hashes e.process e.watchedFile access ≠ some .deny) :
        e.Looked (look :: e.looks) rest := by
      refine ⟨by simpa [look] using hlooked.covered, List.forall_mem_cons.mpr ⟨?_, hlooked.noDeny⟩⟩
      rintro rule ⟨n, hrule, hmatch⟩
      exact lookupLoop_deny hno n rule hrule (by simpa using hmatch)
    cases hr : engine.lookupRule hashes e.process e.watchedFile access with
    | none =>
      simp only [Sound, hanswer]
      have hnext := hnext (by simp [hr])
      exact ⟨look, e.looks, rfl, rfl, ⟨hnext.covered, hnext.noDeny⟩, hall⟩
    | some action =>
      cases action with
      | deny =>
        simp only [Sound, hanswer]
        exact nofun
      | allow =>
        have hallow : look.Authorized e := by
          rcases lookupLoop_allow hr with hm | ⟨i, rule, hrule, hmatch, ha⟩
          · cases hm
          · exact .inl ⟨rule, ⟨i, hrule, by simpa using hmatch⟩, ha⟩
        exact sound_enter hanswer (hnext (by simp [hr]))
          fun hp => List.forall_mem_cons.mpr ⟨hallow, hall hp⟩

theorem sound_sessionStep {engine : PolicyEngine} {answers : List Answer} (h : e.Sound default)
    (hgrants : ∀ key ∈ engine.session, ∃ a ∈ answers, a.answer = .decided .allowSession ∧
      a.process.id = key.proc ∧ a.file = key.file) :
    (e.sessionStep engine answers).Sound default := by
  unfold sessionStep
  split
  case h_2 => exact h
  case h_1 access rest allPreAuthorized hstage =>
    have hanswer := stage_answer h (by simp [hstage])
    simp only [Sound, hstage, hanswer] at h
    obtain ⟨look, looks, hlooks, -, hlooked, hall⟩ := h
    rw [hlooks] at hlooked ⊢
    obtain ⟨hnoDeny, hrest⟩ := List.forall_mem_cons.mp hlooked.noDeny
    have hlooked' : e.Looked ({ look with answers := answers } :: looks) rest :=
      ⟨hlooked.covered, List.forall_mem_cons.mpr ⟨hnoDeny, hrest⟩⟩
    simp only
    split_ifs with hs
    · refine sound_enter hanswer hlooked' fun hp => List.forall_mem_cons.mpr ⟨.inr ?_, hall hp⟩
      obtain ⟨key, hkey, hproc, hfile⟩ : ∃ key ∈ engine.session, key.proc.same e.process.id = true ∧
          Path.same key.file e.watchedFile = true := by
        simp only [SessionState.isSessionAllowed, SessionState.contains, Bool.or_eq_true, List.any_eq_true,
          GrantKey.same, Bool.and_eq_true] at hs
        rcases hs with ⟨key, hkey, ⟨hproc, hfile⟩, -⟩ | ⟨key, hkey, ⟨hproc, hfile⟩, -⟩ <;>
          exact ⟨key, hkey, hproc, hfile⟩
      obtain ⟨a, ha, hsession, hid, hpath⟩ := hgrants key hkey
      exact ⟨a, ha, hsession, by rw [hid]; exact hproc, by rw [hpath]; exact hfile⟩
    · exact sound_enter hanswer hlooked' nofun

end Evaluation

theorem mem_modify {α : Type} {l : List α} {i : ℕ} {f : α → α} {a : α} (h : a ∈ l.modify i f) :
    a ∈ l ∨ ∃ b, l[i]? = some b ∧ a = f b := by
  obtain ⟨j, hj⟩ := List.mem_iff_getElem?.mp h
  rw [List.getElem?_modify] at hj
  split_ifs at hj with hij
  · obtain ⟨b, hb, rfl⟩ := Option.map_eq_some_iff.mp hj
    exact .inr ⟨b, hij ▸ hb, rfl⟩
  · have hj : l[j]? = some a := by simpa using hj
    exact .inl (List.mem_of_getElem? hj)

namespace PolicyRun

/-- A session grant comes from an earlier answer for the session. -/
def GrantedBy (answers : List Answer) (key : GrantKey) : Prop :=
  key.access = .any ∧ ∃ a ∈ answers, a.answer = .decided .allowSession ∧ a.process.id = key.proc ∧
    a.file = key.file

structure Sound (default : Path → DefaultAction) (s : PolicyRun) : Prop where
  opens : ∀ e ∈ s.opens, e.Sound default
  earlier : ∀ e ∈ s.opens, ∀ look ∈ e.looks, ∀ a ∈ look.answers, a ∈ s.answers
  grants : ∀ key ∈ s.engine.session, GrantedBy s.answers key
  defaults : s.engine.defaultFor = default

variable {home : PolicyResult (Option Path)} {ids : IdSource} {default : Path → DefaultAction}
  {s : PolicyRun}

theorem applyChoice_defaults (engine : PolicyEngine) (refused : Option String) (hashFile : Hashes)
    (process : ProcessInfo) (file : Path) (choice : UserChoice) :
    (engine.applyChoice home ids refused hashFile process file choice).2.defaultFor = engine.defaultFor := by
  have hpersist (action : Action) : (engine.persistRule home ids refused hashFile process file .any
      action).2.defaultFor = engine.defaultFor := by
    unfold PolicyEngine.persistRule
    split <;> rfl
  cases choice with
  | allowAlways =>
    have h := hpersist .allow
    simp only [PolicyEngine.applyChoice]
    split <;> rename_i heq <;> rw [heq] at h <;> exact h
  | denyAlways =>
    have h := hpersist .deny
    simp only [PolicyEngine.applyChoice]
    split <;> rename_i heq <;> rw [heq] at h <;> exact h
  | allowOnce => rfl
  | allowSession => rfl
  | denyOnce => rfl

theorem applyChoice_session (engine : PolicyEngine) (refused : Option String) (hashFile : Hashes)
    (process : ProcessInfo) (file : Path) (choice : UserChoice) (key : GrantKey)
    (hkey : key ∈ (engine.applyChoice home ids refused hashFile process file choice).2.session) :
    key ∈ engine.session ∨ choice = .allowSession ∧ key = ⟨process.id, file, .any⟩ := by
  have hpersist (action : Action) : (engine.persistRule home ids refused hashFile process file .any
      action).2.session = engine.session := by
    unfold PolicyEngine.persistRule
    split <;> rfl
  cases choice with
  | allowAlways =>
    have h := hpersist .allow
    simp only [PolicyEngine.applyChoice] at hkey
    split at hkey <;> rename_i heq <;> rw [heq] at h <;> exact .inl (h ▸ hkey)
  | denyAlways =>
    have h := hpersist .deny
    simp only [PolicyEngine.applyChoice] at hkey
    split at hkey <;> rename_i heq <;> rw [heq] at h <;> exact .inl (h ▸ hkey)
  | allowOnce => exact .inl hkey
  | denyOnce => exact .inl hkey
  | allowSession =>
    simp only [PolicyEngine.applyChoice, SessionState.grantSession] at hkey
    split_ifs at hkey
    · exact .inl hkey
    · rcases List.mem_cons.mp hkey with rfl | hkey
      · exact .inr ⟨rfl, rfl⟩
      · exact .inl hkey

theorem applyChoice_allowed {engine : PolicyEngine} {refused : Option String} {hashFile : Hashes}
    {process : ProcessInfo} {file : Path} {choice : UserChoice}
    (h : (engine.applyChoice home ids refused hashFile process file choice).1.isAllowed = true) :
    choice = .allowOnce ∨ choice = .allowSession ∨ choice = .allowAlways := by
  cases choice with
  | allowOnce => exact .inl rfl
  | allowSession => exact .inr (.inl rfl)
  | allowAlways => exact .inr (.inr rfl)
  | denyOnce => cases h
  | denyAlways =>
    simp only [PolicyEngine.applyChoice] at h
    split at h <;> cases h

theorem allows_of_choice {default : DefaultAction} {answer : PromptAnswer}
    (h : answer.choice default = .allowOnce ∨ answer.choice default = .allowSession ∨
      answer.choice default = .allowAlways) : answer.Allows default := by
  cases answer with
  | decided choice => exact h
  | noResponse => cases default <;> simp_all [PromptAnswer.choice, defaultChoice, PromptAnswer.Allows]
  | unreachable => cases default <;> simp_all [PromptAnswer.choice, defaultChoice, PromptAnswer.Allows]

theorem decided_of_choice {default : DefaultAction} {answer : PromptAnswer} {choice : UserChoice}
    (h : answer.choice default = choice) (hlasting : choice ≠ .allowOnce ∧ choice ≠ .denyOnce) :
    answer = .decided choice := by
  cases answer with
  | decided choice => exact congrArg _ h
  | noResponse => cases default <;> simp_all [PromptAnswer.choice, defaultChoice]
  | unreachable => cases default <;> simp_all [PromptAnswer.choice, defaultChoice]

theorem sound_start (engine : PolicyEngine) : Sound engine.defaultFor (start engine) := by
  refine ⟨?_, ?_, ?_, rfl⟩
  · simp [start]
  · simp [start]
  · simp [start]

theorem Sound.modify (h : Sound default s) {index : ℕ} {f : Evaluation → Evaluation}
    (hsound : ∀ e, e.Sound default → (f e).Sound default)
    (hlooks : ∀ e ∈ s.opens, ∀ look ∈ (f e).looks, ∀ a ∈ look.answers, a ∈ s.answers) :
    Sound default { s with opens := s.opens.modify index f } := by
  refine ⟨fun e he => ?_, fun e he => ?_, h.grants, h.defaults⟩ <;>
    rcases mem_modify he with he | ⟨b, hb, rfl⟩
  · exact h.opens e he
  · exact hsound b (h.opens b (List.mem_of_getElem? hb))
  · exact h.earlier e he
  · exact hlooks b (List.mem_of_getElem? hb)

theorem Sound.step (h : Sound default s) (event : PolicyEvent) : Sound default (s.step home ids event) := by
  cases event with
  | call process file needsRead needsWrite =>
    refine ⟨?_, ?_, h.grants, h.defaults⟩
    · exact List.forall_mem_append.mpr
        ⟨h.opens, List.forall_mem_singleton.mpr (Evaluation.sound_start ..)⟩
    · exact List.forall_mem_append.mpr ⟨h.earlier, List.forall_mem_singleton.mpr nofun⟩
  | lookup index hashes =>
    refine h.modify (fun e he => Evaluation.sound_lookupStep he) fun e he => ?_
    unfold Evaluation.lookupStep
    split
    · exact List.forall_mem_cons.mpr ⟨nofun, h.earlier e he⟩
    · exact h.earlier e he
  | session index =>
    refine h.modify (fun e he => Evaluation.sound_sessionStep he fun key hkey => (h.grants key hkey).2)
      fun e he => ?_
    have hearlier := h.earlier e he
    unfold Evaluation.sessionStep
    split
    · cases hl : e.looks with
      | nil => exact nofun
      | cons look looks =>
        rw [hl] at hearlier
        exact List.forall_mem_cons.mpr ⟨fun a ha => ha, (List.forall_mem_cons.mp hearlier).2⟩
    · exact hearlier
  | manage refused call => exact ⟨h.opens, h.earlier, h.grants, h.defaults⟩
  | answer index answer refused hashFile =>
    simp only [PolicyRun.step]
    split
    case h_2 => exact h
    case h_1 e hindex =>
      split_ifs with hstage
      · have he := h.opens e (List.mem_of_getElem? hindex)
        have hanswer := Evaluation.stage_answer he (by simp [hstage])
        simp only [Evaluation.Sound, hstage, hanswer] at he
        refine ⟨fun e' he' => ?_, fun e' he' look hlook a ha => ?_, fun key hkey => ?_, ?_⟩
        · rcases mem_modify he' with he' | ⟨b, hb, rfl⟩
          · exact h.opens e' he'
          · cases hindex.symm.trans hb
            refine ⟨⟨he.covered, he.noDeny⟩, fun hallowed => ?_⟩
            rw [← h.defaults]
            exact allows_of_choice (applyChoice_allowed hallowed)
        · refine List.mem_cons_of_mem _ ?_
          rcases mem_modify he' with he' | ⟨b, hb, rfl⟩
          · exact h.earlier e' he' look hlook a ha
          · exact h.earlier b (List.mem_of_getElem? hb) look hlook a ha
        · rcases applyChoice_session _ _ _ _ _ _ key hkey with hkey | ⟨hchoice, rfl⟩
          · obtain ⟨hany, a, ha, hrest⟩ := h.grants key hkey
            exact ⟨hany, a, List.mem_cons_of_mem _ ha, hrest⟩
          · exact ⟨rfl, _, List.mem_cons_self, decided_of_choice hchoice (by simp), rfl, rfl⟩
        · exact (applyChoice_defaults ..).trans h.defaults
      · exact h

theorem Sound.run (h : Sound default s) (events : List PolicyEvent) : Sound default (s.run home ids events) := by
  induction events generalizing s with
  | nil => exact h
  | cons event events ih => exact ih (h.step event)

/-- The rule that a permanent answer creates. -/
structure CreatedBy (process : ProcessInfo) (choice : UserChoice) (rule : ActiveRule) : Prop where
  action : choice = .allowAlways ∧ rule.compiled.action = .allow ∨
    choice = .denyAlways ∧ rule.compiled.action = .deny
  access : rule.compiled.access = .any
  binary : rule.compiled.binary = process.binaryPath

theorem prepareRuleEntry_fields {entry prepared : RuleEntry} {rule : Rule}
    (h : prepareRuleEntry home entry = .ok (prepared, rule)) :
    rule.action = entry.action.compiled ∧ rule.access = entry.access ∧ rule.binary = utf8 entry.binary := by
  unfold prepareRuleEntry at h
  obtain ⟨sha256, -, h⟩ := bind_eq_ok.mp h
  obtain ⟨scriptSha256, -, h⟩ := bind_eq_ok.mp h
  simp only at h
  obtain ⟨compiled, hcompiled, h⟩ := bind_eq_ok.mp h
  obtain ⟨file, -, h⟩ := bind_eq_ok.mp h
  cases h
  unfold ruleFromEntry at hcompiled
  obtain ⟨expanded, -, h⟩ := bind_eq_ok.mp hcompiled
  split_ifs at h
  obtain ⟨lexical, -, h⟩ := bind_eq_ok.mp h
  simp only at h
  split_ifs at h
  obtain ⟨identity, -, h⟩ := bind_eq_ok.mp h
  obtain ⟨script, -, h⟩ := bind_eq_ok.mp h
  cases h
  exact ⟨rfl, rfl, rfl⟩

theorem persistRule_rules (engine : PolicyEngine) (refused : Option String) (hashFile : Hashes)
    (process : ProcessInfo) (file : Path) (action : Action) :
    (engine.persistRule home ids refused hashFile process file .any action).2.rules.rules =
        engine.rules.rules ∨
      ∃ rule : ActiveRule,
        (engine.persistRule home ids refused hashFile process file .any action).2.rules.rules =
          engine.rules.rules ++ [rule] ∧
        rule.compiled.action = action ∧ rule.compiled.access = .any ∧
          rule.compiled.binary = process.binaryPath := by
  unfold PolicyEngine.persistRule
  cases hp : PolicyEngine.persistedRule hashFile process file .any action with
  | error e => exact .inl rfl
  | ok rule =>
    have hrule : rule.action = action ∧ rule.access = .any ∧ rule.binary = process.binaryPath := by
      unfold PolicyEngine.persistedRule at hp
      split_ifs at hp
      obtain ⟨script, -, hp⟩ := bind_eq_ok.mp hp
      cases hp
      exact ⟨rfl, rfl, rfl⟩
    simp only [RuleManager.addPersistentRule]
    cases he : RuleManager.entryOf rule with
    | error e => exact .inl rfl
    | ok entry =>
      have hentry : entry.action = rule.action.entryAction ∧ entry.access = rule.access ∧
          utf8 entry.binary = rule.binary := by
        unfold RuleManager.entryOf at he
        obtain ⟨file, -, he⟩ := bind_eq_ok.mp he
        obtain ⟨binary, hbinary, he⟩ := bind_eq_ok.mp he
        cases he
        exact ⟨rfl, rfl, utf8_of_toStr (elim_eq_ok.mp hbinary)⟩
      simp only [RuleManager.addManagedRule]
      cases hprep : prepareRuleEntry home entry with
      | error e => exact .inl rfl
      | ok prepared =>
        obtain ⟨haction, haccess, hbinary⟩ := prepareRuleEntry_fields hprep
        simp only
        split_ifs
        · exact .inl rfl
        · cases hinsert : engine.rules.ruleStore.insert ids refused prepared.1 with
          | error e => exact .inl rfl
          | ok inserted =>
            obtain ⟨_ | stored, ruleStore⟩ := inserted
            · exact .inl rfl
            · refine .inr ⟨_, rfl, ?_, ?_, ?_⟩
              · rw [haction, hentry.1, hrule.1]
                cases action <;> rfl
              · rw [haccess, hentry.2.1, hrule.2.1]
              · rw [hbinary, hentry.2.2, hrule.2.2]

theorem applyChoice_rules (engine : PolicyEngine) (refused : Option String) (hashFile : Hashes)
    (process : ProcessInfo) (file : Path) (choice : UserChoice) :
    (engine.applyChoice home ids refused hashFile process file choice).2.rules.rules = engine.rules.rules ∨
      ∃ rule, (engine.applyChoice home ids refused hashFile process file choice).2.rules.rules =
        engine.rules.rules ++ [rule] ∧ CreatedBy process choice rule := by
  cases choice with
  | allowOnce => exact .inl rfl
  | allowSession => exact .inl rfl
  | denyOnce => exact .inl rfl
  | allowAlways =>
    have h := @persistRule_rules home ids engine refused hashFile process file .allow
    simp only [PolicyEngine.applyChoice]
    split <;> rename_i heq <;> rw [heq] at h <;>
      exact h.imp_right fun ⟨rule, hr, ha, hacc, hb⟩ => ⟨rule, hr, .inl ⟨rfl, ha⟩, hacc, hb⟩
  | denyAlways =>
    have h := @persistRule_rules home ids engine refused hashFile process file .deny
    simp only [PolicyEngine.applyChoice]
    split <;> rename_i heq <;> rw [heq] at h <;>
      exact h.imp_right fun ⟨rule, hr, ha, hacc, hb⟩ => ⟨rule, hr, .inr ⟨rfl, ha⟩, hacc, hb⟩

/-- What one event may do to the grants and the rules. -/
structure Creates (s : PolicyRun) (event : PolicyEvent) (s' : PolicyRun) : Prop where
  grants : ∀ key ∈ s'.engine.session, key ∈ s.engine.session ∨
    ∃ index refused hashFile e, event = .answer index (.decided .allowSession) refused hashFile ∧
      s.opens[index]? = some e ∧ key = ⟨e.process.id, e.watchedFile, .any⟩
  rules : s'.engine.rules.rules = s.engine.rules.rules ∨ (∃ refused call, event = .manage refused call) ∨
    ∃ index choice refused hashFile e rule, event = .answer index (.decided choice) refused hashFile ∧
      s.opens[index]? = some e ∧ s'.engine.rules.rules = s.engine.rules.rules ++ [rule] ∧
      CreatedBy e.process choice rule

theorem step_creates (s : PolicyRun) (event : PolicyEvent) : Creates s event (s.step home ids event) := by
  cases event with
  | call process file needsRead needsWrite => exact ⟨fun key hkey => .inl hkey, .inl rfl⟩
  | lookup index hashes => exact ⟨fun key hkey => .inl hkey, .inl rfl⟩
  | session index => exact ⟨fun key hkey => .inl hkey, .inl rfl⟩
  | manage refused call => exact ⟨fun key hkey => .inl hkey, .inr (.inl ⟨_, _, rfl⟩)⟩
  | answer index answer refused hashFile =>
    simp only [PolicyRun.step]
    split
    case h_2 => exact ⟨fun key hkey => .inl hkey, .inl rfl⟩
    case h_1 e hindex =>
      split_ifs with hstage
      · refine ⟨fun key hkey => ?_, ?_⟩
        · rcases applyChoice_session _ _ _ _ _ _ key hkey with hkey | ⟨hchoice, rfl⟩
          · exact .inl hkey
          · cases decided_of_choice hchoice (by simp)
            exact .inr ⟨_, _, _, e, rfl, hindex, rfl⟩
        · rcases applyChoice_rules s.engine refused hashFile e.process e.watchedFile _ with hr | ⟨rule, hr, hc⟩
          · exact .inl hr
          · have hlasting : answer.choice (s.engine.defaultFor e.watchedFile) ≠ .allowOnce ∧
                answer.choice (s.engine.defaultFor e.watchedFile) ≠ .denyOnce := by
              rcases hc.action with ⟨hchoice, -⟩ | ⟨hchoice, -⟩ <;> simp [hchoice]
            have hanswer := decided_of_choice rfl hlasting
            exact .inr (.inr ⟨_, _, _, _, e, rule, by rw [← hanswer], hindex, hr, hc⟩)
      · exact ⟨fun key hkey => .inl hkey, .inl rfl⟩

/-- What an event may add to what a call has looked at. -/
inductive Looking (s : PolicyRun) (index : ℕ) (e : Evaluation) : PolicyEvent → List Look → Prop where
  | same (event) : Looking s index e event e.looks
  | lookup (hashes) {access rest allPreAuthorized} (hstage : e.stage = .lookup access rest allPreAuthorized) :
      Looking s index e (.lookup index hashes) (⟨access, s.engine.rules.rules, hashes, []⟩ :: e.looks)
  | session {look looks} (hlooks : e.looks = look :: looks) :
      Looking s index e (.session index) ({ look with answers := s.answers } :: looks)

theorem step_looks {s : PolicyRun} {event : PolicyEvent} {index : ℕ} {e' : Evaluation}
    (h : (s.step home ids event).opens[index]? = some e') :
    e'.looks = [] ∨ ∃ e, s.opens[index]? = some e ∧ Looking s index e event e'.looks := by
  have hsame {e : Evaluation} (hindex : s.opens[index]? = some e) (hlooks : e'.looks = e.looks) :
      e'.looks = [] ∨ ∃ e, s.opens[index]? = some e ∧ Looking s index e event e'.looks :=
    .inr ⟨e, hindex, hlooks ▸ .same event⟩
  have hmodify {i : ℕ} {f : Evaluation → Evaluation} (h : (s.opens.modify i f)[index]? = some e') :
      ∃ e, s.opens[index]? = some e ∧ (e' = e ∨ i = index ∧ e' = f e) := by
    rw [List.getElem?_modify] at h
    obtain ⟨e, hindex, rfl⟩ := Option.map_eq_some_iff.mp h
    refine ⟨e, hindex, ?_⟩
    split_ifs with hi
    · exact .inr ⟨hi, rfl⟩
    · exact .inl rfl
  cases event with
  | call process file needsRead needsWrite =>
    simp only [PolicyRun.step, List.getElem?_append] at h
    split_ifs at h
    · exact hsame h rfl
    · rw [List.getElem?_singleton] at h
      split_ifs at h
      cases h
      exact .inl rfl
  | lookup i hashes =>
    obtain ⟨e, hindex, rfl | ⟨rfl, rfl⟩⟩ := hmodify h
    · exact hsame hindex rfl
    · refine .inr ⟨e, hindex, ?_⟩
      unfold Evaluation.lookupStep
      split
      case h_1 access rest allPreAuthorized hstage => exact .lookup hashes hstage
      case h_2 => exact .same _
  | session i =>
    obtain ⟨e, hindex, rfl | ⟨rfl, rfl⟩⟩ := hmodify h
    · exact hsame hindex rfl
    · unfold Evaluation.sessionStep
      split
      case h_2 => exact .inr ⟨e, hindex, .same _⟩
      case h_1 =>
        cases hlooks : e.looks with
        | nil => exact .inl rfl
        | cons look looks => exact .inr ⟨e, hindex, .session hlooks⟩
  | answer i answer refused hashFile =>
    simp only [PolicyRun.step] at h
    split at h
    case h_2 => exact hsame h rfl
    case h_1 =>
      split_ifs at h
      · obtain ⟨e, hindex, rfl | ⟨-, rfl⟩⟩ := hmodify h
        · exact hsame hindex rfl
        · exact hsame hindex rfl
      · exact hsame h rfl
  | manage refused call => exact hsame h rfl

end PolicyRun

/-- A look shows the rules, the files and the answers as they were at its own steps of the run. -/
structure Look.Recorded (look : Look) (home : PolicyResult (Option Path)) (ids : IdSource) (engine : PolicyEngine)
    (events : List PolicyEvent) (index : ℕ) : Prop where
  rules : ∃ before after e rest allPreAuthorized, events = before ++ .lookup index look.hashes :: after ∧
    ((PolicyRun.start engine).run home ids before).opens[index]? = some e ∧
    e.stage = .lookup look.access rest allPreAuthorized ∧
    ((PolicyRun.start engine).run home ids before).engine.rules.rules = look.rules
  answers : look.answers = [] ∨ ∃ before after, events = before ++ .session index :: after ∧
    ((PolicyRun.start engine).run home ids before).answers = look.answers

theorem Look.Recorded.append {look : Look} {engine : PolicyEngine} {events : List PolicyEvent} {index : ℕ}
    (h : look.Recorded home ids engine events index) (event : PolicyEvent) :
    look.Recorded home ids engine (events ++ [event]) index := by
  obtain ⟨before, after, e, rest, allPreAuthorized, rfl, hrules⟩ := h.rules
  refine ⟨⟨before, after ++ [event], e, rest, allPreAuthorized, by simp, hrules⟩, ?_⟩
  rcases h.answers with hnone | ⟨before', after', hevents, hanswers⟩
  · exact .inl hnone
  · exact .inr ⟨before', after' ++ [event], by simp [hevents], hanswers⟩

theorem PolicyRun.looks_recorded (engine : PolicyEngine) (events : List PolicyEvent) (index : ℕ) (e : Evaluation)
    (h : ((start engine).run home ids events).opens[index]? = some e) :
    ∀ look ∈ e.looks, look.Recorded home ids engine events index := by
  induction events using List.reverseRecOn generalizing e with
  | nil => exact absurd h (by simp [run, start])
  | append_singleton events event ih =>
    have hstep : ((start engine).run home ids (events ++ [event])) =
        ((start engine).run home ids events).step home ids event := List.foldl_concat ..
    rw [hstep] at h
    rcases step_looks h with hnone | ⟨e₀, hindex, hlooks⟩
    · simp [hnone]
    · have hbefore : ∀ look ∈ e₀.looks, look.Recorded home ids engine (events ++ [event]) index :=
        fun look hlook => (ih e₀ hindex look hlook).append event
      generalize e.looks = looks at hlooks
      cases hlooks with
      | same => exact hbefore
      | lookup hashes hstage =>
        refine List.forall_mem_cons.mpr ⟨⟨?_, .inl rfl⟩, hbefore⟩
        exact ⟨events, [], e₀, _, _, rfl, hindex, hstage, rfl⟩
      | session hl =>
        rw [hl] at hbefore
        obtain ⟨hlook, hrest⟩ := List.forall_mem_cons.mp hbefore
        exact List.forall_mem_cons.mpr ⟨⟨hlook.rules, .inr ⟨events, [], rfl, rfl⟩⟩, hrest⟩

/-- An allowing decision was made by the prompt of this call, or every direction it needs was authorized
when it was looked up. -/
def Justified (default : Path → DefaultAction) (e : Evaluation) : Prop :=
  match e.answer with
  | some answer => answer.Allows (default e.watchedFile)
  | none => ∀ access ∈ e.needed, ∃ look ∈ e.looks, look.access = access ∧ look.NoDeny e ∧ look.Authorized e

theorem Evaluation.Looked.look {e : Evaluation} (h : e.Looked e.looks []) {access : Access}
    (hneeded : access ∈ e.needed) : ∃ look ∈ e.looks, look.access = access ∧ look.NoDeny e := by
  rw [h.covered, List.append_nil, List.mem_reverse] at hneeded
  obtain ⟨look, hlook, rfl⟩ := List.mem_map.mp hneeded
  exact ⟨look, hlook, rfl, h.noDeny look hlook⟩

/-- No access without justification: in every run of one engine each allowing decision is justified, a call
that prompts has met no deny, what a call has looked at is what the engine held at that point of the run, grants
come from answers for the session and the rules that prompts create from permanent answers. -/
theorem policy_justifies (home : PolicyResult (Option Path)) (ids : IdSource) (engine : PolicyEngine)
    (events : List PolicyEvent) :
    let s := (PolicyRun.start engine).run home ids events
    (∀ e ∈ s.opens, ∀ decision, e.stage = .decided decision → decision.isAllowed = true →
      Justified engine.defaultFor e) ∧
    (∀ e ∈ s.opens, e.stage = .prompt ∨ e.answer.isSome →
      ∀ access ∈ e.needed, ∃ look ∈ e.looks, look.access = access ∧ look.NoDeny e) ∧
    (∀ index (e : Evaluation), s.opens[index]? = some e →
      ∀ look ∈ e.looks, look.Recorded home ids engine events index) ∧
    (∀ e ∈ s.opens, ∀ look ∈ e.looks, ∀ a ∈ look.answers, a ∈ s.answers) ∧
    (∀ key ∈ s.engine.session, PolicyRun.GrantedBy s.answers key) ∧
    ∀ event, PolicyRun.Creates s event (s.step home ids event) := by
  intro s
  have h : s.Sound engine.defaultFor := (PolicyRun.sound_start engine).run events
  refine ⟨fun e he decision hstage hallowed => ?_, fun e he hprompt access hneeded => ?_,
    PolicyRun.looks_recorded engine events, h.earlier, h.grants, s.step_creates⟩
  · have hsound := h.opens e he
    unfold Justified
    cases hanswer : e.answer with
    | some answer =>
      simp only [Evaluation.Sound, hstage, hanswer] at hsound
      exact hsound.2 hallowed
    | none =>
      simp only [Evaluation.Sound, hstage, hanswer] at hsound
      obtain ⟨hlooked, hall⟩ := hsound hallowed
      intro access hneeded
      obtain ⟨look, hlook, ha, hno⟩ := hlooked.look hneeded
      exact ⟨look, hlook, ha, hno, hall look hlook⟩
  · have hsound := h.opens e he
    have hlooked : e.Looked e.looks [] := by
      unfold Evaluation.Sound at hsound
      split at hsound <;> simp_all
    exact hlooked.look hneeded

end FileGuard.Policy
