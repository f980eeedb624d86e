import FileGuard.Control.Commands

/-! How often a command changes the repository when a client whose request failed executes it again. -/

namespace FileGuard.Control

open Policy

variable {ids : IdSource} {store : RuleStore}

/-- The client has sent its request. -/
def Stage.Asked : Stage → Prop
  | .dispatching | .connecting _ | .waiting => False
  | .requesting .. | .failed _ | .owner | .done _ => True

namespace System

variable {κ : Type} {s : System κ}

theorem leaseFree_iff : s.leaseFree = true ↔ s.daemon = none ∧ s.owner = none := by
  rw [leaseFree, Bool.and_eq_true, Option.isNone_iff_eq_none, Option.isNone_iff_eq_none]

/-- The repository is sound, the lease has one holder, and a request is pending only with a daemon that has not executed
it. -/
structure Lawful (s : System κ) : Prop where
  sound : Sound s.store
  lease : ∀ c, s.stage c = .owner → s.owner = some c
  exclusive : s.owner ≠ none → s.daemon = none
  pending : ∀ c ∈ s.requests, s.daemon ≠ none ∧ s.changes c = 0 ∧ (s.stage c).Asked
  distinct : s.requests.Nodup
  fresh : ∀ c, ¬(s.stage c).Asked → s.changes c = 0
  once : ∀ c, s.changes c ≤ 1

theorem lawful_launched (hstore : Sound store) (parties : κ → ℕ × ControlCommand) : (launched store parties).Lawful :=
  ⟨hstore, nofun, nofun, nofun, List.nodup_nil, fun _ _ => rfl, fun _ => Nat.zero_le _⟩

theorem Lawful.narrow (h : s.Lawful) {d : Daemon} (hd : s.daemon = some d) (d' : Daemon) {requests : List κ}
    (hrequests : requests.Sublist s.requests) :
    ({ s with daemon := some d', requests := requests } : System κ).Lawful where
  sound := h.sound
  lease := h.lease
  exclusive hne := by
    have hnone := h.exclusive hne
    rw [hd] at hnone
    cases hnone
  pending c hc := ⟨nofun, (h.pending c (hrequests.subset hc)).2⟩
  distinct := h.distinct.sublist hrequests
  fresh := h.fresh
  once := h.once

theorem Lawful.daemonStep (h : s.Lawful) {d : Daemon} (hd : s.daemon = some d) (d' : Daemon) (socket : Bool) :
    ({ s with daemon := some d', socket := socket } : System κ).Lawful :=
  have hnarrow := h.narrow hd d' (List.Sublist.refl s.requests)
  ⟨hnarrow.sound, hnarrow.lease, hnarrow.exclusive, hnarrow.pending, hnarrow.distinct, hnarrow.fresh, hnarrow.once⟩

variable [DecidableEq κ]

theorem stage_setStage (s : System κ) (c c' : κ) (stage : Stage) :
    (s.setStage c stage).stage c' = if c' = c then stage else s.stage c' := by
  rw [System.stage, setStage]
  dsimp only
  by_cases h : c' = c
  · rw [h, Function.update_self, if_pos rfl]
  · rw [Function.update_of_ne h, if_neg h]
    rfl

theorem Lawful.setStage (h : s.Lawful) (c : κ) {stage : Stage} (howner : stage ≠ .owner)
    (hasked : (s.stage c).Asked → stage.Asked) : (s.setStage c stage).Lawful where
  sound := h.sound
  lease c' hc' := by
    rw [stage_setStage] at hc'
    split_ifs at hc'
    · exact absurd hc' howner
    · exact h.lease c' hc'
  exclusive := h.exclusive
  pending c' hc' := by
    obtain ⟨hdaemon, hchanges, hstage⟩ := h.pending c' hc'
    refine ⟨hdaemon, hchanges, ?_⟩
    rw [stage_setStage]
    split_ifs with heq
    · exact hasked (heq ▸ hstage)
    · exact hstage
  distinct := h.distinct
  fresh c' hc' := by
    rw [stage_setStage] at hc'
    split_ifs at hc' with heq
    · exact h.fresh c' fun hstage => hc' (hasked (heq ▸ hstage))
    · exact h.fresh c' hc'
  once := h.once

theorem Lawful.requestFailed (h : s.Lawful) (c : κ) (retries : Bool) (message : String) :
    (s.requestFailed c retries message).Lawful := by
  cases retries
  · exact h.setStage c nofun fun _ => trivial
  · exact h.setStage c nofun fun _ => trivial

theorem Lawful.answered (h : s.Lawful) (c : κ) (response : ControlResponse) : (s.answered c response).Lawful := by
  rw [System.answered]
  split
  · exact h.setStage c nofun fun _ => trivial
  · exact h

theorem Lawful.release (h : s.Lawful) {c : κ} (hc : s.stage c = .owner) (result : PolicyResult ControlPayload) :
    ({ s.setStage c (.done result) with owner := none } : System κ).Lawful where
  sound := h.sound
  lease c' hc' := by
    have hold : (s.setStage c (.done result)).stage c' = .owner := hc'
    rw [stage_setStage] at hold
    split_ifs at hold with heq
    have hboth := (h.lease c' hold).symm.trans (h.lease c hc)
    exact absurd (Option.some.inj hboth) heq
  exclusive := fun hne => absurd rfl hne
  pending := (h.setStage c nofun fun _ => trivial : (s.setStage c (.done result)).Lawful).pending
  distinct := h.distinct
  fresh := (h.setStage c nofun fun _ => trivial : (s.setStage c (.done result)).Lawful).fresh
  once := h.once

theorem Lawful.own (h : s.Lawful) (hfree : s.leaseFree = true) (c : κ) : (s.own c).Lawful where
  sound := h.sound
  lease c' hc' := by
    have hstage : (s.setStage c .owner).stage c' = .owner := hc'
    rw [stage_setStage] at hstage
    split_ifs at hstage with heq
    · rw [heq]
      rfl
    · have hother := h.lease c' hstage
      rw [(leaseFree_iff.mp hfree).2] at hother
      cases hother
  exclusive _ := (leaseFree_iff.mp hfree).1
  pending c' hc' := absurd (leaseFree_iff.mp hfree).1 (h.pending c' hc').1
  distinct := h.distinct
  fresh c' hc' := by
    have hstage : ¬((s.setStage c .owner).stage c').Asked := hc'
    rw [stage_setStage] at hstage
    split_ifs at hstage
    · exact absurd trivial hstage
    · exact h.fresh c' hstage
  once := h.once

theorem changes_commit (s : System κ) (c : κ) (store : RuleStore) (c' : κ) :
    (s.commit c store).changes c' = if c' = c ∧ store ≠ s.store then s.changes c + 1 else s.changes c' := by
  rw [commit]
  dsimp only
  by_cases hstore : store = s.store
  · rw [if_pos hstore, if_neg fun h => h.2 hstore]
  · rw [if_neg hstore]
    by_cases hc : c' = c
    · rw [hc, Function.update_self, if_pos ⟨rfl, hstore⟩]
    · rw [Function.update_of_ne hc, if_neg fun h => hc h.1]

theorem Lawful.commit (h : s.Lawful) {c : κ} {store : RuleStore} (hsound : Sound store) (hasked : (s.stage c).Asked)
    (hpending : c ∉ s.requests) (hfirst : store = s.store ∨ s.changes c = 0) : (s.commit c store).Lawful where
  sound := hsound
  lease := h.lease
  exclusive := h.exclusive
  pending c' hc' := by
    obtain ⟨hdaemon, hchanges, hstage⟩ := h.pending c' hc'
    refine ⟨hdaemon, ?_, hstage⟩
    have hother : c' ≠ c := fun heq => hpending (heq ▸ hc')
    rw [changes_commit, if_neg (not_and_of_not_left _ hother)]
    exact hchanges
  distinct := h.distinct
  fresh c' hc' := by
    have hother : c' ≠ c := fun heq => hc' (heq ▸ hasked)
    rw [changes_commit, if_neg (not_and_of_not_left _ hother)]
    exact h.fresh c' hc'
  once c' := by
    rw [changes_commit]
    split_ifs with heq
    · rcases hfirst with hsame | hzero
      · exact absurd hsame heq.2
      · omega
    · exact h.once c'

theorem answered_with (s : System κ) (c : κ) (response : ControlResponse) (daemon : Option Daemon) (requests : List κ) :
    { s.answered c response with daemon := daemon, requests := requests } =
      ({ s with daemon := daemon, requests := requests } : System κ).answered c response := by
  have hstage : ({ s with daemon := daemon, requests := requests } : System κ).stage c = s.stage c := rfl
  rw [answered, answered, hstage]
  split <;> rfl

variable {uids : Uids}

/-- A command that is executed offline after it has changed the repository still stands. -/
def Harmless (s : System κ) : Turn κ → Prop
  | .offline c launch _ => s.changes c ≠ 0 → StandsIn launch s.store (s.clients c).command
  | _ => True

instance (s : System κ) (turn : Turn κ) : Decidable (s.Harmless turn) := by
  cases turn with
  | offline c launch refused =>
    exact inferInstanceAs (Decidable (s.changes c ≠ 0 → StandsIn launch s.store (s.clients c).command))
  | _ => exact inferInstanceAs (Decidable True)

theorem Lawful.start (h : s.Lawful) (launch : Launch) : (s.step ids uids (.start launch)).Lawful := by
  rw [step]
  by_cases hfree : s.leaseFree = true
  · rw [if_pos hfree]
    cases launch.load s.store with
    | error e => exact h
    | ok m =>
      obtain ⟨hdaemon, howner⟩ := leaseFree_iff.mp hfree
      exact ⟨h.sound, h.lease, fun hne => absurd howner hne, fun c hc => ⟨nofun, (h.pending c hc).2⟩, h.distinct, h.fresh,
        h.once⟩
  · rwa [if_neg hfree]

theorem Lawful.serve (h : s.Lawful) (c : κ) (refused : Option String) (fits : Bool) :
    (s.step ids uids (.serve c refused fits)).Lawful := by
  rw [step]
  cases hd : s.daemon with
  | none => exact h
  | some d =>
    dsimp only
    by_cases hc : c ∈ s.requests
    · rw [if_pos hc]
      obtain ⟨-, hfirst, hasked⟩ := h.pending c hc
      have hsound : Sound (⟨d.rules, s.store⟩ : RuleManager).ruleStore := h.sound
      have hserved : Sound (handleConnection ids uids d.home ⟨d.rules, s.store⟩ refused (s.clients c).uid
          (.new (s.clients c).command)).2.ruleStore := hsound.handleConnection uids refused _ _
      generalize handleConnection ids uids d.home ⟨d.rules, s.store⟩ refused (s.clients c).uid
        (.new (s.clients c).command) = outcome at hserved ⊢
      obtain ⟨response, m⟩ := outcome
      dsimp only
      rw [answered_with]
      have hnarrow := h.narrow hd { d with rules := m.rules } (List.erase_sublist (a := c) (l := s.requests))
      exact (hnarrow.commit hserved hasked (fun hmem => (h.distinct.mem_erase_iff.mp hmem).1 rfl) (.inr hfirst)).answered _ _
    · rwa [if_neg hc]

theorem Lawful.offline (h : s.Lawful) (c : κ) (launch : Launch) (refused : Option String)
    (hharmless : s.Harmless (.offline c launch refused)) :
    (s.step ids uids (.offline c launch refused)).Lawful := by
  rw [step]
  cases hstage : s.stage c with
  | owner =>
    have hdaemon : s.daemon = none := h.exclusive (by rw [h.lease c hstage]; exact Option.some_ne_none c)
    have hpending : c ∉ s.requests := fun hc => (h.pending c hc).1 hdaemon
    have hsound : Sound (executeOffline ids launch (s.clients c).uid s.store refused (s.clients c).command).2 :=
      h.sound.executeOffline launch _ refused _
    have hfirst : (executeOffline ids launch (s.clients c).uid s.store refused (s.clients c).command).2 = s.store ∨
        s.changes c = 0 := by
      by_cases hzero : s.changes c = 0
      · exact .inr hzero
      · exact .inl (executeOffline_unchanged h.sound (hharmless hzero))
    generalize executeOffline ids launch (s.clients c).uid s.store refused (s.clients c).command = outcome at hsound hfirst ⊢
    obtain ⟨result, store⟩ := outcome
    exact (h.commit hsound (by rw [hstage]; trivial) hpending hfirst).release hstage result
  | dispatching => exact h
  | connecting retries => exact h
  | requesting retries response => exact h
  | failed message => exact h
  | waiting => exact h
  | done result => exact h

theorem Lawful.prompt (h : s.Lawful) (rule : Rule) (refused : Option String) :
    (s.step ids uids (.prompt rule refused)).Lawful := by
  rw [step]
  cases hd : s.daemon with
  | none => exact h
  | some d =>
    have hsound : Sound (⟨d.rules, s.store⟩ : RuleManager).ruleStore := h.sound
    have hnarrow := h.narrow hd { d with rules := ((⟨d.rules, s.store⟩ : RuleManager).addPersistentRule d.home ids refused
      rule).2.rules } (List.Sublist.refl s.requests)
    exact ⟨hsound.addPersistent rule, hnarrow.lease, hnarrow.exclusive, hnarrow.pending, hnarrow.distinct, hnarrow.fresh,
      hnarrow.once⟩

theorem Lawful.send (h : s.Lawful) (c : κ) : (s.step ids uids (.send c)).Lawful := by
  rw [step]
  split
  · rename_i retries d hstage hdaemon
    split_ifs
    · have hfresh : ¬(s.stage c).Asked := by rw [hstage]; exact not_false
      have hset : (s.setStage c (.requesting retries none)).Lawful := h.setStage c nofun fun _ => trivial
      refine ⟨h.sound, hset.lease, h.exclusive, ?_, ?_, hset.fresh, h.once⟩
      · refine List.forall_mem_append.mpr ⟨hset.pending, List.forall_mem_singleton.mpr ⟨?_, h.fresh c hfresh, ?_⟩⟩
        · exact fun hnone => Option.some_ne_none d (hdaemon.symm.trans hnone)
        · have hself := stage_setStage s c c (.requesting retries none)
          rw [if_pos rfl] at hself
          exact hself.symm ▸ trivial
      · rw [List.nodup_append]
        refine ⟨h.distinct, List.nodup_singleton c, fun c' hc' c'' hc'' heq => ?_⟩
        rw [List.mem_singleton.mp hc''] at heq
        exact hfresh (heq ▸ (h.pending c' hc').2.2)
    · exact h
  · exact h

theorem Lawful.receive (h : s.Lawful) (c : κ) : (s.step ids uids (.receive c)).Lawful := by
  rw [step]
  split
  · exact h.setStage c nofun fun _ => trivial
  · exact h.requestFailed c _ _
  · exact h

theorem Lawful.fail (h : s.Lawful) (c : κ) (message : String) : (s.step ids uids (.fail c message)).Lawful := by
  rw [step]
  split
  · exact h.requestFailed c _ _
  · exact h.requestFailed c _ _
  · exact h

theorem Lawful.acquire (h : s.Lawful) (c : κ) : (s.step ids uids (.acquire c)).Lawful := by
  rw [step]
  split
  · split_ifs with hfree
    · exact h.own hfree c
    · exact h.setStage c nofun fun _ => trivial
  · exact h

theorem Lawful.poll (h : s.Lawful) (c : κ) : (s.step ids uids (.poll c)).Lawful := by
  rw [step]
  split
  · rename_i hstage
    have hfresh : ¬(s.stage c).Asked := by rw [hstage]; exact not_false
    split_ifs with hfree
    · exact h.own hfree c
    · exact h.setStage c nofun fun hasked => (hfresh hasked).elim
    · exact h
  · exact h

theorem Lawful.dispatch (h : s.Lawful) (c : κ) : (s.step ids uids (.dispatch c)).Lawful := by
  rw [step]
  split
  · rename_i hstage
    have hfresh : ¬(s.stage c).Asked := by rw [hstage]; exact not_false
    split_ifs
    · exact h.setStage c nofun fun hasked => (hfresh hasked).elim
    · exact h.setStage c nofun fun hasked => (hfresh hasked).elim
  · exact h

theorem Lawful.abandon (h : s.Lawful) (c : κ) (message : String) : (s.step ids uids (.abandon c message)).Lawful := by
  rw [step]
  split
  · exact h.setStage c nofun fun _ => trivial
  · exact h.setStage c nofun fun _ => trivial
  · exact h.setStage c nofun fun _ => trivial
  · rename_i hstage
    exact h.release hstage _
  · exact h

variable (ids uids) in
def HarmlessRun (s : System κ) : List (Turn κ) → Prop
  | [] => True
  | turn :: turns => s.Harmless turn ∧ HarmlessRun (s.step ids uids turn) turns

instance decidableHarmlessRun (s : System κ) : (turns : List (Turn κ)) → Decidable (s.HarmlessRun ids uids turns)
  | [] => inferInstanceAs (Decidable True)
  | turn :: turns =>
    have := decidableHarmlessRun (s.step ids uids turn) turns
    inferInstanceAs (Decidable (s.Harmless turn ∧ HarmlessRun ids uids (s.step ids uids turn) turns))

theorem Lawful.step (h : s.Lawful) (turn : Turn κ) (hturn : s.Harmless turn) : (s.step ids uids turn).Lawful := by
  cases turn with
  | start launch => exact h.start launch
  | publish =>
    rw [System.step]
    cases hd : s.daemon with
    | none => exact h
    | some d => exact h.daemonStep hd _ _
  | withdraw =>
    rw [System.step]
    cases hd : s.daemon with
    | none => exact h
    | some d => exact h.daemonStep hd _ _
  | stop => exact ⟨h.sound, h.lease, fun _ => rfl, nofun, List.nodup_nil, h.fresh, h.once⟩
  | prompt rule refused => exact h.prompt rule refused
  | serve c refused fits => exact h.serve c refused fits
  | drop c =>
    exact ⟨h.sound, h.lease, h.exclusive, fun c' hc' => h.pending c' (List.mem_of_mem_erase hc'),
      h.distinct.sublist List.erase_sublist, h.fresh, h.once⟩
  | dispatch c => exact h.dispatch c
  | send c => exact h.send c
  | receive c => exact h.receive c
  | fail c message => exact h.fail c message
  | acquire c => exact h.acquire c
  | poll c => exact h.poll c
  | offline c launch refused => exact h.offline c launch refused hturn
  | abandon c message => exact h.abandon c message

theorem Lawful.run (h : s.Lawful) (turns : List (Turn κ)) (hturns : s.HarmlessRun ids uids turns) :
    (s.run ids uids turns).Lawful := by
  induction turns generalizing s with
  | nil => exact h
  | cons turn turns ih => exact ih (h.step turn hturns.1) hturns.2

end System

/-- Where every command that is executed offline after it has changed the repository still stands in the rules, each
command changes the repository at most once. -/
theorem commands_once {κ : Type} [DecidableEq κ] (ids : IdSource) (uids : Uids) (hstore : Sound store)
    (parties : κ → ℕ × ControlCommand) (turns : List (Turn κ))
    (hharmless : (System.launched store parties).HarmlessRun ids uids turns) (c : κ) :
    ((System.launched store parties).run ids uids turns).changes c ≤ 1 :=
  ((System.lawful_launched hstore parties).run turns hharmless).once c

def exampleLaunch : Launch := ⟨.ok (some (Store.utf8 "/home/u")), .ok [], none⟩

def exampleUids : Uids := ⟨0, 1000⟩

def exampleRule : RuleEntry := ⟨"/a", "/bin/b", .allow, .read, none, none, none⟩

/-- One client adds a rule and the other removes it. -/
def exampleParties (c : Bool) : ℕ × ControlCommand := (0, if c then .addRule exampleRule else .removeRule 1)

/-- The daemon stops after it has added the rule and before its response arrives. -/
def replyLost : List (Turn Bool) :=
  [.start exampleLaunch, .publish, .dispatch true, .send true, .serve true none true, .withdraw, .stop,
    .fail true "control peer closed without a message"]

def retried : List (Turn Bool) := [.acquire true, .offline true exampleLaunch none]

theorem commands_once_retried :
    ((System.launched .empty exampleParties).run .autoincrement exampleUids (replyLost ++ retried)).changes true ≤ 1 ∧
      ((System.launched .empty exampleParties).run .autoincrement exampleUids (replyLost ++ retried)).stage true =
        .done (.ok (.added false)) :=
  ⟨commands_once .autoincrement exampleUids sound_empty exampleParties (replyLost ++ retried) (by decide +kernel) true,
    by decide +kernel⟩

/-- The rule is removed before the client that added it executes its command again. -/
theorem commands_once_overtaken :
    let reached := (System.launched .empty exampleParties).run .autoincrement exampleUids
      (replyLost ++ [.dispatch false, .poll false, .offline false exampleLaunch none] ++ retried)
    reached.changes true = 2 ∧ reached.stage false = .done (.ok (.removed exampleRule)) ∧
      reached.stage true = .done (.ok (.added true)) ∧ reached.store.rows = [⟨2, exampleRule⟩] := by
  decide +kernel

end FileGuard.Control
