import FileGuard.Fuse.Steps

/-! Stopping forgets no path: each stays tracked, with its failure reported, until it is settled. -/

namespace FileGuard.Fuse.Interceptor

open Store Mounts CrashLogic

namespace FuseInterceptor

def tracked (i : FuseInterceptor) : List Path := i.sessions.map MountSession.watchedPath ++ i.prepared

/-- What a step waits for: a detach for the fence of a live session of the path, and what follows for the detach or for
the check that nothing is mounted. -/
def Due (i : FuseInterceptor) (before : List Event) : Step → Prop
  | .detachStaleMount path _ => ∀ m ∈ i.sessions, m.session.isSome = true → Path.same m.watchedPath path = true →
      (⟨.beginUnmount m.watchedPath i.next, .ok ()⟩ : Event) ∈ before
  | .reconcileAfterMountAbsent path | .restore path =>
      (∃ token, (⟨.detachStaleMount path token, .ok ()⟩ : Event) ∈ before) ∨ (⟨.mountsAt path, .ok []⟩ : Event) ∈ before
  | _ => True

def Orderly (i : FuseInterceptor) (before : List Event) : List Event → Prop
  | [] => True
  | event :: events => i.Due before event.step ∧ i.Orderly (before ++ [event]) events

/-- A path's steps have all been taken, in their order. -/
inductive Settled (i : FuseInterceptor) (events : List Event) (path : Path) : Prop
  | session (m : MountSession) (mem : m ∈ i.sessions) (same : Path.same m.watchedPath path = true)
      (taken : m.settled i.next i.restoreOnStop <:+: events)
  | prepared (entry : Entry) (taken : settledPath i.restoreOnStop path entry <:+: events)

/-- The text that reports the failure of a step on a path. -/
inductive Failure (i : FuseInterceptor) (events : List Event) (path : Path) : String → Prop
  | fence (m : MountSession) (mem : m ∈ i.sessions) (same : Path.same m.watchedPath path = true) (error : String)
      (failed : (⟨.beginUnmount m.watchedPath i.next, .error error⟩ : Event) ∈ events) :
      Failure i events path s!"failed to fence writes before unmounting {Path.display m.watchedPath}: {error}"
  | unmount (m : MountSession) (mem : m ∈ i.sessions) (same : Path.same m.watchedPath path = true) (step : Step)
      (own : step ∈ (m.settled i.next i.restoreOnStop).map Event.step) (error : String)
      (failed : (⟨step, .error error⟩ : Event) ∈ events) :
      Failure i events path s!"failed to reconcile unmount of {Path.display m.watchedPath}: {error}"
  | recover (error : String) (piece : List Event) (taken : piece <:+: events)
      (failed : PathFailure i.restoreOnStop path piece error) :
      Failure i events path s!"failed to recover {Path.display path}: {error}"

def Distinct (i : FuseInterceptor) : Prop :=
  i.sessions.Pairwise fun a b => Path.same a.watchedPath b.watchedPath = false

variable {i : FuseInterceptor} {before before' events more : List Event} {path : Path} {text : String}

theorem Due.mono {step : Step} (h : i.Due before step) (hb : before ⊆ before') : i.Due before' step := by
  cases step with
  | detachStaleMount path token => exact fun m hm hlive hsame => hb (h m hm hlive hsame)
  | reconcileAfterMountAbsent path => exact h.imp (fun ⟨token, htoken⟩ => ⟨token, hb htoken⟩) fun habsent => hb habsent
  | restore path => exact h.imp (fun ⟨token, htoken⟩ => ⟨token, hb htoken⟩) fun habsent => hb habsent
  | _ => trivial

theorem Orderly.mono (h : i.Orderly before events) (hb : before ⊆ before') : i.Orderly before' events := by
  induction events generalizing before before' with
  | nil => trivial
  | cons event events ih => exact ⟨h.1.mono hb, ih h.2 (List.append_subset.mpr
      ⟨List.subset_append_of_subset_left _ hb, List.subset_append_right _ _⟩)⟩

theorem orderly_append :
    i.Orderly before (events ++ more) ↔ i.Orderly before events ∧ i.Orderly (before ++ events) more := by
  induction events generalizing before with
  | nil => simp [Orderly]
  | cons event events ih => simp only [List.cons_append, Orderly, ih, and_assoc, List.append_assoc, List.nil_append]

theorem Orderly.at (h : i.Orderly before events) {a b : List Event} {event : Event} (hsplit : events = a ++ event :: b) :
    i.Due (before ++ a) event.step := by
  rw [hsplit, orderly_append] at h
  exact h.2.1

theorem Orderly.cut {due : List Event} {error : String} (h : i.Orderly before due) (hcut : Cut due events error) :
    i.Orderly before events := by
  obtain ⟨done, step, value, rest, rfl, rfl⟩ := hcut
  rw [orderly_append] at h ⊢
  exact ⟨h.1, h.2.1, trivial⟩

theorem orderly_recovered {restoreOnStop : Bool}
    (h : (∃ token, (⟨.detachStaleMount path token, .ok ()⟩ : Event) ∈ before) ∨ (⟨.mountsAt path, .ok []⟩ : Event) ∈ before) :
    i.Orderly before (recovered restoreOnStop path) := by
  have hlater {event : Event} : (∃ token, (⟨.detachStaleMount path token, .ok ()⟩ : Event) ∈ before ++ [event]) ∨
      (⟨.mountsAt path, .ok []⟩ : Event) ∈ before ++ [event] :=
    h.imp (fun ⟨token, htoken⟩ => ⟨token, List.mem_append_left _ htoken⟩) fun habsent => List.mem_append_left _ habsent
  cases restoreOnStop
  · exact ⟨h, trivial⟩
  · exact ⟨h, hlater, trivial⟩

theorem Distinct.eq (h : i.Distinct) {m m' : MountSession} (hm : m ∈ i.sessions) (hm' : m' ∈ i.sessions)
    (hsame : Path.same m.watchedPath m'.watchedPath = true) : m = m' := by
  by_contra hne
  have : Std.Symm fun a b : MountSession => Path.same a.watchedPath b.watchedPath = false := by
    refine ⟨fun a b hab => ?_⟩
    rwa [Path.same, Bool.beq_comm]
  have hother := List.Pairwise.forall h hm hm' hne
  rw [hsame] at hother
  cases hother

theorem orderly_settled (h : i.Distinct) {m : MountSession} (hm : m ∈ i.sessions) (restoreOnStop : Bool) :
    i.Orderly [] (m.settled i.next restoreOnStop) := by
  rw [MountSession.settled, orderly_append]
  refine ⟨?_, ?_, ?_⟩
  · rw [MountSession.fenced]
    split_ifs
    · exact ⟨trivial, trivial⟩
    · trivial
  · intro m' hm' hlive hsame
    rw [h.eq hm' hm hsame] at hlive ⊢
    simp [MountSession.fenced, hlive]
  · rw [MountSession.unmounted, orderly_append]
    constructor
    · cases m.session with
      | none => trivial
      | some session => exact ⟨trivial, trivial⟩
    · exact orderly_recovered (.inl ⟨m.token, by simp⟩)

theorem orderly_settledPath (hfree : ∀ m ∈ i.sessions, Path.same m.watchedPath path = false) (restoreOnStop : Bool)
    (entry : Entry) : i.Orderly [] (settledPath restoreOnStop path entry) := by
  cases entry with
  | present record =>
    refine ⟨trivial, ?_, orderly_recovered (.inl ⟨record.header.mountToken, by simp⟩)⟩
    intro m hm hlive hsame
    rw [hfree m hm] at hsame
    cases hsame
  | finalizing marker => exact ⟨trivial, trivial, .inr (by simp), trivial⟩
  | missing => exact ⟨trivial, trivial, trivial⟩

theorem orderly_of_failure (hfree : ∀ m ∈ i.sessions, Path.same m.watchedPath path = false) {restoreOnStop : Bool}
    (h : PathFailure restoreOnStop path events text) : i.Orderly [] events := by
  cases h with
  | step entry error events hcut => exact (orderly_settledPath hfree restoreOnStop entry).cut hcut
  | finalizing marker mounts => exact ⟨trivial, trivial, trivial⟩
  | missing mounts => exact ⟨trivial, trivial, trivial⟩

theorem Settled.mono (h : i.Settled events path) (hmore : events <:+: more) : i.Settled more path := by
  cases h with
  | session m hm hsame htaken => exact .session m hm hsame (htaken.trans hmore)
  | prepared entry htaken => exact .prepared entry (htaken.trans hmore)

theorem Failure.mono (h : i.Failure events path text) (hmore : events <:+: more) : i.Failure more path text := by
  cases h with
  | fence m hm hsame error hfailed => exact .fence m hm hsame error (hmore.subset hfailed)
  | unmount m hm hsame step hown error hfailed => exact .unmount m hm hsame step hown error (hmore.subset hfailed)
  | recover error piece htaken hfailed => exact .recover error piece (htaken.trans hmore) hfailed

variable (i) in
/-- What the loop over the sessions has come to. -/
structure Collected (seen : List MountSession) (s : Stopping) (events : List Event) : Prop where
  each : ∀ m ∈ seen, m.watchedPath ∈ s.completed ∨ ∃ m' ∈ s.retained, m'.watchedPath = m.watchedPath
  completed : ∀ path ∈ s.completed, ∃ m ∈ i.sessions, m.watchedPath = path ∧
    m.settled i.next i.restoreOnStop <:+: events
  retained : ∀ m ∈ s.retained, ∃ text ∈ s.errors, ∀ path, Path.same m.watchedPath path = true →
    i.Failure events path text
  silent : s.errors = [] ↔ s.retained = []
  paths : (s.retained.map MountSession.watchedPath).Sublist (seen.map MountSession.watchedPath)
  live : ∀ m ∈ seen, m.session.isSome = true →
    m ∈ s.retained ∨ (⟨.beginUnmount m.watchedPath i.next, .ok ()⟩ : Event) ∈ events
  orderly : i.Orderly [] events

theorem Collected.keep {seen : List MountSession} {s : Stopping} {m m' : MountSession}
    (h : i.Collected seen s events) (hpath : m'.watchedPath = m.watchedPath)
    (hlive : m.session.isSome = true → m' = m ∨ (⟨.beginUnmount m.watchedPath i.next, .ok ()⟩ : Event) ∈ more)
    (hfailure : ∀ path, Path.same m.watchedPath path = true → i.Failure more path text) (horderly : i.Orderly [] more) :
    i.Collected (seen ++ [m]) { s with errors := s.errors ++ [text], retained := s.retained ++ [m'] }
      (events ++ more) := by
  have hold : events <:+: events ++ more := (List.prefix_append _ _).isInfix
  have hnew : more <:+: events ++ more := (List.suffix_append _ _).isInfix
  refine ⟨?_, ?_, ?_, ?_, ?_, ?_, ?_⟩
  · intro k hk
    rcases List.mem_append.mp hk with hk | hk
    · rcases h.each k hk with hcompleted | ⟨k', hk', hsame⟩
      · exact .inl hcompleted
      · exact .inr ⟨k', List.mem_append_left _ hk', hsame⟩
    · rw [List.mem_singleton.mp hk]
      exact .inr ⟨m', by simp, hpath⟩
  · intro path hp
    obtain ⟨k, hk, hsame, htaken⟩ := h.completed path hp
    exact ⟨k, hk, hsame, htaken.trans hold⟩
  · intro k hk
    rcases List.mem_append.mp hk with hk | hk
    · obtain ⟨t, ht, hfails⟩ := h.retained k hk
      exact ⟨t, List.mem_append_left _ ht, fun path hsame => (hfails path hsame).mono hold⟩
    · rw [List.mem_singleton.mp hk, hpath]
      exact ⟨text, by simp, fun path hsame => (hfailure path hsame).mono hnew⟩
  · simp
  · rw [List.map_append, List.map_append, List.map_singleton, List.map_singleton, hpath]
    exact h.paths.append (List.Sublist.refl _)
  · intro k hk hsome
    rcases List.mem_append.mp hk with hk | hk
    · rcases h.live k hk hsome with hkept | hfenced
      · exact .inl (List.mem_append_left _ hkept)
      · exact .inr (List.mem_append_left _ hfenced)
    · rw [List.mem_singleton.mp hk] at hsome ⊢
      rcases hlive hsome with rfl | hfenced
      · exact .inl (by simp)
      · exact .inr (List.mem_append_right _ hfenced)
  · exact orderly_append.mpr ⟨h.orderly, horderly.mono (List.nil_subset _)⟩

theorem Collected.complete {seen : List MountSession} {s : Stopping} {m : MountSession}
    (h : i.Collected seen s events) (hm : m ∈ i.sessions) (hdistinct : i.Distinct) :
    i.Collected (seen ++ [m]) { s with completed := s.completed ++ [m.watchedPath] }
      (events ++ m.settled i.next i.restoreOnStop) := by
  have hold : events <:+: events ++ m.settled i.next i.restoreOnStop := (List.prefix_append _ _).isInfix
  refine ⟨?_, ?_, ?_, h.silent, ?_, ?_, ?_⟩
  · intro k hk
    rcases List.mem_append.mp hk with hk | hk
    · exact (h.each k hk).imp_left fun hcompleted => List.mem_append_left _ hcompleted
    · rw [List.mem_singleton.mp hk]
      exact .inl (by simp)
  · intro path hp
    rcases List.mem_append.mp hp with hp | hp
    · obtain ⟨k, hk, hsame, htaken⟩ := h.completed path hp
      exact ⟨k, hk, hsame, htaken.trans hold⟩
    · rw [List.mem_singleton.mp hp]
      exact ⟨m, hm, rfl, (List.suffix_append _ _).isInfix⟩
  · intro k hk
    obtain ⟨t, ht, hfails⟩ := h.retained k hk
    exact ⟨t, ht, fun path hsame => (hfails path hsame).mono hold⟩
  · rw [List.map_append]
    exact h.paths.trans (List.sublist_append_left _ _)
  · intro k hk hsome
    rcases List.mem_append.mp hk with hk | hk
    · exact (h.live k hk hsome).imp_right fun hfenced => List.mem_append_left _ hfenced
    · rw [List.mem_singleton.mp hk] at hsome ⊢
      exact .inr (by simp [MountSession.settled, MountSession.fenced, hsome])
  · exact orderly_append.mpr ⟨h.orderly, (orderly_settled hdistinct hm _).mono (List.nil_subset _)⟩

theorem collects (hdistinct : i.Distinct) :
    Adds (loop (stopSession i.next i.restoreOnStop) ⟨[], [], []⟩ i.sessions) fun r events =>
      ∃ s, r = .ok s ∧ i.Collected i.sessions s events := by
  have hstart : i.Collected [] ⟨[], [], []⟩ [] := by
    refine ⟨?_, ?_, ?_, ⟨fun _ => rfl, fun _ => rfl⟩, List.Sublist.refl _, ?_, trivial⟩
    all_goals
      intro _ h
      cases h
  refine adds_loop (I := i.Collected) ?_ hstart
  intro seen s events m hm h
  refine Adds.mono (adds_stopSession _ _ s m) ?_
  rintro r more ⟨s', rfl, houtcome⟩
  refine ⟨s', rfl, ?_⟩
  have hsettled := orderly_settled hdistinct hm i.restoreOnStop
  cases houtcome with
  | settled => exact h.complete hm hdistinct
  | fence error hlive =>
    exact h.keep rfl (fun _ => .inl rfl) (fun path hsame => .fence m hm hsame error (by simp)) ⟨trivial, trivial⟩
  | unmount error m' piece hkept hcut =>
    have hpath : m'.watchedPath = m.watchedPath := by rcases hkept with rfl | rfl <;> rfl
    have hcut' : Cut (m.settled i.next i.restoreOnStop) (m.fenced i.next ++ piece) error := hcut.right (m.fenced i.next)
    obtain ⟨step, hstep, hfailed⟩ := hcut'.failed
    refine h.keep hpath ?_ (fun path hsame => .unmount m hm hsame step hstep error hfailed) (hsettled.cut hcut')
    intro hlive
    exact .inr (by simp [MountSession.fenced, hlive])

theorem contains_iff {paths : List Path} : contains paths path = true ↔ ∃ q ∈ paths, Path.same q path = true :=
  List.any_eq_true

variable (i) in
/-- What the loop over the prepared paths has come to, after the one over the sessions. -/
structure Recovered (s : Stopping) (before : List Event) (seen : List Path) (p : List String × List Path)
    (events : List Event) : Prop where
  each : ∀ path ∈ seen, path ∈ p.2 ∨ i.Settled (before ++ events) path
  errors : s.errors ⊆ p.1
  retained : ∀ path ∈ p.2, ∃ text ∈ p.1, i.Failure (before ++ events) path text
  silent : p.1 = [] ↔ s.retained = [] ∧ p.2 = []
  paths : p.2.Sublist seen
  orderly : i.Orderly before events

theorem Recovered.next {s : Stopping} {seen : List Path} {p : List String × List Path}
    (h : i.Recovered s before seen p events) (hmore : i.Orderly (before ++ events) more)
    (hsettled : i.Settled (before ++ (events ++ more)) path) : i.Recovered s before (seen ++ [path]) p (events ++ more) := by
  have hold : before ++ events <:+: before ++ (events ++ more) := by
    rw [← List.append_assoc]
    exact (List.prefix_append _ _).isInfix
  refine ⟨?_, h.errors, ?_, h.silent, h.paths.trans (List.sublist_append_left _ _), orderly_append.mpr ⟨h.orderly, hmore⟩⟩
  · intro q hq
    rcases List.mem_append.mp hq with hq | hq
    · exact (h.each q hq).imp_right fun hsettled => hsettled.mono hold
    · rw [List.mem_singleton.mp hq]
      exact .inr hsettled
  · intro q hq
    obtain ⟨t, ht, hfails⟩ := h.retained q hq
    exact ⟨t, ht, hfails.mono hold⟩

theorem Recovered.keep {s : Stopping} {seen : List Path} {p : List String × List Path} {errors : List String}
    (h : i.Recovered s before seen p events) (hmore : i.Orderly (before ++ events) more) (herrors : p.1 ⊆ errors)
    (hnone : errors ≠ []) (hfailure : ∃ text ∈ errors, i.Failure (before ++ (events ++ more)) path text) :
    i.Recovered s before (seen ++ [path]) (errors, p.2 ++ [path]) (events ++ more) := by
  have hold : before ++ events <:+: before ++ (events ++ more) := by
    rw [← List.append_assoc]
    exact (List.prefix_append _ _).isInfix
  refine ⟨?_, List.Subset.trans h.errors herrors, ?_, by simp [hnone], h.paths.append (List.Sublist.refl _),
    orderly_append.mpr ⟨h.orderly, hmore⟩⟩
  · intro q hq
    rcases List.mem_append.mp hq with hq | hq
    · exact (h.each q hq).imp (fun hkept => List.mem_append_left _ hkept) fun hsettled => hsettled.mono hold
    · rw [List.mem_singleton.mp hq]
      exact .inl (by simp)
  · intro q hq
    rcases List.mem_append.mp hq with hq | hq
    · obtain ⟨t, ht, hfails⟩ := h.retained q hq
      exact ⟨t, herrors ht, hfails.mono hold⟩
    · rw [List.mem_singleton.mp hq]
      exact hfailure

theorem recovers {s : Stopping} (h : i.Collected i.sessions s before) :
    Adds (loop (stopPrepared i.restoreOnStop (s.retained.map MountSession.watchedPath) s.completed) (s.errors, [])
      i.prepared) fun r events => ∃ p, r = .ok p ∧ i.Recovered s before i.prepared p events := by
  have hstart : i.Recovered s before [] (s.errors, []) [] := by
    refine ⟨?_, List.Subset.refl _, ?_, by simp [h.silent], List.Sublist.refl _, trivial⟩
    all_goals
      intro _ hmem
      cases hmem
  refine adds_loop (I := i.Recovered s before) ?_ hstart
  intro seen p events path _ hp
  rw [stopPrepared]
  by_cases hretained : contains (s.retained.map MountSession.watchedPath) path = true
  · rw [if_pos hretained]
    obtain ⟨q, hq, hsame⟩ := contains_iff.mp hretained
    obtain ⟨m, hm, rfl⟩ := List.mem_map.mp hq
    obtain ⟨text, htext, hfails⟩ := h.retained m hm
    have htext' := hp.errors htext
    refine adds_pure ⟨_, rfl, hp.keep trivial (List.Subset.refl _) (List.ne_nil_of_mem htext') ⟨text, htext', ?_⟩⟩
    exact (hfails path hsame).mono (List.prefix_append _ _).isInfix
  rw [if_neg hretained]
  by_cases hcompleted : contains s.completed path = true
  · rw [if_pos hcompleted]
    obtain ⟨q, hq, hsame⟩ := contains_iff.mp hcompleted
    obtain ⟨m, hm, rfl, htaken⟩ := h.completed q hq
    refine adds_pure ⟨_, rfl, hp.next trivial (.session m hm hsame (htaken.trans (List.prefix_append _ _).isInfix))⟩
  rw [if_neg hcompleted]
  have hfree : ∀ m ∈ i.sessions, Path.same m.watchedPath path = false := by
    intro m hm
    rw [← Bool.not_eq_true]
    intro hsame
    rcases h.each m hm with hmem | ⟨m', hm', hpath⟩
    · exact hcompleted (contains_iff.mpr ⟨_, hmem, hsame⟩)
    · exact hretained (contains_iff.mpr ⟨_, List.mem_map.mpr ⟨m', hm', hpath⟩, hsame⟩)
  refine Adds.bindAttempt (adds_recoverPath i.restoreOnStop path) ?_
  rintro answer more (⟨rfl, entry, rfl⟩ | ⟨error, rfl, hfailed⟩)
  · have horderly := orderly_settledPath hfree i.restoreOnStop entry
    refine adds_pure ⟨_, rfl, ?_⟩
    rw [List.append_nil]
    refine hp.next (horderly.mono (List.nil_subset _)) (.prepared entry ?_)
    rw [← List.append_assoc]
    exact (List.suffix_append _ _).isInfix
  · refine adds_pure ⟨_, rfl, ?_⟩
    rw [List.append_nil]
    refine hp.keep ((orderly_of_failure hfree hfailed).mono (List.nil_subset _)) (List.subset_append_left _ _)
      (by simp) ⟨_, List.mem_append_right _ (List.mem_singleton_self _), .recover error more ?_ hfailed⟩
    rw [← List.append_assoc]
    exact (List.suffix_append _ _).isInfix

/-- No path is forgotten: it is still tracked and its failure is returned, or it is settled. -/
structure NoneForgotten (i i' : FuseInterceptor) (answer : Except String Unit) (events : List Event) : Prop where
  paths : ∀ path ∈ i.tracked,
    (path ∈ i'.tracked ∧ ∃ errors, answer = .error ("; ".intercalate errors) ∧
      ∃ text ∈ errors, i.Failure events path text) ∨ path ∉ i'.tracked ∧ i.Settled events path
  fewer : ∀ path ∈ i'.tracked, path ∈ i.tracked
  answered : answer = .ok () ↔ i'.tracked = []
  orderly : ∀ before event after, events = before ++ event :: after → i.Due before event.step
  live : ∀ m ∈ i.sessions, m.session.isSome = true →
    m ∈ i'.sessions ∨ (⟨.beginUnmount m.watchedPath i.next, .ok ()⟩ : Event) ∈ events
  args : i'.args = i.args
  restoreOnStop : i'.restoreOnStop = i.restoreOnStop
  manager : i'.manager = if i'.tracked = [] then none else i.manager
  store : i'.store = if i'.tracked = [] then none else i.store
  distinct : i'.Distinct

theorem Distinct.sublist {i' : FuseInterceptor} (h : i.Distinct)
    (hpaths : (i'.sessions.map MountSession.watchedPath).Sublist (i.sessions.map MountSession.watchedPath)) :
    i'.Distinct := by
  have hall : (i.sessions.map MountSession.watchedPath).Pairwise fun a b => Path.same a b = false :=
    List.pairwise_map.mpr h
  exact List.pairwise_map.mp (hall.sublist hpaths)

variable (i) in
def after (s : Stopping) (prepared : List Path) : FuseInterceptor :=
  let done := s.retained.isEmpty && prepared.isEmpty
  { i with
    sessions := s.retained
    prepared := prepared
    manager := if done then none else i.manager
    store := if done then none else i.store }

theorem noneForgotten_after {s : Stopping} {errors : List String} {prepared : List Path} (hdistinct : i.Distinct)
    (hs : i.Collected i.sessions s before) (hp : i.Recovered s before i.prepared (errors, prepared) events) :
    NoneForgotten i (i.after s prepared) (if errors.isEmpty then .ok () else .error ("; ".intercalate errors))
      (before ++ events) := by
  have hold : before <:+: before ++ events := (List.prefix_append _ _).isInfix
  have hempty : (i.after s prepared).tracked = [] ↔ errors = [] := by
    rw [hp.silent, tracked, List.append_eq_nil_iff, List.map_eq_nil_iff]
    rfl
  have hdone : (s.retained.isEmpty && prepared.isEmpty) = true ↔ (i.after s prepared).tracked = [] := by
    rw [hempty, hp.silent, Bool.and_eq_true, List.isEmpty_iff, List.isEmpty_iff]
  have hfailed : ∀ path ∈ (i.after s prepared).tracked, ∃ text ∈ errors, i.Failure (before ++ events) path text := by
    intro path hpath
    rcases List.mem_append.mp hpath with hsession | hprepared
    · obtain ⟨m, hm, rfl⟩ := List.mem_map.mp hsession
      obtain ⟨text, htext, hfails⟩ := hs.retained m hm
      exact ⟨text, hp.errors htext, (hfails _ (beq_self_eq_true _)).mono hold⟩
    · exact hp.retained path hprepared
  have hsettled : ∀ path ∈ i.tracked, path ∉ (i.after s prepared).tracked → i.Settled (before ++ events) path := by
    intro path hpath hgone
    rw [tracked, List.mem_append, not_or] at hgone
    rcases List.mem_append.mp hpath with hsession | hprepared
    · obtain ⟨m, hm, rfl⟩ := List.mem_map.mp hsession
      rcases hs.each m hm with hcompleted | ⟨m', hm', hsame⟩
      · obtain ⟨m', hm', hsame, htaken⟩ := hs.completed _ hcompleted
        exact .session m' hm' (by rw [hsame]; exact beq_self_eq_true _) (htaken.trans hold)
      · exact absurd (List.mem_map.mpr ⟨m', hm', hsame⟩) hgone.1
    · exact (hp.each path hprepared).resolve_left hgone.2
  refine ⟨?_, ?_, ?_, ?_, ?_, rfl, rfl, ?_, ?_, hdistinct.sublist hs.paths⟩
  · intro path hpath
    by_cases hmem : path ∈ (i.after s prepared).tracked
    · obtain ⟨text, htext, hfails⟩ := hfailed path hmem
      have hsome : errors.isEmpty = false := by simpa using List.ne_nil_of_mem htext
      rw [hsome]
      exact .inl ⟨hmem, errors, rfl, text, htext, hfails⟩
    · exact .inr ⟨hmem, hsettled path hpath hmem⟩
  · intro path hpath
    rcases List.mem_append.mp hpath with hsession | hprepared
    · exact List.mem_append_left _ (hs.paths.subset hsession)
    · exact List.mem_append_right _ (hp.paths.subset hprepared)
  · rw [hempty]
    cases errors with
    | nil => simp
    | cons error errors => simp
  · intro a event b hsplit
    have hall : i.Orderly [] (before ++ events) := orderly_append.mpr ⟨hs.orderly, hp.orderly⟩
    simpa using hall.at hsplit
  · intro m hm hlive
    exact (hs.live m hm hlive).imp_right fun hfenced => hold.subset hfenced
  · exact if_congr hdone rfl rfl
  · exact if_congr hdone rfl rfl

theorem adds_stop (hdistinct : i.Distinct) (hmanager : i.manager.isSome = true) :
    Adds i.stop fun r events => ∃ i' answer, r = .ok (i', answer) ∧ NoneForgotten i i' answer events := by
  obtain ⟨manager, hsome⟩ := Option.isSome_iff_exists.mp hmanager
  rw [stop, hsome]
  refine Adds.bind (collects hdistinct) ?_ ?_
  · rintro error events ⟨s, hr, -⟩
    cases hr
  rintro _ before ⟨s, hr, hs⟩
  cases hr
  refine Adds.bind (recovers hs) ?_ ?_
  · rintro error events ⟨p, hr, -⟩
    cases hr
  rintro _ events ⟨⟨errors, prepared⟩, hr, hp⟩
  cases hr
  refine adds_pure ⟨_, _, rfl, ?_⟩
  rw [List.append_nil, ← hsome]
  exact noneForgotten_after hdistinct hs hp

end FuseInterceptor

namespace FuseInterceptor

structure Ready (i : FuseInterceptor) : Prop where
  distinct : i.Distinct
  manager : i.tracked ≠ [] → i.manager.isSome = true
  unstarted : i.args.isSome = true → i.tracked = []

theorem NoneForgotten.ready {i' : FuseInterceptor} {answer : Except String Unit}
    (hk : NoneForgotten i i' answer events) (h : Ready i) (hmanager : i.manager.isSome = true) : Ready i' := by
  refine ⟨hk.distinct, fun htracked => ?_, fun hargs => ?_⟩
  · rw [hk.manager, if_neg htracked]
    exact hmanager
  · rw [hk.args] at hargs
    refine List.eq_nil_iff_forall_not_mem.mpr fun path hpath => ?_
    have hpath' := hk.fewer path hpath
    rw [h.unstarted hargs] at hpath'
    cases hpath'

theorem Ready.stop {i : FuseInterceptor} (h : Ready i) :
    Adds i.stop fun r _ => ∃ i' answer, r = .ok (i', answer) ∧ Ready i' := by
  cases hmanager : i.manager with
  | none =>
    have hnothing : i.tracked = [] := by
      by_contra htracked
      have := h.manager htracked
      rw [hmanager] at this
      cases this
    rw [FuseInterceptor.stop, hmanager]
    rw [tracked, List.append_eq_nil_iff] at hnothing
    have hnothing' : tracked { i with sessions := [] } = [] := List.append_eq_nil_iff.mpr ⟨rfl, hnothing.2⟩
    exact adds_pure ⟨_, _, rfl, List.Pairwise.nil, fun htracked => absurd hnothing' htracked, fun _ => hnothing'⟩
  | some manager =>
    have hsome : i.manager.isSome = true := by rw [hmanager]; rfl
    refine Adds.mono (adds_stop h.distinct hsome) ?_
    rintro r events ⟨i', answer, rfl, hkept⟩
    exact ⟨i', answer, rfl, hkept.ready h hsome⟩

theorem Ready.rollback {i : FuseInterceptor} (h : Ready i) :
    Adds i.rollback fun r _ => ∃ i' answer, r = .ok (i', answer) ∧ Ready i' :=
  Ready.stop ⟨h.distinct, h.manager, h.unstarted⟩

structure Awaits (i : FuseInterceptor) (paths : List Path) : Prop where
  distinct : i.Distinct
  manager : i.manager.isSome = true
  started : i.args = none
  fresh : ∀ path ∈ paths, ∀ m ∈ i.sessions, Path.same m.watchedPath path = false
  apart : paths.Pairwise fun a b => Path.same a b = false

theorem Awaits.ready {i : FuseInterceptor} {paths : List Path} (h : Awaits i paths) : Ready i :=
  ⟨h.distinct, fun _ => h.manager, fun hargs => by rw [h.started] at hargs; cases hargs⟩

theorem Awaits.setup {i : FuseInterceptor} {path : Path} {paths : List Path} (h : Awaits i (path :: paths)) :
    Adds (i.setup path) fun r _ => ∃ i' answer, r = .ok (i', answer) ∧ Awaits i' paths := by
  have hrest : Awaits i paths :=
    ⟨h.distinct, h.manager, h.started, fun q hq => h.fresh q (List.mem_cons_of_mem _ hq),
      (List.pairwise_cons.mp h.apart).2⟩
  refine Adds.bindAttempt (adds_any _) ?_
  rintro (error | _) events -
  · exact adds_pure ⟨_, _, rfl, hrest⟩
  have hprepared : Awaits { i with prepared := i.prepared ++ [path] } paths :=
    ⟨hrest.distinct, hrest.manager, hrest.started, hrest.fresh, hrest.apart⟩
  refine Adds.bindAttempt (adds_any _) ?_
  rintro (error | ⟨record, session⟩) more -
  · exact adds_pure ⟨_, _, rfl, hprepared⟩
  refine Adds.bindAttempt (adds_any _) ?_
  intro answer last _
  refine adds_pure ⟨_, _, rfl, ?_, h.manager, h.started, ?_, hrest.apart⟩
  · refine List.pairwise_append.mpr ⟨h.distinct, List.pairwise_singleton _ _, ?_⟩
    intro m hm m' hm'
    rw [List.mem_singleton.mp hm']
    exact h.fresh path List.mem_cons_self m hm
  · intro q hq m hm
    rcases List.mem_append.mp hm with hm | hm
    · exact hrest.fresh q hq m hm
    · rw [List.mem_singleton.mp hm]
      exact (List.pairwise_cons.mp h.apart).1 q hq

theorem Awaits.startPaths {i : FuseInterceptor} {paths : List Path} (h : Awaits i paths) :
    Adds (i.startPaths paths) fun r _ => ∃ i' answer, r = .ok (i', answer) ∧ Ready i' := by
  induction paths generalizing i with
  | nil => exact adds_pure ⟨_, _, rfl, h.ready⟩
  | cons path paths ih =>
    refine Adds.bind h.setup ?_ ?_
    · rintro error events ⟨i', answer, hr, -⟩
      cases hr
    rintro _ events ⟨i', answer, hr, hnext⟩
    cases hr
    cases answer with
    | ok => exact ih hnext
    | error error =>
      refine Adds.bind hnext.ready.rollback ?_ ?_
      · rintro error events ⟨i'', answer, hr, -⟩
        cases hr
      rintro _ events ⟨i'', answer, hr, hready⟩
      cases hr
      cases answer with
      | ok => exact adds_pure ⟨_, _, rfl, hready⟩
      | error rollbackError => exact adds_pure ⟨_, _, rfl, hready⟩

theorem apart_of_duplicate {seen paths : List Path} (h : duplicate? seen paths = none) :
    paths.Pairwise (fun a b => Path.same a b = false) ∧ ∀ path ∈ paths, ∀ q ∈ seen, Path.same q path = false := by
  induction paths generalizing seen with
  | nil => exact ⟨List.Pairwise.nil, by simp⟩
  | cons path paths ih =>
    rw [duplicate?] at h
    split_ifs at h with hseen
    obtain ⟨hapart, hfresh⟩ := ih h
    refine ⟨List.pairwise_cons.mpr ⟨fun q hq => hfresh q hq path List.mem_cons_self, hapart⟩, ?_⟩
    intro q hq k hk
    rcases List.mem_cons.mp hq with rfl | hq
    · rw [← Bool.not_eq_true]
      exact fun hsame => hseen (contains_iff.mpr ⟨k, hk, hsame⟩)
    · exact hfresh q hq k (List.mem_cons_of_mem _ hk)

theorem Ready.start {i : FuseInterceptor} (h : Ready i) :
    Adds i.start fun r _ => ∃ i' answer, r = .ok (i', answer) ∧ Ready i' := by
  cases hargs : i.args with
  | none =>
    rw [FuseInterceptor.start, hargs]
    exact adds_pure ⟨_, _, rfl, h⟩
  | some args =>
    have hnothing := h.unstarted (by rw [hargs]; rfl)
    rw [tracked, List.append_eq_nil_iff, List.map_eq_nil_iff] at hnothing
    have hawaits (paths : List Path) (hapart : paths.Pairwise fun a b => Path.same a b = false) :
        Awaits { i with
          args := none
          restoreOnStop := args.restoreOnStop
          store := some args.store
          manager := some args.store } paths := by
      refine ⟨h.distinct, rfl, rfl, fun path _ m hm => ?_, hapart⟩
      rw [hnothing.1] at hm
      cases hm
    rw [FuseInterceptor.start, hargs]
    refine Adds.bindAttempt (adds_any _) ?_
    rintro (error | paths) events -
    · exact adds_pure ⟨_, _, rfl, (hawaits [] List.Pairwise.nil).ready⟩
    dsimp only
    cases hduplicate : duplicate? [] paths with
    | some path => exact adds_pure ⟨_, _, rfl, (hawaits [] List.Pairwise.nil).ready⟩
    | none => exact (hawaits paths (apart_of_duplicate hduplicate).1).startPaths

/-- The interceptors that the daemon comes to, however the steps of its calls answer. -/
inductive Reached : FuseInterceptor → Prop
  | new (args : InterceptorArgs) : Reached (new args)
  | start {i i' : FuseInterceptor} {answer : Except String Unit} {events : List Event} (before : Reached i)
      (h : Finishes recorded i.start [] (.ok (i', answer)) events) : Reached i'
  | abortStart {i i' : FuseInterceptor} {answer : Except String Unit} {events : List Event} (before : Reached i)
      (h : Finishes recorded i.abortStart [] (.ok (i', answer)) events) : Reached i'
  | stop {i i' : FuseInterceptor} {answer : Except String Unit} {events : List Event} (before : Reached i)
      (h : Finishes recorded i.stop [] (.ok (i', answer)) events) : Reached i'

theorem Ready.of_finishes {p : StepProg (FuseInterceptor × Except String Unit)} {i : FuseInterceptor}
    {answer : Except String Unit} {events : List Event}
    (hp : Adds p fun r _ => ∃ i' answer, r = .ok (i', answer) ∧ Ready i')
    (h : Finishes recorded p [] (.ok (i, answer)) events) : Ready i := by
  obtain ⟨added, -, i', answer', hr, hready⟩ := wp_finishes (hp []) h
  cases hr
  exact hready

/-- What stopping relies on holds of every interceptor that the daemon comes to. -/
theorem Reached.ready {i : FuseInterceptor} (h : Reached i) : Ready i := by
  induction h with
  | new args => exact ⟨List.Pairwise.nil, fun htracked => absurd rfl htracked, fun _ => rfl⟩
  | start before h ih => exact Ready.of_finishes ih.start h
  | abortStart before h ih => exact Ready.of_finishes ih.rollback h
  | stop before h ih => exact Ready.of_finishes ih.stop h

end FuseInterceptor

structure Call where
  before : FuseInterceptor
  after : FuseInterceptor
  answer : Except String Unit
  events : List Event

end FileGuard.Fuse.Interceptor
