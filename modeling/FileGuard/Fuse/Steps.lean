import FileGuard.Fuse.Interceptor

/-! What the programs of the interceptor do, step by step, however the steps answer. -/

namespace FileGuard.Fuse.Interceptor

open Store Mounts CrashLogic

structure Event where
  step : Step
  answer : Except String step.Value

/-- Every step answers as it likes, and is written down. -/
def recorded : Machine steps (List Event) where
  step o w r w' := w' = w ++ [⟨o, r⟩]
  rely := Eq
  rely_refl _ := rfl

/-- What holds of a program's answer and of the events that it adds. -/
def Adds {α : Type} (p : StepProg α) (Q : Except String α → List Event → Prop) : Prop :=
  ∀ w, wp recorded (fun _ _ => True) p (fun r w' => ∃ events, w' = w ++ events ∧ Q r events) w

section rules

variable {α β : Type} {p : StepProg α} {P Q Q' : Except String α → List Event → Prop}

theorem adds_pure {a : α} (h : Q (.ok a) []) : Adds (.pure a) Q := fun w => ⟨[], (List.append_nil w).symm, h⟩

theorem adds_bail {text : String} (h : Q (.error text) []) : Adds (bail text) Q :=
  fun w => ⟨[], (List.append_nil w).symm, h⟩

theorem Adds.mono (h : Adds p Q) (hq : ∀ r events, Q r events → Q' r events) : Adds p Q' := by
  intro w
  refine wp_mono (h w) ?_
  rintro r w' ⟨events, hw, hr⟩
  exact ⟨events, hw, hq r events hr⟩

theorem Adds.bind {f : α → StepProg β} {R : Except String β → List Event → Prop} (h : Adds p P)
    (herror : ∀ error events, P (.error error) events → R (.error error) events)
    (hok : ∀ a events, P (.ok a) events → Adds (f a) fun r more => R r (events ++ more)) : Adds (p.bind f) R := by
  intro w
  rw [wp_bind]
  refine wp_mono (h w) ?_
  rintro (error | a) w' ⟨events, rfl, hr⟩
  · exact ⟨events, rfl, herror error events hr⟩
  · refine wp_mono (hok a events hr (w ++ events)) ?_
    rintro r w' ⟨more, rfl, hmore⟩
    exact ⟨events ++ more, List.append_assoc _ _ _, hmore⟩

theorem Adds.attempt {Q : Except String (Except String α) → List Event → Prop}
    (h : Adds p fun r events => Q (.ok r) events) : Adds p.attempt Q := by
  intro w
  rw [wp_attempt]
  exact h w

theorem adds_perform {step : Step} {Q : Except String step.Value → List Event → Prop}
    (h : ∀ answer, Q answer [⟨step, answer⟩]) : Adds (perform step) Q := by
  rintro w _ rfl answer _ rfl
  refine ⟨trivial, ?_⟩
  cases answer with
  | error error => exact ⟨_, rfl, h (.error error)⟩
  | ok value => exact ⟨_, rfl, h (.ok value)⟩

theorem adds_any (p : StepProg α) : Adds p fun _ _ => True := by
  intro w
  induction p generalizing w with
  | pure a => exact ⟨[], (List.append_nil w).symm, trivial⟩
  | fail e => exact ⟨[], (List.append_nil w).symm, trivial⟩
  | call o k ih =>
    rintro _ rfl r _ rfl
    refine ⟨trivial, wp_mono (ih r (w ++ [⟨o, r⟩])) ?_⟩
    rintro r' w' ⟨events, rfl, -⟩
    exact ⟨⟨o, r⟩ :: events, by simp, trivial⟩

theorem Adds.bindAttempt {f : Except String α → StepProg β} {R : Except String β → List Event → Prop} (h : Adds p P)
    (hf : ∀ answer events, P answer events → Adds (f answer) fun r more => R r (events ++ more)) :
    Adds (p.attempt.bind f) R := by
  have htried : Adds p.attempt fun r events => ∃ answer, r = .ok answer ∧ P answer events :=
    Adds.attempt (h.mono fun answer events hanswer => ⟨answer, rfl, hanswer⟩)
  refine Adds.bind htried ?_ ?_
  · rintro error events ⟨answer, hr, -⟩
    cases hr
  · rintro tried events ⟨answer, hr, hanswer⟩
    cases hr
    exact hf tried events hanswer

variable (pattern : List Event → (step : Step) → Except String step.Value)

def run : StepProg α → List Event → Except String α × List Event
  | .pure a, events => (.ok a, events)
  | .fail e, events => (.error e, events)
  | .call step k, events => run (k (pattern events step)) (events ++ [⟨step, pattern events step⟩])

end rules

/-- The first steps of a list are done, and the next of them has failed. -/
def Cut (due events : List Event) (error : String) : Prop :=
  ∃ done step value rest, due = done ++ ⟨step, .ok value⟩ :: rest ∧ events = done ++ [⟨step, .error error⟩]

/-- A program whose steps are those of a list, as far as none fails. -/
def Straight {α : Type} (p : StepProg α) (a : α) (due : List Event) : Prop :=
  Adds p fun r events => r = .ok a ∧ events = due ∨ ∃ error, r = .error error ∧ Cut due events error

theorem Cut.left {due events : List Event} {error : String} (h : Cut due events error) (more : List Event) :
    Cut (due ++ more) events error := by
  obtain ⟨done, step, value, rest, rfl, rfl⟩ := h
  exact ⟨done, step, value, rest ++ more, by simp, rfl⟩

theorem Cut.right {due events : List Event} {error : String} (h : Cut due events error) (before : List Event) :
    Cut (before ++ due) (before ++ events) error := by
  obtain ⟨done, step, value, rest, rfl, rfl⟩ := h
  exact ⟨before ++ done, step, value, rest, by simp, by simp⟩

theorem Cut.failed {due events : List Event} {error : String} (h : Cut due events error) :
    ∃ step ∈ due.map Event.step, (⟨step, .error error⟩ : Event) ∈ events := by
  obtain ⟨done, step, value, rest, rfl, rfl⟩ := h
  exact ⟨step, by simp, by simp⟩

theorem straight_pure {α : Type} (a : α) : Straight (.pure a) a [] := adds_pure (.inl ⟨rfl, rfl⟩)

theorem straight_perform (step : Step) (value : step.Value) (hone : ∀ v : step.Value, v = value) :
    Straight (perform step) value [⟨step, .ok value⟩] := by
  apply adds_perform
  intro answer
  cases answer with
  | error error => exact .inr ⟨error, rfl, [], step, value, [], rfl, rfl⟩
  | ok v => exact .inl ⟨congrArg _ (hone v), by rw [hone v]⟩

theorem Straight.bind {α β : Type} {p : StepProg α} {f : α → StepProg β} {a : α} {b : β} {due more : List Event}
    (h : Straight p a due) (hf : Straight (f a) b more) : Straight (p.bind f) b (due ++ more) := by
  refine Adds.bind h ?_ ?_
  · rintro error events (⟨hr, -⟩ | ⟨_, hr, hcut⟩)
    · cases hr
    · cases hr
      exact .inr ⟨error, rfl, hcut.left more⟩
  · rintro a' events (⟨hr, rfl⟩ | ⟨_, hr, -⟩)
    · cases hr
      refine hf.mono ?_
      rintro r after (⟨rfl, rfl⟩ | ⟨error, rfl, hcut⟩)
      · exact .inl ⟨rfl, rfl⟩
      · exact .inr ⟨error, rfl, hcut.right events⟩
    · cases hr

/-- Either all steps are done and the program goes on, or one has failed and its error is dealt with. -/
theorem Straight.tried {α β : Type} {p : StepProg α} {a : α} {due : List Event} {f : Except String α → StepProg β}
    {R : Except String β → List Event → Prop} (h : Straight p a due)
    (hok : Adds (f (.ok a)) fun r more => R r (due ++ more))
    (herror : ∀ error events, Cut due events error → Adds (f (.error error)) fun r more => R r (events ++ more)) :
    Adds (p.attempt.bind f) R := by
  refine Adds.bindAttempt h ?_
  rintro answer events (⟨rfl, rfl⟩ | ⟨error, rfl, hcut⟩)
  · exact hok
  · exact herror error events hcut

def recovered (restoreOnStop : Bool) (path : Path) : List Event :=
  ⟨.reconcileAfterMountAbsent path, .ok ()⟩ :: if restoreOnStop then [⟨.restore path, .ok ()⟩] else []

def MountSession.fenced (next : UnmountNext) (m : MountSession) : List Event :=
  if m.session.isSome then [⟨.beginUnmount m.watchedPath next, .ok ()⟩] else []

def MountSession.unmounted (restoreOnStop : Bool) (m : MountSession) : List Event :=
  m.session.toList.map (fun session => ⟨.join session, .ok ()⟩) ++ recovered restoreOnStop m.watchedPath

/-- The steps that settle the path of a session. -/
def MountSession.settled (next : UnmountNext) (restoreOnStop : Bool) (m : MountSession) : List Event :=
  m.fenced next ++ ⟨.detachStaleMount m.watchedPath m.token, .ok ()⟩ :: m.unmounted restoreOnStop

/-- The steps that settle a prepared path, by what the store has of it. -/
def settledPath (restoreOnStop : Bool) (path : Path) (entry : Entry) : List Event :=
  ⟨.load path, .ok entry⟩ :: match entry with
    | .present record =>
      ⟨.detachStaleMount path record.header.mountToken, .ok ()⟩ :: recovered restoreOnStop path
    | .finalizing _ => [⟨.mountsAt path, .ok []⟩, ⟨.restore path, .ok ()⟩]
    | .missing => [⟨.mountsAt path, .ok []⟩]

open FuseInterceptor

theorem straight_recovered (restoreOnStop : Bool) (path : Path) :
    Straight ((perform (.reconcileAfterMountAbsent path)).bind fun _ =>
      if restoreOnStop then perform (.restore path) else .pure ()) () (recovered restoreOnStop path) := by
  have hrestore : Straight (if restoreOnStop then perform (.restore path) else .pure ()) ()
      (if restoreOnStop then [⟨.restore path, .ok ()⟩] else []) := by
    cases restoreOnStop
    · exact straight_pure ()
    · exact straight_perform (.restore path) () fun _ => rfl
  exact (straight_perform (.reconcileAfterMountAbsent path) () fun _ => rfl).bind hrestore

theorem adds_recoverSession (restoreOnStop : Bool) (m : MountSession) :
    Adds (recoverSession restoreOnStop m) fun r events => ∃ m' answer, r = .ok (m', answer) ∧
      (answer = .ok () ∧ m' = { m with session := none } ∧
          events = ⟨.detachStaleMount m.watchedPath m.token, .ok ()⟩ :: m.unmounted restoreOnStop ∨
        ∃ error, answer = .error error ∧ (m' = m ∨ m' = { m with session := none }) ∧
          Cut (⟨.detachStaleMount m.watchedPath m.token, .ok ()⟩ :: m.unmounted restoreOnStop) events error) := by
  have hdetach := straight_perform (.detachStaleMount m.watchedPath m.token) () fun _ => rfl
  refine hdetach.tried ?_ ?_
  · refine (show Straight _ () (m.unmounted restoreOnStop) from
      Straight.bind (a := ()) ?_ (straight_recovered restoreOnStop m.watchedPath)).tried ?_ ?_
    · cases m.session with
      | none => exact straight_pure ()
      | some session => exact straight_perform (.join session) () fun _ => rfl
    · exact adds_pure ⟨_, _, rfl, .inl ⟨rfl, rfl, by simp⟩⟩
    · intro error events hcut
      refine adds_pure ⟨_, _, rfl, .inr ⟨error, rfl, .inr rfl, ?_⟩⟩
      simpa using hcut.right [⟨.detachStaleMount m.watchedPath m.token, .ok ()⟩]
  · intro error events hcut
    refine adds_pure ⟨_, _, rfl, .inr ⟨error, rfl, .inl rfl, ?_⟩⟩
    simpa using hcut.left (m.unmounted restoreOnStop)

/-- What a session comes to: its path is settled, or it is kept and its failure is reported. -/
inductive SessionOutcome (next : UnmountNext) (restoreOnStop : Bool) (m : MountSession) (s : Stopping) :
    Stopping → List Event → Prop where
  | settled : SessionOutcome next restoreOnStop m s { s with completed := s.completed ++ [m.watchedPath] }
      (m.settled next restoreOnStop)
  | fence (error : String) (live : m.session.isSome = true) :
      SessionOutcome next restoreOnStop m s
        { s with
          errors := s.errors ++
            [s!"failed to fence writes before unmounting {Path.display m.watchedPath}: {error}"]
          retained := s.retained ++ [m] }
        [⟨.beginUnmount m.watchedPath next, .error error⟩]
  | unmount (error : String) (m' : MountSession) (events : List Event)
      (kept : m' = m ∨ m' = { m with session := none })
      (cut : Cut (⟨.detachStaleMount m.watchedPath m.token, .ok ()⟩ :: m.unmounted restoreOnStop) events error) :
      SessionOutcome next restoreOnStop m s
        { s with
          errors := s.errors ++ [s!"failed to reconcile unmount of {Path.display m.watchedPath}: {error}"]
          retained := s.retained ++ [m'] }
        (m.fenced next ++ events)

theorem adds_stopSession (next : UnmountNext) (restoreOnStop : Bool) (s : Stopping) (m : MountSession) :
    Adds (stopSession next restoreOnStop s m) fun r events =>
      ∃ s', r = .ok s' ∧ SessionOutcome next restoreOnStop m s s' events := by
  have hfence : Straight (if m.session.isSome then perform (.beginUnmount m.watchedPath next) else .pure ()) ()
      (m.fenced next) := by
    rw [MountSession.fenced]
    split_ifs with hlive
    · exact straight_perform (.beginUnmount m.watchedPath next) () fun _ => rfl
    · exact straight_pure ()
  refine hfence.tried ?_ ?_
  · refine Adds.bind (adds_recoverSession restoreOnStop m) ?_ ?_
    · rintro error events ⟨m', answer, hr, -⟩
      cases hr
    · rintro _ events ⟨m', answer, hr, ⟨rfl, rfl, rfl⟩ | ⟨error, rfl, hkept, hcut⟩⟩
      · cases hr
        exact adds_pure ⟨_, rfl, by simpa [MountSession.settled] using SessionOutcome.settled⟩
      · cases hr
        refine adds_pure ⟨_, rfl, ?_⟩
        have hpath : m'.watchedPath = m.watchedPath := by rcases hkept with rfl | rfl <;> rfl
        rw [List.append_nil, hpath]
        exact .unmount error m' events hkept hcut
  · rintro error events ⟨done, step, value, rest, hdue, rfl⟩
    rw [MountSession.fenced] at hdue
    split_ifs at hdue with hlive
    · cases done with
      | nil =>
        rw [List.nil_append, List.cons.injEq, Event.mk.injEq] at hdue
        obtain ⟨⟨rfl, -⟩, -⟩ := hdue
        exact adds_pure ⟨_, rfl, .fence error hlive⟩
      | cons event done => simp at hdue
    · simp at hdue

/-- Why a prepared path is not settled: a step failed, or it has a mount that it should not have. -/
inductive PathFailure (restoreOnStop : Bool) (path : Path) : List Event → String → Prop where
  | step (entry : Entry) (error : String) (events : List Event)
      (cut : Cut (settledPath restoreOnStop path entry) events error) : PathFailure restoreOnStop path events error
  | finalizing (marker : FinalizationRecord) (mounts : List MountInfo) (mounted : mounts ≠ []) :
      PathFailure restoreOnStop path [⟨.load path, .ok (.finalizing marker)⟩, ⟨.mountsAt path, .ok mounts⟩]
        s!"{Path.display path} is mounted while its snapshot is finalizing"
  | missing (mounts : List MountInfo) (mounted : mounts ≠ []) :
      PathFailure restoreOnStop path [⟨.load path, .ok .missing⟩, ⟨.mountsAt path, .ok mounts⟩]
        s!"{Path.display path} is mounted without a snapshot record"

theorem adds_unmounted (path : Path) {k : Bool → StepProg Unit} {more : List Event} {text : String}
    (hlast : Straight (k true) () more) (hbail : k false = bail text) :
    Adds ((perform (.mountsAt path)).bind fun mounts => k mounts.isEmpty) fun r events =>
      r = .ok () ∧ events = ⟨.mountsAt path, .ok []⟩ :: more ∨
        (∃ error, r = .error error ∧ Cut (⟨.mountsAt path, .ok []⟩ :: more) events error) ∨
        ∃ mounts, mounts ≠ [] ∧ r = .error text ∧ events = [⟨.mountsAt path, .ok mounts⟩] := by
  refine Adds.bind (P := fun r events => events = [⟨.mountsAt path, r⟩]) (adds_perform fun _ => rfl) ?_ ?_
  · rintro error events rfl
    exact .inr (.inl ⟨error, rfl, [], .mountsAt path, [], more, rfl, rfl⟩)
  · rintro mounts events rfl
    cases mounts with
    | nil =>
      refine Adds.mono hlast ?_
      rintro r events (⟨rfl, rfl⟩ | ⟨error, rfl, hcut⟩)
      · exact .inl ⟨rfl, rfl⟩
      · exact .inr (.inl ⟨error, rfl, hcut.right [⟨.mountsAt path, .ok []⟩]⟩)
    | cons mount mounts =>
      rw [List.isEmpty_cons, hbail]
      exact adds_bail (.inr (.inr ⟨mount :: mounts, List.cons_ne_nil _ _, rfl, rfl⟩))

theorem adds_recoverPath (restoreOnStop : Bool) (path : Path) :
    Adds (recoverPath restoreOnStop path) fun r events =>
      (r = .ok () ∧ ∃ entry, events = settledPath restoreOnStop path entry) ∨
        ∃ error, r = .error error ∧ PathFailure restoreOnStop path events error := by
  refine Adds.bind (P := fun r events => events = [⟨.load path, r⟩]) (adds_perform fun _ => rfl) ?_ ?_
  · rintro error events rfl
    exact .inr ⟨error, rfl, .step .missing error _ ⟨[], .load path, .missing, _, rfl, rfl⟩⟩
  · rintro entry events rfl
    cases entry with
    | present record =>
      have hsteps : Straight ((perform (.detachStaleMount path record.header.mountToken)).bind fun _ =>
          (perform (.reconcileAfterMountAbsent path)).bind fun _ =>
            if restoreOnStop then perform (.restore path) else .pure ()) () _ :=
        (straight_perform (.detachStaleMount path record.header.mountToken) () fun _ => rfl).bind
          (straight_recovered restoreOnStop path)
      refine Adds.mono hsteps ?_
      rintro r events (⟨rfl, rfl⟩ | ⟨error, rfl, hcut⟩)
      · exact .inl ⟨rfl, .present record, rfl⟩
      · exact .inr ⟨error, rfl, .step (.present record) error _ (hcut.right [⟨.load path, .ok (.present record)⟩])⟩
    | finalizing marker =>
      refine Adds.mono (adds_unmounted path (k := fun empty => if empty then perform (.restore path) else bail _)
        (straight_perform (.restore path) () fun _ => rfl) rfl) ?_
      rintro r events (⟨rfl, rfl⟩ | ⟨error, rfl, hcut⟩ | ⟨mounts, hmounts, rfl, rfl⟩)
      · exact .inl ⟨rfl, .finalizing marker, rfl⟩
      · exact .inr ⟨error, rfl, .step (.finalizing marker) error _ (hcut.right [⟨.load path, .ok (.finalizing marker)⟩])⟩
      · exact .inr ⟨_, rfl, .finalizing marker mounts hmounts⟩
    | missing =>
      refine Adds.mono (adds_unmounted path (k := fun empty => if empty then .pure () else bail _)
        (straight_pure ()) rfl) ?_
      rintro r events (⟨rfl, rfl⟩ | ⟨error, rfl, hcut⟩ | ⟨mounts, hmounts, rfl, rfl⟩)
      · exact .inl ⟨rfl, .missing, rfl⟩
      · exact .inr ⟨error, rfl, .step .missing error _ (hcut.right [⟨.load path, .ok .missing⟩])⟩
      · exact .inr ⟨_, rfl, .missing mounts hmounts⟩

theorem adds_loop {α β : Type} {body : α → β → StepProg α} {I : List β → α → List Event → Prop} {items : List β}
    (hbody : ∀ seen s events, ∀ item ∈ items, I seen s events → Adds (body s item) fun r more =>
      ∃ s', r = .ok s' ∧ I (seen ++ [item]) s' (events ++ more)) {seen : List β} {s : α} {events : List Event}
    (h : I seen s events) : Adds (loop body s items) fun r more =>
      ∃ s', r = .ok s' ∧ I (seen ++ items) s' (events ++ more) := by
  induction items generalizing seen s events with
  | nil => exact adds_pure ⟨s, rfl, by simpa using h⟩
  | cons item items ih =>
    refine Adds.bind (hbody seen s events item List.mem_cons_self h) ?_ ?_
    · rintro error more ⟨s', hr, -⟩
      cases hr
    · rintro _ more ⟨s', hr, hnext⟩
      cases hr
      refine Adds.mono (ih (fun seen s events item hitem => hbody seen s events item (List.mem_cons_of_mem _ hitem))
        hnext) ?_
      rintro r last ⟨s'', rfl, hlast⟩
      exact ⟨s'', rfl, by simpa using hlast⟩

end FileGuard.Fuse.Interceptor
