import FileGuard.Fuse.Fence
import FileGuard.Fuse.Service

/-! The end of a mount: mounted writes race with the fence that `begin_unmount` puts behind them. -/

namespace FileGuard.Fuse

open Store Files Transaction Recovery CrashLogic

/-- A mutation that holds the lock. `landed` remembers whether one of its calls changed the row, `late` whether
the row was fenced when it took the lock. -/
structure Pending where
  mutation : Mutation
  opened : Shared
  rest : MutationProg Shared
  landed : Bool
  late : Bool

inductive Unmounting where
  | idle
  | running (next : UnmountNext) (rest : TxProg SnapshotRecord)
  | returned (next : UnmountNext) (result : Except TxError SnapshotRecord)

/-- A mutation that has given the lock back. -/
structure Finished where
  mutation : Mutation
  verdict : Except MutationError Unit
  landed : Bool
  late : Bool

/-- The mounted file while its mount may be taken away. What the verification remembers: the finished mutations,
those that changed the row in the order in which they did, and those of them that had when the row was fenced. -/
structure Race where
  world : World
  published : SnapshotRecord
  pending : Option Pending
  unmount : Unmounting
  history : List Finished
  landed : List Mutation
  fenced : Option (List Mutation)

namespace Race

def start (world : World) (published : SnapshotRecord) : Race := ⟨world, published, none, .idle, [], [], none⟩

/-- The state after a call of the mutation that holds the lock. -/
def mutated (p : Path) (s : Race) (a : Pending) (rest : MutationProg Shared) (w : World) : Race :=
  { s with
    world := w
    pending := some { a with rest := rest, landed := a.landed || changes p s.world w }
    landed := if changes p s.world w then s.landed ++ [a.mutation] else s.landed }

def finished (s : Race) (a : Pending) (verdict : Except MutationError Unit) (published : SnapshotRecord) : Race :=
  { s with
    published := published
    pending := none
    history := s.history ++ [⟨a.mutation, verdict, a.landed, a.late⟩] }

/-- The state after a call of `begin_unmount`, which does not take the lock. -/
def unmounting (p : Path) (s : Race) (next : UnmountNext) (rest : TxProg SnapshotRecord) (w : World) : Race :=
  { s with
    world := w
    unmount := .running next rest
    fenced := if changes p s.world w then some s.landed else s.fenced }

/-- One step: a mutation takes the lock, makes a call or gives the lock back, or `begin_unmount` is called, makes
a call or returns. The store may answer each call as it likes. -/
inductive Step (S : Site) (s : Race) : Race → Prop where
  | lock (m : Mutation) (opened : Shared) (free : s.pending = none) (published : opened.content = s.published) :
      Step S s { s with pending := some ⟨m, opened, m.prog opened, false, s.fenced.isSome⟩ }
  | mutate (a : Pending) (o : Op) (k : o.Resp → MutationProg Shared) (c : Choice) (holds : s.pending = some a)
      (calls : a.rest = .call o k) :
      Step S s (s.mutated S.path a (k (s.world.exec S.host c o).1) (s.world.exec S.host c o).2)
  | acknowledge (a : Pending) (shared : Shared) (holds : s.pending = some a) (done : a.rest = .pure shared) :
      Step S s (s.finished a (.ok ()) shared.content)
  | refuse (a : Pending) (error : MutationError) (holds : s.pending = some a) (done : a.rest = .fail error) :
      Step S s (s.finished a (.error error) s.published)
  | begin (rounds : ℕ) (next : UnmountNext) (free : ∀ current rest, s.unmount ≠ .running current rest) :
      Step S s { s with unmount := .running next (S.manager.beginUnmount rounds S.path next) }
  | unmount (next : UnmountNext) (o : Op) (k : o.Resp → TxProg SnapshotRecord) (c : Choice)
      (calls : s.unmount = .running next (.call o k)) :
      Step S s (s.unmounting S.path next (k (s.world.exec S.host c o).1) (s.world.exec S.host c o).2)
  | unmounted (next : UnmountNext) (record : SnapshotRecord) (done : s.unmount = .running next (.pure record)) :
      Step S s { s with unmount := .returned next (.ok record) }
  | failed (next : UnmountNext) (error : TxError) (done : s.unmount = .running next (.fail error)) :
      Step S s { s with unmount := .returned next (.error error) }

inductive Run (S : Site) (start : Race) : Race → Prop where
  | start : Run S start start
  | step {s s' : Race} (before : Run S start s) (next : Step S s s') : Run S start s'

end Race

namespace Race

variable {S : Site} {record : SnapshotRecord} {s s' : Race}

/-- What the race has come to: `row` is the durable row. -/
structure Fenced (p : Path) (record : SnapshotRecord) (s : Race) (row : SnapshotRecord) : Prop where
  durable : s.world.store p = .present row
  valid : validateSnapshot row = .ok ()
  bound : row.header.pathHex = pathToHex p
  /-- the row holds the effects of what landed, in order -/
  contents : row.contents = s.landed.foldl (fun file m => m.effect file) record.contents
  present : row.header.logicalPresent = (record.header.logicalPresent || !s.landed.isEmpty)
  original : row.header.original = record.header.original
  /-- a mutation that is acknowledged has landed, and one that is refused has not, but for an error that says so -/
  acknowledged : ∀ e ∈ s.history, e.verdict = .ok () → e.landed = true
  refused : ∀ e ∈ s.history, e.landed = true → e.verdict = .ok () ∨ isUncertain e.verdict = true
  landed : s.landed = (s.history.filter (·.landed)).map (·.mutation) ++
    (s.pending.filter (·.landed)).toList.map (·.mutation)
  /-- a reader is shown what every acknowledged mutation has done -/
  published : ∃ before after, s.history = before ++ after ∧ (∀ e ∈ after, e.verdict ≠ .ok ()) ∧
    s.published.contents =
      ((before.filter (·.landed)).map (·.mutation)).foldl (fun file m => m.effect file) record.contents
  /-- nothing lands behind the fence -/
  fence : s.fenced = if isFence row.header.lifecycle then some s.landed else none
  late : ∀ e ∈ s.history, e.late = true → e.landed = false
  /-- a record that `begin_unmount` has returned is the row, fenced as it was asked to -/
  returned : ∀ outcome result, s.unmount = .returned outcome result → Returned p outcome result s.world

/-- What keeps the race so: the specification of what is left of each program. -/
structure Racing (S : Site) (record : SnapshotRecord) (s : Race) (row : SnapshotRecord) : Prop where
  fenced : Fenced S.path record s row
  behind : Behind S.path s.published s.world
  pending : ∀ a, s.pending = some a →
    wp (watching S.host S.path) (Lands S.path a.mutation) a.rest
      (Answered S.path Shared.content fun error => isUncertain (.error error)) (s.world, a.landed)
  closed : ∀ a, s.pending = some a → a.late = true → a.landed = false ∧ isFence row.header.lifecycle = true
  unmount : ∀ outcome rest, s.unmount = .running outcome rest →
    wp (landing S.host S.path) (Fences S.path outcome) rest (Returned S.path outcome) s.world

theorem wp_fenced {m : Mutation} {rest : MutationProg Shared} {landed : Bool}
    (h : wp (watching host p) (Lands p m) rest
      (Answered p Shared.content fun error => isUncertain (.error error)) (w, landed))
    (hr : MayFence p (w, landed) (w', landed)) :
    wp (watching host p) (Lands p m) rest
      (Answered p Shared.content fun error => isUncertain (.error error)) (w', landed) :=
  wp_after (fun _ _ _ h h' => h.trans h') (fun _ _ _ => Answered.stable) h hr

theorem wp_landed {outcome : UnmountNext} {rest : TxProg SnapshotRecord}
    (h : wp (landing host p) (Fences p outcome) rest (Returned p outcome) w) (hr : MayLand p w w') :
    wp (landing host p) (Fences p outcome) rest (Returned p outcome) w' :=
  wp_after (fun _ _ _ h h' => h.trans h') (fun _ _ _ => Returned.stable) h hr

theorem Racing.start {world : World} (h : world.store S.path = .present record) (valid : validateSnapshot record = .ok ())
    (bound : record.header.pathHex = pathToHex S.path) (mounted : isMountIntent record.header.lifecycle = true) :
    Racing S record (Race.start world record) record where
  fenced :=
    { durable := h
      valid := valid
      bound := bound
      contents := rfl
      present := by simp [Race.start]
      original := rfl
      acknowledged := by simp [Race.start]
      refused := by simp [Race.start]
      landed := rfl
      published := ⟨[], [], rfl, by simp, rfl⟩
      fence := by rw [isFence_of_mount mounted]; rfl
      late := by simp [Race.start]
      returned := by simp [Race.start] }
  behind := ⟨bound, record, h, .inl rfl⟩
  pending := by simp [Race.start]
  closed := by simp [Race.start]
  unmount := by simp [Race.start]

/-- What one step does to the row. -/
inductive Moves (p : Path) (w : World) (row : SnapshotRecord) : World → SnapshotRecord → Prop where
  | still : Moves p w row w row
  | landed {m : Mutation} {w' : World} (mounted : isMountIntent row.header.lifecycle = true)
      (unblocked : row.header.blockedReason = none)
      (takes : Takes p w row (mountedSuccessor row (m.effect row.contents)) w') :
      Moves p w row w' (mountedSuccessor row (m.effect row.contents))
  | fenced {outcome : UnmountNext} {detached : Option ObjectIdentity} {w' : World}
      (mounted : row.header.lifecycle = .mountIntent detached) (unblocked : row.header.blockedReason = none)
      (takes : Takes p w row (row.successor (.unmountIntent outcome detached) row.contents) w') :
      Moves p w row w' (row.successor (.unmountIntent outcome detached) row.contents)

/-- A fenced row is the last one. -/
def FenceStands (row row' : SnapshotRecord) : Prop := isFence row.header.lifecycle = true → row' = row

theorem FenceStands.trans {row' row'' : SnapshotRecord} (h : FenceStands row row') (h' : FenceStands row' row'') :
    FenceStands row row'' := by
  intro hf
  cases h hf
  exact h' hf

theorem Moves.fenceStands {row' : SnapshotRecord} (h : Moves p w row w' row') : FenceStands row row' := by
  have hopen (hno : isFence row.header.lifecycle = false) : FenceStands row row' := by
    intro hf
    rw [hno] at hf
    cases hf
  cases h with
  | still => exact fun _ => rfl
  | landed mounted unblocked takes => exact hopen (isFence_of_mount mounted)
  | fenced mounted unblocked takes => exact hopen (by rw [mounted]; rfl)

theorem Racing.mutate {a : Pending} {o : Op} {k : o.Resp → MutationProg Shared} {c : Choice}
    (h : Racing S record s row) (holds : s.pending = some a) (calls : a.rest = .call o k) :
    ∃ row', Racing S record (s.mutated S.path a (k (s.world.exec S.host c o).1) (s.world.exec S.host c o).2) row' ∧
      Moves S.path s.world row (s.world.exec S.host c o).2 row' := by
  obtain ⟨r, w', hexec⟩ : ∃ r w', s.world.exec S.host c o = (r, w') := ⟨_, _, rfl⟩
  rw [hexec]
  have made : (watching S.host S.path).step o (s.world, a.landed) r (w', a.landed || changes S.path s.world w') :=
    ⟨c, hexec, rfl⟩
  have hrest := h.pending a holds
  rw [calls] at hrest
  obtain ⟨hlands, hk⟩ := wp_call hrest made
  have hlanded := h.fenced.landed
  simp only [holds, Option.filter_some] at hlanded
  rcases hlands with rfl | ⟨hfirst, row', hmounted, hblocked, htakes⟩
  · rw [changes_refl, Bool.or_false] at hk
    simp only [mutated, changes_refl, Bool.or_false, Bool.false_eq_true, if_false]
    refine ⟨row, ⟨{ h.fenced with landed := ?_ }, h.behind, ?_, ?_, h.unmount⟩, .still⟩
    · cases hl : a.landed <;> simpa [Option.filter_some, hl] using hlanded
    · rintro _ ⟨⟩
      exact hk
    · rintro _ ⟨⟩
      exact h.closed a holds
  · cases htakes.before.symm.trans h.fenced.durable
    have hopen : isFence row.header.lifecycle = false := isFence_of_mount hmounted
    have hafter : isFence (mountedSuccessor row (a.mutation.effect row.contents)).header.lifecycle = false := hopen
    have hfence := h.fenced.fence
    rw [htakes.changes, Bool.or_true] at hk
    simp only [mutated, htakes.changes, Bool.or_true, if_true]
    refine ⟨mountedSuccessor row (a.mutation.effect row.contents), ⟨{ h.fenced with
      durable := htakes.stored
      valid := htakes.valid.1
      bound := htakes.valid.2
      contents := ?_
      present := by simp [mountedSuccessor]
      landed := ?_
      fence := ?_
      returned := ?_ }, h.behind.later htakes, ?_, ?_, ?_⟩, .landed hmounted hblocked htakes⟩
    · rw [List.foldl_concat, ← h.fenced.contents]
      rfl
    · have hnone : a.landed = false := hfirst
      rw [hnone] at hlanded
      rw [hlanded]
      simp [Option.filter_some]
    · rw [hopen] at hfence
      rw [hafter]
      exact hfence
    · intro outcome result hreturned
      exact (h.fenced.returned outcome result hreturned).stable (htakes.mayLand hopen h.fenced.bound)
    · rintro _ ⟨⟩
      exact hk
    · rintro _ ⟨⟩ hlate
      have hno := (h.closed a holds hlate).2
      rw [hopen] at hno
      cases hno
    · intro outcome rest hrunning
      exact wp_landed (h.unmount outcome rest hrunning) (htakes.mayLand hopen h.fenced.bound)

theorem Racing.unmount_step {outcome : UnmountNext} {o : Op} {k : o.Resp → TxProg SnapshotRecord} {c : Choice}
    (h : Racing S record s row) (calls : s.unmount = .running outcome (.call o k)) :
    ∃ row', Racing S record
      (s.unmounting S.path outcome (k (s.world.exec S.host c o).1) (s.world.exec S.host c o).2) row' ∧
        Moves S.path s.world row (s.world.exec S.host c o).2 row' := by
  obtain ⟨r, w', hexec⟩ : ∃ r w', s.world.exec S.host c o = (r, w') := ⟨_, _, rfl⟩
  rw [hexec]
  have made : (landing S.host S.path).step o s.world r w' := ⟨c, hexec⟩
  obtain ⟨hfences, hk⟩ := wp_call (h.unmount outcome _ calls) made
  rcases hfences with rfl | ⟨row', detached, hmounted, hblocked, htakes⟩
  · simp only [unmounting, changes_refl, Bool.false_eq_true, if_false]
    refine ⟨row, ⟨{ h.fenced with returned := ?_ }, h.behind, h.pending, h.closed, ?_⟩, .still⟩
    · rintro _ _ ⟨⟩
    · rintro _ _ ⟨⟩
      exact hk
  · cases htakes.before.symm.trans h.fenced.durable
    have hopen : isFence row.header.lifecycle = false := isFence_of_mount (by rw [hmounted]; rfl)
    simp only [unmounting, htakes.changes, if_true]
    refine ⟨row.successor (.unmountIntent outcome detached) row.contents, ⟨{ h.fenced with
      durable := htakes.stored
      valid := htakes.valid.1
      bound := htakes.valid.2
      fence := rfl
      returned := ?_ }, h.behind.later htakes, ?_, ?_, ?_⟩, .fenced hmounted hblocked htakes⟩
    · rintro _ _ ⟨⟩
    · intro a holds
      exact wp_fenced (h.pending a holds) (htakes.mayFence a.landed rfl rfl)
    · intro a holds hlate
      exact ⟨(h.closed a holds hlate).1, rfl⟩
    · rintro _ _ ⟨⟩
      exact hk

theorem Racing.finish {a : Pending} {verdict : Except MutationError Unit} {published : SnapshotRecord}
    (h : Racing S record s row) (holds : s.pending = some a) (hb : Behind S.path published s.world)
    (acknowledged : verdict = .ok () → a.landed = true)
    (refused : a.landed = true → verdict = .ok () ∨ isUncertain verdict = true)
    (shown : a.landed = true ∧ Shows S.path published s.world ∨ verdict ≠ .ok () ∧ published = s.published) :
    Racing S record (s.finished a verdict published) row := by
  have hhistory {q : Finished → Prop} (before : ∀ e ∈ s.history, q e) (last : q ⟨a.mutation, verdict, a.landed, a.late⟩) :
      ∀ e ∈ s.history ++ [⟨a.mutation, verdict, a.landed, a.late⟩], q e :=
    List.forall_mem_append.mpr ⟨before, List.forall_mem_singleton.mpr last⟩
  have hlanded := h.fenced.landed
  simp only [holds, Option.filter_some] at hlanded
  refine ⟨{ h.fenced with
    acknowledged := hhistory h.fenced.acknowledged acknowledged
    refused := hhistory h.fenced.refused refused
    landed := ?_
    published := ?_
    late := hhistory h.fenced.late fun hlate => (h.closed a holds hlate).1 }, hb, ?_, ?_, h.unmount⟩
  · cases hl : a.landed <;> simpa [finished, hl] using hlanded
  · rcases shown with ⟨hl, row', hrow', hcontents⟩ | ⟨hrefused, rfl⟩
    · cases h.fenced.durable.symm.trans hrow'
      refine ⟨_, [], (List.append_nil _).symm, by simp, ?_⟩
      change published.contents = _
      rw [hcontents, h.fenced.contents, hlanded]
      simp [finished, hl]
    · obtain ⟨before, after, hsplit, hafter, hcontents⟩ := h.fenced.published
      refine ⟨before, after ++ [⟨a.mutation, verdict, a.landed, a.late⟩], ?_, ?_, hcontents⟩
      · simp [finished, hsplit]
      · exact List.forall_mem_append.mpr ⟨hafter, List.forall_mem_singleton.mpr hrefused⟩
  · rintro _ ⟨⟩
  · rintro _ ⟨⟩

/-- Each step of the race keeps what it has come to. -/
theorem Racing.step (h : Racing S record s row) (next : Step S s s') :
    ∃ row', Racing S record s' row' ∧ Moves S.path s.world row s'.world row' := by
  cases next with
  | lock m opened free published =>
    have hb : Behind S.path opened.content s.world := published ▸ h.behind
    have hlanded := h.fenced.landed
    rw [free] at hlanded
    refine ⟨row, ⟨{ h.fenced with landed := ?_ }, h.behind, ?_, ?_, h.unmount⟩, .still⟩
    · simpa [Option.filter_some] using hlanded
    · rintro _ ⟨⟩
      exact mutation_watching hb
    · rintro _ ⟨⟩ hlate
      have hfence := h.fenced.fence
      refine ⟨rfl, ?_⟩
      by_contra hno
      rw [if_neg hno] at hfence
      rw [hfence] at hlate
      cases hlate
  | mutate a o k c holds calls => exact h.mutate holds calls
  | acknowledge a shared holds done =>
    have hend := h.pending a holds
    rw [done] at hend
    obtain ⟨hlanded, hb, hshows⟩ := Answered.acknowledged hend shared rfl
    exact ⟨row, h.finish holds hb (fun _ => hlanded) (fun _ => .inl rfl) (.inl ⟨hlanded, hshows⟩), .still⟩
  | refuse a error holds done =>
    have hend := h.pending a holds
    rw [done] at hend
    have hrefused (hlanded : a.landed = true) :
        (.error error : Except MutationError Unit) = .ok () ∨ isUncertain (.error error) = true :=
      .inr (Answered.refused hend error rfl hlanded)
    exact ⟨row, h.finish holds h.behind nofun hrefused (.inr ⟨nofun, rfl⟩), .still⟩
  | begin rounds next free =>
    refine ⟨row, ⟨{ h.fenced with returned := ?_ }, h.behind, h.pending, h.closed, ?_⟩, .still⟩
    · rintro _ _ ⟨⟩
    · rintro _ _ ⟨⟩
      unfold Manager.beginUnmount
      rw [normalizePath_eq, Prog.bind_eq, Prog.pure_bind]
      exact beginUnmountLoop_landing ⟨row, h.fenced.durable, h.fenced.bound⟩
  | unmount next o k c calls => exact h.unmount_step calls
  | unmounted next current done =>
    refine ⟨row, ⟨{ h.fenced with returned := ?_ }, h.behind, h.pending, h.closed, ?_⟩, .still⟩
    · rintro _ _ ⟨⟩
      exact h.unmount _ _ done
    · rintro _ _ ⟨⟩
  | failed next error done =>
    refine ⟨row, ⟨{ h.fenced with returned := ?_ }, h.behind, h.pending, h.closed, ?_⟩, .still⟩
    · rintro _ _ ⟨⟩
      exact h.unmount _ _ done
    · rintro _ _ ⟨⟩

/-- A run of the race keeps what it has come to, and whatever else what is done to the row keeps. -/
theorem Racing.run {J : World → SnapshotRecord → Prop} {before : Race}
    (moves : ∀ {w w' row row'}, J w row → Moves S.path w row w' row' → J w' row')
    (h : Racing S record before row) (holds : J before.world row) (run : Run S before s) :
    ∃ row', Racing S record s row' ∧ J s.world row' := by
  induction run with
  | start => exact ⟨row, h, holds⟩
  | step _ next ih =>
    obtain ⟨row', h', hj⟩ := ih
    obtain ⟨row'', h'', hmoves⟩ := h'.step next
    exact ⟨row'', h'', moves hj hmoves⟩

theorem Racing.fenceStands {before : Race} (h : Racing S record before row) (run : Run S before s) :
    ∃ row', Racing S record s row' ∧ FenceStands row row' :=
  h.run (J := fun _ row' => FenceStands row row') (fun hstands hmoves => hstands.trans hmoves.fenceStands)
    (fun _ => rfl) run

/-- A mutation that is left alone is a run of the race. -/
theorem Run.mutates {start : Race} {a : Pending} {result : Except MutationError Shared} (before : Run S start s)
    (holds : s.pending = some a) (alone : Finishes (alone S.host fun _ _ => True) a.rest s.world result w') :
    ∃ s', Run S start s' ∧ s'.world = w' ∧ s'.pending = none ∧ s'.unmount = s.unmount ∧
      ∃ landed, s'.history = s.history ++ [⟨a.mutation, result.map fun _ => (), landed, a.late⟩] := by
  generalize hrest : a.rest = rest at alone
  generalize hw : s.world = w at alone
  induction alone generalizing s a with
  | pure shared w => exact ⟨_, .step before (.acknowledge a shared holds hrest), hw, rfl, rfl, a.landed, rfl⟩
  | fail error w => exact ⟨_, .step before (.refuse a error holds hrest), hw, rfl, rfl, a.landed, rfl⟩
  | @call o k w w₁ w₂ w' r result others made rest ih =>
    obtain ⟨c, -, hexec⟩ := made
    cases others
    subst hw
    have hstep := Step.mutate (S := S) a o k c holds hrest
    rw [hexec] at hstep
    exact ih (s := s.mutated S.path a (k r) w₂)
      (a := { a with rest := k r, landed := a.landed || changes S.path s.world w₂ }) (.step before hstep) rfl rfl rfl

theorem Run.unmounts {start : Race} {next : UnmountNext} {rest : TxProg SnapshotRecord} {result : Except TxError SnapshotRecord}
    (before : Run S start s) (running : s.unmount = .running next rest)
    (alone : Finishes (alone S.host fun _ _ => True) rest s.world result w') :
    ∃ s', Run S start s' ∧ s'.world = w' ∧ s'.pending = s.pending ∧ s'.unmount = .returned next result ∧
      s'.history = s.history := by
  generalize hw : s.world = w at alone
  induction alone generalizing s with
  | pure record w => exact ⟨_, .step before (.unmounted next record running), hw, rfl, rfl, rfl⟩
  | fail error w => exact ⟨_, .step before (.failed next error running), hw, rfl, rfl, rfl⟩
  | @call o k w w₁ w₂ w' r result others made rest ih =>
    obtain ⟨c, -, hexec⟩ := made
    cases others
    subst hw
    have hstep := Step.unmount (S := S) next o k c running
    rw [hexec] at hstep
    exact ih (s := s.unmounting S.path next (k r) w₂) (.step before hstep) rfl rfl

end Race

variable {S : Site} {shared : Shared} {w₀ : World} {s : Race}

/-- `CredentialFs::new` only looks at the row, which waits for its mount. -/
theorem new_mounted :
    wp (alone S.host fun _ _ => True) (fun _ _ => True) (Shared.new S.manager S.path)
      (fun result w' => ∀ shared, result = .ok shared →
        w' = w ∧ w.store S.path = .present shared.content ∧ isMountIntent shared.content.header.lifecycle = true) w := by
  unfold Shared.new load storeLoad
  rw [normalizePath_eq, Prog.bind_eq, Prog.pure_bind, Prog.bind_eq, wp_bind, Prog.bind_eq, wp_bind]
  refine wp_perform_alone.mpr fun c _ => ⟨trivial, ?_⟩
  rcases exec_load c S.path with ⟨message, he⟩ | he
  · rw [he]
    intro shared h
    cases h
  · rw [he]
    simp only [onOk_ok, ofStore_ok, wp_pure]
    cases hs : w.store S.path with
    | missing => intro shared h; cases h
    | finalizing marker => intro shared h; cases h
    | present record =>
      simp only
      split
      · intro shared h; cases h
      · rename_i hmounted
        rintro shared ⟨⟩
        exact ⟨rfl, rfl, by rw [hmounted]; rfl⟩
      · intro shared h; cases h

theorem served_racing (stored : ∀ record, w₀.store S.path = .present record →
      validateSnapshot record = .ok () ∧ record.header.pathHex = pathToHex S.path)
    (served : Finishes (alone S.host fun _ _ => True) (Shared.new S.manager S.path) w₀ (.ok shared) w) :
    Race.Racing S shared.content (.start w shared.content) shared.content ∧ w = w₀ := by
  obtain ⟨rfl, hrow, hmounted⟩ := wp_finishes new_mounted served shared rfl
  obtain ⟨hvalid, hbound⟩ := stored _ hrow
  exact ⟨.start hrow hvalid hbound hmounted, rfl⟩

/-- However mounted writes and truncations interleave with `begin_unmount`: the row holds the effects of exactly those
that landed, in the order of their commits; once the row is fenced it is the last row, and whoever takes the lock
behind the fence is refused and changes nothing. -/
theorem mutations_end_at_the_fence (stored : ∀ record, w₀.store S.path = .present record →
      validateSnapshot record = .ok () ∧ record.header.pathHex = pathToHex S.path)
    (served : Finishes (alone S.host fun _ _ => True) (Shared.new S.manager S.path) w₀ (.ok shared) w)
    (run : Race.Run S (.start w shared.content) s) :
    ∃ row, Race.Fenced S.path shared.content s row ∧
      ∀ s', Race.Run S s s' → ∃ row', Race.Fenced S.path shared.content s' row' ∧ Race.FenceStands row row' := by
  obtain ⟨row, h, -⟩ := (served_racing stored served).1.fenceStands run
  refine ⟨row, h.fenced, fun s' later => ?_⟩
  obtain ⟨row', h', hstands⟩ := h.fenceStands later
  exact ⟨row', h'.fenced, hstands⟩

/-- A daemon that acknowledges a write and then gives the mount up has fenced the row with that write in it. -/
theorem mutations_end_at_the_fence_unmount :
    ∃ (shared : Shared) (w : World) (s : Race) (row : SnapshotRecord),
      Race.Run .sample (.start w shared.content) s ∧ Race.Fenced Site.sample.path shared.content s row ∧
        s.fenced = some [.write 1 2 [7]] ∧ row.contents = [0, 0, 7] := by
  obtain ⟨w, r, hreached, hnow, hmounted, hempty, hroom⟩ := reachable_mounted
  obtain ⟨c, hc⟩ := fair_single
  have served := served_of_mounted hnow hmounted hc.answer
  have stored (record) (hrow : w.store Site.sample.path = .present record) :
      validateSnapshot record = .ok () ∧ record.header.pathHex = pathToHex Site.sample.path := by
    cases hnow.entry.symm.trans hrow
    exact ⟨hnow.sound.valid, hnow.sound.bound⟩
  let opened : Shared := ⟨r, fun _ => some ⟨.write, false⟩, 1⟩
  have hwrite : Runs .sample False ((Mutation.write 1 2 [7]).prog opened) _ w.settled :=
    runs_mutation (k := 12) hnow hmounted ⟨⟨false, rfl⟩, by decide⟩ hroom
  obtain ⟨⟨_, w₁, wrote⟩, hwrote⟩ := hwrite.finishes hnow.inv
  obtain ⟨written, rfl, h₁, hcontent, hroom₁⟩ := hwrote _ _ wrote
  have hunmount : Runs .sample False (Site.sample.manager.beginUnmount 1 Site.sample.path .restore) _ w₁.settled :=
    runs_beginUnmount_fences (k := 11) h₁ (by rw [hcontent]; exact hmounted) hroom₁
  obtain ⟨⟨_, w₂, unmounted⟩, hunmounted⟩ := hunmount.finishes h₁.inv
  obtain ⟨record, rfl, h₂, hlater⟩ := hunmounted _ _ unmounted
  have hlocked : Race.Run .sample (.start w r) _ := .step .start (.lock (.write 1 2 [7]) opened rfl rfl)
  obtain ⟨s, hs, rfl, hfree, hidle, landed, hhistory⟩ := hlocked.mutates rfl (finishes_freely wrote)
  have hbegun := hs.step (.begin 1 .restore (by rw [hidle]; nofun))
  obtain ⟨s', hs', rfl, hfree', hreturned, hhistory'⟩ := hbegun.unmounts rfl (finishes_freely unmounted)
  obtain ⟨row, h, -⟩ := mutations_end_at_the_fence stored served hs'
  obtain ⟨hrow, detached, hfence⟩ := h.returned .restore _ hreturned record rfl
  cases h.durable.symm.trans hrow
  have hwritten := h.acknowledged
  have hlanded := h.landed
  have hended := h.fence
  rw [hhistory', hhistory] at hwritten hlanded
  rw [hfree'.trans hfree, List.filter_append] at hlanded
  obtain rfl : landed = true := hwritten _ (List.mem_append_right _ (List.mem_singleton_self _)) rfl
  rw [hfence, hlanded] at hended
  refine ⟨_, w, s', record, hs', h, hended, ?_⟩
  rw [h.contents, hlanded]
  change writeEffect 2 [7] r.contents = _
  rw [hempty]
  decide

end FileGuard.Fuse
