import FileGuard.Fuse.Shared
import FileGuard.Transaction.StoreSteps
import Mathlib.Data.List.GetD

namespace FileGuard.Fuse

open Store Files Transaction CrashLogic

/-- The reference file: a write zero-extends to its end and overwrites its range. -/
def writeEffect (offset : ℕ) (data file : Bytes) : Bytes :=
  (List.range (max file.length (offset + data.length))).map fun i =>
    if offset ≤ i ∧ i < offset + data.length then data.getD (i - offset) 0 else file.getD i 0

/-- The reference file: a truncate cuts or zero-extends. -/
def truncateEffect (size : ℕ) (file : Bytes) : Bytes := (List.range size).map fun i => file.getD i 0

theorem getElem_resize (file : Bytes) (size i : ℕ) (h : i < (resize file size).length) :
    (resize file size)[i] = file.getD i 0 := by
  simp only [resize] at h ⊢
  rw [List.getElem_append]
  split_ifs with hi
  · rw [List.length_take] at hi
    rw [List.getElem_take, List.getD_eq_getElem _ _ (by omega)]
  · rw [List.length_take] at hi
    simp only [List.length_append, List.length_take, List.length_replicate] at h
    rw [List.getElem_replicate, List.getD_eq_default _ _ (by omega)]

theorem length_resize (file : Bytes) (size : ℕ) : (resize file size).length = size := by
  simp only [resize, List.length_append, List.length_take, List.length_replicate]
  omega

theorem resize_eq (file : Bytes) (size : ℕ) : resize file size = truncateEffect size file := by
  refine List.ext_getElem (by simp [length_resize, truncateEffect]) fun i h _ => ?_
  rw [getElem_resize file size i h]
  simp [truncateEffect]

theorem length_grown (file : Bytes) (stop : ℕ) : (grown file stop).length = max file.length stop := by
  unfold grown
  split_ifs with h
  · rw [length_resize]; omega
  · omega

theorem getElem_grown (file : Bytes) (stop i : ℕ) (h : i < (grown file stop).length) :
    (grown file stop)[i] = file.getD i 0 := by
  unfold grown at h ⊢
  split_ifs with hs
  · simp only [hs, ↓reduceIte] at h
    exact getElem_resize file stop i h
  · simp only [hs, ↓reduceIte] at h
    rw [List.getD_eq_getElem _ _ h]

theorem copyInto_grown (file data : Bytes) (offset : ℕ) :
    copyInto (grown file (offset + data.length)) offset (offset + data.length) data =
      some (writeEffect offset data file) := by
  have hl := length_grown file (offset + data.length)
  have hc : offset ≤ offset + data.length ∧
      offset + data.length ≤ (grown file (offset + data.length)).length ∧
      data.length = offset + data.length - offset := by omega
  rw [copyInto, if_pos hc]
  congr 1
  refine List.ext_getElem ?_ fun i h h' => ?_
  · simp [writeEffect, hl]
    omega
  · have hi : i < (grown file (offset + data.length)).length := by
      simp [writeEffect] at h'
      omega
    simp only [writeEffect, List.getElem_map, List.getElem_range]
    rw [← getElem_grown file _ i hi, List.getElem_append]
    split_ifs with hleft hin hin
    · rw [List.getElem_append_right (by simp; omega), List.getD_eq_getElem _ _ (by omega)]
      congr 1
      simp
      omega
    · simp only [List.length_append, List.length_take] at hleft
      rw [List.getElem_append_left (by simp; omega), List.getElem_take]
    · simp only [List.length_append, List.length_take] at hleft
      omega
    · simp only [List.length_append, List.length_take] at hleft
      rw [List.getElem_drop]
      congr 1
      simp
      omega

structure Mounted where
  world : World
  shared : Shared

inductive Mutation where
  | write (fh offset : UInt64) (data : Bytes)
  | truncate (newSize : UInt64)

namespace Mutation

def prog (shared : Shared) : Mutation → MutationProg Shared
  | .write fh offset data => do
    let (_, shared) ← shared.applyWrite fh offset data
    return shared
  | .truncate newSize => shared.applyTruncate newSize

def effect : Mutation → Bytes → Bytes
  | .write _ offset data => writeEffect offset.toNat data
  | .truncate newSize => truncateEffect newSize.toNat

end Mutation

/-- One mutation, from taking the mutation lock to giving it back, with any answers of the store. Files
may have been opened and released since the last one. -/
inductive Mutates (host : Host) (s : Mounted) (m : Mutation) : Except MutationError Unit → Mounted → Prop where
  | intro (opened : Shared) (published : opened.content = s.shared.content)
      (result : Except MutationError Shared) (w : World)
      (ran : Finishes (alone host fun _ _ => True) (m.prog opened) s.world result w) :
      Mutates host s m (result.map fun _ => ()) ⟨w, result.toOption.getD opened⟩

structure Event where
  mutation : Mutation
  verdict : Except MutationError Unit
  /-- whether the durable row changed -/
  landed : Bool

/-- A sequence of mutations in the order in which they win the lock. -/
inductive Mutations (host : Host) (p : Path) (start : Mounted) : List Event → Mounted → Prop where
  | nil : Mutations host p start [] start
  | snoc {trace : List Event} {s s' : Mounted} {m : Mutation} {verdict : Except MutationError Unit}
      (before : Mutations host p start trace s) (step : Mutates host s m verdict s') :
      Mutations host p start
        (trace ++ [⟨m, verdict, decide (s'.world.store p ≠ s.world.store p)⟩]) s'

def isUncertain : Except MutationError Unit → Bool
  | .error (.commit error) => isIndeterminate error
  | _ => false

def landed (trace : List Event) : List Mutation := (trace.filter (·.landed)).map (·.mutation)

/-- The outcome of a mutation: refused before the store is asked, or what the store made of it. -/
inductive Outcome (p : Path) (shared : Shared) (m : Mutation) (w : World) :
    Except MutationError Shared → World → Prop where
  | invalid (errno : FuseErrno) : Outcome p shared m w (.error (.invalid errno)) w
  | failed (error : TxError) (w' : World)
      (updated : Updated p shared.content (m.effect shared.content.contents) w (.error error) w') :
      Outcome p shared m w (.error (.commit error)) w'
  | ok (next : SnapshotRecord) (w' : World)
      (updated : Updated p shared.content (m.effect shared.content.contents) w (.ok next) w') :
      Outcome p shared m w (.ok { shared with content := next }) w'

variable {host : Host} {allowed : World → Choice → Prop} {p : Path} {shared : Shared} {w : World}

theorem commitContents_spec {m : Mutation} (hp : shared.content.header.pathHex = pathToHex p) :
    wp (alone host allowed) (fun _ _ => True)
      (shared.commitContents (m.effect shared.content.contents)) (Outcome p shared m w) w := by
  unfold Shared.commitContents
  rw [Prog.bind_eq, wp_bind, wp_mapError]
  refine wp_mono (updateContents_spec hp) ?_
  intro r w' h
  cases r with
  | error error => exact .failed error w' h
  | ok next => exact .ok next w' h

theorem checkedWriteEnd_eq_ok {offset : UInt64} {length stop : ℕ}
    (h : checkedWriteEnd offset length = .ok stop) : stop = offset.toNat + length := by
  simp only [checkedWriteEnd] at h
  split_ifs at h
  cases h
  rfl

theorem mutation_spec {m : Mutation} (hp : shared.content.header.pathHex = pathToHex p) :
    wp (alone host allowed) (fun _ _ => True) (m.prog shared) (Outcome p shared m w) w := by
  have hcommit : wp (alone host allowed) (fun _ _ => True)
      (shared.commitContents (m.effect shared.content.contents)) (Outcome p shared m w) w :=
    commitContents_spec hp
  cases m with
  | truncate newSize =>
    simp only [Mutation.prog, Shared.applyTruncate]
    split_ifs
    · exact .invalid _
    · rwa [Mutation.effect, ← resize_eq] at hcommit
  | write fh offset data =>
    simp only [Mutation.prog, Shared.applyWrite, Prog.bind_eq]
    rw [wp_bind]
    split
    · cases hc : checkedWriteEnd offset data.length with
      | error errno => exact .invalid _
      | ok stop =>
        cases checkedWriteEnd_eq_ok hc
        simp only [copyInto_grown]
        rw [wp_bind]
        refine wp_mono hcommit ?_
        intro r w' h
        cases r with
        | error error => exact h
        | ok next => exact h
    · exact .invalid _

theorem mutates_cases {s s' : Mounted} {m : Mutation} {verdict : Except MutationError Unit}
    (hp : s.shared.content.header.pathHex = pathToHex p) (h : Mutates host s m verdict s') :
    ∃ opened result w, opened.content = s.shared.content ∧ Outcome p opened m s.world result w ∧
      verdict = result.map (fun _ => ()) ∧ s' = ⟨w, result.toOption.getD opened⟩ := by
  obtain ⟨opened, published, result, w, ran⟩ := h
  rw [← published] at hp
  exact ⟨opened, result, w, published, wp_finishes (mutation_spec hp) ran, rfl, rfl⟩

/-- The durable row and the published record: the same one, or an older one that no commit accepts. -/
structure Coherent (p : Path) (s : Mounted) (row : SnapshotRecord) : Prop where
  durable : s.world.store p = .present row
  valid : validateSnapshot row = .ok ()
  rowBound : row.header.pathHex = pathToHex p
  bound : s.shared.content.header.pathHex = pathToHex p
  published : s.shared.content = row ∨ s.shared.content.header.revision < row.header.revision
  short : s.shared.content.contents.length ≤ maxContentLen

theorem accepted_row {current : SnapshotRecord} {contents : Bytes} {row : SnapshotRecord}
    (hrow : w.store p = .present row)
    (h : (w.store p).commit p (some current.version) (mountedSuccessor current contents) =
      .ok (.present (mountedSuccessor current contents))) :
    row.version = current.version ∧ validateSnapshot (mountedSuccessor current contents) = .ok () := by
  rw [hrow] at h
  obtain ⟨row', hr, hversion, -⟩ := commit_present h
  cases hr
  unfold Entry.commit at h
  exact ⟨hversion, (validateSuccessor_snapshot (check_eq_ok.mp h).1).1⟩

theorem length_le_of_validateSnapshot {row : SnapshotRecord} (h : validateSnapshot row = .ok ()) :
    row.contents.length ≤ maxContentLen := (validateSnapshot_facts h).length

/-- What one mutation does to the row, by its verdict. -/
structure Steps (p : Path) (m : Mutation) (s : Mounted) (row : SnapshotRecord)
    (verdict : Except MutationError Unit) (s' : Mounted) (row' : SnapshotRecord) : Prop where
  coherent : Coherent p s' row'
  effect : row' = row ∧ s'.shared.content = s.shared.content ∨
    row'.header.revision = row.header.revision + 1 ∧ row'.contents = m.effect row.contents ∧
      s.shared.content = row
  acknowledged : verdict = .ok () → row' ≠ row ∧ s'.shared.content = row'
  failed : verdict ≠ .ok () → s'.shared.content = s.shared.content ∧ (isUncertain verdict = false → row' = row)
  inRange : verdict ≠ .error .panicked

theorem Coherent.landed {s : Mounted} {m : Mutation} {row : SnapshotRecord}
    (h : Coherent p s row)
    (accepted : (s.world.store p).commit p (some s.shared.content.version)
      (mountedSuccessor s.shared.content (m.effect s.shared.content.contents)) =
        .ok (.present (mountedSuccessor s.shared.content (m.effect s.shared.content.contents)))) :
    s.shared.content = row ∧
      validateSnapshot (mountedSuccessor row (m.effect row.contents)) = .ok () := by
  obtain ⟨hversion, hvalid⟩ := accepted_row h.durable accepted
  rcases h.published with hpub | hlt
  · rw [hpub] at hvalid
    exact ⟨hpub, hvalid⟩
  · have : row.header.revision = s.shared.content.header.revision := congrArg RecordVersion.revision hversion
    omega

theorem Coherent.mutates {s s' : Mounted} {m : Mutation} {verdict : Except MutationError Unit}
    {row : SnapshotRecord} (h : Coherent p s row) (step : Mutates host s m verdict s') :
    ∃ row', Steps p m s row verdict s' row' := by
  obtain ⟨opened, result, w', hopened, outcome, rfl, rfl⟩ := mutates_cases h.bound step
  have hfailed (error : MutationError) (hne : error ≠ .panicked) :
      ∃ row', Steps p m s row (.error error) ⟨s.world, opened⟩ row' := by
    refine ⟨row, ⟨h.durable, h.valid, h.rowBound, ?_, ?_, ?_⟩, .inl ⟨rfl, hopened⟩, nofun,
      fun _ => ⟨hopened, fun _ => rfl⟩, fun hv => hne (Except.error.inj hv)⟩
    · rw [hopened]; exact h.bound
    · rw [hopened]; exact h.published
    · rw [hopened]; exact h.short
  have hdurable : (s.world.putEntry p (.present (mountedSuccessor row (m.effect row.contents)))).store p =
      .present (mountedSuccessor row (m.effect row.contents)) := Function.update_self ..
  have hnext : mountedSuccessor row (m.effect row.contents) ≠ row := fun he =>
    absurd (congrArg (fun r => r.header.revision) he) (by simp [mountedSuccessor, SnapshotRecord.successor])
  cases outcome with
  | invalid errno => exact hfailed _ nofun
  | failed error w' updated =>
    rw [hopened] at updated
    cases updated with
    | failed error w' same => subst same; exact hfailed _ nofun
    | uncertain error w' indeterminate accepted committed =>
      obtain ⟨hpub, hvalid⟩ := h.landed accepted
      rw [hpub] at committed hopened
      subst committed
      refine ⟨_, ⟨hdurable, hvalid, h.rowBound, ?_, ?_, ?_⟩, .inr ⟨rfl, rfl, hpub⟩, nofun,
        fun _ => ⟨hopened.trans hpub.symm, fun hu => ?_⟩, nofun⟩
      · exact hopened ▸ h.rowBound
      · exact .inr (hopened ▸ Nat.lt_succ_self _)
      · rw [← hopened] at h; exact length_le_of_validateSnapshot h.valid
      · exact absurd (show isIndeterminate error = false from hu) (by simp [indeterminate])
  | ok next w' updated =>
    rw [hopened] at updated
    cases updated with
    | acknowledged w' accepted committed =>
      obtain ⟨hpub, hvalid⟩ := h.landed accepted
      rw [hpub] at committed ⊢
      subst committed
      exact ⟨_, ⟨hdurable, hvalid, h.rowBound, h.rowBound, .inl rfl, length_le_of_validateSnapshot hvalid⟩,
        .inr ⟨rfl, rfl, hpub⟩, fun _ => ⟨hnext, rfl⟩, fun hv => absurd rfl hv, nofun⟩

/-- A run of mutations against its reference file: `row` is the durable row at its end. -/
structure Linearized (host : Host) (p : Path) (start : Mounted) (trace : List Event) (s : Mounted)
    (row : SnapshotRecord) : Prop where
  coherent : Coherent p s row
  revision : row.header.revision = start.shared.content.header.revision + (landed trace).length
  contents : row.contents =
    (landed trace).foldl (fun file m => m.effect file) start.shared.content.contents
  acknowledged : ∀ e ∈ trace, e.verdict = .ok () → e.landed = true
  failed : ∀ e ∈ trace, e.landed = true → e.verdict = .ok () ∨ isUncertain e.verdict = true
  inRange : ∀ e ∈ trace, e.verdict ≠ .error .panicked
  /-- the published record was durable before the mutations since then, and then only uncertain ones
  have landed -/
  published : ∃ before after s₀, trace = before ++ after ∧ Mutations host p start before s₀ ∧
    s₀.world.store p = .present s.shared.content ∧
    ∀ e ∈ after, e.landed = true → isUncertain e.verdict = true

theorem landed_snoc (trace : List Event) (e : Event) :
    landed (trace ++ [e]) = landed trace ++ if e.landed then [e.mutation] else [] := by
  simp only [landed, List.filter_append, List.map_append]
  congr 1
  cases h : e.landed <;> simp [h]

variable {start : Mounted}

theorem Coherent.linearized (h : Coherent p start start.shared.content) :
    Linearized host p start [] start start.shared.content where
  coherent := h
  revision := rfl
  contents := rfl
  acknowledged := by simp
  failed := by simp
  inRange := by simp
  published := ⟨[], [], start, rfl, .nil, h.durable, by simp⟩

theorem Linearized.snoc {trace : List Event} {s s' : Mounted} {m : Mutation}
    {verdict : Except MutationError Unit} {row : SnapshotRecord} (run : Mutations host p start trace s)
    (h : Linearized host p start trace s row) (step : Mutates host s m verdict s') :
    ∃ row', Steps p m s row verdict s' row' ∧ Linearized host p start
      (trace ++ [⟨m, verdict, decide (s'.world.store p ≠ s.world.store p)⟩]) s' row' := by
  obtain ⟨row', hs⟩ := h.coherent.mutates step
  have hrun := Mutations.snoc run step
  have hdecide : decide (s'.world.store p ≠ s.world.store p) = decide (row' ≠ row) := by
    rw [hs.coherent.durable, h.coherent.durable]
    simp
  rw [hdecide] at hrun ⊢
  have hevents {q : Event → Prop} (htrace : ∀ e ∈ trace, q e)
      (hlast : q ⟨m, verdict, decide (row' ≠ row)⟩) :
      ∀ e ∈ trace ++ [⟨m, verdict, decide (row' ≠ row)⟩], q e :=
    List.forall_mem_append.mpr ⟨htrace, List.forall_mem_singleton.mpr hlast⟩
  have hfailed (hv : verdict ≠ .ok ()) (hl : decide (row' ≠ row) = true) : isUncertain verdict = true := by
    by_contra hu
    exact of_decide_eq_true hl ((hs.failed hv).2 (by simpa using hu))
  refine ⟨row', hs, hs.coherent, ?_, ?_, hevents h.acknowledged ?_, hevents h.failed ?_,
    hevents h.inRange hs.inRange, ?_⟩
  · rw [landed_snoc]
    rcases hs.effect with ⟨rfl, -⟩ | ⟨hrev, -, -⟩
    · simpa using h.revision
    · have hne : row' ≠ row := by rintro rfl; omega
      simp [hne, hrev, h.revision]
      omega
  · rw [landed_snoc]
    rcases hs.effect with ⟨rfl, -⟩ | ⟨hrev, hcontents, -⟩
    · simpa using h.contents
    · have hne : row' ≠ row := by rintro rfl; omega
      simp [hne, hcontents, h.contents]
  · exact fun hv => decide_eq_true (hs.acknowledged hv).1
  · intro hl
    by_cases hv : verdict = .ok ()
    · exact .inl hv
    · exact .inr (hfailed hv hl)
  · by_cases hv : verdict = .ok ()
    · refine ⟨_, [], s', by simp, hrun, ?_, by simp⟩
      rw [(hs.acknowledged hv).2]
      exact hs.coherent.durable
    · obtain ⟨before, after, s₀, rfl, hbefore, hstore, hafter⟩ := h.published
      refine ⟨before, after ++ [⟨m, verdict, decide (row' ≠ row)⟩], s₀, by simp, hbefore, ?_, ?_⟩
      · rw [(hs.failed hv).1]; exact hstore
      · exact List.forall_mem_append.mpr ⟨hafter, List.forall_mem_singleton.mpr (hfailed hv)⟩

theorem Mutations.linearized {trace : List Event} {s : Mounted} (h : Coherent p start start.shared.content)
    (run : Mutations host p start trace s) : ∃ row, Linearized host p start trace s row := by
  induction run with
  | nil => exact ⟨_, h.linearized⟩
  | snoc before step ih =>
    obtain ⟨row, hl⟩ := ih
    obtain ⟨row', -, hl'⟩ := hl.snoc before step
    exact ⟨row', hl'⟩

theorem new_spec {m : Manager} {watched : Path} {r : ResolvedPath}
    (resolved : ResolvedPath.new m.cwd watched = .ok r) (stored : (w.store r.path).Valid r.path) :
    wp (alone host allowed) (fun _ _ => True) (Shared.new m watched)
      (fun result w' => ∀ shared, result = .ok shared → Coherent r.path ⟨w', shared⟩ shared.content) w := by
  unfold Shared.new Manager.normalizePath Manager.resolve load storeLoad
  simp only [resolved, Except.mapError, Prog.bind_eq, Prog.ofExcept_ok, Prog.pure_bind, Prog.pure_eq]
  rw [wp_bind, wp_bind]
  refine wp_perform_alone.mpr fun c _ => ⟨trivial, ?_⟩
  rcases exec_load c r.path with ⟨message, he⟩ | he
  · rw [he]
    intro shared h
    cases h
  · rw [he]
    simp only [onOk_ok, ofStore_ok, wp_pure]
    cases hs : w.store r.path with
    | missing => intro shared h; cases h
    | finalizing marker => intro shared h; cases h
    | present record =>
      simp only
      split
      · intro shared h; cases h
      · rintro shared ⟨⟩
        rw [hs] at stored
        exact ⟨hs, stored.1, stored.2.1, stored.2.1, .inl rfl, length_le_of_validateSnapshot stored.1⟩
      · intro shared h; cases h

/-- Mounted mutations are linearizable, and the record is published after its durable commit: the durable
contents are the fold of what landed, every acknowledged mutation is one revision with the reference
effect, and a published record that is not the durable row any more fences every later mutation. -/
theorem mutations_linearize {m : Manager} {watched : Path} {r : ResolvedPath} {w₀ : World}
    {s : Mounted} {trace : List Event} (resolved : ResolvedPath.new m.cwd watched = .ok r)
    (stored : (w₀.store r.path).Valid r.path)
    (served : Finishes (alone host fun _ _ => True) (Shared.new m watched) w₀ (.ok start.shared) start.world)
    (run : Mutations host r.path start trace s) :
    ∃ row, Linearized host r.path start trace s row ∧
      ∀ mutation verdict s', Mutates host s mutation verdict s' →
        ∃ row', Steps r.path mutation s row verdict s' row' := by
  have hstart : Coherent r.path start start.shared.content :=
    wp_finishes (new_spec resolved stored) served _ rfl
  obtain ⟨row, h⟩ := run.linearized hstart
  refine ⟨row, h, fun mutation verdict s' step => ?_⟩
  obtain ⟨row', hs, -⟩ := h.snoc run step
  exact ⟨row', hs⟩

/-- A daemon that serves an absent path acknowledges its first write. -/
theorem mutations_linearize_first_write : ∃ start s event row,
    Linearized .sample (utf8 "/a") start [event] s row ∧
      event.mutation = .write 1 2 [7] ∧ event.verdict = .ok () ∧ s.shared.content.contents = [0, 0, 7] := by
  let m : Manager := ⟨Host.sample.cwd, Host.sample.stagingRoot⟩
  let path : Path := utf8 "/a"
  let w₀ : World := { World.sample with store := fun _ => .present (sampleRecord (utf8 "/a")) }
  let opened (shared : Shared) : Shared := { shared with handles := fun _ => some ⟨.write, false⟩ }
  let written : Shared → World → Bool := fun shared _ => shared.content.contents == [0, 0, 7]
  let writes : Shared → World → Bool := fun shared w =>
    (execute .sample (Choice.samples 1) ((Mutation.write 1 2 [7]).prog (opened shared)) w).any
      fun r => r.1.toOption.any (written · r.2)
  have hvalid : (w₀.store path).Valid path := by decide +kernel
  have hserves : (execute .sample (Choice.samples 1) (Shared.new m path) w₀).any
      (fun r => r.1.toOption.any (writes · r.2)) = true := by decide +kernel
  obtain ⟨shared, w, served, hwrites⟩ := finishes_ok_of_execute writes hserves
  obtain ⟨shared', w', ran, hwritten⟩ := finishes_ok_of_execute written hwrites
  have resolved : ResolvedPath.new m.cwd path = .ok ⟨path, utf8 "/", utf8 "a"⟩ := by
    decide +kernel
  let start : Mounted := ⟨w, shared⟩
  have step : Mutates .sample start (.write 1 2 [7]) (.ok ()) ⟨w', shared'⟩ :=
    .intro (opened shared) rfl (.ok shared') w' ran
  obtain ⟨row, h, -⟩ := mutations_linearize resolved hvalid served (.snoc .nil step)
  exact ⟨start, _, _, row, h, rfl, rfl, eq_of_beq hwritten⟩

end FileGuard.Fuse
