import FileGuard.Recovery.Operations

/-! Runs of operations on one path, in any order and cut short anywhere, and the rows they leave behind. -/

namespace FileGuard.Recovery

open Store Files Transaction CrashLogic

inductive Operation where
  | prepare (rounds : ℕ)
  | beginMount
  | updateContents (current : SnapshotRecord) (contents : Bytes)
  | abortMount
  | beginUnmount (rounds : ℕ) (next : UnmountNext)
  | reconcileAfterMountAbsent
  | restore
  | storeOffline
  deriving DecidableEq

namespace Operation

def program (m : Manager) (path : Path) : Operation → TxProg Unit
  | .prepare rounds => (m.prepare rounds path).void
  | .beginMount => (m.beginMount path).void
  | .updateContents current contents => (Transaction.updateContents current contents).void
  | .abortMount => (m.abortMount path).void
  | .beginUnmount rounds next => (m.beginUnmount rounds path next).void
  | .reconcileAfterMountAbsent => m.reconcileAfterMountAbsent path
  | .restore => (m.restore path).void
  | .storeOffline => m.storeOffline path

/-- A mounted write goes through the record of the path. -/
def On (path : Path) : Operation → Prop
  | .updateContents current _ => current.header.pathHex = pathToHex path
  | _ => True

end Operation

variable {S : Site} {w w' : World} {r : SnapshotRecord}

theorem Runs.void {α : Type} {E : Prop} {p : TxProg α} (h : Runs S E p (fun _ w' => Inv S w') w) :
    Runs S E p.void (fun _ w' => Inv S w') w := by
  apply h.andThen
  intro _ w' hi
  exact Runs.pure hi

/-- Every operation keeps the invariant, wherever it starts and wherever it is cut short. -/
theorem runs_program {op : Operation} (hi : Inv S w) (hon : op.On S.path)
    (hclear : op = .storeOffline → Clear S w) :
    Runs S True (op.program S.manager S.path) (fun _ w' => Inv S w') w := by
  cases op with
  | prepare rounds => exact (runs_prepare hi).void
  | beginMount => exact (runs_beginMount hi).void
  | updateContents current contents => exact (runs_updateContents hi hon).void
  | abortMount =>
    cases hstore : w.store S.path with
    | present r =>
      apply Runs.void
      apply (runs_abortMount (k := 0) (now_of_entry hi hstore) (.inl trivial) (.inl trivial)).mono
      rintro next w' ⟨h, -⟩
      exact h.inv
    | _ =>
      unfold Operation.program Manager.abortMount Manager.loadPresent
      apply Runs.void
      apply reads_normalizePath.runs_bind
      apply Runs.bind
      apply (reads_load hi).runs_bind
      rw [hstore]
      exact Runs.fail trivial
  | beginUnmount rounds next => exact (runs_beginUnmount hi).void
  | reconcileAfterMountAbsent =>
    apply (runs_reconcileAfterMountAbsent hi fun _ _ => .inl trivial).mono
    intro _ w' h
    exact h.inv
  | restore =>
    apply Runs.void
    apply (runs_restore hi (fun _ _ => .inl trivial) fun _ _ => .inl trivial).mono
    intro _ w' h
    exact h.inv
  | storeOffline => exact runs_storeOffline hi (hclear rfl)

/-- The coordinator alone on its path: an operation may start when none runs, and a crash of the process may
end it between any two calls. -/
def Site.operations (S : Site) (meets : World → Operation → Prop) : System signature TxError World where
  machine := alone S.host (Fair S.path)
  start w p := ∃ op : Operation, op.On S.path ∧ meets w op ∧ p = op.program S.manager S.path
  crash w w' := w' = w

/-- A path that no transaction has seen yet, with a file or without. -/
structure Fresh (S : Site) (w : World) : Prop where
  entry : w.store S.path = .missing
  last : w.ghost.last S.path = none
  unstaged : ∀ directory name, w.lookup (.staged directory name) = none
  bound : ∀ slot object, w.lookup slot = some object → object < w.next
  stamped : ∀ i, w.file (.at S.path) = some i → Stamped i

theorem Fresh.inv (h : Fresh S w) : Inv S w.settled := by
  have htarget {slot : Slot} {i : Inode} (hv : view S.path w slot = some i) : slot = .at S.path := by
    obtain ⟨object, hl, -, hw⟩ := view_lookup hv
    cases slot with
    | staged directory name =>
      rw [h.unstaged] at hl
      cases hl
    | «at» other => exact congrArg Slot.at hw
  refine ⟨⟨rfl, fun {slot object} hl => h.bound slot object hl, ?_, ?_⟩, ?_⟩
  · intro s t i j hs ht _
    exact (htarget hs).trans (htarget ht).symm
  · intro s i hs
    obtain rfl := htarget hs
    rw [view_settled, view_of_watched watched_at] at hs
    exact h.stamped i hs
  · change Consistent S (w.store S.path) (w.ghost.last S.path) w.directories (view S.path w)
    rw [h.entry, h.last]
    have hempty : Unstaged (view S.path w) := by
      intro d n
      rw [view_eq_none (watched_staged d n)]
      exact h.unstaged d n
    exact ⟨hempty, fun _ hlast => absurd hlast (Option.some_ne_none _).symm⟩

/-- Whatever of these operations has run, wholly or in part, the world is consistent. -/
theorem operations_inv {meets : World → Operation → Prop} (hmeets : ∀ w, meets w .storeOffline → Clear S w)
    {p : Option (TxProg Unit)} (run : System.Reachable (S.operations meets) (Fresh S) p w) : Inv S w.settled := by
  have hinvariant : System.Invariant (S.operations meets) (Fresh S) (fun w => Inv S w.settled)
      (fun w w' => KeepsInv S w.settled w'.settled) := by
    refine ⟨fun w h => h.inv, fun w w' h => h, ?_, ?_, ?_, ?_⟩
    · rintro w _ hi rfl
      exact hi
    · rintro w _ _ rfl rfl
      rfl
    · rintro w _ hi rfl
      exact hi
    · rintro w _ hi ⟨op, hon, hmeet, rfl⟩
      have hruns : Runs S True (op.program S.manager S.path) (fun _ w' => Inv S w') w.settled :=
        runs_program hi hon (fun he => hmeets w (he ▸ hmeet))
      exact wp_mono (wp_alone_of_calm (fun _ _ hc => hc.settled) hruns) fun _ _ _ => trivial
  exact (hinvariant.reachable run).1

/-- No row is ever blocked in a run whose offline stores find no leftovers of an installation. -/
theorem never_blocked {p : Option (TxProg Unit)}
    (run : System.Reachable (S.operations fun w op => op = .storeOffline → Clear S w) (Fresh S) p w)
    (h : w.store S.path = .present r) : r.header.blockedReason = none := by
  have hi := operations_inv (fun w hclear => hclear rfl) run
  exact (now_of_entry (w := w.settled) hi h).sound.unblocked

section sample

set_option maxRecDepth 4000 in
theorem isToken_samples {n : ℕ} {c : Choice} (h : c ∈ Choice.samples n) : isToken c.token := by
  obtain ⟨k, -, rfl⟩ := List.mem_map.mp h
  have hdigits : ∀ d < 240, ((Nat.toDigits 16 (16 + d)).take 2).length = 2 ∧
      ((Nat.toDigits 16 (16 + d)).take 2).all isAsciiHexdigit = true := by decide
  obtain ⟨hlength, hall⟩ := hdigits (k % 240) (Nat.mod_lt _ (by decide))
  constructor
  · rw [String.length_ofList, List.length_append, List.length_replicate, hlength]
  · rw [String.toList_ofList, List.all_append, hall]
    decide

/-- The machine decides fairly, but for the token. -/
def fairly (w : World) (c : Choice) : Bool :=
  decide (0 ≤ c.now.nanoseconds ∧ c.now.nanoseconds < 1000000000) &&
    w.names.entries.all (fun e => decide ((w.objects e.2).number ≠ c.number)) && decide (c.answer = .acknowledged) &&
      decide (c.distrust = none)

theorem fair_of_fairly {path : Path} {c : Choice} (htoken : isToken c.token) (h : fairly w c = true) :
    Fair path w c := by
  unfold fairly at h
  simp only [Bool.and_eq_true, decide_eq_true_eq, List.all_eq_true] at h
  obtain ⟨⟨⟨hnow, hnumber⟩, hanswer⟩, htrusted⟩ := h
  refine ⟨hnow, fun {slot i} hv => ?_, htoken, hanswer, htrusted⟩
  obtain ⟨object, hl, rfl, -⟩ := view_lookup hv
  exact hnumber ⟨slot, object⟩ (AList.mem_lookup_iff.mp hl)

/-- The program cut short after the calls for which the machine's decisions are listed. -/
def fairSteps {ε α : Type} (host : Host) : List Choice → Prog signature ε α → World →
    Option (Prog signature ε α × World)
  | c :: cs, .call o k, w =>
    if fairly w c then fairSteps host cs (k (w.exec host c o).1) (w.exec host c o).2 else none
  | _, p, w => some (p, w)

theorem reachable_fairSteps {meets : World → Operation → Prop} {init : World → Prop} {cs : List Choice}
    {p p' : TxProg Unit} (htokens : ∀ c ∈ cs, isToken c.token)
    (before : System.Reachable (S.operations meets) init (some p) w) (h : fairSteps S.host cs p w = some (p', w')) :
    System.Reachable (S.operations meets) init (some p') w' := by
  induction cs generalizing p w with
  | nil =>
    unfold fairSteps at h
    cases h
    exact before
  | cons c cs ih =>
    obtain ⟨htoken, htokens⟩ := List.forall_mem_cons.mp htokens
    cases p with
    | pure a => cases h; exact before
    | fail e => cases h; exact before
    | call o k =>
      unfold fairSteps at h
      split_ifs at h with hfair
      exact ih htokens (.call before ⟨c, fair_of_fairly htoken hfair, rfl⟩) h

def asks : Op → Bool
  | .load _ | .randomToken | .parentStat | .observe _ | .openFile _ | .fstat _ | .readToEnd _ | .listXattrs _ => true
  | _ => false

theorem exec_asks {host : Host} {c : Choice} {o : Op} (h : asks o = true) : (w.exec host c o).2 = w := by
  cases o with
  | load | openFile =>
    simp only [World.exec]
    split <;> rfl
  | randomToken | parentStat | observe | fstat | readToEnd | listXattrs => rfl
  | _ => cases h

/-- Where a program stands that has only asked so far. -/
def asking {ε α : Type} (host : Host) (w : World) : List Choice → Prog signature ε α → Option (Prog signature ε α)
  | c :: cs, .call o k => if fairly w c && asks o then asking host w cs (k (w.exec host c o).1) else none
  | _, p => some p

theorem reachable_asking {meets : World → Operation → Prop} {init : World → Prop} {cs : List Choice}
    {p p' : TxProg Unit} (htokens : ∀ c ∈ cs, isToken c.token)
    (before : System.Reachable (S.operations meets) init (some p) w) (h : asking S.host w cs p = some p') :
    System.Reachable (S.operations meets) init (some p') w := by
  induction cs generalizing p with
  | nil =>
    unfold asking at h
    cases h
    exact before
  | cons c cs ih =>
    obtain ⟨htoken, htokens⟩ := List.forall_mem_cons.mp htokens
    cases p with
    | pure a => cases h; exact before
    | fail e => cases h; exact before
    | call o k =>
      unfold asking at h
      split_ifs at h with hc
      obtain ⟨hfair, hasks⟩ := Bool.and_eq_true_iff.mp hc
      have hstep : (alone S.host (Fair S.path)).step o w (w.exec S.host c o).1 w :=
        ⟨c, fair_of_fairly htoken hfair, Prod.ext rfl (exec_asks hasks)⟩
      exact ih htokens (.call before hstep) h

theorem exists_fairly {path : Path} {n : ℕ} (h : (Choice.samples n).any (fairly w) = true) : ∃ c, Fair path w c := by
  obtain ⟨c, hmem, hc⟩ := List.any_eq_true.mp h
  exact ⟨c, fair_of_fairly (isToken_samples hmem) hc⟩

/-- A row that the store takes over the entry before it. -/
structure TakenRow (path : Path) where
  before : Entry
  expected : Option RecordVersion
  row : SnapshotRecord
  taken : before.commit path expected row = .ok (.present row)

variable {path : Path} {t : TakenRow path}

def TakenRow.offered {ε α : Type} (t : TakenRow path) : Prog signature ε α → Bool
  | .call (.commit p expected row) _ => p == path && expected == t.expected && row == t.row
  | _ => false

theorem TakenRow.exists_offered {ε α : Type} {p : Prog signature ε α} (h : t.offered p = true) :
    ∃ k, p = .call (.commit path t.expected t.row) k := by
  cases p with
  | call o k =>
    cases o with
    | commit q expected row =>
      simp only [TakenRow.offered, Bool.and_eq_true, beq_iff_eq] at h
      obtain ⟨⟨rfl, rfl⟩, rfl⟩ := h
      exact ⟨k, rfl⟩
    | _ => cases h
  | _ => cases h

theorem TakenRow.exec {host : Host} {c : Choice} (hbefore : w.store path = t.before) (hanswer : c.answer = .acknowledged) :
    w.exec host c (.commit path t.expected t.row) = (.ok t.row.version, w.putEntry path (.present t.row)) := by
  rw [World.exec, World.commitEntry, hbefore, t.taken, hanswer]
  rfl

/-- The row that is offered is taken, and the operation lost in a crash. -/
theorem reachable_taken {t : TakenRow S.path} {meets : World → Operation → Prop} {init : World → Prop}
    {p : TxProg Unit} {c : Choice} (before : System.Reachable (S.operations meets) init (some p) w)
    (hoffered : t.offered p = true) (hc : Fair S.path w c) (hbefore : w.store S.path = t.before) :
    System.Reachable (S.operations meets) init none (w.putEntry S.path (.present t.row)) := by
  obtain ⟨k, rfl⟩ := TakenRow.exists_offered hoffered
  exact .crash (.call before ⟨c, hc, TakenRow.exec hbefore hc.answer⟩) rfl

def Site.sample : Site where
  host := .sample
  manager := ⟨utf8 "/", utf8 "/staging"⟩
  path := utf8 "/key"
  target := ⟨utf8 "/key", utf8 "/", utf8 "key"⟩
  resolves := rfl
  bound := rfl
  device := rfl

/-- An empty file at the path, and nothing else. -/
def World.single : World where
  store := fun _ => .missing
  durable := (∅ : Names).insert (.at Site.sample.path) 0
  pending := []
  objects := fun _ => World.newInode .sample ⟨⟨0, 0⟩, 7, "", .acknowledged, none⟩
  next := 1
  dirty := fun _ => false
  directories := []
  ghost := ⟨fun _ => none, fun _ => [], fun _ => false, fun _ => false⟩

theorem fresh_single : Fresh .sample World.single := by
  have hlookup (slot : Slot) : World.single.lookup slot = if slot = .at Site.sample.path then some 0 else none := by
    exact lookup_assign ∅ _ slot (some 0)
  refine ⟨rfl, rfl, fun d n => ?_, fun slot object hl => ?_, fun i hi => ?_⟩
  · rw [hlookup]
    rfl
  · rw [hlookup] at hl
    split_ifs at hl
    cases hl
    exact Nat.zero_lt_one
  · obtain ⟨object, -, rfl⟩ := Option.map_eq_some_iff.mp hi
    change Stamped (World.newInode .sample ⟨⟨0, 0⟩, 7, "", .acknowledged, none⟩)
    exact ⟨⟨by decide, by decide⟩, ⟨by decide, by decide⟩, by decide, by decide⟩

/-- What is captured of it. -/
def capturedRow : SnapshotRecord where
  header := {
    format := formatVersion
    pathHex := pathToHex Site.sample.path
    generation := "aaaaaaaaaaaaaaaaaaaaaaaaaaaaaa18"
    revision := 1
    lifecycle := .captured
    original := .present ((World.single.objects 0).identity .sample)
      (inodeMetadata .sample (World.single.objects 0))
    logicalPresent := true
    parent := { Host.sample.parent with ctime := ⟨7, 0⟩, mtime := ⟨7, 0⟩ }
    stagingPathHex := pathToHex (utf8 "/staging/aaaaaaaaaaaaaaaaaaaaaaaaaaaaaa18")
    swapName := "swap"
    storedName := "stored"
    placeholder := none
    mountToken := "aaaaaaaaaaaaaaaaaaaaaaaaaaaaaa19"
    contentSha256 := sha256 []
    blockedReason := none }
  contents := []

set_option maxRecDepth 20000 in
def capture : TakenRow Site.sample.path := ⟨.missing, none, capturedRow, rfl⟩

def World.captured : World := World.single.putEntry Site.sample.path (.present capturedRow)

set_option maxRecDepth 20000 in
/-- The row is blocked once the next offline store has found what a restore left. -/
def block : TakenRow Site.sample.path where
  before := .present capturedRow
  expected := some capturedRow.version
  row := { capturedRow with header := { capturedRow.header with
    revision := 2, blockedReason := some "offline staging contains unexpected entries" } }
  taken := rfl

def blocks (p : TxProg Unit) (w : World) : Bool :=
  block.offered p && w.store Site.sample.path == block.before && (Choice.samples 42).any (fairly w) &&
    (Choice.samples 43).any (fairly (w.putEntry Site.sample.path (.present block.row)))

/-- The operation has come to its end, with the file stored. -/
def storedAtEnd (p : TxProg Unit) (w : World) : Bool :=
  match p, w.store Site.sample.path with
  | .pure (), .present r => phaseName r.header.lifecycle == "stored"
  | _, _ => false

/-- What the runs of the sample come to. -/
structure SampleRuns : Prop where
  captured {op : Operation} (h : op = .storeOffline ∨ op = .prepare 1) :
    (asking .sample World.single (Choice.samples 10) (op.program Site.sample.manager Site.sample.path)).any
      capture.offered = true
  blocked : ((fairSteps .sample ((Choice.samples 31).drop 11)
    (Operation.restore.program Site.sample.manager Site.sample.path) World.captured).bind fun x =>
      fairSteps .sample ((Choice.samples 41).drop 31)
        (Operation.storeOffline.program Site.sample.manager Site.sample.path) x.2).any
          (fun x => blocks x.1 x.2) = true
  resumed : (fairSteps .sample ((Choice.samples 41).drop 11)
    (Operation.storeOffline.program Site.sample.manager Site.sample.path) World.captured).any
      (fun x => storedAtEnd x.1 x.2) = true
  cleared : World.captured.entriesOf (stagingOf capturedRow) = []
  room : Room 12 capturedRow

set_option maxRecDepth 20000 in
theorem sampleRuns : SampleRuns where
  captured h := by rcases h with rfl | rfl <;> decide
  blocked := by decide
  resumed := by decide
  cleared := by decide
  room := by decide

theorem fair_single : ∃ c, Fair Site.sample.path World.single c :=
  exists_fairly (show (Choice.samples 1).any (fairly World.single) = true from rfl)

theorem reachable_capturing {meets : World → Operation → Prop} {op : Operation}
    (hop : op = .storeOffline ∨ op = .prepare 1) (hmeets : meets World.single op) :
    System.Reachable (Site.sample.operations meets) (Fresh .sample) none World.captured := by
  obtain ⟨p, hp, hoffered⟩ := (Option.any_eq_true _ _).mp (sampleRuns.captured hop)
  have hon : op.On Site.sample.path := by rcases hop with rfl | rfl <;> trivial
  have hstart : System.Reachable (Site.sample.operations meets) (Fresh .sample)
      (some (op.program Site.sample.manager Site.sample.path)) World.single :=
    .start (.init fresh_single) ⟨op, hon, hmeets, rfl⟩
  obtain ⟨c, hc⟩ := fair_single
  exact reachable_taken (reachable_asking (fun _ => isToken_samples) hstart hp) hoffered hc rfl

/-- A restore that is cut short once its placeholder is built leaves a path that the next offline store
blocks. -/
theorem reachable_leftovers {meets : World → Operation → Prop} (hstore : ∀ w, meets w .storeOffline)
    (hrestore : ∀ w, meets w .restore) : ∃ w c,
      System.Reachable (Site.sample.operations meets) (Fresh .sample) none w ∧
        w.store Site.sample.path = .present block.row ∧ Fair Site.sample.path w c := by
  have hcaptured : System.Reachable (Site.sample.operations meets) (Fresh .sample) none World.captured :=
    reachable_capturing (.inl rfl) (hstore _)
  obtain ⟨⟨p, w⟩, hrun, hblocks⟩ := (Option.any_eq_true _ _).mp sampleRuns.blocked
  obtain ⟨⟨p₁, w₁⟩, hfirst, hsecond⟩ := Option.bind_eq_some_iff.mp hrun
  simp only [blocks, Bool.and_eq_true, beq_iff_eq] at hblocks
  obtain ⟨⟨⟨hoffered, hbefore⟩, hfair⟩, hafter⟩ := hblocks
  obtain ⟨c, hc⟩ := exists_fairly hfair
  obtain ⟨c', hc'⟩ := exists_fairly hafter
  have htokens {n k : ℕ} : ∀ c ∈ (Choice.samples n).drop k, isToken c.token :=
    fun _ hc => isToken_samples (List.mem_of_mem_drop hc)
  have hinterrupted : System.Reachable (Site.sample.operations meets) (Fresh .sample) (some p₁) w₁ :=
    reachable_fairSteps htokens (.start hcaptured ⟨.restore, trivial, hrestore _, rfl⟩) hfirst
  have hstoring : System.Reachable (Site.sample.operations meets) (Fresh .sample) (some p) w :=
    reachable_fairSteps htokens (.start (.crash hinterrupted rfl) ⟨.storeOffline, trivial, hstore _, rfl⟩) hsecond
  exact ⟨_, c', reachable_taken hstoring hoffered hc hbefore, putEntry_store _, hc'⟩

theorem never_blocked_leftover : ∃ w r,
    System.Reachable (Site.sample.operations fun _ _ => True) (Fresh .sample) none w ∧
      w.store Site.sample.path = .present r ∧
        r.header.blockedReason = some "offline staging contains unexpected entries" := by
  obtain ⟨w, c, run, hstore, -⟩ := @reachable_leftovers (fun _ _ => True) (fun _ => trivial) fun _ => trivial
  exact ⟨w, block.row, run, hstore, rfl⟩

theorem reachable_captured : ∃ w r,
    System.Reachable (Site.sample.operations fun w op => op = .storeOffline → Clear .sample w) (Fresh .sample)
      none w ∧ w.store Site.sample.path = .present r ∧ Room 12 r := by
  exact ⟨World.captured, capturedRow, reachable_capturing (.inr rfl) nofun, putEntry_store _, sampleRuns.room⟩

/-- An offline store that is cut short once its file is captured is resumed by the next one, and ends with the file
stored. -/
theorem never_blocked_resumed : ∃ (w : World) (r : SnapshotRecord),
    fairSteps .sample ((Choice.samples 41).drop 11)
        (Operation.storeOffline.program Site.sample.manager Site.sample.path) World.captured = some (.pure (), w) ∧
      System.Reachable (Site.sample.operations fun w op => op = .storeOffline → Clear .sample w) (Fresh .sample) none w ∧
        w.store Site.sample.path = .present r ∧ phaseName r.header.lifecycle = "stored" ∧
          r.header.blockedReason = none := by
  have hcaptured : System.Reachable (Site.sample.operations fun w op => op = .storeOffline → Clear .sample w)
      (Fresh .sample) none World.captured :=
    reachable_capturing (.inl rfl) fun _ r hr => by cases hr
  have hclear : Clear .sample World.captured := by
    intro r hr _ _
    cases (putEntry_store _).symm.trans hr
    exact sampleRuns.cleared
  obtain ⟨⟨p, w⟩, hsteps, hend⟩ := (Option.any_eq_true _ _).mp sampleRuns.resumed
  have hresumed := reachable_fairSteps (fun c hc => isToken_samples (List.mem_of_mem_drop hc))
    (.start hcaptured ⟨.storeOffline, trivial, fun _ => hclear, rfl⟩) hsteps
  cases p with
  | pure =>
    have hdone := System.Reachable.done hresumed
    unfold storedAtEnd at hend
    cases hstore : w.store Site.sample.path with
    | present r =>
      rw [hstore] at hend
      exact ⟨w, r, hsteps, hdone, hstore, beq_iff_eq.mp hend, never_blocked hdone hstore⟩
    | _ => rw [hstore] at hend; cases hend
  | _ => cases hend

end sample

end FileGuard.Recovery
