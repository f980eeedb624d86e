import FileGuard.Recovery.Commits
import FileGuard.Recovery.Names

/-! What the phases share: the staging directory of a row, an entry that is kept or built anew, and the
rename between the path and a staged name. -/

namespace FileGuard.Recovery

open Store Files Transaction CrashLogic

variable {S : Site} {w w' : World} {r : SnapshotRecord} {E : Prop} {v : View}

theorem reads_ofIo {α : Type} {p : FileProg α} {a : α} (h : Reads S p (.ok a) w) :
    Reads S (ofIo p) (.ok a) w := h.mapError

theorem reads_ofIo_error {α : Type} {p : FileProg α} {e : IoError} (h : Reads S p (.error e) w) :
    Reads S (ofIo p) (.error (.io e)) w := h.mapError

theorem reads_resolve : Reads S (S.manager.resolve S.path) (.ok S.target) w := by
  unfold Manager.resolve
  rw [S.resolves]
  exact .pure _

theorem reads_normalizePath : Reads S (S.manager.normalizePath S.path) (.ok S.path) w := by
  refine reads_resolve.bind ?_
  rw [S.bound]
  exact .pure _

theorem reads_resolveBoundPath (hi : Inv S w) (hs : Sound S r) :
    Reads S (S.manager.resolveBoundPath S.path r) (.ok S.target) w := by
  refine reads_resolve.bind (wp_bind.mpr (reads_parentIdentity hi fun t _ => ?_))
  obtain ⟨t', ht'⟩ := hs.parent
  have hsame : sameObject { S.host.parent with ctime := t, mtime := t } r.header.parent = true := by
    simp [ht', sameObject]
  rw [onOk_ok, hsame, if_pos rfl]
  exact ⟨rfl, rfl⟩

theorem Sound.pathFromHex_staging (hs : Sound S r) :
    pathFromHex r.header.stagingPathHex = .ok (stagingOf r) := by
  rw [hs.staging, pathFromHex_pathToHex]

theorem Sound.token (hs : Sound S r) : isToken r.header.generation :=
  isToken_of_validateToken (validateSnapshot_facts hs.valid).generation

theorem PlannedDirectory.normal {generation : String} {directory : Path} (h : PlannedDirectory generation directory)
    (htoken : isToken generation) : directory.Normal := by
  obtain ⟨parts, hparts, hd⟩ := h
  have hp := proper_token htoken
  refine ⟨parts ++ [utf8 generation], fun part h => ?_, ?_⟩
  · rcases List.mem_append.mp h with h | h
    · exact hparts part h
    · rw [List.mem_singleton.mp h]
      exact hp
  · rw [hd, Path.join_render parts _ hparts hp]

theorem Sound.normal (hs : Sound S r) : Path.Normal (stagingOf r) := hs.planned.normal hs.token

theorem Sound.device (hs : Sound S r) : r.header.parent.device = S.host.device := by
  obtain ⟨t, ht⟩ := hs.parent
  rw [ht]
  exact S.device

theorem reads_openDirectory (hi : Inv S w) {directory : Path} (hd : directory ∈ w.directories) :
    Reads S (openDirectory directory S.host.device) (.ok ()) w := by
  refine reads_lift (.perform hi fun c hc => ?_)
  have hancestors : World.validateTrustedAncestors S.host c directory = .ok () := by
    rw [World.validateTrustedAncestors, hc.trusted]
  have hprivate : World.validatePrivateDirectory S.host c directory S.host.device = .ok () := by
    rw [World.validatePrivateDirectory, hc.trusted, if_neg (by simp)]
  simp only [World.exec, hancestors, hprivate, hd, ↓reduceIte, true_and]
  exact hi.sane.settled

theorem reads_openStaging (hi : Inv S w) (hs : Sound S r) (hd : stagingOf r ∈ w.directories) :
    Reads S (S.manager.openStaging r) (.ok ⟨stagingOf r⟩) w := by
  unfold Manager.openStaging
  rw [hs.pathFromHex_staging, hs.device]
  refine Reads.bind (.pure _) (reads_ofIo (Reads.bind ?_ ((reads_openDirectory hi hd).bind (.pure _))))
  rw [absoluteLexical_normal hs.normal]
  exact .pure _

theorem Sound.parent_staging (hs : Sound S r) :
    ∃ root, Path.parent (stagingOf r) = some root ∧ Path.Normal root ∧
      Path.join root (utf8 r.header.generation) = stagingOf r := by
  obtain ⟨parts, hparts, hd⟩ := hs.planned
  refine ⟨Path.render parts, ?_, ⟨parts, hparts, rfl⟩, hd.symm⟩
  rw [hd, Path.parent_join_render parts _ hparts (proper_token hs.token)]

theorem Consistent.mono {entry : Entry} {last : Option SnapshotRecord} {directories more : List Path}
    (h : Consistent S entry last directories v) (hle : ∀ d ∈ directories, d ∈ more) :
    Consistent S entry last more v := by
  cases entry with
  | missing => exact h
  | present r => exact ⟨h.1, h.2.1, h.2.2.1, h.2.2.2.imp_right (hle _)⟩
  | finalizing marker =>
    obtain ⟨r, final, hs, hl, hm, hv, hf, hd⟩ := h
    exact ⟨r, final, hs, hl, hm, hv, hf, hle _ hd⟩

theorem runs_createDirectory (hi : Inv S w) (directory : Path) :
    Runs S E (createDirectory directory S.host.device)
      (fun _ w' => Inv S w' ∧ w'.store = w.store ∧ w'.ghost = w.ghost ∧
        view S.path w' = view S.path w ∧ directory ∈ w'.directories) w := by
  refine Runs.lift (Runs.perform fun c hfair => ?_)
  have hroot : World.validateRoot S.host c directory S.host.device = .ok () := by
    simp [World.validateRoot, World.validateTrustedAncestors, World.validatePrivateDirectory, hfair.trusted, bind, Except.bind]
  simp only [World.exec, hroot]
  have hc : Consistent S (w.store S.path) (w.ghost.last S.path) (if directory ∈ w.directories then
      w.directories else directory :: w.directories) (view S.path w) :=
    hi.consistent.mono fun d hd => by split_ifs <;> simp [hd]
  refine ⟨⟨⟨rfl, fun h => hi.sane.bound h, hi.sane.tidy⟩, hc⟩, (), trivial, ⟨⟨rfl, fun h => hi.sane.bound h,
    hi.sane.tidy⟩, hc⟩, rfl, rfl, rfl, ?_⟩
  change directory ∈ if directory ∈ w.directories then w.directories else directory :: w.directories
  split_ifs with h <;> simp [h]

theorem runs_createStaging (hi : Inv S w) (hs : Sound S r) :
    Runs S E (S.manager.createStaging r)
      (fun staging w' => staging = ⟨stagingOf r⟩ ∧ Inv S w' ∧ w'.store = w.store ∧ w'.ghost = w.ghost ∧
        view S.path w' = view S.path w ∧ stagingOf r ∈ w'.directories) w := by
  unfold Manager.createStaging StagingArea.create
  obtain ⟨root, hparent, hnormal, hjoin⟩ := hs.parent_staging
  have htoken : requireToken r.header.generation = .ok () := if_pos hs.token
  rw [hs.pathFromHex_staging, hs.device, htoken]
  simp only [ofStore_ok, Prog.bind_eq, Prog.pure_bind, hparent, orMessage, Option.elim_some,
    absoluteLexical_normal hnormal, Prog.ofExcept_ok, hjoin]
  refine Runs.mapError ((runs_createDirectory hi _).andThen ?_)
  rintro _ w' ⟨hi', hst, hg, hv, hd⟩
  exact Runs.pure ⟨rfl, hi', hst, hg, hv, hd⟩

section verify

variable {s : StagingArea} {name : String} {i : Inode}

theorem reads_readFile (hi : Inv S w) (hn : EntryName name) (hv : view S.path w (s.slot name) = some i)
    (hp : Plain i) : Reads S (s.readFile name) (.ok (fileOf S i)) w := by
  unfold StagingArea.readFile
  rw [hn.entryName]
  exact Reads.bind (.pure _) (reads_readFileAt hi hv hp)

theorem reads_readFile_not (hi : Inv S w) (hn : EntryName name)
    (hv : view S.path w (s.slot name) = some i) (hp : ¬ Plain i) :
    ∃ e, Reads S (s.readFile name) (.error e) w := by
  unfold StagingArea.readFile
  rw [hn.entryName]
  obtain ⟨e, he⟩ := reads_readFileAt_not hi hv hp
  exact ⟨e, Reads.bind (.pure _) he⟩

/-- A check either fails and changes nothing or answers the identity of a file that passes it. -/
def Verifies (S : Site) (w : World) (i : Inode) (P : Inode → Prop) (p : FileProg ObjectIdentity) : Prop :=
  ∃ x, Reads S p x w ∧ ∀ identity, x = .ok identity → identity = i.identity S.host ∧ P i

theorem verifies_placeholder {m : RestoreMetadata} (hi : Inv S w) (hn : EntryName name)
    (hv : view S.path w (s.slot name) = some i) :
    Verifies S w i Plain (s.verifyPlaceholder name m) := by
  by_cases hp : Plain i
  · by_cases hc : i.contents = [] ∧ (inodeMetadata S.host i).uid = m.uid ∧
        (inodeMetadata S.host i).gid = m.gid ∧ (inodeMetadata S.host i).mode = m.mode
    · refine ⟨_, (reads_readFile hi hn hv hp).bind ((reads_passes (not_not.mpr hc)).bind (.pure _)), ?_⟩
      intro identity he
      cases he
      exact ⟨rfl, hp⟩
    · exact ⟨_, (reads_readFile hi hn hv hp).bind (reads_stops hc).bind_error, by simp⟩
  · obtain ⟨e, he⟩ := reads_readFile_not hi hn hv hp
    exact ⟨_, he.bind_error, by simp⟩

/-- A plain file with exactly these contents and this metadata. -/
def Exactly (S : Site) (contents : Bytes) (m : RestoreMetadata) (i : Inode) : Prop :=
  Plain i ∧ i.contents = contents ∧ inodeMetadata S.host i = m

theorem verifies_restoration {contents : Bytes} {m : RestoreMetadata} (hi : Inv S w) (hn : EntryName name)
    (hv : view S.path w (s.slot name) = some i) :
    Verifies S w i (Exactly S contents m) (s.verifyRestoration name contents m) := by
  by_cases hp : Plain i
  · by_cases hc : i.contents ≠ contents ∨ inodeMetadata S.host i ≠ m
    · exact ⟨_, (reads_readFile hi hn hv hp).bind (reads_stops hc).bind_error, by simp⟩
    · refine ⟨_, (reads_readFile hi hn hv hp).bind ((reads_passes hc).bind (.pure _)), ?_⟩
      intro identity he
      cases he
      simp only [not_or, not_not] at hc
      exact ⟨rfl, hp, hc⟩
  · obtain ⟨e, he⟩ := reads_readFile_not hi hn hv hp
    exact ⟨_, he.bind_error, by simp⟩

theorem reads_verifySnapshot (hi : Inv S w) (hn : EntryName name)
    (hv : view S.path w (s.slot name) = some i) (h : Intact S r i) :
    Reads S (s.verifySnapshot name r.contents r.header.original.metadata) (.ok (i.identity S.host)) w :=
  (reads_readFile hi hn hv h.plain).bind ((reads_passes (not_not.mpr ⟨h.contents, h.metadata⟩)).bind
    (.pure _))

theorem reads_verifyTarget (hi : Inv S w) (hv : view S.path w (targetSlot S) = some i)
    (h : Intact S r i) :
    Reads S (S.target.verifyRestoration r.contents r.header.original.metadata)
      (.ok (i.identity S.host)) w := by
  unfold ResolvedPath.verifyRestoration
  rw [target_slot]
  exact (reads_readFileAt hi hv h.plain).bind ((reads_passes (not_not.mpr ⟨h.contents, h.metadata⟩)).bind
    (.pure _))

theorem reads_verifyFinalizationData (h : Intact S r i) :
    Reads S (verifyFinalizationData i.contents (inodeMetadata S.host i) r.contents.length
      (sha256 r.contents) r.header.original.metadata) (.ok ()) w :=
  reads_passes (not_not.mpr ⟨by rw [h.contents], by rw [h.contents], h.metadata⟩)

theorem reads_verifyFinalization (hi : Inv S w) (hn : EntryName name)
    (hv : view S.path w (s.slot name) = some i) (h : Intact S r i) :
    Reads S (s.verifyFinalization name r.contents.length (sha256 r.contents) r.header.original.metadata)
      (.ok (i.identity S.host)) w :=
  (reads_readFile hi hn hv h.plain).bind ((reads_verifyFinalizationData h).bind (.pure _))

theorem reads_verifyFinalTarget (hi : Inv S w) (hv : view S.path w (targetSlot S) = some i)
    (h : Intact S r i) :
    Reads S (S.target.verifyFinalization r.contents.length (sha256 r.contents)
      r.header.original.metadata) (.ok (i.identity S.host)) w := by
  unfold ResolvedPath.verifyFinalization
  rw [target_slot]
  exact (reads_readFileAt hi hv h.plain).bind ((reads_verifyFinalizationData h).bind (.pure _))

theorem reads_stagingObserve (hi : Inv S w) (hn : EntryName name) :
    Reads S (s.observe name) (.ok (ident S (view S.path w) (s.slot name))) w := by
  unfold StagingArea.observe
  rw [hn.entryName]
  exact Reads.bind (.pure _) (reads_observe hi (watched_slot s name))

theorem reads_targetObserve {ε : Type} (hi : Inv S w) :
    Reads S (S.target.observe : Prog signature ε _) (.ok (ident S (view S.path w) (targetSlot S))) w := by
  unfold ResolvedPath.observe
  rw [target_slot]
  exact reads_observe hi watched_target

theorem reads_observeLayout (hi : Inv S w) (hn : EntryName name) :
    Reads S (Manager.observeLayout S.target ⟨stagingOf r⟩ name)
      (.ok (layoutOf S r (view S.path w) name)) w :=
  (reads_targetObserve hi).bind ((reads_ofIo (reads_stagingObserve hi hn)).bind (.pure _))

theorem runs_ensureEntry {verify create : FileProg ObjectIdentity} {P : Inode → Prop} (hi : Inv S w)
    (hn : EntryName name) (hfits : Fits S w (Function.update (view S.path w) (s.slot name) none))
    (hverify : ∀ i, view S.path w (s.slot name) = some i → Verifies S w i P verify)
    (hcreate : ∀ w', Moved S w w' (Function.update (view S.path w) (s.slot name) none) →
      Runs S E create (fun identity w'' => ∃ i, P i ∧ identity = i.identity S.host ∧
        Moved S w w'' (Function.update (view S.path w) (s.slot name) (some i))) w') :
    Runs S E (ensureEntry s name verify create) (fun identity w' => ∃ i, P i ∧
      identity = i.identity S.host ∧
        Moved S w w' (Function.update (view S.path w) (s.slot name) (some i))) w := by
  refine (reads_ofIo (reads_stagingObserve hi hn)).runs_bind ?_
  cases hv : view S.path w (s.slot name) with
  | none =>
    simp only [ident, hv, Option.map_none]
    have hsame : Function.update (view S.path w) (s.slot name) none = view S.path w := by
      rw [← hv, Function.update_eq_self]
    refine Runs.mapError (hcreate w ?_)
    rw [hsame]
    exact .refl hi
  | some i =>
    simp only [ident, hv, Option.map_some]
    obtain ⟨x, hx, hok⟩ := hverify i hv
    cases x with
    | ok identity =>
      obtain ⟨rfl, hp⟩ := hok identity rfl
      refine (reads_ofIo hx).attempt.runs_bind (Runs.pure ⟨i, hp, rfl, ?_⟩)
      rw [← hv, Function.update_eq_self]
      exact .refl hi
    | error e =>
      refine (reads_ofIo_error hx).attempt.runs_bind ?_
      refine Runs.andThen (Runs.mapError ?_) fun _ w' hm => Runs.mapError (hcreate w' hm)
      unfold StagingArea.discardUncommitted
      rw [hn.entryName]
      exact (Reads.pure _).runs_bind (runs_discardEntry hi hfits)

end verify

section rename

variable {name : String} {i j : Inode} {a b : Option ObjectIdentity}

def renamed (t : Timestamp) (i : Inode) : Inode := { i with ctime := t }

/-- The files after the entries at the two slots have changed places. -/
def swapped (t : Timestamp) (x y : Slot) (v : View) : View :=
  Function.update (Function.update v y ((v x).map (renamed t))) x ((v y).map (renamed t))

theorem swapped_of_ne {t : Timestamp} {x y z : Slot} (hx : z ≠ x) (hy : z ≠ y) :
    swapped t x y v z = v z := by
  rw [swapped, Function.update_of_ne hx, Function.update_of_ne hy]

theorem swapped_left {t : Timestamp} {x y : Slot} : swapped t x y v x = (v y).map (renamed t) :=
  Function.update_self ..

theorem swapped_right {t : Timestamp} {x y : Slot} (h : x ≠ y) :
    swapped t x y v y = (v x).map (renamed t) := by
  rw [swapped, Function.update_of_ne h.symm, Function.update_self]

theorem watched_stagedSlot (r : SnapshotRecord) (name : String) : Watched S.path (stagedSlot r name) := trivial

theorem target_ne_staged (r : SnapshotRecord) (name : String) : targetSlot S ≠ stagedSlot r name := by
  simp [targetSlot, stagedSlot]

theorem objectMatches_renamed (t : Timestamp) (x : Option Inode) :
    objectMatches ((x.map (renamed t)).map (Inode.identity S.host)) (x.map (Inode.identity S.host)) true =
      true := by
  cases x with
  | none => rfl
  | some i => exact sameFileAfterRename_ctime i t

@[simp] theorem objectMatches_exact {x y : Option ObjectIdentity} :
    objectMatches x y false = true ↔ x = y := by
  cases x <;> cases y <;> simp [objectMatches]

@[simp] theorem layoutMatches_exact {x y : Layout} : layoutMatches x y false = true ↔ x = y := by
  rw [layoutMatches, Bool.and_eq_true, objectMatches_exact, objectMatches_exact, Prod.ext_iff]

theorem AllIntact.renamed {x y : Slot} {v' : View} {t : Timestamp} (h : AllIntact S r v x)
    (hv : v' y = (v x).map (Recovery.renamed t)) : AllIntact S r v' y := by
  intro k hk
  rw [hv, Option.map_eq_some_iff] at hk
  obtain ⟨i, hi, rfl⟩ := hk
  obtain ⟨hp, hc, hm⟩ := h i hi
  exact ⟨hp, hc, hm⟩

theorem layoutOf_swapped (t : Timestamp) (h : layoutOf S r v name = (a, b)) :
    layoutMatches (layoutOf S r (swapped t (targetSlot S) (stagedSlot r name) v) name) (b, a) true = true := by
  rw [layoutOf, Prod.mk.injEq] at h
  obtain ⟨rfl, rfl⟩ := h
  rw [layoutMatches, Bool.and_eq_true, layoutOf, ident, ident, swapped_left,
    swapped_right (target_ne_staged r name)]
  exact ⟨objectMatches_renamed t _, objectMatches_renamed t _⟩

/-- The file that a rename moves, from which slot to which. -/
inductive Moves (S : Site) (r : SnapshotRecord) (name : String) : Slot → Slot → Prop where
  | out : Moves S r name (targetSlot S) (stagedSlot r name)
  | back : Moves S r name (stagedSlot r name) (targetSlot S)

theorem AroundRename.after {x y : Slot} {t : Timestamp} (hm : Moves S r name x y)
    (h : layoutOf S r v name = (a, b)) (hi : AllIntact S r v x) :
    layoutMatches (layoutOf S r (swapped t (targetSlot S) (stagedSlot r name) v) name) (b, a) true = true ∧
      AllIntact S r (swapped t (targetSlot S) (stagedSlot r name) v) y := by
  refine ⟨layoutOf_swapped t h, ?_⟩
  cases hm with
  | out => exact hi.renamed (swapped_right (target_ne_staged r name))
  | back => exact hi.renamed swapped_left

theorem runs_exchangeWith (hi : Inv S w) (hn : EntryName name)
    (ht : view S.path w (targetSlot S) = some i) (hs : view S.path w (stagedSlot r name) = some j)
    (hf : ∀ t, Fits S w (swapped t (targetSlot S) (stagedSlot r name) (view S.path w))) :
    Runs S E (S.target.exchangeWith ⟨stagingOf r⟩ name) (fun _ w' => ∃ t,
      Moved S w w' (swapped t (targetSlot S) (stagedSlot r name) (view S.path w))) w := by
  have hswap (t : Timestamp) : swapped t (targetSlot S) (stagedSlot r name) (view S.path w) =
      Function.update (Function.update (view S.path w) (stagedSlot r name) (some { i with ctime := t }))
        (targetSlot S) (some { j with ctime := t }) := by
    rw [swapped, ht, hs]
    rfl
  unfold ResolvedPath.exchangeWith
  rw [hn.entryName, target_slot]
  refine (Reads.pure _).runs_bind ((runs_renameExchange hi (watched_stagedSlot r name) watched_target
    (target_ne_staged r name).symm hs ht fun t _ => ?_).mono ?_)
  · rw [← hswap]
    exact hf t
  · rintro _ w' ⟨t, -, hm⟩
    rw [← hswap] at hm
    exact ⟨t, hm⟩

theorem runs_installAbsent (hi : Inv S w) (hn : EntryName name)
    (ht : view S.path w (targetSlot S) = none) (hs : view S.path w (stagedSlot r name) = some j)
    (hf : ∀ t, Fits S w (swapped t (targetSlot S) (stagedSlot r name) (view S.path w))) :
    Runs S E (S.target.installAbsent ⟨stagingOf r⟩ name) (fun _ w' => ∃ t,
      Moved S w w' (swapped t (targetSlot S) (stagedSlot r name) (view S.path w))) w := by
  have hswap (t : Timestamp) : swapped t (targetSlot S) (stagedSlot r name) (view S.path w) =
      Function.update (Function.update (view S.path w) (stagedSlot r name) none)
        (targetSlot S) (some { j with ctime := t }) := by
    rw [swapped, ht, hs]
    rfl
  unfold ResolvedPath.installAbsent
  rw [hn.entryName, target_slot]
  refine (Reads.pure _).runs_bind ((runs_renameNoreplace hi (watched_stagedSlot r name) watched_target hs ht
    fun t _ => ?_).mono ?_)
  · rw [← hswap]
    exact hf t
  · rintro _ w' ⟨t, -, hm⟩
    rw [← hswap] at hm
    exact ⟨t, hm⟩

theorem runs_moveToStaging (hi : Inv S w) (hn : EntryName name)
    (ht : view S.path w (targetSlot S) = some i) (hs : view S.path w (stagedSlot r name) = none)
    (hf : ∀ t, Fits S w (swapped t (targetSlot S) (stagedSlot r name) (view S.path w))) :
    Runs S E (S.target.moveToStaging ⟨stagingOf r⟩ name) (fun _ w' => ∃ t,
      Moved S w w' (swapped t (targetSlot S) (stagedSlot r name) (view S.path w))) w := by
  have hswap (t : Timestamp) : swapped t (targetSlot S) (stagedSlot r name) (view S.path w) =
      Function.update (Function.update (view S.path w) (targetSlot S) none)
        (stagedSlot r name) (some { i with ctime := t }) := by
    rw [swapped, ht, hs, Function.update_comm (target_ne_staged r name).symm]
    rfl
  unfold ResolvedPath.moveToStaging
  rw [hn.entryName, target_slot]
  refine (Reads.pure _).runs_bind ((runs_renameNoreplace hi watched_target (watched_stagedSlot r name) ht hs
    fun t _ => ?_).mono ?_)
  · rw [← hswap]
    exact hf t
  · rintro _ w' ⟨t, -, hm⟩
    rw [← hswap] at hm
    exact ⟨t, hm⟩

theorem Only.mono {d : Path} {names more : List String} (h : Only v d names) (hle : ∀ n ∈ names, n ∈ more) :
    Only v d more := fun d' n hne => ⟨(h d' n hne).1, hle n (h d' n hne).2⟩

/-- Two different entries have different inodes, so the layout after a rename is never the one before it. -/
theorem not_before_after (hi : Inv S w) (hab : ¬ (a = none ∧ b = none))
    (h : layoutMatches (layoutOf S r (view S.path w) name) (b, a) true = true) :
    layoutOf S r (view S.path w) name ≠ (a, b) := by
  intro he
  rw [he] at h
  simp only [layoutOf, ident, Prod.mk.injEq] at he
  obtain ⟨ht, hs⟩ := he
  cases a with
  | none =>
    cases b with
    | none => exact hab ⟨rfl, rfl⟩
    | some b => simp [layoutMatches, objectMatches] at h
  | some a =>
    cases b with
    | none => simp [layoutMatches, objectMatches] at h
    | some b =>
      obtain ⟨i, hvi, rfl⟩ := Option.map_eq_some_iff.mp ht
      obtain ⟨j, hvj, rfl⟩ := Option.map_eq_some_iff.mp hs
      simp only [layoutMatches, objectMatches, Bool.and_eq_true, ↓reduceIte, sameFileAfterRename_eq,
        identitiesMatch, beq_iff_eq] at h
      have hnumber : i.number = j.number := h.2.1.1.1.1.1.1.2
      exact target_ne_staged r name (hi.sane.tidy.distinct hvi hvj hnumber)

/-- The rename is made unless an earlier run has made it. -/
theorem runs_renameStep {x y : Slot} {o : FileProg Unit} (hi : Inv S w) (hn : EntryName name)
    (hab : ¬ (a = none ∧ b = none)) (hm : Moves S r name x y)
    (ha : AroundRename S r (view S.path w) name (a, b) (b, a) x y)
    (hop : layoutOf S r (view S.path w) name = (a, b) → AllIntact S r (view S.path w) x →
      Runs S False o (fun _ w' => ∃ t,
        Moved S w w' (swapped t (targetSlot S) (stagedSlot r name) (view S.path w))) w) :
    Runs S E (renameStep (Manager.observeLayout S.target ⟨stagingOf r⟩ name) (a, b) (b, a) o)
      (fun layout w' => ∃ v', Moved S w w' v' ∧ layout = layoutOf S r v' name ∧
        layoutMatches layout (b, a) true = true ∧ AllIntact S r v' y ∧
        ∀ z, z ≠ targetSlot S → z ≠ stagedSlot r name → v' z = view S.path w z) w := by
  unfold renameStep
  refine (reads_observeLayout hi hn).runs_bind ?_
  rcases ha with ⟨hbefore, hintact⟩ | ⟨hafter, hintact⟩
  · rw [if_pos hbefore]
    rw [layoutMatches_exact] at hbefore
    refine Runs.andThen (P := fun answer w' => answer = .ok () ∧ ∃ t, Moved S w w'
      (swapped t (targetSlot S) (stagedSlot r name) (view S.path w))) (Runs.attempt (Runs.mapError
        ((hop hbefore hintact).mono fun _ w' h => ⟨rfl, h⟩))) ?_
    rintro _ w' ⟨rfl, t, hmoved⟩
    obtain ⟨hl, hy⟩ := AroundRename.after (t := t) hm hbefore hintact
    refine (reads_observeLayout hmoved.inv hn).runs ⟨_, hmoved, ?_, ?_, hy, fun z hx hz => ?_⟩
    · rw [hmoved.view]
    · rw [hmoved.view]
      exact hl
    · exact swapped_of_ne hx hz
  · rw [if_neg (fun hb => not_before_after hi hab hafter (layoutMatches_exact.mp hb))]
    exact Runs.pure ⟨_, .refl hi, rfl, hafter, hintact, fun _ _ _ => rfl⟩

end rename

end FileGuard.Recovery
