import FileGuard.Fuse.Handlers

namespace FileGuard.Fuse

open Store Files Transaction Policy CrashLogic

def Task.Allowed (t : Task) : Prop := t.decision.any Decision.isAllowed = true

/-- The rights of an open are those that its flag word asks for. -/
def Work.Asked : Work → Prop
  | .opening flags needsRead needsWrite truncateOnOpen =>
    (needsRead = true ↔ flags &&& oAccmode = oRdonly ∨ flags &&& oAccmode = oRdwr) ∧
    (needsWrite = true ↔ Access.fromOpenFlags flags = .write) ∧
    (truncateOnOpen = true ↔ needsWrite = true ∧ flags &&& oTrunc ≠ 0)
  | .resizing _ => True

/-- A truncation is one for writing, of an open with `O_TRUNC` or of a `setattr`. -/
theorem Work.Asked.truncation {work : Work} (h : work.Asked) {newSize : UInt64} (ht : work.truncation = some newSize) :
    work.needsWrite = true ∧
      ((∃ flags needsRead, work = .opening flags needsRead true true ∧ flags &&& oTrunc ≠ 0) ∨
        ∃ newSize, work = .resizing newSize) := by
  cases work with
  | opening flags needsRead needsWrite truncateOnOpen =>
    cases truncateOnOpen with
    | false => cases ht
    | true =>
      obtain ⟨rfl, hflag⟩ := h.2.2.mp rfl
      exact ⟨rfl, .inl ⟨flags, needsRead, rfl, hflag⟩⟩
  | resizing newSize => exact ⟨rfl, .inr ⟨newSize, rfl⟩⟩

namespace Mount

/-- A task that the policy did not allow gets no further than its refusal. -/
structure TaskSound (fs : CredentialFs) (t : Task) : Prop where
  undecided : t.stage = .deciding → t.decision = none
  refused : t.stage ≠ .deciding → ¬ t.Allowed → t.stage = .replied (.error .eacces)
  permitted : t.Allowed → fs.uidPermitted t.uid = true
  asked : t.work.Asked
  truncating : ∀ newSize, t.stage = .truncating newSize → t.work.truncation = some newSize

/-- The handle was registered by an open that the policy allowed, with the rights the open asked for. -/
def Registered (s : Mount) (fh : UInt64) (handle : OpenHandle) : Prop :=
  ∃ index t flags, s.origin fh = some index ∧ s.tasks[index]? = some t ∧ t.Allowed ∧ t.work.flags = some flags ∧
    handle = CredentialFs.handleOf t.work

structure Sound (owner : UInt32) (s : Mount) : Prop where
  owner : s.fs.ownerUid = owner
  tasks : ∀ t ∈ s.tasks, TaskSound s.fs t
  handles : ∀ fh handle, s.fs.shared.handles fh = some handle → s.Registered fh handle
  next : s.fs.shared.nextFh = UInt64.ofNat (s.numbers.length + 1)
  numbers : s.numbers = (List.range s.numbers.length).map fun n => UInt64.ofNat (n + 1)

theorem sound_start (w : World) (watched : Path) (record : SnapshotRecord) :
    Sound record.header.parent.uid (start w watched record) :=
  ⟨rfl, nofun, nofun, rfl, rfl⟩

end Mount

/-- Mutations leave the handle table alone. -/
def SameTable (a b : Shared) : Prop := b.handles = a.handles ∧ b.nextFh = a.nextFh

section mutations

variable {host : Host} {allowed : World → Choice → Prop} {shared : Shared} {w w' : World}

theorem commitContents_table (candidate : Bytes) :
    wp (alone host allowed) (fun _ _ => True) (shared.commitContents candidate)
      (fun r _ => ∀ next, r = .ok next → SameTable shared next) w := by
  unfold Shared.commitContents
  rw [Prog.bind_eq, wp_bind, wp_mapError]
  refine wp_mono (wp_trivial _ w) fun r w' _ => ?_
  cases r with
  | error e =>
    intro next h
    cases h
  | ok record =>
    intro next h
    cases h
    exact ⟨rfl, rfl⟩

theorem applyTruncate_table (newSize : UInt64) :
    wp (alone host allowed) (fun _ _ => True) (shared.applyTruncate newSize)
      (fun r _ => ∀ next, r = .ok next → SameTable shared next) w := by
  unfold Shared.applyTruncate
  split_ifs
  · intro next h
    cases h
  · exact commitContents_table _

theorem applyWrite_table (fh offset : UInt64) (data : Bytes) :
    wp (alone host allowed) (fun _ _ => True) (shared.applyWrite fh offset data)
      (fun r _ => ∀ next, r = .ok next → SameTable shared next.2) w := by
  have hfail (e : MutationError) : wp (alone host allowed) (fun _ _ => True)
      (.fail e : MutationProg (ℕ × Shared)) (fun r _ => ∀ next, r = .ok next → SameTable shared next.2) w := by
    intro next h
    cases h
  unfold Shared.applyWrite
  split
  · split
    · exact hfail _
    · split
      · exact hfail _
      · rw [Prog.bind_eq, wp_bind]
        refine wp_mono (commitContents_table _) fun r w' h => ?_
        cases r with
        | error e => intro next hn; cases hn
        | ok shared' =>
          intro next hn
          cases hn
          exact h shared' rfl
  · exact hfail _

theorem applyWrite_unauthorized {fh offset : UInt64} {data : Bytes}
    (h : ∀ canRead, shared.handles fh ≠ some ⟨.write, canRead⟩) :
    shared.applyWrite fh offset data = .fail (.invalid .eacces) := by
  unfold Shared.applyWrite
  split
  · rename_i canRead hfh
    exact absurd hfh (h canRead)
  · rfl

end mutations

namespace CredentialFs

variable {host : Host} {fs : CredentialFs} {request : Request} {handled : Handled} {w w' : World}

def WriteHandle (fs : CredentialFs) (fh : UInt64) : Prop := ∃ canRead, fs.shared.handles fh = some ⟨.write, canRead⟩

/-- The handle through which a request mutates the file. -/
def Mutates (fs : CredentialFs) (fh : UInt64) : Request → Prop
  | .write ino fh' _ _ => ino = rootIno ∧ fh' = fh
  | .setattr uid _ ino change => ino = rootIno ∧ fs.uidPermitted uid = true ∧ change.fh = some fh
  | _ => False

/-- What a handler makes of a request. -/
inductive Handles (fs : CredentialFs) (w : World) : Request → Handled → World → Prop where
  | refused {request : Request} (errno : FuseErrno) : Handles fs w request (fs.replyError errno) w
  | reported {request : Request} (uid : UInt32) (reply : Reply) (caller : request.caller = some uid)
      (permitted : fs.uidPermitted uid = true)
      (plain : reply = .ok ∨ reply = .attr (buildFileAttr fs.shared.currentSize fs.presentation)) :
      Handles fs w request (.replied reply fs.shared) w
  | opening (uid pid : UInt32) (flags : UInt32) (needsRead needsWrite truncateOnOpen : Bool)
      (asked : (Work.opening flags needsRead needsWrite truncateOnOpen).Asked) :
      Handles fs w (.openFile uid pid rootIno flags)
        (.spawned ⟨uid, pid, .opening flags needsRead needsWrite truncateOnOpen, .deciding, none⟩) w
  | resizing (uid pid : UInt32) (change : SetAttr) (newSize : UInt64)
      (permitted : fs.uidPermitted uid = true) :
      Handles fs w (.setattr uid pid rootIno change) (.spawned ⟨uid, pid, .resizing newSize, .deciding, none⟩) w
  | read (ino fh offset : UInt64) (size : UInt32) (handle : OpenHandle)
      (held : fs.shared.handles fh = some handle) (canRead : handle.canRead = true) :
      Handles fs w (.read ino fh offset size)
        (.replied (.data (sliceContent fs.shared.content.contents offset size)) fs.shared) w
  | mutated {request : Request} (fh : UInt64) (reply : Reply) (shared : Shared) (w' : World)
      (through : fs.Mutates fh request) (held : fs.WriteHandle fh) (table : SameTable fs.shared shared)
      (plain : ∀ bytes, reply ≠ .data bytes) : Handles fs w request (.replied reply shared) w'
  | released (ino fh : UInt64) : Handles fs w (.release ino fh)
      (.replied .ok { fs.shared with handles := Function.update fs.shared.handles fh none }) w

theorem attempt_replies {α : Type} {p : MutationProg α} {k : Except MutationError α → MutationProg Handled}
    (table : α → Shared)
    (hp : wp (alone host fun _ _ => True) (fun _ _ => True) p
      (fun r _ => ∀ next, r = .ok next → SameTable fs.shared (table next)) w)
    (hk : ∀ r, ∃ reply shared, k r = .pure (.replied reply shared) ∧ (∀ bytes, reply ≠ .data bytes) ∧
      (shared = fs.shared ∨ ∃ next, r = .ok next ∧ shared = table next))
    (ran : Finishes (alone host fun _ _ => True) (p.attempt >>= k) w (.ok handled) w') :
    ∃ reply shared, handled = .replied reply shared ∧ SameTable fs.shared shared ∧ ∀ bytes, reply ≠ .data bytes := by
  have hspec : wp (alone host fun _ _ => True) (fun _ _ => True) (p.attempt >>= k)
      (fun r _ => ∀ handled, r = .ok handled → ∃ reply shared, handled = .replied reply shared ∧
        SameTable fs.shared shared ∧ ∀ bytes, reply ≠ .data bytes) w := by
    rw [Prog.bind_eq, wp_bind, wp_attempt]
    refine wp_mono hp fun r w' htable => ?_
    have answered (r' : Except MutationError α) (hr : ∀ next, r' = .ok next → SameTable fs.shared (table next)) :
        wp (alone host fun _ _ => True) (fun _ _ => True) (k r')
          (fun r _ => ∀ handled, r = .ok handled → ∃ reply shared, handled = .replied reply shared ∧
            SameTable fs.shared shared ∧ ∀ bytes, reply ≠ .data bytes) w' := by
      obtain ⟨reply, shared, hreply, hplain, hshared⟩ := hk r'
      rw [hreply]
      intro handled hh
      cases hh
      refine ⟨reply, shared, rfl, ?_, hplain⟩
      obtain rfl | ⟨next, hnext, rfl⟩ := hshared
      · exact ⟨rfl, rfl⟩
      · exact hr next hnext
    cases r with
    | error e => exact answered (.error e) nofun
    | ok next => exact answered (.ok next) htable
  exact wp_finishes hspec ran handled rfl

theorem write_handles {ino fh offset : UInt64} {data : Bytes}
    (ran : Finishes (alone host fun _ _ => True) (fs.write ino fh offset data) w (.ok handled) w') :
    Handles fs w (.write ino fh offset data) handled w' := by
  unfold write at ran
  split_ifs at ran with hino
  · obtain ⟨hr, rfl⟩ := finishes_pure ran
    cases hr
    exact .refused _
  · by_cases held : fs.WriteHandle fh
    · have hreply := attempt_replies Prod.snd (applyWrite_table fh offset data) (fun r => ?_) ran
      · obtain ⟨reply, shared, rfl, htable, hplain⟩ := hreply
        exact .mutated fh reply shared w' ⟨not_not.mp hino, rfl⟩ held htable hplain
      · cases r with
        | error e => exact ⟨_, _, rfl, nofun, .inl rfl⟩
        | ok next => exact ⟨_, _, rfl, nofun, .inr ⟨next, rfl, rfl⟩⟩
    · have hno : ∀ canRead, fs.shared.handles fh ≠ some ⟨.write, canRead⟩ := fun canRead h => held ⟨canRead, h⟩
      rw [applyWrite_unauthorized hno] at ran
      obtain ⟨hr, rfl⟩ := finishes_pure ran
      cases hr
      exact .refused _

theorem writeHandle_iff (fh : UInt64) :
    fs.WriteHandle fh ↔ (fs.shared.handles fh).any (fun state => state.access == .write) = true := by
  unfold WriteHandle
  rcases fs.shared.handles fh with _ | ⟨access, canRead⟩
  · simp
  · simp

theorem truncateHandle_handles {uid pid : UInt32} {change : SetAttr} {fh newSize : UInt64}
    (hpermitted : fs.uidPermitted uid = true) (hfh : change.fh = some fh)
    (ran : Finishes (alone host fun _ _ => True) (fs.truncateHandle fh newSize) w (.ok handled) w') :
    Handles fs w (.setattr uid pid rootIno change) handled w' := by
  unfold truncateHandle at ran
  split_ifs at ran with hany
  · obtain ⟨hr, rfl⟩ := finishes_pure ran
    cases hr
    exact .refused _
  · have held : fs.WriteHandle fh := (writeHandle_iff fh).mpr (by simpa using hany)
    have hreply := attempt_replies id (applyTruncate_table newSize) (fun r => ?_) ran
    · obtain ⟨reply, shared, rfl, htable, hplain⟩ := hreply
      exact .mutated fh reply shared w' ⟨rfl, hpermitted, hfh⟩ held htable hplain
    · cases r with
      | error e => exact ⟨_, _, rfl, nofun, .inl rfl⟩
      | ok next => exact ⟨_, _, rfl, nofun, .inr ⟨next, rfl, rfl⟩⟩

theorem handle_handles
    (ran : Finishes (alone host fun _ _ => True) (fs.handle request) w (.ok handled) w') :
    Handles fs w request handled w' := by
  cases request with
  | write ino fh offset data => exact write_handles ran
  | getattr uid ino =>
    obtain ⟨hr, rfl⟩ := finishes_pure ran
    cases hr
    unfold getattr
    split_ifs with hino hp
    · exact .refused _
    · exact .refused _
    · exact .reported uid _ rfl (by simpa using hp) (.inr rfl)
  | access uid ino =>
    obtain ⟨hr, rfl⟩ := finishes_pure ran
    cases hr
    unfold CredentialFs.access
    split_ifs with hino hp
    · exact .refused _
    · exact .refused _
    · exact .reported uid _ rfl (by simpa using hp) (.inl rfl)
  | openFile uid pid ino flags =>
    obtain ⟨hr, rfl⟩ := finishes_pure ran
    cases hr
    unfold CredentialFs.openFile
    split_ifs with hino
    · exact .refused _
    dsimp only
    split_ifs with hneither
    · exact .refused _
    · rw [not_not.mp hino]
      refine .opening uid pid flags _ _ _ ⟨by simp, by simp, ?_⟩
      rw [Bool.and_eq_true, bne_iff_ne]
  | read ino fh offset size =>
    obtain ⟨hr, rfl⟩ := finishes_pure ran
    cases hr
    unfold CredentialFs.read
    split_ifs with hino
    · exact .refused _
    · split
      · rename_i hheld
        exact .read ino fh offset size _ hheld rfl
      · exact .refused _
  | release ino fh =>
    obtain ⟨hr, rfl⟩ := finishes_pure ran
    cases hr
    unfold release
    split_ifs with hino
    · exact .refused _
    · exact .released ino fh
  | setattr uid pid ino change =>
    simp only [handle, setattr] at ran
    have hpure {handled' : Handled} (h : Handles fs w (.setattr uid pid ino change) handled' w)
        (ran : Finishes (alone host fun _ _ => True) (.pure handled' : MutationProg Handled) w (.ok handled) w') :
        Handles fs w (.setattr uid pid ino change) handled w' := by
      obtain ⟨hr, rfl⟩ := finishes_pure ran
      cases hr
      exact h
    split_ifs at ran with hino hp hchanges
    · exact hpure (.refused _) ran
    · exact hpure (.refused _) ran
    · exact hpure (.refused _) ran
    · have hpermitted : fs.uidPermitted uid = true := by simpa using hp
      cases not_not.mp hino
      split at ran
      · exact hpure (.reported uid _ rfl hpermitted (.inr rfl)) ran
      · rename_i hfh
        exact truncateHandle_handles hpermitted hfh ran
      · exact hpure (.resizing uid pid change _ hpermitted) ran

end CredentialFs

namespace Mount

variable {host : Host} {owner : UInt32} {s s' : Mount} {event : Event}

/-- An open and unreleased handle whose own open, with that flag word, the policy allowed and was for `right`. -/
def Holds (s : Mount) (fh : UInt64) (flags : UInt32) (right : Work → Bool) : Prop :=
  ∃ handle index t, s.fs.shared.handles fh = some handle ∧ s.origin fh = some index ∧
    s.tasks[index]? = some t ∧ t.Allowed ∧ t.work.flags = some flags ∧ right t.work = true

theorem Holds.flags_eq {fh : UInt64} {flags flags' : UInt32} {right right' : Work → Bool} (h : s.Holds fh flags right)
    (h' : s.Holds fh flags' right') : flags = flags' := by
  obtain ⟨-, index, t, -, horigin, htask, -, hflags, -⟩ := h
  obtain ⟨-, index', t', -, horigin', htask', -, hflags', -⟩ := h'
  cases horigin.symm.trans horigin'
  cases htask.symm.trans htask'
  exact Option.some_inj.mp (hflags.symm.trans hflags')

theorem Sound.asked (h : Sound owner s) {fh : UInt64} {flags : UInt32} {right : Work → Bool}
    (held : s.Holds fh flags right) :
    ∃ needsRead needsWrite truncateOnOpen, (Work.opening flags needsRead needsWrite truncateOnOpen).Asked ∧
      right (.opening flags needsRead needsWrite truncateOnOpen) = true := by
  obtain ⟨-, index, t, -, -, htask, -, hflags, hright⟩ := held
  have hasked := (h.tasks t (List.mem_of_getElem? htask)).asked
  cases hwork : t.work with
  | opening flags' needsRead needsWrite truncateOnOpen =>
    rw [hwork] at hasked hright hflags
    cases hflags
    exact ⟨_, _, _, hasked, hright⟩
  | resizing newSize =>
    rw [hwork] at hflags
    cases hflags

theorem Sound.holds_read (h : Sound owner s) {fh : UInt64} {handle : OpenHandle}
    (held : s.fs.shared.handles fh = some handle) (canRead : handle.canRead = true) :
    ∃ flags, s.Holds fh flags Work.needsRead ∧ (flags &&& oAccmode = oRdonly ∨ flags &&& oAccmode = oRdwr) := by
  obtain ⟨index, t, flags, horigin, htask, hallowed, hflags, rfl⟩ := h.handles fh handle held
  have hholds : s.Holds fh flags Work.needsRead := ⟨_, index, t, held, horigin, htask, hallowed, hflags, canRead⟩
  obtain ⟨needsRead, needsWrite, truncateOnOpen, hasked, hread⟩ := h.asked hholds
  exact ⟨flags, hholds, hasked.1.mp hread⟩

theorem Sound.holds_write (h : Sound owner s) {fh : UInt64} (held : s.fs.WriteHandle fh) :
    ∃ flags, s.Holds fh flags Work.needsWrite ∧ Access.fromOpenFlags flags = .write := by
  obtain ⟨canRead, held⟩ := held
  obtain ⟨index, t, flags, horigin, htask, hallowed, hflags, heq⟩ := h.handles fh _ held
  have hneeds : t.work.needsWrite = true := by
    by_contra hno
    simp [CredentialFs.handleOf, hno] at heq
  have hholds : s.Holds fh flags Work.needsWrite := ⟨_, index, t, held, horigin, htask, hallowed, hflags, hneeds⟩
  obtain ⟨needsRead, needsWrite, truncateOnOpen, hasked, hwrite⟩ := h.asked hholds
  exact ⟨flags, hholds, hasked.2.1.mp hwrite⟩

theorem Registered.set {fh : UInt64} {handle : OpenHandle} {index : ℕ} {old new : Task}
    (h : s.Registered fh handle) (found : s.tasks[index]? = some old)
    (kept : old.Allowed → new.Allowed ∧ new.work = old.work) : (s.setTask index new).Registered fh handle := by
  obtain ⟨i, t, flags, horigin, htask, hallowed, hflags, rfl⟩ := h
  by_cases hi : i = index
  · subst hi
    cases htask.symm.trans found
    obtain ⟨hnew, hwork⟩ := kept hallowed
    refine ⟨i, new, flags, horigin, ?_, hnew, by rw [hwork, hflags], by rw [hwork]⟩
    exact List.getElem?_set_self (List.getElem?_eq_some_iff.mp found).1
  · refine ⟨i, t, flags, horigin, ?_, hallowed, hflags, rfl⟩
    rw [setTask, List.getElem?_set_ne (Ne.symm hi)]
    exact htask

theorem Sound.setTask (h : Sound owner s) {index : ℕ} {old new : Task} (found : s.tasks[index]? = some old)
    (sound : TaskSound s.fs new) (kept : old.Allowed → new.Allowed ∧ new.work = old.work) :
    Sound owner (s.setTask index new) where
  owner := h.owner
  tasks := fun t ht => (List.mem_or_eq_of_mem_set ht).elim (h.tasks t) fun heq => heq ▸ sound
  handles := fun fh handle held => (h.handles fh handle held).set found kept
  next := h.next
  numbers := h.numbers

theorem Sound.setShared (h : Sound owner s) {shared : Shared} {w : World} (table : SameTable s.fs.shared shared) :
    Sound owner (s.setShared shared w) where
  owner := h.owner
  tasks := fun t ht => ⟨(h.tasks t ht).undecided, (h.tasks t ht).refused, (h.tasks t ht).permitted,
    (h.tasks t ht).asked, (h.tasks t ht).truncating⟩
  handles := fun fh handle held => h.handles fh handle (table.1 ▸ held)
  next := table.2.trans h.next
  numbers := h.numbers

theorem Sound.spawn (h : Sound owner s) {t : Task} {w : World} (sound : TaskSound s.fs t) :
    Sound owner { s with tasks := s.tasks ++ [t], world := w } where
  owner := h.owner
  tasks := List.forall_mem_append.mpr ⟨h.tasks, List.forall_mem_singleton.mpr sound⟩
  handles := fun fh handle held => by
    obtain ⟨index, t', flags, horigin, htask, hrest⟩ := h.handles fh handle held
    refine ⟨index, t', flags, horigin, ?_, hrest⟩
    exact (List.getElem?_append_left (List.getElem?_eq_some_iff.mp htask).1).trans htask
  next := h.next
  numbers := h.numbers

theorem sound_spawned (fs : CredentialFs) (uid pid : UInt32) {work : Work} (asked : work.Asked) :
    TaskSound fs ⟨uid, pid, work, .deciding, none⟩ :=
  ⟨fun _ => rfl, fun h => absurd rfl h, fun h => absurd h (by simp [Task.Allowed]), asked, fun _ h => nomatch h⟩

theorem Sound.request (h : Sound owner s) {request : Request} {handled : Handled} {w : World}
    (hh : s.fs.Handles s.world request handled w) : Sound owner (s.handled w handled) := by
  cases hh with
  | refused errno => exact h.setShared ⟨rfl, rfl⟩
  | reported uid reply caller permitted plain => exact h.setShared ⟨rfl, rfl⟩
  | read ino fh offset size handle held canRead => exact h.setShared ⟨rfl, rfl⟩
  | mutated fh reply shared w' through held table plain => exact h.setShared table
  | opening uid pid flags needsRead needsWrite truncateOnOpen asked => exact h.spawn (sound_spawned s.fs uid pid asked)
  | resizing uid pid change newSize permitted => exact h.spawn (sound_spawned s.fs uid pid trivial)
  | released ino fh =>
    refine ⟨h.owner, fun t ht => ?_, fun fh' handle held => ?_, h.next, h.numbers⟩
    · exact ⟨(h.tasks t ht).undecided, (h.tasks t ht).refused, (h.tasks t ht).permitted,
        (h.tasks t ht).asked, (h.tasks t ht).truncating⟩
    · by_cases hfh : fh' = fh
      · subst hfh
        simp [Mount.handled, Mount.setShared] at held
      · refine h.handles fh' handle ?_
        simpa [Mount.handled, Mount.setShared, Function.update_of_ne hfh] using held

theorem decideOpen_permitted {fs : CredentialFs} {uid : UInt32} {identified : Bool} {decision made : Decision}
    (h : fs.decideOpen uid identified decision = some made) : fs.uidPermitted uid = true := by
  unfold CredentialFs.decideOpen at h
  split_ifs at h with hi hu
  simp only [not_and_or, not_not] at hu
  simpa [CredentialFs.uidPermitted] using hu

theorem sound_decided {fs : CredentialFs} {t : Task} {identified : Bool} {decision : Decision}
    (h : TaskSound fs t) : TaskSound fs (decided t (fs.decideOpen t.uid identified decision)) := by
  unfold decided
  split_ifs with hallowed
  · refine ⟨fun hs => ?_, fun _ hno => absurd hallowed hno, fun _ => ?_, h.asked, fun newSize hs => ?_⟩
    · cases ht : t.work.truncation <;> simp [ht] at hs
    · obtain ⟨made, hmade, -⟩ := (Option.any_eq_true _ _).mp hallowed
      exact decideOpen_permitted hmade
    · cases ht : t.work.truncation <;> simp_all
  · exact ⟨nofun, fun _ _ => rfl, fun ha => absurd ha hallowed, h.asked, nofun⟩

theorem Sound.register (h : Sound owner s) {index : ℕ} {t : Task} {work : Work}
    {flags : UInt32} (found : s.tasks[index]? = some t) (hallowed : t.Allowed) (hwork : t.work = work)
    (hflags : work.flags = some flags) :
    Sound owner { s.setShared (s.fs.shared.registerHandle (CredentialFs.handleOf work)).2 s.world with
      origin := Function.update s.origin s.fs.shared.nextFh (some index)
      numbers := s.numbers ++ [s.fs.shared.nextFh] } where
  owner := h.owner
  tasks := fun t ht => ⟨(h.tasks t ht).undecided, (h.tasks t ht).refused, (h.tasks t ht).permitted,
    (h.tasks t ht).asked, (h.tasks t ht).truncating⟩
  handles := fun fh handle held => by
    by_cases hfh : fh = s.fs.shared.nextFh
    · subst hfh
      have heq : handle = CredentialFs.handleOf work := by
        simpa [Mount.setShared, Shared.registerHandle] using held.symm
      exact ⟨index, t, flags, Function.update_self .., found, hallowed, by rw [hwork, hflags], by rw [heq, hwork]⟩
    · have hold : s.fs.shared.handles fh = some handle := by
        simpa [Mount.setShared, Shared.registerHandle, Function.update_of_ne hfh] using held
      obtain ⟨i, t', flags', horigin, hrest⟩ := h.handles fh handle hold
      exact ⟨i, t', flags', (Function.update_of_ne hfh ..).trans horigin, hrest⟩
  next := by
    have hnext : s.fs.shared.nextFh + 1 = UInt64.ofNat (s.numbers.length + 1 + 1) := by
      rw [h.next]
      exact (UInt64.ofNat_add (s.numbers.length + 1) 1).symm
    simpa [Mount.setShared, Shared.registerHandle] using hnext
  numbers := by
    rw [List.length_append, List.length_singleton, List.range_succ, List.map_append, ← h.numbers, h.next]
    rfl

theorem Sound.step (h : Sound owner s) (next : Step host s event s') : Sound owner s' := by
  cases next with
  | request request handled w ran => exact h.request (CredentialFs.handle_handles ran)
  | decide index t identified decision found stage =>
    have ht := h.tasks t (List.mem_of_getElem? found)
    refine h.setTask found (sound_decided ht) fun hallowed => ?_
    simp [Task.Allowed, ht.undecided stage] at hallowed
  | truncate index t newSize result w found stage ran =>
    have ht := h.tasks t (List.mem_of_getElem? found)
    have hallowed : t.Allowed := by
      by_contra hno
      have := ht.refused (by simp [stage]) hno
      simp [stage] at this
    have htable : SameTable s.fs.shared (result.toOption.getD s.fs.shared) := by
      have hspec := wp_finishes (applyTruncate_table newSize) ran
      cases result with
      | error e => exact ⟨rfl, rfl⟩
      | ok shared => exact hspec shared rfl
    refine (h.setShared htable).setTask found ?_ fun _ => ?_
    · cases result with
      | error e =>
        exact ⟨nofun, fun _ hno => absurd hallowed hno, ht.permitted, ht.asked, nofun⟩
      | ok shared =>
        exact ⟨nofun, fun _ hno => absurd hallowed hno, ht.permitted, ht.asked, nofun⟩
    · cases result <;> exact ⟨hallowed, rfl⟩
  | finish index t found stage =>
    have ht := h.tasks t (List.mem_of_getElem? found)
    have hallowed : t.Allowed := by
      by_contra hno
      have := ht.refused (by simp [stage]) hno
      simp [stage] at this
    have hsound (reply : Reply) : TaskSound s.fs { t with stage := .replied reply } :=
      ⟨nofun, fun _ hno => absurd hallowed hno, ht.permitted, ht.asked, nofun⟩
    unfold Mount.finish
    split
    · rename_i hwork
      exact (h.setTask found (hsound (.opened s.fs.shared.nextFh)) fun _ => ⟨hallowed, rfl⟩).register
        (List.getElem?_set_self (List.getElem?_eq_some_iff.mp found).1) hallowed rfl (congrArg Work.flags hwork)
    · exact h.setTask found (hsound _) fun _ => ⟨hallowed, rfl⟩

theorem Run.sound {start : Mount} (h : Sound owner start) (run : Run host start s) : Sound owner s := by
  induction run with
  | start => exact h
  | step before next ih => exact ih.step next

/-- The ways in which the file may change: through a handle that was opened for writing, or by a truncation that was
itself allowed for writing, of an open with `O_TRUNC` or of a `setattr` without a handle. -/
def ByWriter (s : Mount) (event : Event) : Prop :=
  (∃ request handled fh flags, event = .request request handled ∧ s.fs.Mutates fh request ∧
    s.Holds fh flags Work.needsWrite ∧ Access.fromOpenFlags flags = .write) ∨
  ∃ index t, event = .truncate index ∧ s.tasks[index]? = some t ∧ t.Allowed ∧ t.work.needsWrite = true ∧
    ((∃ flags needsRead, t.work = .opening flags needsRead true true ∧ flags &&& oTrunc ≠ 0) ∨
      ∃ newSize, t.work = .resizing newSize)

def Changed (s s' : Mount) : Prop :=
  s'.world.store ≠ s.world.store ∨ s'.fs.shared.content ≠ s.fs.shared.content

/-- What a step may do with the rights that were given out before it. -/
structure Permitted (s : Mount) (event : Event) (s' : Mount) : Prop where
  /-- bytes are returned by a read through a handle that was opened for reading -/
  data : ∀ request bytes shared, event = .request request (.replied (.data bytes) shared) →
    ∃ ino fh offset size flags, request = .read ino fh offset size ∧ s.Holds fh flags Work.needsRead ∧
      (flags &&& oAccmode = oRdonly ∨ flags &&& oAccmode = oRdwr) ∧
      bytes = sliceContent s.fs.shared.content.contents offset size
  /-- a handle opened write-only never serves a read -/
  writeOnly : ∀ ino fh offset size bytes shared flags right,
    event = .request (.read ino fh offset size) (.replied (.data bytes) shared) → s.Holds fh flags right →
      flags &&& oAccmode ≠ oWronly
  change : Changed s s' → s.ByWriter event
  /-- an open for neither direction is refused and asks nobody -/
  neither : ∀ uid pid flags handled, event = .request (.openFile uid pid rootIno flags) handled →
    flags &&& oAccmode ≠ oRdonly → flags &&& oAccmode ≠ oRdwr → Access.fromOpenFlags flags ≠ .write →
    handled = s.fs.replyError .einval ∧ s'.tasks = s.tasks
  /-- a foreign uid gets an error, or a task that will get one -/
  foreign : ∀ request handled uid, event = .request request handled → request.caller = some uid →
    s.fs.uidPermitted uid = false →
      (∃ errno, handled = s.fs.replyError errno) ∨ ∃ task, handled = .spawned task ∧ task.uid = uid

theorem openFile_neither {fs : CredentialFs} {uid pid flags : UInt32} (hread : flags &&& oAccmode ≠ oRdonly)
    (hrdwr : flags &&& oAccmode ≠ oRdwr) (hwrite : Access.fromOpenFlags flags ≠ .write) :
    fs.openFile uid pid rootIno flags = fs.replyError .einval := by
  simp [CredentialFs.openFile, hread, hrdwr, hwrite]

theorem Sound.request_change (h : Sound owner s) {request : Request} {handled : Handled} {w : World}
    (hh : s.fs.Handles s.world request handled w) (changed : Changed s (s.handled w handled)) :
    s.ByWriter (.request request handled) := by
  cases hh with
  | mutated fh reply shared w' through held table plain =>
    obtain ⟨flags, hholds, hflags⟩ := h.holds_write held
    exact .inl ⟨_, _, fh, flags, rfl, through, hholds, hflags⟩
  | _ => exact absurd changed (by simp [Changed, Mount.handled, Mount.setShared, CredentialFs.replyError])

theorem permitted_of_task (task : ∀ request handled, event ≠ .request request handled)
    (change : Changed s s' → s.ByWriter event) : Permitted s event s' where
  data := fun _ _ _ he => absurd he (task _ _)
  writeOnly := fun _ _ _ _ _ _ _ _ he => absurd he (task _ _)
  change := change
  neither := fun _ _ _ _ he => absurd he (task _ _)
  foreign := fun _ _ _ he => absurd he (task _ _)

theorem Sound.request_data (h : Sound owner s) {ino fh offset : UInt64} {size : UInt32} {bytes : Bytes} {shared : Shared}
    {w : World} (hh : s.fs.Handles s.world (.read ino fh offset size) (.replied (.data bytes) shared) w) :
    (∃ flags, s.Holds fh flags Work.needsRead ∧ (flags &&& oAccmode = oRdonly ∨ flags &&& oAccmode = oRdwr)) ∧
      bytes = sliceContent s.fs.shared.content.contents offset size := by
  cases hh with
  | reported uid reply caller permitted plain => cases caller
  | read ino fh offset size handle held canRead => exact ⟨h.holds_read held canRead, rfl⟩
  | mutated fh reply shared w' through held table plain => exact through.elim

theorem wronly_of_read {flags : UInt32} (h : flags &&& oAccmode = oRdonly ∨ flags &&& oAccmode = oRdwr) :
    flags &&& oAccmode ≠ oWronly := by
  rcases h with h | h
  all_goals
    rw [h]
    decide

theorem Sound.permitted (h : Sound owner s) (next : Step host s event s') : Permitted s event s' := by
  cases next with
  | request request handled w ran =>
    have hh := CredentialFs.handle_handles ran
    refine ⟨fun request' bytes shared he => ?_, fun ino fh offset size bytes shared flags right he held => ?_,
      h.request_change hh, fun uid pid flags handled' he hr hrw hw => ?_,
      fun request' handled' uid he hcaller hforeign => ?_⟩
    · cases he
      have hdata := hh
      cases hh with
      | reported uid reply caller permitted plain => rcases plain with hp | hp <;> cases hp
      | read ino fh offset size handle held canRead =>
        obtain ⟨⟨flags, hholds, hflags⟩, hbytes⟩ := h.request_data hdata
        exact ⟨ino, fh, offset, size, flags, rfl, hholds, hflags, hbytes⟩
      | mutated fh reply shared w' through held table plain => exact absurd rfl (plain bytes)
    · cases he
      obtain ⟨⟨flags', hholds, hflags⟩, -⟩ := h.request_data hh
      rw [held.flags_eq hholds]
      exact wronly_of_read hflags
    · cases he
      obtain ⟨heq, -⟩ := finishes_pure ran
      rw [openFile_neither hr hrw hw] at heq
      cases heq
      exact ⟨rfl, rfl⟩
    · cases he
      cases hh with
      | refused errno => exact .inl ⟨errno, rfl⟩
      | reported uid' reply caller permitted plain =>
        cases hcaller.symm.trans caller
        exact absurd permitted (by simp [hforeign])
      | read ino fh offset size handle held canRead => cases hcaller
      | released ino fh => cases hcaller
      | opening uid' pid flags needsRead needsWrite truncateOnOpen asked =>
        cases hcaller
        exact .inr ⟨_, rfl, rfl⟩
      | resizing uid' pid change newSize permitted =>
        cases hcaller
        exact .inr ⟨_, rfl, rfl⟩
      | mutated fh reply shared w' through held table plain =>
        cases request with
        | setattr uid' pid ino change =>
          cases hcaller
          exact absurd through.2.1 (by simp [hforeign])
        | write ino fh' offset data => cases hcaller
        | _ => exact through.elim
  | decide index t identified decision found stage =>
    exact permitted_of_task (by simp) fun hc => absurd hc (by simp [Changed, Mount.setTask])
  | truncate index t newSize result w found stage ran =>
    have ht := h.tasks t (List.mem_of_getElem? found)
    refine permitted_of_task (by simp) fun _ =>
      .inr ⟨index, t, rfl, found, ?_, ht.asked.truncation (ht.truncating newSize stage)⟩
    by_contra hno
    have := ht.refused (by simp [stage]) hno
    simp [stage] at this
  | finish index t found stage =>
    refine permitted_of_task (by simp) fun hc => absurd hc ?_
    unfold Mount.finish
    split <;> simp [Changed, Mount.setTask, Mount.setShared, Shared.registerHandle]

theorem Sound.number_eq (h : Sound owner s) {n : ℕ} {fh : UInt64} (hn : s.numbers[n]? = some fh) :
    fh.toNat = (n + 1) % 2 ^ 64 := by
  rw [h.numbers, List.getElem?_map] at hn
  obtain ⟨k, hk, rfl⟩ := Option.map_eq_some_iff.mp hn
  obtain ⟨-, rfl⟩ := List.getElem?_eq_some_iff.mp hk
  simp

/-- Handles never exceed what the policy authorized: reads and changes go through handles whose own open was
allowed in that direction, or come from a truncation that was itself allowed; an open asks the policy for what its
flag word says; a task that was not allowed, or whose uid is neither the owner's nor root's, ends with an error; and
a handle number comes back only after `2 ^ 64` others. -/
theorem handles_authorized {w₀ : World} {watched : Path} {record : SnapshotRecord}
    (run : Run host (start w₀ watched record) s) (next : Step host s event s') :
    Permitted s event s' ∧ s.fs.ownerUid = record.header.parent.uid ∧
      (∀ t ∈ s'.tasks, t.work.Asked) ∧
      (∀ t ∈ s'.tasks, t.stage ≠ .deciding → ¬ t.Allowed → t.stage = .replied (.error .eacces)) ∧
      (∀ t ∈ s'.tasks, t.Allowed → t.uid = record.header.parent.uid ∨ t.uid = 0) ∧
      (∀ fh handle, s'.fs.shared.handles fh = some handle → s'.Registered fh handle) ∧
      ∀ i j fh, s'.numbers[i]? = some fh → s'.numbers[j]? = some fh → i ≡ j [MOD 2 ^ 64] := by
  have h := run.sound (sound_start w₀ watched record)
  have h' := h.step next
  refine ⟨h.permitted next, h.owner, fun t ht => (h'.tasks t ht).asked, fun t ht => (h'.tasks t ht).refused,
    fun t ht hallowed => ?_, h'.handles, fun i j fh hi hj => ?_⟩
  · have hp := (h'.tasks t ht).permitted hallowed
    simpa [CredentialFs.uidPermitted, h'.owner] using hp
  · exact Nat.ModEq.add_right_cancel' 1 ((h'.number_eq hi).symm.trans (h'.number_eq hj))

theorem exists_openings (w₀ : World) (watched : Path) (record : SnapshotRecord) (count : ℕ) :
    ∃ s, Run host (start w₀ watched record) s ∧ s.numbers.length = count ∧
      ∀ fh, s.numbers.getLast? = some fh → s.fs.shared.handles fh = some ⟨.read, true⟩ := by
  induction count with
  | zero => exact ⟨_, .start, rfl, fun fh hnone => (by cases hnone)⟩
  | succ count ih =>
    obtain ⟨s, run, hcount, -⟩ := ih
    let task : Task := ⟨0, 0, .opening oRdonly true false false, .deciding, none⟩
    let index := s.tasks.length
    have hopen : s.fs.openFile 0 0 rootIno oRdonly = .spawned task := by
      have haccess : Access.fromOpenFlags 0 = .read := by decide
      simp [CredentialFs.openFile, haccess, task, oRdonly]
    have opened : Step host s (.request (.openFile 0 0 rootIno oRdonly) (.spawned task))
        (s.handled s.world (.spawned task)) :=
      .request _ _ _ (by simp only [CredentialFs.handle, hopen]; exact .pure _ _)
    have hfound : (s.handled s.world (.spawned task)).tasks[index]? = some task :=
      List.getElem?_concat_length
    have hdecide : s.fs.decideOpen 0 true .allowOnce = some .allowOnce := by
      simp [CredentialFs.decideOpen]
    let allowed : Task := ⟨0, 0, .opening oRdonly true false false, .finishing, some .allowOnce⟩
    have decided : Step host (s.handled s.world (.spawned task)) (.decide index (some .allowOnce))
        ((s.handled s.world (.spawned task)).setTask index allowed) := by
      have hstep := @Step.decide host _ index task true .allowOnce hfound rfl
      simp only [Mount.handled] at hstep
      rw [show task.uid = 0 from rfl, hdecide] at hstep
      exact hstep
    have finished := @Step.finish host ((s.handled s.world (.spawned task)).setTask index allowed) index allowed
      (List.getElem?_set_self (List.getElem?_eq_some_iff.mp hfound).1) rfl
    refine ⟨_, ((run.step opened).step decided).step finished, by simp [Mount.finish, allowed, Mount.setTask,
      Mount.setShared, Mount.handled, hcount], fun fh hlast => ?_⟩
    rw [Mount.finish, List.getLast?_concat, Option.some_inj] at hlast
    rw [← hlast]
    exact Function.update_self ..

/-- The counter of handle numbers wraps around. -/
theorem handle_numbers_wrap : ¬ ∀ s, Run .sample (start .sample (utf8 "/a") (sampleRecord (utf8 "/a"))) s →
    s.numbers.Nodup := by
  intro h
  obtain ⟨s, run, hcount, -⟩ := @exists_openings .sample .sample (utf8 "/a") (sampleRecord (utf8 "/a"))
    (2 ^ 64 + 1)
  have hnumbers := (run.sound (sound_start ..)).numbers
  have hfirst : s.numbers[0]? = s.numbers[2 ^ 64]? := by
    rw [hnumbers, List.getElem?_map, List.getElem?_map, List.getElem?_range (by omega),
      List.getElem?_range (by omega)]
    rfl
  have := (List.nodup_iff_getElem?_ne_getElem?.mp (h s run)) 0 (2 ^ 64) (by omega) (by omega)
  exact this hfirst

/-- Root opens the file for reading and reads it. -/
theorem handles_authorized_read : ∃ (s s' : Mount) (bytes : Bytes),
    s.numbers = [1] ∧
      Permitted s (.request (.read rootIno 1 0 16) (.replied (.data bytes) s.fs.shared)) s' := by
  obtain ⟨s, run, hcount, hopened⟩ := @exists_openings .sample .sample (utf8 "/a") (sampleRecord (utf8 "/a")) 1
  have hnumbers : s.numbers = [1] := by
    have h := (run.sound (sound_start ..)).numbers
    rwa [hcount] at h
  have hheld : s.fs.shared.handles 1 = some ⟨.read, true⟩ := hopened 1 (by rw [hnumbers]; rfl)
  have hread : s.fs.read rootIno 1 0 16 =
      .replied (.data (sliceContent s.fs.shared.content.contents 0 16)) s.fs.shared := by
    simp [CredentialFs.read, hheld]
  have next : Step .sample s (.request (.read rootIno 1 0 16) (s.fs.read rootIno 1 0 16)) _ :=
    .request _ _ s.world (.pure _ _)
  rw [hread] at next
  exact ⟨s, _, _, hnumbers, (handles_authorized run next).1⟩

end Mount

end FileGuard.Fuse
