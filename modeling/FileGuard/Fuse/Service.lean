import FileGuard.Fuse.Linearizable
import FileGuard.Recovery.Serving

/-! A served path on a fair machine: what is within the limits is acknowledged. -/

namespace FileGuard.Fuse

open Store Files Transaction Recovery CrashLogic

variable {S : Site} {w w' : World} {row : SnapshotRecord} {shared : Shared}

section landing

/-- The size limit and the open handle let a mutation through. -/
def Admits (shared : Shared) : Mutation → Prop
  | .write fh offset data => (∃ canRead, shared.handles fh = some ⟨.write, canRead⟩) ∧
      offset.toNat + data.length ≤ maxContentLen
  | .truncate newSize => newSize.toNat ≤ maxContentLen

theorem length_effect {m : Mutation} (h : Admits shared m) (short : shared.content.contents.length ≤ maxContentLen) :
    (m.effect shared.content.contents).length ≤ maxContentLen := by
  cases m with
  | write fh offset data => simpa [Mutation.effect, writeEffect] using ⟨short, h.2⟩
  | truncate newSize =>
    have hsize : newSize.toNat ≤ maxContentLen := h
    simpa [Mutation.effect, truncateEffect] using hsize

theorem runs_commitContents {k : ℕ} {contents : Bytes} (h : Now S w shared.content)
    (mounted : isMountIntent shared.content.header.lifecycle = true) (fits : contents.length ≤ maxContentLen)
    (room : Room (k + 1) shared.content) :
    Runs S False (shared.commitContents contents) (fun shared' w' =>
      Now S w' shared'.content ∧ shared'.content = mountedSuccessor shared.content contents ∧
        Room k shared'.content) w := by
  obtain ⟨detached, hl⟩ := isMountIntent_eq mounted
  unfold Shared.commitContents
  apply (Runs.mapError (runs_updateContents_lands h hl fits room)).andThen
  rintro next w' hnext
  exact Runs.pure hnext

/-- A mutation within the limits is acknowledged on a fair machine. -/
theorem runs_mutation {k : ℕ} {m : Mutation} (h : Now S w shared.content)
    (mounted : isMountIntent shared.content.header.lifecycle = true) (admits : Admits shared m)
    (room : Room (k + 1) shared.content) :
    Runs S False (m.prog shared) (fun shared' w' => Now S w' shared'.content ∧
      shared'.content = mountedSuccessor shared.content (m.effect shared.content.contents) ∧
        Room k shared'.content) w := by
  have hcommit := runs_commitContents h mounted (length_effect admits (validateSnapshot_facts h.sound.valid).length) room
  cases m with
  | truncate newSize =>
    simp only [Mutation.prog, Shared.applyTruncate]
    rw [if_neg (not_lt.mpr admits), resize_eq]
    exact hcommit
  | write fh offset data =>
    obtain ⟨⟨canRead, hhandle⟩, hend⟩ := admits
    have hstop : checkedWriteEnd offset data.length = .ok (offset.toNat + data.length) := by
      unfold checkedWriteEnd
      rw [if_neg (by have : maxContentLen < 2 ^ 64 := by decide
                     omega), if_neg (not_lt.mpr hend)]
    simp only [Mutation.prog, Shared.applyWrite, hhandle, hstop, copyInto_grown, Prog.bind_eq]
    apply Runs.bind
    apply hcommit.andThen
    intro shared' w' hdone
    apply Runs.pure
    exact Runs.pure hdone

end landing

theorem runs_beginUnmount_fences {k rounds : ℕ} {outcome : UnmountNext} (h : Now S w row)
    (mounted : isMountIntent row.header.lifecycle = true) (room : Room (k + 1) row) :
    Runs S False (S.manager.beginUnmount (rounds + 1) S.path outcome) (fun next w' => Now S w' next ∧
      Later 1 row next) w := by
  obtain ⟨detached, hl⟩ := isMountIntent_eq mounted
  unfold Manager.beginUnmount Manager.beginUnmountLoop
  apply reads_normalizePath.runs_bind
  apply (runs_loadPresent h.inv (.inr ⟨row, h.entry⟩)).andThen
  rintro r w₁ ⟨rfl, h'⟩
  cases h.entry.symm.trans h'.entry
  rw [hl]
  have htransition : Runs S False (transition row (.unmountIntent outcome detached)).attempt
      (fun answer w' => ∃ next, answer = .ok next ∧ Now S w' next ∧ Later 1 row next) w₁ := by
    apply Runs.attempt
    apply (runs_placedTransition (k := k) h (.inr (.inl hl)) (.inr (.inr ⟨outcome, rfl⟩)) _ (.inr room)).mono
    · rintro next w' ⟨h', -, hlater⟩
      exact ⟨next, rfl, h', hlater⟩
    · simp [lifecycleTransitionIsValid, hl]
  apply htransition.andThen
  rintro _ w' ⟨next, rfl, hnext⟩
  exact Runs.pure hnext

theorem served_of_mounted {c : Choice} (h : Now S w.settled row) (mounted : isMountIntent row.header.lifecycle = true)
    (acknowledged : c.answer = .acknowledged) :
    Finishes (alone S.host fun _ _ => True) (Shared.new S.manager S.path) w (.ok ⟨row, fun _ => none, 1⟩) w := by
  obtain ⟨detached, hl⟩ := isMountIntent_eq mounted
  have hload : w.exec S.host c (.load S.path) = (.ok (.present row), w) := by
    rw [← show w.store S.path = .present row from h.entry]
    simp only [World.exec, acknowledged]
  unfold Shared.new load storeLoad
  rw [normalizePath_eq]
  refine .call rfl ⟨c, trivial, hload⟩ ?_
  simp only [Prog.pure_bind, ofStore, Except.mapError, Prog.ofExcept_ok, h.sound.unblocked, hl]
  exact .pure _ _

theorem finishes_freely {ε α : Type} {allowed : World → Choice → Prop} {p : Prog signature ε α}
    {result : Except ε α} (h : Finishes (alone S.host allowed) p w result w') :
    Finishes (alone S.host fun _ _ => True) p w result w' := by
  have hstep (o w r w') (made : (alone S.host allowed).step o w r w') :
      (alone S.host fun _ _ => True).step o w r w' := by
    obtain ⟨c, -, hexec⟩ := made
    exact ⟨c, trivial, hexec⟩
  exact finishes_weaken hstep (fun _ _ heq => heq) h

theorem reachable_mounted : ∃ w r,
    System.Reachable (Site.sample.operations fun w op => op = .storeOffline → Clear .sample w) (Fresh .sample) none w ∧
      Now .sample w.settled r ∧ isMountIntent r.header.lifecycle = true ∧ r.contents = [] ∧ Room 13 r := by
  have hroom : Room 16 capturedRow := ⟨by decide, sampleRuns.room.length⟩
  have hcaptured : System.Reachable (Site.sample.operations fun w op => op = .storeOffline → Clear .sample w)
      (Fresh .sample) none World.captured := reachable_capturing (.inr rfl) nofun
  have hi := operations_inv (fun w hclear => hclear rfl) hcaptured
  have hprepare : Runs .sample False (Site.sample.manager.prepare 1 Site.sample.path).void (fun _ w' => ∃ next,
      Now .sample w' next ∧ (∃ detached, next.header.lifecycle = .installed detached) ∧ Later 2 capturedRow next)
        World.captured.settled := by
    apply (runs_prepare_installed (k := 14) ⟨hi, putEntry_store _⟩ (.inl rfl) hroom).andThen
    intro next w' hnext
    exact Runs.pure ⟨next, hnext⟩
  obtain ⟨⟨_, w₁, prepared⟩, hprepared⟩ := hprepare.finishes hi
  obtain ⟨_, rfl, r₁, h₁, ⟨detached, hinstalled⟩, hlater₁⟩ := hprepared _ _ prepared
  have hmount : Runs .sample False (Site.sample.manager.beginMount Site.sample.path).void (fun _ w' => ∃ next,
      Now .sample w' next ∧ next.header.lifecycle = .mountIntent detached ∧ Later 1 r₁ next) w₁.settled := by
    apply (runs_beginMount_mounted (k := 13) h₁ hinstalled (hlater₁.room 14 hroom)).andThen
    intro next w' hnext
    exact Runs.pure ⟨next, hnext⟩
  obtain ⟨⟨_, w₂, begun⟩, hbegun⟩ := hmount.finishes h₁.inv
  obtain ⟨_, rfl, r₂, h₂, hmounted, hlater₂⟩ := hbegun _ _ begun
  have hinstalling := (System.Reachable.start hcaptured ⟨.prepare 1, trivial, nofun, rfl⟩).finishes prepared
  have hmounting := (System.Reachable.start hinstalling ⟨.beginMount, trivial, nofun, rfl⟩).finishes begun
  exact ⟨w₂, r₂, hmounting, h₂, by rw [hmounted]; rfl, hlater₂.contents.trans hlater₁.contents,
    hlater₂.room 13 (hlater₁.room 14 hroom)⟩

end FileGuard.Fuse
