import FileGuard.Fuse.Race

/-! What a mounted file is after its daemon: recovery gives it back with every write that landed. -/

namespace FileGuard.Fuse

open Store Files Transaction Recovery CrashLogic

variable {S : Site} {w w' w₀ : World} {row next record : SnapshotRecord} {shared : Shared} {s : Race}

theorem Takes.inv {detached : Option ObjectIdentity} (h : Takes S.path w row next w') (hi : Inv S w.settled)
    (unblocked : next.header.blockedReason = none) (mounted : row.header.lifecycle = .mountIntent detached)
    (placeholder : next.header.placeholder = row.header.placeholder)
    (phase : next.header.lifecycle = .mountIntent detached ∨
      ∃ outcome, next.header.lifecycle = .unmountIntent outcome detached) : Inv S w'.settled := by
  have hnow : Now S w.settled row := ⟨hi, h.before⟩
  have haccepted := h.accepted
  unfold Entry.commit at haccepted
  obtain ⟨hv, -⟩ := check_eq_ok.mp haccepted
  obtain ⟨_, hrow, -, -, hrevision, hfields⟩ := validateSuccessor_some hv
  cases hrow
  have hsucceeds := validateSuccessorFields_succeeds hrevision hfields
  have hstaging := stagingOf_congr hsucceeds.stagingPathHex
  have hfiles : InstalledFiles S next (view S.path w.settled) detached := by
    have hbefore := hnow.files
    rw [mounted] at hbefore
    change InstalledFiles S row (view S.path w.settled) detached at hbefore
    unfold InstalledFiles layoutOf stagedSlot at *
    rwa [hstaging, placeholder]
  have hdirectory : stagingOf row ∈ w.settled.directories := hnow.directory (by simp [mounted])
  have hphase : PhaseFiles S next (view S.path w.settled) next.header.lifecycle := by
    rcases phase with hl | ⟨outcome, hl⟩ <;> rw [hl] <;> exact hfiles
  rw [h.after]
  exact (committed_putEntry hi
    ⟨hnow.sound.succeeds hsucceeds h.valid.1 unblocked, rfl, hphase, .inr (hstaging ▸ hdirectory)⟩).inv

theorem Race.Moves.inv (hi : Inv S w.settled) (h : Race.Moves S.path w row w' next) : Inv S w'.settled := by
  cases h with
  | still => exact hi
  | landed mounted unblocked takes =>
    obtain ⟨detached, hl⟩ := isMountIntent_eq mounted
    exact takes.inv hi unblocked hl rfl (.inl hl)
  | fenced mounted unblocked takes => exact takes.inv hi unblocked mounted rfl (.inr ⟨_, rfl⟩)

/-- The row that the client has been told of: what landed, in order, on what was served. -/
def Race.told (record : SnapshotRecord) (s : Race) : SnapshotRecord where
  header := { record.header with logicalPresent := record.header.logicalPresent || !s.landed.isEmpty }
  contents := s.landed.foldl (fun file m => m.effect file) record.contents

theorem Race.Fenced.delivered {p : Path} (h : Race.Fenced p record s row) {v : View} (hd : Delivered S row v) :
    Delivered S (s.told record) v := by
  unfold Delivered at *
  rw [h.present] at hd
  change if (record.header.logicalPresent || !s.landed.isEmpty) = true then _ else _
  split_ifs at hd ⊢
  · obtain ⟨i, hv, hintact⟩ := hd
    refine ⟨i, hv, hintact.plain, hintact.contents.trans h.contents, ?_⟩
    have hmetadata := hintact.metadata
    rwa [h.original] at hmetadata
  · exact hd

theorem raced {meets : World → Operation → Prop} (hmeets : ∀ w, meets w .storeOffline → Clear S w)
    (run₀ : System.Reachable (S.operations meets) (Fresh S) none w₀)
    (served : Finishes (alone S.host fun _ _ => True) (Shared.new S.manager S.path) w₀ (.ok shared) w)
    (run : Race.Run S (.start w shared.content) s) :
    ∃ row, Race.Fenced S.path shared.content s row ∧ Now S s.world.settled row := by
  have hi₀ := operations_inv hmeets run₀
  have hstored (r) (hrow : w₀.store S.path = .present r) :
      validateSnapshot r = .ok () ∧ r.header.pathHex = pathToHex S.path := by
    have hnow : Now S w₀.settled r := ⟨hi₀, hrow⟩
    exact ⟨hnow.sound.valid, hnow.sound.bound⟩
  obtain ⟨hstart, rfl⟩ := served_racing hstored served
  obtain ⟨row, h, hi⟩ := hstart.run (J := fun w _ => Inv S w.settled) (fun hi hmoves => hmoves.inv hi) hi₀ run
  exact ⟨row, h.fenced, hi, h.fenced.durable⟩

/-- Wherever a daemon that serves a path is cut short, with a mutation or `begin_unmount` under way or with neither,
recovery can run to its end, and wherever it does, the store is empty and the path is what was served with all that
landed, in order, and nothing else. -/
theorem mounted_writes_survive
    (run₀ : System.Reachable (S.operations fun w op => op = .storeOffline → Clear S w) (Fresh S) none w₀)
    (served : Finishes (alone S.host fun _ _ => True) (Shared.new S.manager S.path) w₀ (.ok shared) w)
    (run : Race.Run S (.start w shared.content) s) (room : ∀ r, s.world.store S.path = .present r → Room 12 r) :
    (∃ result w', Finishes (alone S.host (Fair S.path)) (recovery S.manager S.path) s.world result w') ∧
      ∀ result w', Finishes (alone S.host (Fair S.path)) (recovery S.manager S.path) s.world result w' →
        result = .ok () ∧ w'.store S.path = .missing ∧ Delivered S (s.told shared.content) (view S.path w') := by
  obtain ⟨row, h, hnow⟩ := raced (fun w hclear => hclear rfl) run₀ served run
  have hrecovery : Runs S False (recovery S.manager S.path) (fun _ w' => Over S s.world.settled w') s.world.settled :=
    runs_recovery hnow.inv fun r hr => .inr (room r hr)
  obtain ⟨hends, hend⟩ := hrecovery.finishes hnow.inv
  refine ⟨hends, fun result w' hfinishes => ?_⟩
  obtain ⟨_, rfl, hover⟩ := hend result w' hfinishes
  exact ⟨rfl, hover.entry, h.delivered (hover.delivered row hnow.last)⟩

/-- A captured file is mounted, and recovered with the write that its mount was sent. -/
theorem mounted_writes_survive_write : ∃ (shared : Shared) (w w' : World) (s : Race),
    Race.Run .sample (.start w shared.content) s ∧ s.history.map (·.mutation) = [.write 1 2 [7]] ∧
      Finishes (alone Site.sample.host (Fair Site.sample.path)) (recovery Site.sample.manager Site.sample.path)
        s.world (.ok ()) w' ∧
          ∃ i, view Site.sample.path w' (targetSlot .sample) = some i ∧ i.contents = [0, 0, 7] := by
  obtain ⟨w, r, hreached, hnow, hmounted, hempty, hroom⟩ := reachable_mounted
  obtain ⟨c, hc⟩ := fair_single
  have served := served_of_mounted hnow hmounted hc.answer
  let opened : Shared := ⟨r, fun _ => some ⟨.write, false⟩, 1⟩
  have hwrite : Runs .sample False ((Mutation.write 1 2 [7]).prog opened) _ w.settled :=
    runs_mutation (k := 12) hnow hmounted ⟨⟨false, rfl⟩, by decide⟩ hroom
  obtain ⟨⟨_, w₁, wrote⟩, hwrote⟩ := hwrite.finishes hnow.inv
  obtain ⟨written, rfl, h₁, hcontent, hroom₁⟩ := hwrote _ _ wrote
  have hlocked : Race.Run .sample (.start w r) _ := .step .start (.lock (.write 1 2 [7]) opened rfl rfl)
  obtain ⟨s, hs, rfl, -, -, landed, hhistory⟩ :=
    hlocked.mutates rfl (finishes_freely wrote)
  have hrooms (r) (hrow : s.world.store Site.sample.path = .present r) : Room 12 r := by
    cases h₁.entry.symm.trans hrow
    exact hroom₁
  obtain ⟨⟨result, w', hfinishes⟩, hend⟩ := mounted_writes_survive hreached served hs hrooms
  obtain ⟨rfl, -, hdelivered⟩ := hend result w' hfinishes
  refine ⟨⟨r, fun _ => none, 1⟩, w, w', s, hs, by rw [hhistory]; rfl, hfinishes, ?_⟩
  obtain ⟨row, h, hend⟩ := raced (fun w hclear => hclear rfl) hreached served hs
  obtain rfl : written.content = row := by
    have he := h₁.entry.symm.trans hend.entry
    cases he
    rfl
  have htold : (s.told r).header.logicalPresent = true := by
    refine h.present.symm.trans ?_
    rw [hcontent]
    rfl
  unfold Delivered at hdelivered
  rw [if_pos htold] at hdelivered
  obtain ⟨i, hv, hintact⟩ := hdelivered
  refine ⟨i, hv, (hintact.contents.trans h.contents.symm).trans ?_⟩
  rw [hcontent]
  change writeEffect 2 [7] r.contents = _
  rw [hempty]
  decide

end FileGuard.Fuse
