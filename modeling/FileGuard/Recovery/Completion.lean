import FileGuard.Recovery.Blocking

/-! Recovery ends, and gives a path back what its last row says. -/

namespace FileGuard.Recovery

open Store Files Transaction CrashLogic

variable {S : Site} {w w' : World} {r : SnapshotRecord}

section files

variable {v : View}

theorem only_of_phase {lifecycle : Lifecycle} (h : PhaseFiles S r v lifecycle) :
    ∃ names : List String, names.length ≤ 5 ∧ Only v (stagingOf r) names := by
  cases lifecycle with
  | captured => exact ⟨_, by decide, h.1⟩
  | installIntent => exact ⟨_, by decide, h.1⟩
  | installed detached => exact ⟨_, by decide, h.1⟩
  | mountIntent detached => exact ⟨_, by decide, h.1⟩
  | unmountIntent outcome detached => exact ⟨_, by decide, h.1⟩
  | restoreIntent origin restoreName restored detachedName detached =>
    obtain ⟨name, -, -, h⟩ := h
    split_ifs at h
    · exact ⟨_, by simp, h.1⟩
    · exact ⟨_, by simp, h.1⟩
  | restored origin restored displacedName displaced detachedName detached =>
    refine ⟨_, ?_, h.1⟩
    cases displacedName <;> simp
  | deleteIntent origin restored displacedName displaced detachedName detached =>
    refine ⟨_, ?_, h.1⟩
    unfold cleanupNames
    cases displacedName <;> split_ifs <;> simp
  | storeIntent name => exact ⟨_, by decide, h.2.1⟩
  | stored name detached => exact ⟨_, by decide, h.2.1⟩

theorem few_files (hi : Inv S w) : ∃ slots : List Slot, slots.length ≤ 6 ∧
    ∀ {slot i}, view S.path w slot = some i → slot ∈ slots := by
  have honly : ∃ (directory : Path) (names : List String), names.length ≤ 5 ∧
      Only (view S.path w) directory names := by
    have hc := hi.consistent
    cases hstore : w.store S.path with
    | missing =>
      rw [hstore] at hc
      exact ⟨[], [], by decide, fun d n hv => absurd (hc.1 d n) hv⟩
    | present r =>
      obtain ⟨names, hn, honly⟩ := only_of_phase (now_of_entry hi hstore).files
      exact ⟨stagingOf r, names, hn, honly⟩
    | finalizing marker =>
      obtain ⟨r, final, -, hf⟩ := finalizing_of_entry hi hstore
      exact ⟨stagingOf r, _, by decide, hf.files.1⟩
  obtain ⟨directory, names, hlen, honly⟩ := honly
  refine ⟨targetSlot S :: names.map (Slot.staged directory), ?_, ?_⟩
  · rw [List.length_cons, List.length_map]
    omega
  · intro slot i hv
    cases slot with
    | «at» path =>
      obtain ⟨object, -, -, hw⟩ := view_lookup hv
      obtain rfl : path = S.path := hw
      exact List.mem_cons_self
    | staged d n =>
      obtain ⟨rfl, hn⟩ := honly d n (by simp [hv])
      exact List.mem_cons_of_mem _ (List.mem_map_of_mem hn)

theorem exists_number (numbers : List UInt64) (h : numbers.length ≤ 6) : ∃ n : UInt64, n ∉ numbers := by
  by_contra hall
  have hsubset : [0, 1, 2, 3, 4, 5, 6] ⊆ numbers := by
    intro n _
    by_contra hn
    exact hall ⟨n, hn⟩
  have hnodup : ([0, 1, 2, 3, 4, 5, 6] : List UInt64).Nodup := by decide
  have := (hnodup.subperm hsubset).length_le
  simp only [List.length_cons, List.length_nil] at this
  omega

theorem exists_fair (hi : Inv S w) : ∃ c, Fair S.path w c := by
  obtain ⟨slots, hlen, hslots⟩ := few_files hi
  obtain ⟨n, hn⟩ := exists_number (slots.filterMap fun slot => (view S.path w slot).map Inode.number)
    ((List.length_filterMap_le _ _).trans hlen)
  have hnow : Stamp ⟨0, 0⟩ := ⟨by decide, by decide⟩
  have htoken : isToken (String.ofList (List.replicate 32 'a')) := by decide
  refine ⟨⟨⟨0, 0⟩, n, _, .acknowledged, none⟩, hnow, ?_, htoken, rfl, rfl⟩
  rintro slot i hv rfl
  exact hn (List.mem_filterMap.mpr ⟨slot, hslots hv, by rw [hv]; rfl⟩)

end files

/-- What the daemon does for a path when it starts. -/
def recovery (m : Manager) (path : Path) : TxProg Unit :=
  (m.reconcileAfterMountAbsent path).bind fun _ => (m.restore path).void

theorem Over.carried {w₁ : World} {n : ℕ} (h : Over S w₁ w') (hc : Carried n S w w₁) : Over S w w' := by
  refine ⟨h.inv, h.entry, fun r hr => ?_⟩
  obtain ⟨next, hn, hl⟩ := hc r hr
  exact (h.delivered next hn).of_later hl

theorem runs_recovery {E : Prop} (hi : Inv S w) (hroom : ∀ r, w.store S.path = .present r → E ∨ Room 12 r) :
    Runs S E (recovery S.manager S.path) (fun _ w' => Over S w w') w := by
  unfold recovery
  apply (runs_reconcileAfterMountAbsent hi hroom).andThen
  intro _ w₁ h₁
  have hrestore : Runs S E (S.manager.restore S.path) (fun _ w' => Over S w₁ w') w₁ := by
    apply runs_restore h₁.inv
    · intro r hr
      exact .inr (h₁.unmounted r hr)
    · intro next hnext
      obtain ⟨r, hr, hl⟩ := h₁.grown next hnext
      exact (hroom r hr).imp_right (hl.room 7)
  apply hrestore.andThen
  intro _ w' hover
  exact Runs.pure (hover.carried h₁.carried)

/-- Wherever the operations before it were cut short, recovery can run to its end, and wherever it does, the
store is empty and the path is what the last row says. -/
theorem recovery_completes {p : Option (TxProg Unit)}
    (run : System.Reachable (S.operations fun w op => op = .storeOffline → Clear S w) (Fresh S) p w)
    (hroom : ∀ r, w.store S.path = .present r → Room 12 r) :
    (∃ result w', Finishes (alone S.host (Fair S.path)) (recovery S.manager S.path) w result w') ∧
      ∀ result w', Finishes (alone S.host (Fair S.path)) (recovery S.manager S.path) w result w' →
        result = .ok () ∧ w'.store S.path = .missing ∧
          ∀ r, w.ghost.last S.path = some r → Delivered S r (view S.path w') := by
  have hi := operations_inv (fun w hclear => hclear rfl) run
  have hruns : Runs S False (recovery S.manager S.path) (fun _ w' => Over S w.settled w') w.settled :=
    runs_recovery hi fun r hr => .inr (hroom r hr)
  have hwp := wp_alone_of_calm (fun _ _ hc => hc.settled) hruns
  constructor
  · apply exists_finishes (I := fun w => Inv S w.settled) _ (fun _ _ hk => hk) hi hwp
    intro w hi o
    obtain ⟨c, hc⟩ := exists_fair hi
    exact ⟨_, _, c, hc.of_settled, rfl⟩
  · intro result w' hfinishes
    have hend := wp_finishes hwp hfinishes
    cases result with
    | error e => exact hend.elim
    | ok a => exact ⟨rfl, hend.entry, hend.delivered⟩

theorem normalizePath_eq (S : Site) : S.manager.normalizePath S.path = .pure S.path := by
  unfold Manager.normalizePath Manager.resolve
  rw [S.resolves]
  simp only [Except.mapError, Prog.ofExcept_ok, Prog.bind_eq, Prog.pure_bind, Prog.pure_eq, S.bound]

/-- Recovery gives up on a blocked row. -/
theorem recovery_blocked {c : Choice} {reason : String} (h : w.store S.path = .present r)
    (hblocked : r.header.blockedReason = some reason) (hc : Fair S.path w c) :
    Finishes (alone S.host (Fair S.path)) (recovery S.manager S.path) w
      (.error (.message s!"transaction for {Path.display S.path} requires manual recovery: {reason}")) w := by
  have hload : w.exec S.host c (.load S.path) = (.ok (.present r), w) := by
    rw [← h]
    simp only [World.exec, hc.answer]
  unfold recovery Manager.reconcileAfterMountAbsent requireUnblocked
  rw [normalizePath_eq]
  refine .call rfl ⟨c, hc, hload⟩ ?_
  simp only [ofStore, Except.mapError, Prog.ofExcept_ok, Prog.pure_bind, Prog.bind_eq, hblocked, bail]
  exact .fail _ w

/-- Offline stores and restores alone may leave a path that recovery cannot restore. -/
theorem recovery_completes_leftover : ∃ w,
    System.Reachable (Site.sample.operations fun _ op => op = .storeOffline ∨ op = .restore) (Fresh .sample)
      none w ∧ ∃ error w', Finishes (alone Site.sample.host (Fair Site.sample.path))
        (recovery Site.sample.manager Site.sample.path) w (.error error) w' := by
  obtain ⟨w, c, run, hstore, hc⟩ :=
    @reachable_leftovers (fun _ op => op = .storeOffline ∨ op = .restore) (fun _ => .inl rfl) fun _ => .inr rfl
  exact ⟨w, run, _, w, recovery_blocked hstore rfl hc⟩

/-- A captured file is restored. -/
theorem recovery_completes_captured : ∃ w, (∃ r, w.store Site.sample.path = .present r) ∧
    (∃ result w', Finishes (alone Site.sample.host (Fair Site.sample.path))
      (recovery Site.sample.manager Site.sample.path) w result w') ∧
      ∀ result w', Finishes (alone Site.sample.host (Fair Site.sample.path))
        (recovery Site.sample.manager Site.sample.path) w result w' →
          result = .ok () ∧ w'.store Site.sample.path = .missing ∧
            ∀ r, w.ghost.last Site.sample.path = some r → Delivered .sample r (view Site.sample.path w') := by
  obtain ⟨w, r, hrun, hstore, hroom⟩ := reachable_captured
  refine ⟨w, ⟨r, hstore⟩, recovery_completes hrun fun r' hr' => ?_⟩
  have he := hstore.symm.trans hr'
  cases he
  exact hroom

end FileGuard.Recovery
