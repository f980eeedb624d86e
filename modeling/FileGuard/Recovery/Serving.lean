import FileGuard.Recovery.Completion

/-! A captured path can be served: its placeholder is installed and its mount announced, and writes land on it. -/

namespace FileGuard.Recovery

open Store Files Transaction CrashLogic

variable {S : Site} {w w' : World} {r next : SnapshotRecord}

/-- A program that cannot fail on a fair machine can run to its end there, and wherever it does, it does not fail. -/
theorem Runs.finishes {ε α : Type} {p : Prog signature ε α} {Q : α → World → Prop} (hi : Inv S w.settled)
    (h : Runs S False p Q w.settled) :
    (∃ result w', Finishes (alone S.host (Fair S.path)) p w result w') ∧
      ∀ result w', Finishes (alone S.host (Fair S.path)) p w result w' → ∃ a, result = .ok a ∧ Q a w'.settled := by
  have hwp := wp_alone_of_calm (fun _ _ hc => hc.settled) h
  constructor
  · apply exists_finishes (I := fun w => Inv S w.settled) _ (fun _ _ hk => hk) hi hwp
    intro w hi o
    obtain ⟨c, hc⟩ := exists_fair hi
    exact ⟨_, _, c, hc.of_settled, rfl⟩
  · intro result w' hfinishes
    have hend := wp_finishes hwp hfinishes
    cases result with
    | error e => exact hend.elim
    | ok a => exact ⟨a, rfl, hend⟩

section service

/-- What the daemon does for a path before it mounts it. -/
def service (m : Manager) (rounds : ℕ) (path : Path) : TxProg SnapshotRecord :=
  (m.prepare rounds path).bind fun _ => m.beginMount path

/-- A phase from which a path can be served at once. -/
def Servable (lifecycle : Lifecycle) : Prop :=
  lifecycle = .captured ∨ lifecycle = .installIntent ∨ ∃ detached, lifecycle = .installed detached

theorem runs_prepareRow_installed {k : ℕ} (h : Now S w r) (hc : Servable r.header.lifecycle) (room : Room (k + 2) r) :
    Runs S False (S.manager.prepareRow S.path r) (fun answer w' => ∃ next, answer = some next ∧ Now S w' next ∧
      (∃ detached, next.header.lifecycle = .installed detached) ∧ Later 2 r next) w := by
  unfold Manager.prepareRow
  apply (reads_requireUnblocked h.sound).runs_bind
  rcases hc with hc | hc | ⟨detached, hc⟩ <;> rw [hc]
  · apply (runs_beginInstall (k := k + 1) h hc (.inr room)).andThen
    rintro r₁ w₁ ⟨h₁, hphase, hlater⟩
    apply (runs_finishInstall (k := k) h₁ hphase (.inr (hlater.room (k + 1) room))).andThen
    rintro next w' ⟨h', hinstalled, hlater'⟩
    exact Runs.pure ⟨next, rfl, h', hinstalled, hlater.trans hlater'⟩
  · apply (runs_finishInstall (k := k + 1) h hc (.inr room)).andThen
    rintro next w' ⟨h', hinstalled, hlater⟩
    exact Runs.pure ⟨next, rfl, h', hinstalled, hlater.le (by omega)⟩
  · have hrequire : Reads S (S.manager.requireInstalled S.path r) (.ok r) w := by
      unfold Manager.requireInstalled
      rw [hc]
      exact reads_requirePlaced h (.inl hc)
    exact hrequire.runs_bind (Runs.pure ⟨r, rfl, h, ⟨detached, hc⟩, (Later.refl r).le (by omega)⟩)

theorem runs_beginMount_mounted {k : ℕ} {detached : Option ObjectIdentity} (h : Now S w r)
    (hc : r.header.lifecycle = .installed detached) (room : Room (k + 1) r) :
    Runs S False (S.manager.beginMount S.path) (fun next w' => Now S w' next ∧
      next.header.lifecycle = .mountIntent detached ∧ Later 1 r next) w := by
  unfold Manager.beginMount
  apply reads_normalizePath.runs_bind
  apply (runs_loadPresent h.inv (.inr ⟨r, h.entry⟩)).andThen
  rintro row w₁ ⟨rfl, h'⟩
  cases h.entry.symm.trans h'.entry
  rw [hc]
  apply (reads_requirePlaced h (.inl hc)).runs_bind
  apply runs_placedTransition (k := k) h (.inl hc) (.inr (.inl rfl)) _ (.inr room)
  simp [lifecycleTransitionIsValid, hc]

theorem runs_prepare_installed {k rounds : ℕ} (h : Now S w r) (hc : Servable r.header.lifecycle)
    (room : Room (k + 2) r) :
    Runs S False (S.manager.prepare (rounds + 1) S.path) (fun next w' => Now S w' next ∧
      (∃ detached, next.header.lifecycle = .installed detached) ∧ Later 2 r next) w := by
  unfold Manager.prepare Manager.prepareLoop
  apply reads_normalizePath.runs_bind
  apply (reads_load h.inv).runs_bind
  rw [h.entry]
  apply (runs_prepareRow_installed (k := k) h hc room).andThen
  rintro _ w' ⟨next, rfl, hnext⟩
  exact Runs.pure hnext

/-- Wherever the operations before it were cut short, a path that is captured can be served: what the daemon does before
it mounts the path can run to its end, and wherever it does, the mount is announced in a row that holds the same file. -/
theorem captured_is_served {k rounds : ℕ} {p : Option (TxProg Unit)}
    (run : System.Reachable (S.operations fun w op => op = .storeOffline → Clear S w) (Fresh S) p w)
    (stored : w.store S.path = .present r) (ready : Servable r.header.lifecycle) (room : Room (k + 3) r) :
    (∃ result w', Finishes (alone S.host (Fair S.path)) (service S.manager (rounds + 1) S.path) w result w') ∧
      ∀ result w', Finishes (alone S.host (Fair S.path)) (service S.manager (rounds + 1) S.path) w result w' →
        ∃ next, result = .ok next ∧ w'.store S.path = .present next ∧ isMountIntent next.header.lifecycle = true ∧
          next.contents = r.contents ∧ next.header.original = r.header.original ∧ Room k next := by
  have hi := operations_inv (fun w hclear => hclear rfl) run
  have h : Now S w.settled r := ⟨hi, stored⟩
  have hservice : Runs S False (service S.manager (rounds + 1) S.path) (fun next w' => Now S w' next ∧
      (∃ detached, next.header.lifecycle = .mountIntent detached) ∧ Later 3 r next) w.settled := by
    apply (runs_prepare_installed (k := k + 1) h ready room).andThen
    rintro r₁ w₁ ⟨h₁, ⟨detached, hinstalled⟩, hlater⟩
    apply (runs_beginMount_mounted (k := k) h₁ hinstalled (hlater.room (k + 1) room)).mono
    rintro next w' ⟨h', hmounted, hlater'⟩
    exact ⟨h', ⟨detached, hmounted⟩, hlater.trans hlater'⟩
  obtain ⟨hends, hend⟩ := hservice.finishes hi
  refine ⟨hends, fun result w' hfinishes => ?_⟩
  obtain ⟨next, rfl, h', ⟨detached, hmounted⟩, hlater⟩ := hend result w' hfinishes
  exact ⟨next, rfl, h'.entry, by rw [hmounted]; rfl, hlater.contents, hlater.original, hlater.room k room⟩

theorem captured_is_served_sample : ∃ w next, next.contents = capturedRow.contents ∧
    Finishes (alone Site.sample.host (Fair Site.sample.path)) (service Site.sample.manager 1 Site.sample.path)
      World.captured (.ok next) w := by
  obtain ⟨⟨result, w, hfinishes⟩, hend⟩ := @captured_is_served .sample World.captured capturedRow 0 0 none
    (reachable_capturing (.inr rfl) nofun) (putEntry_store _) (.inl rfl) (sampleRuns.room.le (by decide))
  obtain ⟨next, rfl, -, -, hcontents, -⟩ := hend result w hfinishes
  exact ⟨w, next, hcontents, hfinishes⟩

end service

section landing

variable {contents : Bytes} {detached : Option ObjectIdentity}

theorem validateOriginal_mounted (h : validateOriginal r.header = .ok ()) :
    validateOriginal (mountedSuccessor r contents).header = .ok () := by
  have horiginal : (mountedSuccessor r contents).header.original = r.header.original := rfl
  unfold validateOriginal at *
  rw [horiginal]
  split at h
  · rfl
  · rename_i identity metadata ho
    obtain ⟨hidentity, hlinks⟩ := check_eq_ok.mp h
    refine check_eq_ok.mpr ⟨hidentity, corruptIf_eq_ok.mpr ?_⟩
    rintro (hne | habsent)
    · exact corruptIf_eq_ok.mp hlinks (.inl hne)
    · cases habsent

theorem validateSnapshot_mounted (h : validateSnapshot r = .ok ()) (hl : r.header.lifecycle = .mountIntent detached)
    (fits : contents.length ≤ maxCredentialSize) : validateSnapshot (mountedSuccessor r contents) = .ok () := by
  simp only [validateSnapshot, check_eq_ok] at h ⊢
  obtain ⟨hformat, hrev, hgen, htok, hlen, hsha, hblock, hpaths, hswap, hstored, hparent, hplaceholder, hmeta, horig,
    hempty, -, hstructural⟩ := h
  refine ⟨hformat, ?_, hgen, htok, ?_, ?_, hblock, hpaths, hswap, hstored, hparent, hplaceholder, hmeta,
    validateOriginal_mounted horig, ?_, ?_, ?_⟩
  · rw [corruptIf_eq_ok]
    exact Nat.succ_ne_zero _
  · rw [corruptIf_eq_ok]
    exact not_lt.mpr fits
  · rw [corruptIf_eq_ok, not_not]
    rfl
  · rw [corruptIf_eq_ok]
    rintro ⟨habsent, -⟩
    cases habsent
  · have hphase : (mountedSuccessor r contents).header.lifecycle = .mountIntent detached := hl
    unfold validateCapturedLength
    rw [hphase]
  · have hphase : (mountedSuccessor r contents).header.lifecycle = .mountIntent detached := hl
    rw [hl] at hstructural
    rw [hphase]
    exact hstructural

theorem validateSuccessor_mounted (h : Sound S r) (hl : r.header.lifecycle = .mountIntent detached)
    (fits : contents.length ≤ maxCredentialSize) :
    validateSuccessor S.path (some r.version) (.present r) (mountedSuccessor r contents) = .ok () := by
  have hb : (mountedSuccessor r contents).header.blockedReason = none := h.unblocked
  have hphase : (mountedSuccessor r contents).header.lifecycle = .mountIntent detached := hl
  have hupdate : (isMountIntent r.header.lifecycle &&
      isMountIntent (mountedSuccessor r contents).header.lifecycle) = true := by
    rw [hphase, hl]
    rfl
  have hfields : validateSuccessorFields r (mountedSuccessor r contents) = .ok () := by
    unfold validateSuccessorFields
    refine check_eq_ok.mpr ⟨conflictIf_eq_ok.mpr ?_, check_eq_ok.mpr ⟨conflictIf_eq_ok.mpr ?_,
      check_eq_ok.mpr ⟨conflictIf_eq_ok.mpr ?_, ?_⟩⟩⟩
    · simp [mountedSuccessor, SnapshotRecord.successor]
    · exact fun hc => hc.1 rfl
    · simp [h.unblocked]
    · rw [if_neg (by simp [hb])]
      refine check_eq_ok.mpr ⟨conflictIf_eq_ok.mpr ?_, check_eq_ok.mpr ⟨conflictIf_eq_ok.mpr ?_,
        check_eq_ok.mpr ⟨conflictIf_eq_ok.mpr ?_, conflictIf_eq_ok.mpr ?_⟩⟩⟩
      · simp [hb]
      · rintro ⟨-, hno⟩
        rw [hupdate] at hno
        cases hno
      · rintro ⟨hne, hno⟩
        exact hno ⟨hupdate, Bool.eq_false_of_not_eq_true fun he => hne (he.trans rfl), rfl⟩
      · have hvalid : lifecycleTransitionIsValid r.header (mountedSuccessor r contents).header = true := by
          simp [lifecycleTransitionIsValid, hphase, hl]
        simp [hvalid]
  unfold validateSuccessor
  refine check_eq_ok.mpr ⟨validateSnapshot_mounted h.valid hl fits, check_eq_ok.mpr ⟨conflictIf_eq_ok.mpr
    (not_not.mpr h.bound), check_eq_ok.mpr ⟨conflictIf_eq_ok.mpr (not_not.mpr rfl), check_eq_ok.mpr
      ⟨conflictIf_eq_ok.mpr ?_, hfields⟩⟩⟩⟩
  simp [mountedSuccessor, SnapshotRecord.successor, SnapshotRecord.version]

theorem runs_updateContents_lands {k : ℕ} (h : Now S w r) (hl : r.header.lifecycle = .mountIntent detached)
    (fits : contents.length ≤ maxCredentialSize) (room : Room (k + 1) r) :
    Runs S False (updateContents r contents) (fun next w' => Now S w' next ∧ next = mountedSuccessor r contents ∧
      Room k next) w := by
  have hs := h.sound
  have hkin : Kin r.header (mountedSuccessor r contents).header :=
    ⟨rfl, rfl, rfl, rfl, rfl, rfl, rfl, rfl, rfl, hs.unblocked, ⟨contents, rfl⟩, by
      change ∀ name ∈ lifecycleNames r.header.lifecycle, _
      rw [hl]
      nofun⟩
  have hvalid := validateSuccessor_mounted hs hl fits
  have hfits : fitsRow (mountedSuccessor r contents).header := room.fits hkin rfl
  unfold updateContents requireUnblocked
  simp only [recordPath_eq hs.bound, Prog.bind_eq, Prog.pure_bind, hs.unblocked]
  rw [if_neg (by rw [hl]; nofun)]
  have hcommit : (w.store S.path).commit S.path (some r.version) (mountedSuccessor r contents) =
      .ok (.present (mountedSuccessor r contents)) := by
    rw [h.entry]
    exact commit_eq_ok hvalid hfits
  have hcommitted := committed_putEntry h.inv (consistent_mounted h.inv (by simp) hcommit hs.unblocked hl)
  have hanswer : Runs S False (storeCommit S.path (some r.version) (mountedSuccessor r contents))
      (fun answer w' => answer = .ok (mountedSuccessor r contents).version ∧
        Committed S w w' (mountedSuccessor r contents)) w := by
    refine Runs.perform fun c hf => ?_
    simp only [World.exec, World.commitEntry, hcommit, Except.map, SqliteStore.settle, hf.answer]
    exact ⟨hcommitted.inv, trivial, hcommitted⟩
  apply hanswer.andThen
  rintro _ w' ⟨rfl, hdone⟩
  simp only [↓reduceIte]
  exact Runs.pure ⟨hdone.now, rfl, room.next hkin rfl⟩

end landing

end FileGuard.Recovery
