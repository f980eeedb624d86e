import FileGuard.Recovery.Install

/-! From the captured row to the original stored offline. -/

namespace FileGuard.Recovery

open Store Files Transaction CrashLogic

variable {S : Site} {w w' : World} {r next : SnapshotRecord} {E : Prop} {v v' : View}

section entries

theorem mem_entriesOf {directory : Path} {name : String} :
    name ∈ w.entriesOf directory ↔ view S.path w (.staged directory name) ≠ none := by
  rw [Ne, view_eq_none (watched_staged directory name), World.entriesOf, List.mem_insertionSort,
    List.mem_filterMap, World.lookup, AList.lookup_eq_none, not_not]
  constructor
  · rintro ⟨slot, hmem, hs⟩
    cases slot with
    | «at» path => cases hs
    | staged d n =>
      simp only [Option.ite_none_right_eq_some, Option.some.injEq] at hs
      obtain ⟨rfl, rfl⟩ := hs
      exact hmem
  · intro h
    exact ⟨.staged directory name, h, by simp⟩

theorem nodup_entriesOf (directory : Path) : (w.entriesOf directory).Nodup := by
  refine (List.perm_insertionSort _ _).nodup_iff.mpr (List.Nodup.filterMap ?_ w.names.nodupKeys)
  intro a b c ha hb
  cases a with
  | «at» path => cases ha
  | staged d n =>
    cases b with
    | «at» path => cases hb
    | staged d' n' =>
      simp only [Option.mem_def, Option.ite_none_right_eq_some, Option.some.injEq] at ha hb
      obtain ⟨rfl, rfl⟩ := ha
      obtain ⟨rfl, rfl⟩ := hb
      rfl

theorem entriesOf_eq_nil {directory : Path}
    (h : ∀ n, view S.path w (.staged directory n) = none) : w.entriesOf directory = [] :=
  List.eq_nil_iff_forall_not_mem.mpr fun n hn => mem_entriesOf.mp hn (h n)

theorem entriesOf_eq_singleton {directory : Path} {name : String}
    (h : ∀ n, view S.path w (.staged directory n) ≠ none ↔ n = name) :
    w.entriesOf directory = [name] := by
  have hmem (n : String) : n ∈ w.entriesOf directory ↔ n = name := mem_entriesOf.trans (h n)
  have hnodup := nodup_entriesOf (w := w) directory
  cases hl : w.entriesOf directory with
  | nil =>
    have := (hmem name).mpr rfl
    rw [hl] at this
    cases this
  | cons a rest =>
    rw [hl] at hmem hnodup
    have ha : a = name := (hmem a).mp List.mem_cons_self
    cases rest with
    | nil => rw [ha]
    | cons b rest =>
      have hb : b = name := (hmem b).mp (List.mem_cons_of_mem _ List.mem_cons_self)
      rw [ha, hb] at hnodup
      simp at hnodup

theorem reads_entries {ε : Type} (hi : Inv S w) (directory : Path) :
    Reads S (entries directory : Prog signature ε _) (.ok (w.entriesOf directory)) w :=
  .perform hi fun _ _ => ⟨rfl, hi.sane.settled⟩

end entries

/-- Nothing is staged anywhere. -/
def Unstaged (v : View) : Prop := ∀ d n, v (.staged d n) = none

theorem runs_prepareOfflineStaging (h : Now S w r) (hc : r.header.lifecycle = .captured)
    (hempty : Unstaged (view S.path w)) :
    Runs S E (S.manager.prepareOfflineStaging r)
      (fun next w' => next = r ∧ Now S w' r ∧ Unstaged (view S.path w') ∧
        stagingOf r ∈ w'.directories) w := by
  have hs := h.sound
  have hfiles : CapturedFiles S r (view S.path w) := by
    have := h.files
    rwa [hc] at this
  unfold Manager.prepareOfflineStaging
  simp only [recordPath_eq hs.bound, Prog.bind_eq, Prog.pure_bind]
  refine (reads_resolveBoundPath h.inv hs).runs_bind
    ((runs_validateCapturedSource h.inv hfiles).attempt.runs_bind ?_)
  refine (runs_createStaging h.inv hs).andThen ?_
  rintro _ w₁ ⟨rfl, hi₁, hst, hg, hv₁, hd₁⟩
  have hnil : w₁.entriesOf (stagingOf r) = [] := by
    refine entriesOf_eq_nil (S := S) fun n => ?_
    rw [hv₁]
    exact hempty _ n
  refine (Reads.bind (reads_entries hi₁ (stagingOf r)) (.pure _)).runs_bind ?_
  rw [hnil]
  exact Runs.pure ⟨rfl, ⟨hi₁, by rw [hst]; exact h.entry⟩, hv₁ ▸ hempty, hd₁⟩

theorem valid_requirePresent (hs : Sound S r) (ho : r.header.original.existed = true) (phase : String) :
    requirePresentOriginal r.header phase = .ok () := by
  cases hp : r.header.original with
  | present identity metadata =>
    refine corruptIf_eq_ok.mpr (not_not.mpr ⟨ho, (hs.original hp).2.2⟩)
  | absent presentation => rw [hp] at ho; cases ho

theorem runs_beginStore {k : ℕ} (h : Now S w r) (hc : r.header.lifecycle = .captured)
    (ho : r.header.original.existed = true) (hempty : Unstaged (view S.path w))
    (hdir : stagingOf r ∈ w.directories) (hroom : E ∨ Room (k + 1) r) :
    Runs S E (transition r (.storeIntent r.header.storedName))
      (fun next w' => Now S w' next ∧ next.header.lifecycle = .storeIntent "stored" ∧ Later 1 r next) w := by
  have hs := h.sound
  obtain ⟨-, hident, hintact⟩ : CapturedFiles S r (view S.path w) := by
    have := h.files
    rwa [hc] at this
  have hplaceholder : r.header.placeholder = none := hs.no_placeholder (by rw [hc]; rfl)
  rw [hs.storedName]
  have hnext : PhaseValid (advance r (.storeIntent "stored") r.header.placeholder) := by
    refine ⟨by rw [hplaceholder]; rfl, rfl, ?_⟩
    exact check_eq_ok.mpr ⟨entryName_stored.validate, valid_requirePresent hs ho _⟩
  refine (runs_transition h.inv hs h.entry hnext (by simp [lifecycleTransitionIsValid, hc, hs.storedName])
    (by simp [lifecycleNames]) hroom ⟨rfl, fun d n hne => absurd (hempty d n) hne, .inl ⟨?_, ?_⟩⟩ hdir).mono ?_
  · rw [layoutMatches_exact, layoutOf, hident]
    refine Prod.ext rfl ?_
    exact Option.map_eq_none_iff.mpr (hempty _ _)
  · exact AllIntact.advance hintact
  · rintro _ w' ⟨rfl, hcommitted⟩
    exact ⟨hcommitted.now, rfl, .advance hs (by simp [lifecycleNames])⟩

theorem Sound.structural (hs : Sound S r) :
    validateLifecycleStructure r.header r.header.lifecycle = .ok () :=
  (validateSnapshot_facts hs.valid).structural

theorem existed_of_requirePresent {phase : String} (h : requirePresentOriginal r.header phase = .ok ()) :
    ∃ identity metadata, r.header.original = .present identity metadata := by
  have he : r.header.original.existed = true := (not_not.mp (corruptIf_eq_ok.mp h)).1
  cases hp : r.header.original with
  | present identity metadata => exact ⟨identity, metadata, rfl⟩
  | absent presentation => rw [hp] at he; cases he

theorem reads_requireStored {detached : ObjectIdentity} (h : Now S w r)
    (hl : r.header.lifecycle = .stored "stored" detached) (hf : StoredFiles S r (view S.path w) detached) :
    Reads S (S.manager.requireStored S.path r) (.ok r) w := by
  have hs := h.sound
  have hstructural := hs.structural
  rw [hl, validateLifecycleStructure] at hstructural
  have hpresent := (check_eq_ok.mp (check_eq_ok.mp hstructural).2).1
  obtain ⟨identity, metadata, ho⟩ := existed_of_requirePresent hpresent
  obtain ⟨-, hlayout⟩ := hf
  simp only [layoutOf, Prod.mk.injEq] at hlayout
  have hvalid : Reads S (S.manager.validateStored S.path r) (.ok ()) w := by
    unfold Manager.validateStored
    simp only [hl, ho]
    refine (reads_resolveBoundPath h.inv hs).bind ((reads_openStaging h.inv hs (h.directory (by simp [hl]))).bind
      ((reads_targetObserve h.inv).bind ?_))
    rw [hlayout.1]
    refine Reads.bind (reads_ofIo (reads_stagingObserve h.inv entryName_stored)) ?_
    rw [slot_eq, hlayout.2]
    simp only [↓reduceIte]
    exact .pure _
  exact hvalid.attempt.bind (.pure _)

theorem runs_finishStore {k : ℕ} {name : String} (h : Now S w r)
    (hc : r.header.lifecycle = .storeIntent name) (hroom : E ∨ Room (k + 1) r) :
    Runs S E (S.manager.finishStore r)
      (fun next w' => Now S w' next ∧ (∃ detached, next.header.lifecycle = .stored "stored" detached) ∧
        Later 1 r next) w := by
  have hs := h.sound
  obtain ⟨rfl, honly, haround⟩ : name = "stored" ∧ StoringFiles S r (view S.path w) := by
    have := h.files
    rwa [hc] at this
  have hdir := h.directory (by simp [hc])
  have hstructural := hs.structural
  rw [hc, validateLifecycleStructure] at hstructural
  have hpresent := (check_eq_ok.mp hstructural).2
  obtain ⟨identity, metadata, ho⟩ := existed_of_requirePresent hpresent
  rw [originalIdentity_present ho] at haround
  unfold Manager.finishStore
  simp only [hc, ho, recordPath_eq hs.bound, Prog.bind_eq, Prog.pure_bind]
  refine (reads_resolveBoundPath h.inv hs).runs_bind ((reads_openStaging h.inv hs hdir).runs_bind ?_)
  refine (runs_renameStep (o := S.target.moveToStaging ⟨stagingOf r⟩ "stored") h.inv
    entryName_stored (by simp) .out haround ?_).andThen ?_
  · intro hl ha
    have hl' := hl
    simp only [layoutOf, Prod.mk.injEq] at hl'
    obtain ⟨i, hi, -⟩ := ident_some hl'.1
    refine runs_moveToStaging h.inv entryName_stored hi (Option.map_eq_none_iff.mp hl'.2) fun t => h.fits ?_
    rw [hc]
    refine ⟨rfl, InstallFiles.loose honly fun z hz hz' => swapped_of_ne hz hz', .inr ?_⟩
    rw [originalIdentity_present ho]
    exact AroundRename.after .out hl ha
  · rintro layout w₁ ⟨v₁, hm₁, rfl, hmatch, hintact, hframe⟩
    refine (if_pos hmatch).symm ▸ ?_
    have h₁ := h.moved hm₁
    obtain rfl := hm₁.view
    have honly₁ := InstallFiles.loose honly hframe
    simp only [layoutMatches, Bool.and_eq_true, layoutOf] at hmatch
    obtain ⟨htarget, hstaged⟩ := hmatch
    cases hv : view S.path w₁ (stagedSlot r "stored") with
    | none => simp only [ident, hv] at hstaged; cases hstaged
    | some i =>
      have hident : ident S (view S.path w₁) (stagedSlot r "stored") = some (i.identity S.host) := by
        rw [ident, hv]
        rfl
      have hgone : ident S (view S.path w₁) (targetSlot S) = none := by
        cases ht : ident S (view S.path w₁) (targetSlot S) with
        | none => rfl
        | some j => rw [ht] at htarget; cases htarget
      rw [hident] at hstaged
      have hmatches := objectMatches_some hstaged
      have hverify := reads_verifySnapshot (s := ⟨stagingOf r⟩) h₁.inv entryName_stored hv (hintact i hv)
      rw [ho] at hverify
      refine (reads_ofIo hverify).attempt.runs_bind ?_
      have hsame : sameFileAfterRename identity (i.identity S.host) = true := hstaged
      simp only [hsame, ↓reduceIte]
      refine (reads_syncWith h₁.inv _).runs_bind ?_
      have hplaceholder : r.header.placeholder = none := hs.no_placeholder (by rw [hc]; rfl)
      have hvalid := valid_of_match (l := "stored original") (hs.original ho).1 hmatches
        (ident_stamp h₁.inv hident).1
      have hnext : PhaseValid (advance r (.stored "stored" (i.identity S.host)) r.header.placeholder) := by
        refine ⟨by rw [hplaceholder]; rfl, rfl, ?_⟩
        refine check_eq_ok.mpr ⟨entryName_stored.validate, check_eq_ok.mpr
          ⟨valid_requirePresent hs (by rw [ho]; rfl) _, ?_⟩⟩
        simp only [validateDetachedIdentity, advance_original, ho]
        exact check_eq_ok.mpr ⟨hvalid, corruptIf_eq_ok.mpr (not_not.mpr hmatches)⟩
      have hfiles : StoredFiles S r (view S.path w₁) (i.identity S.host) :=
        ⟨honly₁, by rw [layoutOf, hgone, hident]⟩
      refine Runs.andThen (runs_transition h₁.inv hs h₁.entry hnext (by simp [lifecycleTransitionIsValid, hc])
        (by simp [lifecycleNames]) hroom ⟨rfl, hfiles⟩ (hm₁.directories ▸ hdir)) ?_
      rintro _ w₂ ⟨rfl, hcommitted⟩
      have hnow := hcommitted.now
      refine (reads_requireStored hnow rfl ?_).runs ⟨hnow, ⟨_, rfl⟩, .advance hs (by simp [lifecycleNames])⟩
      rw [hcommitted.view]
      exact hfiles

end FileGuard.Recovery
