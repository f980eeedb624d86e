import FileGuard.Store.Trusted

/-! Under how many spellings of its path the database can know a file. -/

namespace FileGuard.Store

namespace Path

/-- An absolute path without `..`, written otherwise than in its normal form. -/
def Loose (p : Path) : Prop :=
  isAbsolute p = true ∧ dotDot ∉ splitSlash p ∧ p ≠ [slash] ∧ ∃ part ∈ (splitSlash p).tail, part = [] ∨ part = dot

instance (p : Path) : Decidable p.Loose := inferInstanceAs (Decidable (_ ∧ _))

/-- What the checks of a record or marker ask of a path: that it equals its normal form, by components. -/
def Accepted (p : Path) : Prop := isAbsolute p = true ∧ ∃ normal, lexical [] p = some normal ∧ same normal p = true

/-- The normal form of an absolute path. -/
def Denotes (p normal : Path) : Prop := isAbsolute p = true ∧ lexical [] p = some normal

instance (p normal : Path) : Decidable (p.Denotes normal) := inferInstanceAs (Decidable (_ ∧ _))

/-- The parts of a path that its components keep. -/
def kept (p : Path) : List Bytes := (splitSlash p).filter fun part => part ≠ [] ∧ part ≠ dot

theorem splitSlash_ne_nil (p : Bytes) : splitSlash p ≠ [] := by
  cases p with
  | nil => simp [splitSlash]
  | cons b p =>
    unfold splitSlash
    split_ifs
    · simp
    · split <;> simp

theorem eq_of_splitSlash {p part : Bytes} {parts : List Bytes} (h : splitSlash p = part :: parts) :
    p = part ++ slashed parts := by
  induction p generalizing part parts with
  | nil =>
    cases h
    rfl
  | cons b p ih =>
    unfold splitSlash at h
    split_ifs at h with hb
    · cases hp : splitSlash p with
      | nil => exact absurd hp (splitSlash_ne_nil p)
      | cons first rest =>
        rw [hp] at h
        cases h
        rw [hb, ih hp]
        rfl
    · cases hp : splitSlash p with
      | nil => exact absurd hp (splitSlash_ne_nil p)
      | cons first rest =>
        rw [hp] at h
        cases h
        rw [ih hp]
        rfl

theorem splitSlash_absolute {p : Path} (h : isAbsolute p = true) :
    ∃ parts, parts ≠ [] ∧ splitSlash p = [] :: parts ∧ p = slashed parts := by
  cases p with
  | nil => cases h
  | cons b p =>
    have hb : b = slash := by simpa [isAbsolute] using h
    subst hb
    have hsplit : splitSlash (slash :: p) = [] :: splitSlash p := if_pos rfl
    exact ⟨splitSlash p, splitSlash_ne_nil p, hsplit, eq_of_splitSlash hsplit⟩

theorem kept_proper {p : Path} (h : dotDot ∉ splitSlash p) : ∀ part ∈ kept p, Proper part := by
  intro part hpart
  obtain ⟨hmem, hkeep⟩ := List.mem_filter.mp hpart
  obtain ⟨hne, hdot⟩ := of_decide_eq_true hkeep
  exact ⟨hne, hdot, fun hdots => h (hdots ▸ hmem), noSlash_of_mem_splitSlash p part hmem⟩

theorem components_eq_kept {p : Path} (habs : isAbsolute p = true) (h : dotDot ∉ splitSlash p) :
    components p = .rootDir :: (kept p).map .normal := by
  rw [components, if_pos habs, body]
  congr 1
  apply List.map_congr_left
  intro part hpart
  exact if_neg (kept_proper h part hpart).2.2.1

theorem lexical_eq_kept (cwd : Path) {p : Path} (habs : isAbsolute p = true) (h : dotDot ∉ splitSlash p) :
    lexical cwd p = some (render (kept p)) := by
  have hroot : (Component.rootDir :: (kept p).map .normal).foldlM lexicalStep [] =
      ((kept p).map Component.normal).foldlM lexicalStep [] := rfl
  simp only [lexical, if_pos habs, components_eq_kept habs h]
  rw [hroot, foldlM_lexicalStep_normals]
  simp

theorem accepted_iff {p : Path} : p.Accepted ↔ isAbsolute p = true ∧ dotDot ∉ splitSlash p := by
  constructor
  · rintro ⟨habs, normal, hnormal, hsame⟩
    refine ⟨habs, fun hdots => ?_⟩
    obtain ⟨parts, hparts, rfl⟩ := lexical_normal hnormal
    have hparent : Component.parentDir ∈ components p := by
      rw [components, if_pos habs]
      apply List.mem_cons_of_mem
      exact List.mem_map.mpr ⟨dotDot, List.mem_filter.mpr ⟨hdots, by decide⟩, if_pos rfl⟩
    rw [same, beq_iff_eq, components_render parts hparts] at hsame
    rw [← hsame] at hparent
    simp at hparent
  · rintro ⟨habs, hdots⟩
    refine ⟨habs, render (kept p), lexical_eq_kept [] habs hdots, ?_⟩
    rw [same, beq_iff_eq, components_render _ (kept_proper hdots), components_eq_kept habs hdots]

theorem Accepted.lexical {p : Path} (h : p.Accepted) : lexical [] p = some (render (kept p)) :=
  lexical_eq_kept [] (accepted_iff.mp h).1 (accepted_iff.mp h).2

/-- Among the accepted paths, the loose ones are those that are not their own normal form. -/
theorem loose_iff {p : Path} (h : p.Accepted) : p.Loose ↔ Path.lexical [] p ≠ some p := by
  obtain ⟨habs, hdots⟩ := accepted_iff.mp h
  obtain ⟨parts, hparts, hsplit, hp⟩ := splitSlash_absolute habs
  have hkept : kept p = parts.filter fun part => part ≠ [] ∧ part ≠ dot := by
    rw [kept, hsplit]
    rfl
  rw [h.lexical, ne_eq, Option.some_inj]
  constructor
  · rintro ⟨-, -, hroot, part, hpart, hempty⟩ hrender
    rw [hsplit, List.tail_cons] at hpart
    by_cases hnil : kept p = []
    · exact hroot (by rw [← hrender, hnil]; rfl)
    · have hsame : splitSlash p = [] :: kept p := by
        rw [← splitSlash_slashed (kept p) fun part hpart => (kept_proper hdots part hpart).2.2.2]
        rw [render, if_neg hnil] at hrender
        rw [hrender]
      rw [hsplit, List.cons.injEq] at hsame
      rw [hsame.2] at hpart
      have hproper := kept_proper hdots part hpart
      exact hempty.elim hproper.1 hproper.2.1
  · intro hne
    refine ⟨habs, hdots, ?_, ?_⟩
    · rintro rfl
      exact hne rfl
    · by_contra hall
      have hkeep : kept p = parts := by
        rw [hkept, List.filter_eq_self]
        intro part hpart
        apply decide_eq_true
        constructor
        · intro hempty
          exact hall ⟨part, by rw [hsplit]; exact hpart, Or.inl hempty⟩
        · intro hdot
          exact hall ⟨part, by rw [hsplit]; exact hpart, Or.inr hdot⟩
      exact hne (by rw [hkeep, render, if_neg hparts, ← hp])

end Path

section checks

variable {p : Path} {record : SnapshotRecord} {marker : FinalizationRecord} {pathHex stagingPathHex message : String}

theorem absoluteLexical_eq_ok {normal : Path} : absoluteLexical [] p = .ok normal ↔ Path.lexical [] p = some normal := by
  unfold absoluteLexical
  cases Path.lexical [] p <;> simp

theorem validatePaths_eq_ok :
    validatePaths pathHex stagingPathHex message = .ok () ↔
      ∃ path stagingPath, pathFromHex pathHex = .ok path ∧ pathFromHex stagingPathHex = .ok stagingPath ∧
        path.Accepted ∧ stagingPath.Accepted := by
  unfold validatePaths
  constructor
  · intro h
    obtain ⟨path, hpath, h⟩ := bind_eq_ok.mp h
    obtain ⟨staging, hstaging, h⟩ := bind_eq_ok.mp h
    obtain ⟨habs, h⟩ := check_eq_ok.mp h
    obtain ⟨normal, hnormal, h⟩ := bind_eq_ok.mp h
    obtain ⟨hsame, h⟩ := check_eq_ok.mp h
    obtain ⟨normal', hnormal', hsame'⟩ := bind_eq_ok.mp h
    rw [corruptIf_eq_ok, not_not] at habs hsame hsame'
    rw [absoluteLexical_eq_ok] at hnormal hnormal'
    exact ⟨path, staging, hpath, hstaging, ⟨habs.1, normal, hnormal, hsame⟩, habs.2, normal', hnormal', hsame'⟩
  · rintro ⟨path, staging, hpath, hstaging, ⟨habs, normal, hnormal, hsame⟩, habs', normal', hnormal', hsame'⟩
    refine bind_eq_ok.mpr ⟨path, hpath, bind_eq_ok.mpr ⟨staging, hstaging, check_eq_ok.mpr ⟨?_, ?_⟩⟩⟩
    · exact corruptIf_eq_ok.mpr (not_not.mpr ⟨habs, habs'⟩)
    · refine bind_eq_ok.mpr ⟨normal, absoluteLexical_eq_ok.mpr hnormal, check_eq_ok.mpr ⟨?_, ?_⟩⟩
      · exact corruptIf_eq_ok.mpr (not_not.mpr hsame)
      · exact bind_eq_ok.mpr ⟨normal', absoluteLexical_eq_ok.mpr hnormal', corruptIf_eq_ok.mpr (not_not.mpr hsame')⟩

theorem accepted_of_paths (h : validatePaths pathHex stagingPathHex message = .ok ())
    (hp : pathFromHex pathHex = .ok p) : p.Accepted := by
  obtain ⟨path, -, hpath, -, haccepted, -⟩ := validatePaths_eq_ok.mp h
  cases hp.symm.trans hpath
  exact haccepted

theorem accepted_of_snapshot (h : validateSnapshot record = .ok ()) (hp : pathFromHex record.header.pathHex = .ok p) :
    p.Accepted := by
  simp only [validateSnapshot, check_eq_ok] at h
  obtain ⟨-, -, -, -, -, -, -, hpaths, -⟩ := h
  exact accepted_of_paths hpaths hp

theorem accepted_of_finalization (h : validateFinalization marker = .ok ()) (hp : pathFromHex marker.pathHex = .ok p) :
    p.Accepted := by
  simp only [validateFinalization, check_eq_ok] at h
  obtain ⟨-, -, hpaths, -⟩ := h
  exact accepted_of_paths hpaths hp

/-- A record of the same file under another path. -/
def SnapshotRecord.at (record : SnapshotRecord) (p : Path) : SnapshotRecord :=
  { record with header := { record.header with pathHex := pathToHex p } }

def FinalizationRecord.at (marker : FinalizationRecord) (p : Path) : FinalizationRecord :=
  { marker with pathHex := pathToHex p }

theorem validatePaths_at (h : validatePaths pathHex stagingPathHex message = .ok ()) (hp : p.Accepted) :
    validatePaths (pathToHex p) stagingPathHex message = .ok () := by
  obtain ⟨-, staging, -, hstaging, -, haccepted⟩ := validatePaths_eq_ok.mp h
  exact validatePaths_eq_ok.mpr ⟨p, staging, pathFromHex_pathToHex p, hstaging, hp, haccepted⟩

theorem validateSnapshot_at (h : validateSnapshot record = .ok ()) (hp : p.Accepted) :
    validateSnapshot (record.at p) = .ok () := by
  simp only [validateSnapshot, check_eq_ok] at h ⊢
  obtain ⟨hformat, hrevision, hgeneration, htoken, hlength, hdigest, hreason, hpaths, hrest⟩ := h
  exact ⟨hformat, hrevision, hgeneration, htoken, hlength, hdigest, hreason, validatePaths_at hpaths hp, hrest⟩

theorem validateFinalization_at (h : validateFinalization marker = .ok ()) (hp : p.Accepted) :
    validateFinalization (marker.at p) = .ok () := by
  simp only [validateFinalization, check_eq_ok] at h ⊢
  obtain ⟨hformat, hgeneration, hpaths, hrest⟩ := h
  exact ⟨hformat, hgeneration, validatePaths_at hpaths hp, hrest⟩

end checks

theorem absentCapture_valid : validateSnapshot SqliteStore.absentCapture = .ok () := by decide +kernel

theorem foreignMarker_valid : validateFinalization SqliteStore.foreignMarker = .ok () := by decide

section keys

variable {p q normal : Path} {record record' : SnapshotRecord} {call : Call} {calls : List Call} {db : SqliteStore}

/-- The store takes the record as the first of a generation at the path. -/
def NewCapture (p : Path) (record : SnapshotRecord) : Prop :=
  ∃ (db : SqliteStore) (outcome : SqliteStore.CommitOutcome) (version : RecordVersion),
    (db.commit outcome p none record).1 = .ok version

/-- The store has a generation under the path, or the marker of one that is being deleted. -/
def Live (db : SqliteStore) (p : Path) : Prop := ∃ entry, db.load p = .ok entry ∧ entry ≠ .missing

theorem NewCapture.valid (h : NewCapture p record) :
    validateSnapshot record = .ok () ∧ record.header.pathHex = pathToHex p := by
  obtain ⟨db, outcome, version, h⟩ := h
  unfold SqliteStore.commit at h
  cases hbody : SqliteStore.commitBody db p none record with
  | error error =>
    rw [hbody] at h
    cases h
  | ok next =>
    obtain ⟨entry, -, hbody⟩ := bind_eq_ok.mp hbody
    exact validateSuccessor_snapshot (check_eq_ok.mp hbody).1

theorem snapshot_normal_iff (p : Path) :
    (∀ record, validateSnapshot record = .ok () → pathFromHex record.header.pathHex = .ok p →
      Path.lexical [] p = some p) ↔ ¬p.Loose := by
  constructor
  · intro h hloose
    have haccepted : p.Accepted := Path.accepted_iff.mpr ⟨hloose.1, hloose.2.1⟩
    apply (Path.loose_iff haccepted).mp hloose
    exact h _ (validateSnapshot_at absentCapture_valid haccepted) (pathFromHex_pathToHex p)
  · intro h record hvalid hp
    by_contra hne
    exact h ((Path.loose_iff (accepted_of_snapshot hvalid hp)).mpr hne)

theorem finalization_normal_iff (p : Path) :
    (∀ marker, validateFinalization marker = .ok () → pathFromHex marker.pathHex = .ok p →
      Path.lexical [] p = some p) ↔ ¬p.Loose := by
  constructor
  · intro h hloose
    have haccepted : p.Accepted := Path.accepted_iff.mpr ⟨hloose.1, hloose.2.1⟩
    apply (Path.loose_iff haccepted).mp hloose
    exact h _ (validateFinalization_at foreignMarker_valid haccepted) (pathFromHex_pathToHex p)
  · intro h marker hvalid hp
    by_contra hne
    exact h ((Path.loose_iff (accepted_of_finalization hvalid hp)).mpr hne)

theorem NewCapture.denotes (h : NewCapture p record) (hp : ¬p.Loose) (hn : p.Denotes normal) : p = normal := by
  have hself := (snapshot_normal_iff p).mpr hp record h.valid.1 (h.valid.2 ▸ pathFromHex_pathToHex p)
  exact Option.some.inj (hself.symm.trans hn.2)

theorem Evolves.missing {after : Entry} (h : Evolves p call .missing after) (hne : call.path ≠ p) : after = .missing := by
  cases h with
  | kept => rfl
  | started => exact absurd rfl hne

theorem run_missing (hall : ∀ fileId, ∃ entry, SqliteStore.Holds db fileId entry)
    (h : SqliteStore.Holds db p .missing) (hcalls : ∀ call ∈ calls, call.path ≠ p) :
    SqliteStore.Holds (SqliteStore.run db calls) p .missing := by
  induction calls generalizing db with
  | nil => exact h
  | cons call calls ih =>
    obtain ⟨hcall, hcalls⟩ := List.forall_mem_cons.mp hcalls
    obtain ⟨after, hafter, hevolves⟩ := SqliteStore.step_holds hall call p h
    rw [hevolves.missing hcall] at hafter
    exact ih (fun fileId => SqliteStore.run_holds hall [call] fileId) hafter hcalls

/-- What lives in the store was put there by a call for its path, and is checked to be accepted. -/
theorem Live.spelled (h : Live (SqliteStore.run SqliteStore.empty calls) p) :
    p.Accepted ∧ ∃ call ∈ calls, call.path = p := by
  obtain ⟨entry, hload, hne⟩ := h
  obtain ⟨held, hheld⟩ := SqliteStore.run_empty_holds calls p
  cases hheld.loadRecord.symm.trans hload
  constructor
  · cases entry with
    | missing => exact absurd rfl hne
    | present record => exact accepted_of_snapshot hheld.1.1 (hheld.1.2.1 ▸ pathFromHex_pathToHex p)
    | finalizing marker => exact accepted_of_finalization hheld.1.1 (hheld.1.2.1 ▸ pathFromHex_pathToHex p)
  · by_contra hnone
    have hcalls : ∀ call ∈ calls, call.path ≠ p := fun call hcall hpath => hnone ⟨call, hcall, hpath⟩
    have hmissing := run_missing (fun fileId => ⟨.missing, SqliteStore.holds_empty fileId⟩) (SqliteStore.holds_empty p)
      hcalls
    exact hne (hheld.unique hmissing)

theorem Live.denotes (h : Live (SqliteStore.run SqliteStore.empty calls) p) (hcalls : ∀ call ∈ calls, ¬call.path.Loose)
    (hn : p.Denotes normal) : p = normal := by
  obtain ⟨haccepted, call, hcall, rfl⟩ := h.spelled
  have hself : Path.lexical [] call.path = some call.path := by
    by_contra hne
    exact hcalls call hcall ((Path.loose_iff haccepted).mpr hne)
  exact Option.some.inj (hself.symm.trans hn.2)

theorem step_commit {entry after : Entry} {expected : Option RecordVersion} (h : SqliteStore.Holds db p entry)
    (hcommit : entry.commit p expected record = .ok after) :
    db.commit .acknowledged p expected record = (.ok record.version, db.put p after) := by
  rw [SqliteStore.commit, SqliteStore.commitBody_eq h, hcommit]
  rfl

theorem step_eq_put {entry after : Entry} {expected : Option RecordVersion} (h : SqliteStore.Holds db p entry)
    (hcommit : entry.commit p expected record = .ok after) :
    SqliteStore.step db (.commit .acknowledged p expected record) = db.put p after := by
  rw [SqliteStore.step, step_commit h hcommit]

/-- One file has one key under the spellings that are not loose, and under those alone. -/
theorem one_key (p : Path) :
    ((∀ record, validateSnapshot record = .ok () → pathFromHex record.header.pathHex = .ok p →
      Path.lexical [] p = some p) ↔ ¬p.Loose) ∧
    ((∀ marker, validateFinalization marker = .ok () → pathFromHex marker.pathHex = .ok p →
      Path.lexical [] p = some p) ↔ ¬p.Loose) ∧
    (¬p.Loose → ∀ q normal record record', ¬q.Loose → NewCapture p record → NewCapture q record' →
      p.Denotes normal → q.Denotes normal → record.header.pathHex = record'.header.pathHex) ∧
    ∀ calls, (∀ call ∈ calls, ¬call.path.Loose) → ∀ q normal, Live (SqliteStore.run SqliteStore.empty calls) p →
      Live (SqliteStore.run SqliteStore.empty calls) q → p.Denotes normal → q.Denotes normal → p = q := by
  refine ⟨snapshot_normal_iff p, finalization_normal_iff p, ?_, ?_⟩
  · intro hp q normal record record' hq hrecord hrecord' hn hn'
    rw [hrecord.valid.2, hrecord'.valid.2, hrecord.denotes hp hn, hrecord'.denotes hq hn']
  · intro calls hcalls q normal hlive hlive' hn hn'
    exact (hlive.denotes hcalls hn).trans (hlive'.denotes hcalls hn').symm

def key : Path := utf8 "/key"

def keySlash : Path := utf8 "/key/"

theorem commit_key :
    Entry.commit key .missing none (SqliteStore.absentCapture.at key) =
      .ok (.present (SqliteStore.absentCapture.at key)) := by
  decide +kernel

theorem commit_keySlash :
    Entry.commit keySlash .missing none (SqliteStore.absentCapture.at keySlash) =
      .ok (.present (SqliteStore.absentCapture.at keySlash)) := by
  decide +kernel

/-- The store once both spellings have been captured. -/
def captures : List Call :=
  [.commit .acknowledged key none (SqliteStore.absentCapture.at key),
    .commit .acknowledged keySlash none (SqliteStore.absentCapture.at keySlash)]

theorem holds_captures :
    NewCapture key (SqliteStore.absentCapture.at key) ∧ NewCapture keySlash (SqliteStore.absentCapture.at keySlash) ∧
      SqliteStore.Holds (SqliteStore.run SqliteStore.empty captures) key
        (.present (SqliteStore.absentCapture.at key)) ∧
      SqliteStore.Holds (SqliteStore.run SqliteStore.empty captures) keySlash
        (.present (SqliteStore.absentCapture.at keySlash)) := by
  have hmissing := SqliteStore.holds_empty
  have hfirst := step_commit (hmissing key) commit_key
  have hlater : SqliteStore.Holds (SqliteStore.put SqliteStore.empty key (.present (SqliteStore.absentCapture.at key)))
      keySlash .missing := (hmissing keySlash).put_of_ne (by decide)
  have hsecond := step_commit hlater commit_keySlash
  have hrun : SqliteStore.run SqliteStore.empty captures =
      (SqliteStore.put SqliteStore.empty key (.present (SqliteStore.absentCapture.at key))).put keySlash
        (.present (SqliteStore.absentCapture.at keySlash)) := by
    rw [captures, SqliteStore.run, List.foldl_cons, List.foldl_cons, List.foldl_nil,
      step_eq_put (hmissing key) commit_key, step_eq_put hlater commit_keySlash]
  rw [hrun]
  refine ⟨⟨_, .acknowledged, _, congrArg Prod.fst hfirst⟩, ⟨_, .acknowledged, _, congrArg Prod.fst hsecond⟩, ?_, ?_⟩
  · apply SqliteStore.Holds.put_of_ne (by decide)
    exact SqliteStore.holds_put (Entry.commit_evolves commit_key .acknowledged).1
  · exact SqliteStore.holds_put (Entry.commit_evolves commit_keySlash .acknowledged).1

/-- Both spellings get a generation of their own, and both live. -/
theorem two_keys :
    ∃ record record' calls, NewCapture key record ∧ NewCapture keySlash record' ∧ key.Denotes key ∧
      keySlash.Denotes key ∧ record.header.pathHex ≠ record'.header.pathHex ∧
      Live (SqliteStore.run SqliteStore.empty calls) key ∧ Live (SqliteStore.run SqliteStore.empty calls) keySlash ∧
      validateSnapshot record' = .ok () ∧ pathFromHex record'.header.pathHex = .ok keySlash ∧
      Path.lexical [] keySlash ≠ some keySlash := by
  obtain ⟨hkey, hkeySlash, hholds, hholdsSlash⟩ := holds_captures
  refine ⟨_, _, captures, hkey, hkeySlash, by decide +kernel, by decide +kernel, ?_, ?_, ?_, hkeySlash.valid.1, ?_, ?_⟩
  · rw [hkey.valid.2, hkeySlash.valid.2]
    decide +kernel
  · exact ⟨_, hholds.loadRecord, by simp⟩
  · exact ⟨_, hholdsSlash.loadRecord, by simp⟩
  · rw [hkeySlash.valid.2, pathFromHex_pathToHex]
  · decide +kernel

end keys

end FileGuard.Store
