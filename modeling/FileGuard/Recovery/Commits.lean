import FileGuard.Recovery.CreateFile
import FileGuard.Store.History
import FileGuard.Store.Lengths

/-! The rows that follow one another, and the room that the database needs for them. -/

namespace FileGuard.Recovery

open Store Files Transaction CrashLogic

variable {S : Site} {w w' : World} {r : SnapshotRecord} {E : Prop} {v : View}

def lifecycleNames : Lifecycle → List String
  | .restoreIntent _ name _ detachedName _ => name.toList ++ detachedName.toList
  | .restored _ _ displacedName _ detachedName _ | .deleteIntent _ _ displacedName _ detachedName _ =>
    displacedName.toList ++ detachedName.toList
  | .storeIntent name | .stored name _ => [name]
  | _ => []

/-- A later header of the same generation, with any inodes. -/
structure Kin (h next : RecordHeader) : Prop where
  format : next.format = h.format
  pathHex : next.pathHex = h.pathHex
  generation : next.generation = h.generation
  original : next.original = h.original
  parent : next.parent = h.parent
  stagingPathHex : next.stagingPathHex = h.stagingPathHex
  swapName : next.swapName = h.swapName
  storedName : next.storedName = h.storedName
  mountToken : next.mountToken = h.mountToken
  unblocked : next.blockedReason = none
  digest : ∃ contents, next.contentSha256 = sha256 contents
  names : ∀ name ∈ lifecycleNames next.lifecycle, name = "swap" ∨ name = "stored" ∨ CandidateName name

/-- The database has room for `steps` more rows of the generation and for its marker. -/
structure Room (steps : ℕ) (r : SnapshotRecord) : Prop where
  revision : r.header.revision + steps < revisionLimit
  length : headerLength r.header.fixed + growthLimit ≤ headerLimit

instance (steps : ℕ) (r : SnapshotRecord) : Decidable (Room steps r) :=
  decidable_of_iff (r.header.revision + steps < revisionLimit ∧
    headerLength r.header.fixed + growthLimit ≤ headerLimit) ⟨fun h => ⟨h.1, h.2⟩, fun h => ⟨h.1, h.2⟩⟩

theorem Kin.fixed {h next : RecordHeader} (hk : Kin h next) : next.fixed = h.fixed := by
  simp only [RecordHeader.fixed, hk.format, hk.pathHex, hk.generation, hk.original, hk.parent, hk.stagingPathHex,
    hk.swapName, hk.storedName, hk.mountToken]

theorem length_known {name : String} (h : name = "swap" ∨ name = "stored" ∨ CandidateName name) :
    name.length ≤ 42 := by
  rcases h with rfl | rfl | ⟨token, ⟨hlen, -⟩, rfl | rfl⟩
  · decide
  · decide
  · rw [String.length_append, hlen]
    decide
  · rw [String.length_append, hlen]
    decide

section lengths

open Json

theorem byteLength_identity (i : Option ObjectIdentity) : byteLength (option objectIdentity i) ≤ 500 :=
  byteLength_option_le (by decide) byteLength_objectIdentity i

theorem byteLength_origin (origin : RestoreOrigin) : byteLength (restoreOrigin origin) ≤ 11 := by
  cases origin <;> decide

theorem byteLength_name {name : Option String} (h : ∀ n ∈ name.toList, n.length ≤ 42) :
    byteLength (option string name) ≤ 254 := by
  cases name with
  | none => decide
  | some n =>
    have hstring := byteLength_string n
    have hlen := h n (by simp)
    rw [option]
    omega

theorem byteLength_finished {phase : String} {origin : RestoreOrigin} {restored : Option ObjectIdentity}
    {displacedName : Option String} {displaced : Option ObjectIdentity} {detachedName : Option String}
    {detached : Option ObjectIdentity} (hphase : phase.length ≤ 20)
    (h : ∀ name ∈ displacedName.toList ++ detachedName.toList, name.length ≤ 42) :
    byteLength (object (field "phase" (string phase) ::
      finishedFields origin restored displacedName displaced detachedName detached)) ≤ 3000 := by
  have hstring : byteLength (string phase) ≤ 122 := (byteLength_string phase).trans (by omega)
  have hdisplaced := byteLength_name fun n hn => h n (List.mem_append_left _ hn)
  have hdetached := byteLength_name fun n hn => h n (List.mem_append_right _ hn)
  exact (byteLength_object_le (.cons (byteLength_field_le hstring)
    (.cons (byteLength_field_le (byteLength_origin _)) (.cons (byteLength_field_le (byteLength_identity _))
    (.cons (byteLength_field_le hdisplaced) (.cons (byteLength_field_le (byteLength_identity _))
    (.cons (byteLength_field_le hdetached) (.cons (byteLength_field_le (byteLength_identity _))
    .nil)))))))).trans (by decide)

theorem byteLength_lifecycle {phase : Lifecycle} (h : ∀ name ∈ lifecycleNames phase, name.length ≤ 42) :
    byteLength (lifecycle phase) ≤ 3000 := by
  have hdetached {text : String} (ht : text.length ≤ 20) (detached : Option ObjectIdentity) :
      byteLength (object [field "phase" (string text),
        field "detached_original" (option objectIdentity detached)]) ≤ 3000 := by
    have hstring : byteLength (string text) ≤ 122 := (byteLength_string text).trans (by omega)
    exact (byteLength_object_le (.cons (byteLength_field_le hstring)
      (.cons (byteLength_field_le (byteLength_identity _)) .nil))).trans (by decide)
  cases phase with
  | captured => decide
  | installIntent => decide
  | installed detached => exact hdetached (by decide) detached
  | mountIntent detached => exact hdetached (by decide) detached
  | unmountIntent next detached =>
    have hnext : byteLength (unmountNext next) ≤ 17 := by cases next <;> decide
    exact (byteLength_object_le (.cons (byteLength_field_le (byteLength_string _))
      (.cons (byteLength_field_le hnext) (.cons (byteLength_field_le (byteLength_identity _)) .nil)))).trans
      (by decide)
  | restoreIntent origin name restored detachedName detached =>
    have hname := byteLength_name fun n hn => h n (List.mem_append_left _ hn)
    have hdetachedName := byteLength_name fun n hn => h n (List.mem_append_right _ hn)
    exact (byteLength_object_le (.cons (byteLength_field_le (byteLength_string _))
      (.cons (byteLength_field_le (byteLength_origin _)) (.cons (byteLength_field_le hname)
      (.cons (byteLength_field_le (byteLength_identity _)) (.cons (byteLength_field_le hdetachedName)
      (.cons (byteLength_field_le (byteLength_identity _)) .nil))))))).trans (by decide)
  | restored origin restored displacedName displaced detachedName detached =>
    exact byteLength_finished (by decide) h
  | deleteIntent origin restored displacedName displaced detachedName detached =>
    exact byteLength_finished (by decide) h
  | storeIntent name =>
    have hname : byteLength (option string (some name)) ≤ 254 := byteLength_name (by simpa [lifecycleNames] using h)
    exact (byteLength_object_le (.cons (byteLength_field_le (byteLength_string _))
      (.cons (byteLength_field_le hname) .nil))).trans (by decide)
  | stored name detached =>
    have hname : byteLength (option string (some name)) ≤ 254 := byteLength_name (by simpa [lifecycleNames] using h)
    exact (byteLength_object_le (.cons (byteLength_field_le (byteLength_string _))
      (.cons (byteLength_field_le hname) (.cons (byteLength_field_le (byteLength_objectIdentity _)) .nil)))).trans
      (by decide)

end lengths

/-- The row after `r` in another phase. -/
def advance (r : SnapshotRecord) (lifecycle : Lifecycle) (placeholder : Option ObjectIdentity) :
    SnapshotRecord :=
  let next := r.successor lifecycle r.contents
  { next with header := { next.header with placeholder := placeholder } }

section advance

variable (lifecycle : Lifecycle) (placeholder : Option ObjectIdentity)

@[simp] theorem advance_lifecycle : (advance r lifecycle placeholder).header.lifecycle = lifecycle := rfl

@[simp] theorem advance_placeholder : (advance r lifecycle placeholder).header.placeholder = placeholder :=
  rfl

@[simp] theorem advance_original :
    (advance r lifecycle placeholder).header.original = r.header.original := rfl

@[simp] theorem advance_present :
    (advance r lifecycle placeholder).header.logicalPresent = r.header.logicalPresent := rfl

@[simp] theorem advance_contents : (advance r lifecycle placeholder).contents = r.contents := rfl

@[simp] theorem advance_swapName :
    (advance r lifecycle placeholder).header.swapName = r.header.swapName := rfl

@[simp] theorem advance_storedName :
    (advance r lifecycle placeholder).header.storedName = r.header.storedName := rfl

@[simp] theorem stagingOf_advance : stagingOf (advance r lifecycle placeholder) = stagingOf r := rfl

@[simp] theorem originalIdentity_advance :
    originalIdentity (advance r lifecycle placeholder) = originalIdentity r := rfl

end advance

theorem successor_eq (r : SnapshotRecord) (lifecycle : Lifecycle) :
    r.successor lifecycle r.contents = advance r lifecycle r.header.placeholder := rfl

theorem Sound.digest (h : Sound S r) : r.header.contentSha256 = sha256 r.contents :=
  (validateSnapshot_facts h.valid).digest

theorem Sound.kin (h : Sound S r) {lifecycle : Lifecycle} {placeholder : Option ObjectIdentity}
    (hn : ∀ name ∈ lifecycleNames lifecycle, name = "swap" ∨ name = "stored" ∨ CandidateName name) :
    Kin r.header (advance r lifecycle placeholder).header :=
  ⟨rfl, rfl, rfl, rfl, rfl, rfl, rfl, rfl, rfl, h.unblocked, ⟨r.contents, rfl⟩, hn⟩

theorem Room.next {steps : ℕ} (h : Room (steps + 1) r) {next : SnapshotRecord}
    (hk : Kin r.header next.header) (hr : next.header.revision = r.header.revision + 1) :
    Room steps next where
  revision := by
    have := h.revision
    omega
  length := by
    rw [hk.fixed]
    exact h.length

theorem Room.le {steps fewer : ℕ} (h : Room steps r) (hle : fewer ≤ steps) : Room fewer r :=
  ⟨lt_of_le_of_lt (Nat.add_le_add_left hle _) h.revision, h.length⟩

theorem Room.fits {steps : ℕ} (h : Room (steps + 1) r) {next : SnapshotRecord}
    (hk : Kin r.header next.header) (hr : next.header.revision = r.header.revision + 1) :
    fitsRow next.header := by
  have hrev := h.revision
  obtain ⟨contents, hdigest⟩ := hk.digest
  have hnames : ∀ name ∈ lifecycleNames next.header.lifecycle, name.length ≤ 42 :=
    fun name hn => length_known (hk.names name hn)
  have hlen := headerLength_le (h := next.header)
    (by have : revisionLimit ≤ 10 ^ 20 := by decide
        omega)
    (byteLength_lifecycle hnames) (by rw [hdigest, sha256_length]) hk.unblocked
  rw [hk.fixed] at hlen
  exact ⟨by omega, hlen.trans h.length⟩

theorem Room.marker {steps : ℕ} (h : Room (steps + 1) r) (hs : Sound S r) (final : Option ObjectIdentity) :
    markerLength (Manager.finalizationMarker r final) ≤ headerLimit := by
  have hfacts := validateSnapshot_facts hs.valid
  have hlen := hfacts.length
  have hrev := h.revision
  have hlimit : revisionLimit + maxCredentialSize ≤ 10 ^ 20 := by decide
  refine (markerLength_le (h := r.header) ⟨rfl, rfl, rfl, rfl, rfl⟩ ?_ ?_ (show finalName.length ≤ 42 by decide) ?_).trans
    h.length
  · change r.header.revision + 1 < _
    omega
  · change r.contents.length < _
    omega
  · change r.header.contentSha256.length = 64
    rw [hfacts.digest, sha256_length]

/-- The checks of a row that its phase decides. -/
structure PhaseValid (next : SnapshotRecord) : Prop where
  placeholder : validatePlaceholder next.header = .ok ()
  length : validateCapturedLength next = .ok ()
  structural : validateLifecycleStructure next.header next.header.lifecycle = .ok ()

theorem validateSnapshot_advance (h : validateSnapshot r = .ok ()) {lifecycle : Lifecycle}
    {placeholder : Option ObjectIdentity} (hp : PhaseValid (advance r lifecycle placeholder)) :
    validateSnapshot (advance r lifecycle placeholder) = .ok () := by
  simp only [validateSnapshot, check_eq_ok] at h ⊢
  obtain ⟨hformat, hrev, hgen, htok, hlen, hsha, hblock, hpaths, hswap, hstored, hparent, -, hmeta, horig,
    hempty, -, -⟩ := h
  refine ⟨hformat, ?_, hgen, htok, hlen, ?_, hblock, hpaths, hswap, hstored, hparent, hp.placeholder, hmeta,
    horig, hempty, hp.length, hp.structural⟩
  · rw [corruptIf_eq_ok]
    exact Nat.succ_ne_zero _
  · rw [corruptIf_eq_ok, not_not]
    rfl

theorem Sound.advance (h : Sound S r) {lifecycle : Lifecycle} {placeholder : Option ObjectIdentity}
    (hp : PhaseValid (advance r lifecycle placeholder)) : Sound S (advance r lifecycle placeholder) :=
  ⟨validateSnapshot_advance h.valid hp, h.bound, h.unblocked, h.swapName, h.storedName, h.parent, h.staging,
    h.planned, h.xattrs⟩

theorem validateSuccessor_advance (h : Sound S r) {lifecycle : Lifecycle}
    {placeholder : Option ObjectIdentity} (hp : PhaseValid (Recovery.advance r lifecycle placeholder))
    (hph : placeholder = r.header.placeholder ∨
      placeholderMayChange r.header (Recovery.advance r lifecycle placeholder).header = true)
    (ht : lifecycleTransitionIsValid r.header (Recovery.advance r lifecycle placeholder).header = true) :
    validateSuccessor S.path (some r.version) (.present r) (Recovery.advance r lifecycle placeholder) =
      .ok () := by
  have hfields : validateSuccessorFields r (Recovery.advance r lifecycle placeholder) = .ok () := by
    have hb : (Recovery.advance r lifecycle placeholder).header.blockedReason = none := h.unblocked
    unfold validateSuccessorFields
    refine check_eq_ok.mpr ⟨conflictIf_eq_ok.mpr ?_, check_eq_ok.mpr ⟨conflictIf_eq_ok.mpr ?_,
      check_eq_ok.mpr ⟨conflictIf_eq_ok.mpr ?_, ?_⟩⟩⟩
    · simp [Recovery.advance, SnapshotRecord.successor]
    · rintro ⟨hne, hno⟩
      rcases hph with rfl | hph
      · exact hne rfl
      · rw [hph] at hno
        cases hno
    · simp [h.unblocked]
    · rw [if_neg (by simp [hb])]
      refine check_eq_ok.mpr ⟨conflictIf_eq_ok.mpr ?_, check_eq_ok.mpr ⟨conflictIf_eq_ok.mpr ?_,
        check_eq_ok.mpr ⟨conflictIf_eq_ok.mpr ?_, conflictIf_eq_ok.mpr ?_⟩⟩⟩
      · simp [hb]
      · exact fun hc => hc.1 rfl
      · exact fun hc => hc.1 rfl
      · simp [ht]
  unfold validateSuccessor
  refine check_eq_ok.mpr ⟨validateSnapshot_advance h.valid hp, check_eq_ok.mpr ⟨conflictIf_eq_ok.mpr
    (not_not.mpr h.bound), check_eq_ok.mpr ⟨conflictIf_eq_ok.mpr (not_not.mpr rfl), check_eq_ok.mpr
      ⟨conflictIf_eq_ok.mpr ?_, hfields⟩⟩⟩⟩
  simp [Recovery.advance, SnapshotRecord.successor, SnapshotRecord.version]

theorem commit_eq_ok {next : SnapshotRecord} {expected : Option RecordVersion} {entry : Entry}
    (hv : validateSuccessor S.path expected entry next = .ok ()) (hf : fitsRow next.header) :
    entry.commit S.path expected next = .ok (.present next) := by
  unfold Entry.commit
  exact check_eq_ok.mpr ⟨hv, bind_eq_ok.mpr ⟨_, revisionToSql_eq_ok.mpr ⟨hf.1, rfl⟩,
    check_eq_ok.mpr ⟨headerFits_eq_ok.mpr hf.2, rfl⟩⟩⟩

/-- The world `w'` is `w` with the row `next`. -/
structure Committed (S : Site) (w w' : World) (next : SnapshotRecord) : Prop where
  inv : Inv S w'
  entry : w'.store S.path = .present next
  last : w'.ghost.last S.path = some next
  directories : w'.directories = w.directories
  view : view S.path w' = view S.path w

theorem putEntry_sane (hs : Sane S.path w) (entry : Entry) :
    Sane S.path (w.putEntry S.path entry).settled ∧
      Recovery.view S.path (w.putEntry S.path entry).settled = Recovery.view S.path w :=
  ⟨⟨rfl, fun h => hs.bound h, hs.tidy⟩, rfl⟩

theorem putEntry_store (entry : Entry) : (w.putEntry S.path entry).store S.path = entry := Function.update_self ..

theorem committed_putEntry {next : SnapshotRecord} (hi : Inv S w)
    (hc : Consistent S (.present next) (some next) w.directories (Recovery.view S.path w)) :
    Committed S w (w.putEntry S.path (.present next)).settled next := by
  have he : (w.putEntry S.path (.present next)).settled.store S.path = .present next := putEntry_store _
  have hl : (w.putEntry S.path (.present next)).settled.ghost.last S.path = some next :=
    Function.update_self ..
  refine ⟨⟨(putEntry_sane hi.sane _).1, ?_⟩, he, hl, rfl, rfl⟩
  rw [he, hl]
  exact hc

theorem runs_commit {n : SnapshotRecord} {expected : Option RecordVersion} (hi : Inv S w)
    (hv : validateSuccessor S.path expected (w.store S.path) n = .ok ())
    (hroom : E ∨ fitsRow n.header)
    (hc : Consistent S (.present n) (some n) w.directories (Recovery.view S.path w)) :
    Runs S E (storeCommit S.path expected n)
      (fun answer w' => (∃ version, answer = .ok version ∧ Committed S w w' n) ∨
        ∃ error, answer = .error error ∧ E) w := by
  refine Runs.perform fun c hf => ?_
  simp only [World.exec, World.commitEntry]
  cases hcommit : (w.store S.path).commit S.path expected n with
  | error error =>
    have hsettled := hi.sane.settled
    simp only [Except.map, SqliteStore.settle, hsettled]
    refine ⟨hi, ?_⟩
    rcases hroom with he | hfit
    · exact .inr ⟨error, rfl, he⟩
    · rw [commit_eq_ok hv hfit] at hcommit
      cases hcommit
  | ok after =>
    rw [Entry_commit_ok hcommit]
    simp only [Except.map, SqliteStore.settle, hf.answer]
    have := committed_putEntry hi hc
    exact ⟨this.inv, .inl ⟨n.version, rfl, this⟩⟩

theorem runs_commitSuccessor {lifecycle : Lifecycle} {placeholder : Option ObjectIdentity} (hi : Inv S w)
    (hs : Sound S r) (hstore : w.store S.path = .present r)
    (hp : PhaseValid (advance r lifecycle placeholder))
    (hph : placeholder = r.header.placeholder ∨
      placeholderMayChange r.header (advance r lifecycle placeholder).header = true)
    (ht : lifecycleTransitionIsValid r.header (advance r lifecycle placeholder).header = true)
    (hn : ∀ name ∈ lifecycleNames lifecycle, name = "swap" ∨ name = "stored" ∨ CandidateName name)
    {steps : ℕ} (hroom : E ∨ Room (steps + 1) r)
    (hfiles : PhaseFiles S (advance r lifecycle placeholder) (Recovery.view S.path w) lifecycle)
    (hdir : stagingOf r ∈ w.directories) :
    Runs S E (commitSuccessor r (advance r lifecycle placeholder))
      (fun _ w' => Committed S w w' (advance r lifecycle placeholder)) w := by
  unfold commitSuccessor
  simp only [recordPath_eq hs.bound, Prog.bind_eq, Prog.pure_bind]
  have hc := runs_commit (E := E) (n := advance r lifecycle placeholder) hi
    (by rw [hstore]; exact validateSuccessor_advance hs hp hph ht)
    (hroom.imp_right fun h => h.fits (hs.kin hn) rfl)
    ⟨hs.advance hp, rfl, hfiles, .inr hdir⟩
  refine Runs.andThen hc ?_
  rintro _ w' (⟨version, rfl, h⟩ | ⟨error, rfl, he⟩)
  · exact Runs.pure h
  · exact Runs.fail he

theorem runs_transition {lifecycle : Lifecycle} (hi : Inv S w) (hs : Sound S r)
    (hstore : w.store S.path = .present r) (hp : PhaseValid (advance r lifecycle r.header.placeholder))
    (ht : lifecycleTransitionIsValid r.header (advance r lifecycle r.header.placeholder).header = true)
    (hn : ∀ name ∈ lifecycleNames lifecycle, name = "swap" ∨ name = "stored" ∨ CandidateName name)
    {steps : ℕ} (hroom : E ∨ Room (steps + 1) r)
    (hfiles : PhaseFiles S (advance r lifecycle r.header.placeholder) (Recovery.view S.path w) lifecycle)
    (hdir : stagingOf r ∈ w.directories) :
    Runs S E (transition r lifecycle)
      (fun next w' => next = advance r lifecycle r.header.placeholder ∧ Committed S w w' next) w := by
  unfold transition
  simp only [recordPath_eq hs.bound, Prog.bind_eq, Prog.pure_bind, successor_eq]
  refine Runs.andThen (Runs.mapError (runs_commitSuccessor hi hs hstore hp (.inl rfl) ht hn hroom hfiles
    hdir)) fun _ w' h => ?_
  exact Runs.pure ⟨rfl, h⟩

theorem Room.advance {steps : ℕ} {lifecycle : Lifecycle} {placeholder : Option ObjectIdentity}
    (hs : Sound S r) (h : Room (steps + 1) r)
    (hn : ∀ name ∈ lifecycleNames lifecycle, name = "swap" ∨ name = "stored" ∨ CandidateName name) :
    Room steps (Recovery.advance r lifecycle placeholder) :=
  h.next (hs.kin hn) rfl

end FileGuard.Recovery
