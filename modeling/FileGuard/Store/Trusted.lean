import FileGuard.Store.Bindings

/-! What the store makes sure of where it takes the displaced inode and the finalization marker from its caller. -/

namespace FileGuard.Store

/-- The inode that the restoring rename has displaced, in the phases that record one. -/
def Lifecycle.displacedIdentity : Lifecycle → Option (Option ObjectIdentity)
  | .restored _ _ _ displaced _ _ | .deleteIntent _ _ _ displaced _ _ => some displaced
  | _ => none

def ObjectIdentity.IsFile (identity : ObjectIdentity) : Prop :=
  identity.mode &&& fileTypeMask = regularType ∧ identity.links ≠ 0

/-- A restoration of an installed file records the inode of a file beside the placeholder. -/
def RecordsDisplaced (row : SnapshotRecord) : Prop :=
  ∀ displaced, row.header.lifecycle.displacedIdentity = some displaced →
    row.header.lifecycle.route = some .installed →
      ∃ identity placeholder, displaced = some identity ∧ row.header.placeholder = some placeholder ∧
        identity.IsFile ∧ placeholder.IsFile

/-- A later row keeps the displaced inode and the placeholder that an earlier one records. -/
def KeepsDisplaced (earlier later : SnapshotRecord) : Prop :=
  ∀ displaced, earlier.header.lifecycle.displacedIdentity = some displaced →
    later.header.lifecycle.displacedIdentity = some displaced ∧
      later.header.placeholder = earlier.header.placeholder

/-- The displaced inode is the placeholder up to its ctime. -/
def DisplacedMatches (row : SnapshotRecord) : Prop :=
  ∃ displaced, row.header.lifecycle.displacedIdentity = some displaced ∧
    identitiesMatchAfterRename row.header.placeholder displaced = true

theorem KeepsDisplaced.matches_iff {earlier later : SnapshotRecord} (h : KeepsDisplaced earlier later)
    (hne : earlier.header.lifecycle.displacedIdentity ≠ none) : DisplacedMatches earlier ↔ DisplacedMatches later := by
  obtain ⟨displaced, hd⟩ := Option.ne_none_iff_exists'.mp hne
  obtain ⟨hlater, hplaceholder⟩ := h displaced hd
  rw [DisplacedMatches, DisplacedMatches, hd, hlater, hplaceholder]

theorem isFile_of_validateIdentity {identity : ObjectIdentity} {label : String}
    (h : validateIdentity identity regularType label = .ok ()) : identity.IsFile := by
  obtain ⟨h, -⟩ := check_eq_ok.mp h
  rw [corruptIf_eq_ok, not_or, not_not] at h
  exact h

theorem requireSome_eq_ok {α : Type} {value : Option α} {message : String} {a : α} :
    requireSome value message = .ok a ↔ value = some a := by
  cases value <;> simp [requireSome, corrupt]

theorem validateFinished_displaced {header : RecordHeader} {restored displaced detached : Option ObjectIdentity}
    {displacedName name : Option String}
    (h : validateFinished header .installed restored displacedName displaced name detached = .ok ()) :
    ∃ identity, displaced = some identity ∧ identity.IsFile := by
  obtain ⟨-, h⟩ := check_eq_ok.mp h
  obtain ⟨-, h⟩ := check_eq_ok.mp h
  obtain ⟨displacedName, -, h⟩ := bind_eq_ok.mp h
  obtain ⟨-, h⟩ := check_eq_ok.mp h
  obtain ⟨identity, hidentity, h⟩ := bind_eq_ok.mp h
  obtain ⟨hvalid, -⟩ := check_eq_ok.mp h
  exact ⟨identity, requireSome_eq_ok.mp hidentity, isFile_of_validateIdentity hvalid⟩

theorem placeholder_of_required {header : RecordHeader} (h : validatePlaceholder header = .ok ())
    (hrequired : lifecycleRequiresPlaceholder header.lifecycle = true) :
    ∃ placeholder, header.placeholder = some placeholder ∧ placeholder.IsFile := by
  unfold validatePlaceholder at h
  rw [hrequired] at h
  cases hp : header.placeholder with
  | none =>
    rw [hp] at h
    cases h
  | some placeholder =>
    rw [hp] at h
    exact ⟨placeholder, rfl, isFile_of_validateIdentity h⟩

theorem recordsDisplaced_of_valid {row : SnapshotRecord} (hv : validateSnapshot row = .ok ()) : RecordsDisplaced row := by
  intro displaced hdisplaced hroute
  have hstructural := (validateSnapshot_facts hv).structural
  have hplaceholder := placeholder_of_required (validateSnapshot_facts hv).placeholder
  cases hl : row.header.lifecycle with
  | restored origin restored displacedName recorded name detached =>
    rw [hl] at hdisplaced hroute hstructural hplaceholder
    cases hdisplaced
    cases hroute
    obtain ⟨placeholder, hp, hfile⟩ := hplaceholder rfl
    obtain ⟨identity, hidentity, hfile'⟩ := validateFinished_displaced hstructural
    exact ⟨identity, placeholder, hidentity, hp, hfile', hfile⟩
  | deleteIntent origin restored displacedName recorded name detached =>
    rw [hl] at hdisplaced hroute hstructural hplaceholder
    cases hdisplaced
    cases hroute
    obtain ⟨placeholder, hp, hfile⟩ := hplaceholder rfl
    obtain ⟨identity, hidentity, hfile'⟩ := validateFinished_displaced hstructural
    exact ⟨identity, placeholder, hidentity, hp, hfile', hfile⟩
  | _ =>
    rw [hl] at hdisplaced
    cases hdisplaced

theorem Transition.displacedIdentity {current : RecordHeader} {l l' : Lifecycle} (h : Transition current l l')
    {displaced : Option ObjectIdentity} (hl : l.displacedIdentity = some displaced) :
    l'.displacedIdentity = some displaced := by
  cases h <;> first | exact hl | cases hl

theorem KeepsDisplaced.succeeds {row current next : SnapshotRecord} (h : KeepsDisplaced row current)
    (hs : Succeeds current next) : KeepsDisplaced row next := by
  intro displaced hdisplaced
  obtain ⟨hcurrent, hplaceholder⟩ := h displaced hdisplaced
  refine ⟨?_, ?_⟩
  · rcases hs.transition with hl | ht
    · rw [hl]
      exact hcurrent
    · exact ht.displacedIdentity hcurrent
  · refine Eq.trans ?_ hplaceholder
    by_contra hne
    cases hs.placeholder hne with
    | recorded before =>
      rw [before] at hcurrent
      cases hcurrent
    | renewed detached before =>
      rw [before] at hcurrent
      cases hcurrent

theorem maintained_displaced : Maintained RecordsDisplaced KeepsDisplaced where
  start _ hv _ := recordsDisplaced_of_valid hv
  next _ _ _ _ hv := recordsDisplaced_of_valid hv
  refl _ _ hd := ⟨hd, rfl⟩
  later _ _ _ h hs := h.succeeds hs

/-- The row that a marker has replaced, as far as the store compares the two. -/
structure Replaces (row : SnapshotRecord) (marker : FinalizationRecord) : Prop where
  deleting : isDeleteIntent row.header.lifecycle = true
  unblocked : row.header.blockedReason = none
  pathHex : marker.pathHex = row.header.pathHex
  generation : marker.generation = row.header.generation
  revision : marker.revision = row.header.revision + 1

/-- A marker agrees with itself: it names a final inode of the described length and metadata, or nothing. -/
structure Coherent (marker : FinalizationRecord) : Prop where
  presence : marker.finalIdentity.isSome = marker.logicalPresent
  length : marker.contentLength ≤ maxCredentialSize
  final : ∀ identity, marker.finalIdentity = some identity → identity.IsFile ∧ identity.links = 1 ∧
    identity.size.toNat = marker.contentLength ∧ identity.uid = marker.restoreMetadata.uid ∧
    identity.gid = marker.restoreMetadata.gid ∧ identity.mode &&& 0o7777 = marker.restoreMetadata.mode ∧
    identity.mtime = marker.restoreMetadata.mtime
  empty : marker.finalIdentity = none → marker.contentLength = 0 ∧ marker.contentSha256 = sha256 []

theorem coherent_of_valid {marker : FinalizationRecord} (h : validateFinalization marker = .ok ()) : Coherent marker := by
  simp only [validateFinalization, check_eq_ok, corruptIf_eq_ok] at h
  obtain ⟨-, -, -, -, -, -, hlength, h⟩ := h
  obtain ⟨digest, -, h⟩ := bind_eq_ok.mp h
  obtain ⟨-, h⟩ := check_eq_ok.mp h
  unfold validateFinalIdentity at h
  cases hfinal : marker.finalIdentity with
  | none =>
    cases hpresent : marker.logicalPresent with
    | true =>
      rw [hfinal, hpresent] at h
      cases h
    | false =>
      rw [hfinal, hpresent] at h
      refine ⟨by rw [hfinal, hpresent]; rfl, not_lt.mp hlength, fun identity hi => ?_, fun _ => ?_⟩
      · rw [hfinal] at hi
        cases hi
      · exact not_not.mp (corruptIf_eq_ok.mp h)
  | some identity =>
    cases hpresent : marker.logicalPresent with
    | false =>
      rw [hfinal, hpresent] at h
      cases h
    | true =>
      rw [hfinal, hpresent] at h
      obtain ⟨hvalid, h⟩ := check_eq_ok.mp h
      simp only [corruptIf_eq_ok, not_or, not_not] at h
      refine ⟨by rw [hfinal, hpresent]; rfl, not_lt.mp hlength, fun other hi => ?_, fun hnone => ?_⟩
      · rw [hfinal] at hi
        cases hi
        exact ⟨isFile_of_validateIdentity hvalid, h⟩
      · rw [hfinal] at hnone
        cases hnone

namespace SqliteStore

/-- A stored marker has replaced the last row of the generation. -/
theorem run_replaced (calls : List Call) (fileId : Path) {marker : FinalizationRecord}
    (h : lastEntry fileId (accepted empty calls) = .finalizing marker) :
    Coherent marker ∧ ∃ row, (generationRows fileId (accepted empty calls)).getLast? = some row ∧ Replaces row marker := by
  induction calls using List.reverseRecOn with
  | nil => cases h
  | append_singleton calls call ih =>
    rw [accepted_append] at h ⊢
    rcases step_accepts (run_holds_lastEntry calls call.path) with ⟨ha, -⟩ | ⟨ha, happly, -⟩
    · rw [ha] at h ⊢
      simp only [Bool.false_eq_true, ↓reduceIte, List.append_nil] at h ⊢
      exact ih h
    · rw [ha, if_pos rfl] at h ⊢
      rw [lastEntry_append] at h
      rw [generationRows_append]
      by_cases hp : call.path = fileId
      · rw [if_pos hp] at h ⊢
        rw [hp] at happly
        cases call with
        | commit => cases h
        | finishFinalization => cases h
        | beginFinalization outcome path expected proposed =>
          cases h
          obtain ⟨-, hv, row, rfl, hrow, hunblocked, hdelete, hpath, hversion⟩ := Entry.beginFinalization_inv happly
          have hvalid := (run_holds_lastEntry calls fileId).1
          rw [hrow] at hvalid
          refine ⟨coherent_of_valid hv, row, run_last calls fileId hrow, hdelete, hunblocked, ?_, ?_, ?_⟩
          · exact (hpath.trans (congrArg pathToHex hp)).trans hvalid.2.1.symm
          · exact congrArg RecordVersion.generation hversion
          · exact congrArg RecordVersion.revision hversion
      · rw [if_neg hp] at h ⊢
        exact ih h

/-- What the store itself holds callers to: a restoration records a displaced file beside the placeholder and no later row
changes either, and a marker that agrees with itself takes the place of the last row. -/
theorem trusted_last (calls : List Call) (fileId : Path) :
    let rows := generationRows fileId (accepted empty calls)
    (∀ row ∈ rows, RecordsDisplaced row) ∧
      rows.Pairwise (fun earlier later => KeepsDisplaced earlier later ∧
        (earlier.header.lifecycle.displacedIdentity ≠ none → (DisplacedMatches earlier ↔ DisplacedMatches later))) ∧
      ∀ marker, (run empty calls).load fileId = .ok (.finalizing marker) →
        Coherent marker ∧ ∃ row, rows.getLast? = some row ∧ Replaces row marker := by
  obtain ⟨hrows, hpairs⟩ := run_maintained maintained_displaced calls fileId
  refine ⟨hrows, hpairs.imp fun hkeeps => ⟨hkeeps, hkeeps.matches_iff⟩, fun marker hload => ?_⟩
  rw [load, (run_holds_lastEntry calls fileId).loadRecord] at hload
  exact run_replaced calls fileId (Except.ok.inj hload)

/-- The calls of one path are accepted one after the other. -/
def appliesAll (entry : Entry) : List Call → Bool
  | [] => true
  | call :: calls => (entry.apply call).isOk && call.outcome.committed && appliesAll call.entry calls

theorem accepted_eq_self (fileId : Path) {calls : List Call} (hpaths : ∀ call ∈ calls, call.path = fileId)
    {db : SqliteStore} {entry : Entry} (hholds : Holds db fileId entry) (h : appliesAll entry calls = true) :
    accepted db calls = calls := by
  induction calls generalizing db entry with
  | nil => rfl
  | cons call calls ih =>
    obtain ⟨hpath, hpaths⟩ := List.forall_mem_cons.mp hpaths
    simp only [appliesAll, Bool.and_eq_true] at h
    obtain ⟨⟨hok, hcommitted⟩, hcalls⟩ := h
    rw [← hpath] at hholds
    rcases step_accepts hholds with ⟨hrefused, -⟩ | ⟨haccepts, happly, hstep⟩
    · rw [accepts, body_eq hholds] at hrefused
      cases happly : entry.apply call with
      | error error =>
        rw [happly] at hok
        cases hok
      | ok after =>
        rw [happly, hcommitted] at hrefused
        cases hrefused
    · have hnext : Holds (step db call) fileId call.entry := by
        rw [hstep, ← hpath]
        exact holds_put (Entry.apply_valid happly)
      rw [accepted, if_pos haccepts, ih hpaths hnext hcalls]

def directoryIdentity (inode : UInt64) : ObjectIdentity :=
  ⟨1, inode, ⟨0, 0⟩, ⟨0, 0⟩, 0, 2, directoryType ||| 0o755, 0, 0⟩

def fileIdentity (inode size : UInt64) : ObjectIdentity :=
  ⟨1, inode, ⟨0, 0⟩, ⟨0, 0⟩, size, 1, regularType ||| 0o644, 0, 0⟩

/-- The capture of a file that is absent. -/
def absentCapture : SnapshotRecord where
  header := {
    format := formatVersion
    pathHex := pathToHex (utf8 "/a")
    generation := "0123456789abcdef0123456789abcdef"
    revision := 1
    lifecycle := .captured
    original := .absent ⟨0, 0, 0o600, ⟨0, 0⟩, ⟨0, 0⟩, []⟩
    logicalPresent := false
    parent := directoryIdentity 10
    stagingPathHex := pathToHex (utf8 "/staging")
    swapName := "swap"
    storedName := "stored"
    placeholder := none
    mountToken := "0123456789abcdef0123456789abcdef"
    contentSha256 := sha256 []
    blockedReason := none }
  contents := []

def installing : SnapshotRecord :=
  let next := absentCapture.successor .installIntent []
  { next with header := { next.header with placeholder := some (fileIdentity 20 0) } }

/-- The displaced inode that is recorded is not the placeholder. -/
def restoredForeign : SnapshotRecord :=
  ((installing.successor (.installed none) []).successor (.restoreIntent .installed (some "restore") none none none)
    []).successor (.restored .installed none (some "restore") (some (fileIdentity 40 7)) none none) []

def deletingForeign : SnapshotRecord :=
  restoredForeign.successor (.deleteIntent .installed none (some "restore") (some (fileIdentity 40 7)) none none) []

/-- A marker that has nothing of the row it replaces but the path and the version. -/
def foreignMarker : FinalizationRecord where
  format := formatVersion
  pathHex := pathToHex (utf8 "/a")
  generation := deletingForeign.header.generation
  revision := deletingForeign.header.revision + 1
  logicalPresent := true
  parent := directoryIdentity 11
  stagingPathHex := pathToHex (utf8 "/elsewhere")
  finalName := "final"
  finalIdentity := some (fileIdentity 30 1)
  restoreMetadata := ⟨0, 0, 0o644, ⟨0, 0⟩, ⟨0, 0⟩, []⟩
  contentLength := 1
  contentSha256 := String.ofList (List.replicate 64 '0')

/-- Each row is committed over the one before it. -/
def commits : Option RecordVersion → List SnapshotRecord → List Call
  | _, [] => []
  | expected, row :: rows => .commit .acknowledged (utf8 "/a") expected row :: commits (some row.version) rows

def foreignCalls : List Call :=
  commits none [absentCapture, installing, installing.successor (.installed none) [],
    (installing.successor (.installed none) []).successor (.restoreIntent .installed (some "restore") none none none) [],
    restoredForeign, deletingForeign] ++
    [.beginFinalization .acknowledged (utf8 "/a") deletingForeign.version foreignMarker]

/-- Each call is checked against the entry before it alone. -/
theorem applied_foreign : appliesAll .missing foreignCalls = true := by
  simp only [foreignCalls, commits, List.cons_append, List.nil_append, appliesAll, Bool.and_eq_true]
  refine ⟨⟨?_, rfl⟩, ⟨?_, rfl⟩, ⟨?_, rfl⟩, ⟨?_, rfl⟩, ⟨?_, rfl⟩, ⟨?_, rfl⟩, ⟨?_, rfl⟩, trivial⟩ <;> decide +kernel

theorem trusted_last_foreign :
    (∃ row ∈ generationRows (utf8 "/a") (accepted empty foreignCalls), ∃ displaced placeholder,
      row.header.lifecycle.displacedIdentity = some (some displaced) ∧ row.header.lifecycle.route = some .installed ∧
        row.header.placeholder = some placeholder ∧ identitiesMatch placeholder displaced = false) ∧
      ∃ row marker, (generationRows (utf8 "/a") (accepted empty foreignCalls)).getLast? = some row ∧
        (run empty foreignCalls).load (utf8 "/a") = .ok (.finalizing marker) ∧ marker.parent ≠ row.header.parent ∧
        marker.stagingPathHex ≠ row.header.stagingPathHex ∧ marker.logicalPresent ≠ row.header.logicalPresent ∧
        marker.restoreMetadata ≠ row.header.original.metadata ∧ marker.contentLength ≠ row.contents.length ∧
        marker.contentSha256 ≠ row.header.contentSha256 := by
  have haccepted : accepted empty foreignCalls = foreignCalls :=
    accepted_eq_self (utf8 "/a") (by simp [foreignCalls, commits, Call.path]) (holds_empty _) applied_foreign
  have hload : (run empty foreignCalls).load (utf8 "/a") = .ok (.finalizing foreignMarker) := by
    rw [load, (run_holds_lastEntry foreignCalls (utf8 "/a")).loadRecord, haccepted]
    rfl
  rw [haccepted]
  refine ⟨⟨restoredForeign, ?_, fileIdentity 40 7, fileIdentity 20 0, rfl, rfl, rfl, by decide⟩,
    deletingForeign, foreignMarker, rfl, hload, ?_⟩
  · have hrows : generationRows (utf8 "/a") foreignCalls = [absentCapture, installing,
        installing.successor (.installed none) [], (installing.successor (.installed none) []).successor
          (.restoreIntent .installed (some "restore") none none none) [], restoredForeign, deletingForeign] := rfl
    rw [hrows]
    simp only [List.mem_cons, true_or, or_true]
  · decide +kernel

end SqliteStore

end FileGuard.Store
