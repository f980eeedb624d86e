import FileGuard.Store.Ledger

namespace FileGuard.Store

/-- The phases that may follow one another, with the fields that each step carries over. -/
inductive Transition (current : RecordHeader) : Lifecycle → Lifecycle → Prop where
  | install : Transition current .captured .installIntent
  | store (name : String) (bound : name = current.storedName) :
      Transition current .captured (.storeIntent name)
  | installed (detached : Option ObjectIdentity) :
      Transition current .installIntent (.installed detached)
  | mount (detached : Option ObjectIdentity) :
      Transition current (.installed detached) (.mountIntent detached)
  | abort (detached : Option ObjectIdentity) :
      Transition current (.mountIntent detached) (.installed detached)
  | update (detached : Option ObjectIdentity) :
      Transition current (.mountIntent detached) (.mountIntent detached)
  | unmount (next : UnmountNext) (detached : Option ObjectIdentity) :
      Transition current (.mountIntent detached) (.unmountIntent next detached)
  | leave (detached : Option ObjectIdentity) :
      Transition current (.unmountIntent .leaveInstalled detached) (.installed detached)
  | restoreInstalled (name : Option String) (identity : Option ObjectIdentity)
      (detachedName : Option String) (detached : Option ObjectIdentity) :
      Transition current (.installed detached)
        (.restoreIntent .installed name identity detachedName detached)
  | restoreUnmounted (name : Option String) (identity : Option ObjectIdentity)
      (detachedName : Option String) (detached : Option ObjectIdentity) :
      Transition current (.unmountIntent .restore detached)
        (.restoreIntent .installed name identity detachedName detached)
  | stored (name : String) (detached : ObjectIdentity) :
      Transition current (.storeIntent name) (.stored name detached)
  | restoreStored (restoreName : Option String) (identity : Option ObjectIdentity) (name : String)
      (detached : ObjectIdentity) :
      Transition current (.stored name detached)
        (.restoreIntent .stored restoreName identity (some name) (some detached))
  | identify (origin : RestoreOrigin) (name : Option String) (identity : ObjectIdentity)
      (detachedName : Option String) (detached : Option ObjectIdentity) :
      Transition current (.restoreIntent origin name none detachedName detached)
        (.restoreIntent origin name (some identity) detachedName detached)
  | restored (origin : RestoreOrigin) (name : Option String) (identity restored : Option ObjectIdentity)
      (displacedName : Option String) (displaced : Option ObjectIdentity)
      (detachedName : Option String) (detached : Option ObjectIdentity)
      (same : identitiesMatchAfterRename identity restored = true)
      (displacedFrom : origin = .installed → displacedName = name) :
      Transition current (.restoreIntent origin name identity detachedName detached)
        (.restored origin restored displacedName displaced detachedName detached)
  | delete (origin : RestoreOrigin) (restored : Option ObjectIdentity) (displacedName : Option String)
      (displaced : Option ObjectIdentity) (detachedName : Option String)
      (detached : Option ObjectIdentity) :
      Transition current (.restored origin restored displacedName displaced detachedName detached)
        (.deleteIntent origin restored displacedName displaced detachedName detached)

theorem transition_of_valid {current next : RecordHeader}
    (h : lifecycleTransitionIsValid current next = true) :
    Transition current current.lifecycle next.lifecycle := by
  obtain ⟨l, hl⟩ : ∃ l, l = current.lifecycle := ⟨_, rfl⟩
  obtain ⟨l', hl'⟩ : ∃ l', l' = next.lifecycle := ⟨_, rfl⟩
  unfold lifecycleTransitionIsValid at h
  rw [← hl, ← hl'] at h ⊢
  clear hl hl'
  split at h
  · exact .install
  · exact .store _ (by simpa using h)
  · exact .installed _
  · cases eq_of_beq h; exact .mount _
  · cases eq_of_beq h; exact .abort _
  · cases eq_of_beq h; exact .update _
  · cases eq_of_beq h; exact .unmount _ _
  · cases eq_of_beq h; exact .leave _
  · simp only [Bool.and_eq_true, beq_iff_eq] at h
    obtain ⟨⟨rfl, rfl⟩, -⟩ := h
    exact .restoreInstalled _ _ _ _
  · simp only [Bool.and_eq_true, beq_iff_eq] at h
    obtain ⟨⟨rfl, rfl⟩, -⟩ := h
    exact .restoreUnmounted _ _ _ _
  · cases eq_of_beq h; exact .stored _ _
  · simp only [Bool.and_eq_true, beq_iff_eq] at h
    obtain ⟨⟨⟨rfl, rfl⟩, rfl⟩, -⟩ := h
    exact .restoreStored _ _ _ _
  · simp only [Bool.and_eq_true, beq_iff_eq] at h
    obtain ⟨⟨⟨⟨-, rfl⟩, rfl⟩, rfl⟩, rfl⟩ := h
    exact .identify _ _ _ _ _
  · simp only [Bool.and_eq_true, beq_iff_eq] at h
    obtain ⟨⟨⟨⟨rfl, hsame⟩, rfl⟩, rfl⟩, hdisplaced⟩ := h
    refine .restored _ _ _ _ _ _ _ _ hsame ?_
    rintro rfl
    simpa using hdisplaced
  · simp only [Bool.and_eq_true, beq_iff_eq] at h
    obtain ⟨⟨⟨⟨⟨rfl, rfl⟩, rfl⟩, rfl⟩, rfl⟩, rfl⟩ := h
    exact .delete _ _ _ _ _ _
  · cases h

theorem Succeeds.transition {current next : SnapshotRecord} (h : Succeeds current next) :
    next.header.lifecycle = current.header.lifecycle ∨
      Transition current.header current.header.lifecycle next.header.lifecycle := by
  by_cases hb : next.header.blockedReason = none
  · exact .inr (transition_of_valid (h.phase hb))
  · exact .inl (h.blocking hb)

namespace Lifecycle

/-- The identity of the detached original, in the phases that record one. -/
def detached : Lifecycle → Option (Option ObjectIdentity)
  | .captured | .installIntent | .storeIntent _ => none
  | .installed detached | .mountIntent detached | .unmountIntent _ detached => some detached
  | .stored _ detached => some (some detached)
  | .restoreIntent _ _ _ _ detached | .restored _ _ _ _ _ detached
  | .deleteIntent _ _ _ _ _ detached => some detached

def detachedEntry : Lifecycle → Option (Option String)
  | .captured | .installIntent | .installed _ | .mountIntent _ | .unmountIntent _ _ => none
  | .storeIntent name | .stored name _ => some (some name)
  | .restoreIntent _ _ _ name _ | .restored _ _ _ _ name _ | .deleteIntent _ _ _ _ name _ => some name

def route : Lifecycle → Option RestoreOrigin
  | .captured => none
  | .installIntent | .installed _ | .mountIntent _ | .unmountIntent _ _ => some .installed
  | .storeIntent _ | .stored _ _ => some .stored
  | .restoreIntent origin .. | .restored origin .. | .deleteIntent origin .. => some origin

def restoreEntry : Lifecycle → Option (Option String)
  | .restoreIntent _ name _ _ _ => some name
  | _ => none

def restoration : Lifecycle → Option ObjectIdentity
  | .restoreIntent _ _ identity _ _ => identity
  | _ => none

def displacedEntry : Lifecycle → Option (Option String)
  | .restored _ _ name _ _ _ | .deleteIntent _ _ name _ _ _ => some name
  | _ => none

def restoredTarget : Lifecycle → Option (Option ObjectIdentity)
  | .restored _ target _ _ _ _ | .deleteIntent _ target _ _ _ _ => some target
  | _ => none

end Lifecycle

/-- A detached identity is the captured one up to its ctime, and there is none for an absent original. -/
def OriginalState.Binds : OriginalState → Option ObjectIdentity → Prop
  | .present identity _, detached => ∃ kept, detached = some kept ∧ identitiesMatch identity kept = true
  | .absent _, detached => detached = none

/-- The name under which a route keeps the detached original. -/
def detachedName (header : RecordHeader) : RestoreOrigin → Option String
  | .stored => some header.storedName
  | .installed => if header.original.existed then some header.swapName else none

/-- What each row of a generation binds. -/
structure WellBound (row : SnapshotRecord) : Prop where
  detached : ∀ detached, row.header.lifecycle.detached = some detached →
    row.header.original.Binds detached
  entry : ∀ name, row.header.lifecycle.detachedEntry = some name →
    ∃ origin, row.header.lifecycle.route = some origin ∧ name = detachedName row.header origin
  presence : ∀ restored, row.header.lifecycle.restoredTarget = some restored →
    restored.isSome = row.header.logicalPresent

/-- What a later row of a generation keeps of an earlier one. -/
structure KeepsBindings (earlier later : SnapshotRecord) : Prop where
  original : later.header.original = earlier.header.original
  swapName : later.header.swapName = earlier.header.swapName
  storedName : later.header.storedName = earlier.header.storedName
  detached : ∀ detached, earlier.header.lifecycle.detached = some detached →
    later.header.lifecycle.detached = some detached
  entry : ∀ name, earlier.header.lifecycle.detachedEntry = some name →
    later.header.lifecycle.detachedEntry = some name
  route : ∀ origin, earlier.header.lifecycle.route = some origin →
    later.header.lifecycle.route = some origin
  restoreEntry : ∀ name, earlier.header.lifecycle.restoreEntry = some name →
    later.header.lifecycle.restoreEntry = some name ∨
      ∃ displaced, later.header.lifecycle.displacedEntry = some displaced ∧
        (later.header.lifecycle.route = some .installed → displaced = name)
  restoration : ∀ identity, earlier.header.lifecycle.restoration = some identity →
    later.header.lifecycle.restoration = some identity ∨
      ∃ restored, later.header.lifecycle.restoredTarget = some (some restored) ∧
        identitiesMatch identity restored = true
  restored : ∀ restored, earlier.header.lifecycle.restoredTarget = some restored →
    later.header.lifecycle.restoredTarget = some restored

theorem KeepsBindings.refl (row : SnapshotRecord) : KeepsBindings row row :=
  ⟨rfl, rfl, rfl, fun _ h => h, fun _ h => h, fun _ h => h, fun _ h => .inl h, fun _ h => .inl h,
    fun _ h => h⟩

theorem KeepsBindings.same_phase {row current next : SnapshotRecord} (h : KeepsBindings row current)
    (hs : Succeeds current next) (hl : next.header.lifecycle = current.header.lifecycle) :
    KeepsBindings row next where
  original := hs.original.trans h.original
  swapName := hs.swapName.trans h.swapName
  storedName := hs.storedName.trans h.storedName
  detached := by rw [hl]; exact h.detached
  entry := by rw [hl]; exact h.entry
  route := by rw [hl]; exact h.route
  restoreEntry := by rw [hl]; exact h.restoreEntry
  restoration := by rw [hl]; exact h.restoration
  restored := by rw [hl]; exact h.restored

theorem Transition.detached {current : RecordHeader} {l l' : Lifecycle} (h : Transition current l l')
    {detached : Option ObjectIdentity} (hl : l.detached = some detached) : l'.detached = some detached := by
  cases h <;> first | exact hl | cases hl

theorem Transition.detachedEntry {current : RecordHeader} {l l' : Lifecycle} (h : Transition current l l')
    {name : Option String} (hl : l.detachedEntry = some name) : l'.detachedEntry = some name := by
  cases h <;> first | exact hl | cases hl

theorem Transition.route {current : RecordHeader} {l l' : Lifecycle} (h : Transition current l l')
    {origin : RestoreOrigin} (hl : l.route = some origin) : l'.route = some origin := by
  cases h <;> first | exact hl | cases hl

theorem Transition.restoredTarget {current : RecordHeader} {l l' : Lifecycle} (h : Transition current l l')
    {restored : Option ObjectIdentity} (hl : l.restoredTarget = some restored) :
    l'.restoredTarget = some restored := by
  cases h <;> first | exact hl | cases hl

theorem Transition.displacedEntry {current : RecordHeader} {l l' : Lifecycle} (h : Transition current l l')
    {name : Option String} (hl : l.displacedEntry = some name) : l'.displacedEntry = some name := by
  cases h <;> first | exact hl | cases hl

theorem Transition.restoreEntry {current : RecordHeader} {l l' : Lifecycle} (h : Transition current l l')
    {name : Option String} (hl : l.restoreEntry = some name) :
    l'.restoreEntry = some name ∨ ∃ displaced, l'.displacedEntry = some displaced ∧
      (l'.route = some .installed → displaced = name) := by
  cases h with
  | identify => exact .inl hl
  | restored origin restoreName identity restored displacedName displaced detachedName detached same
      displacedFrom =>
    cases hl
    exact .inr ⟨displacedName, rfl, fun h => displacedFrom (Option.some.inj h)⟩
  | _ => cases hl

theorem Transition.restoration {current : RecordHeader} {l l' : Lifecycle} (h : Transition current l l')
    {identity : ObjectIdentity} (hl : l.restoration = some identity) :
    ∃ restored, l'.restoredTarget = some (some restored) ∧ identitiesMatch identity restored = true := by
  cases h with
  | restored origin restoreName recorded restored displacedName displaced detachedName detached same =>
    cases hl
    cases restored with
    | none => cases same
    | some restored => exact ⟨restored, rfl, same⟩
  | _ => cases hl

theorem route_of_displacedEntry {l : Lifecycle} {name : Option String}
    (h : l.displacedEntry = some name) : ∃ origin, l.route = some origin := by
  cases l with
  | restored origin => exact ⟨origin, rfl⟩
  | deleteIntent origin => exact ⟨origin, rfl⟩
  | _ => cases h

theorem KeepsBindings.succeeds {row current next : SnapshotRecord} (h : KeepsBindings row current)
    (hs : Succeeds current next) : KeepsBindings row next := by
  rcases hs.transition with hl | ht
  · exact h.same_phase hs hl
  · refine ⟨hs.original.trans h.original, hs.swapName.trans h.swapName, hs.storedName.trans h.storedName,
      fun _ hd => ht.detached (h.detached _ hd), fun _ hn => ht.detachedEntry (h.entry _ hn),
      fun _ ho => ht.route (h.route _ ho), fun name hn => ?_, fun identity hi => ?_,
      fun _ hr => ht.restoredTarget (h.restored _ hr)⟩
    · rcases h.restoreEntry name hn with hcurrent | ⟨displaced, hdisplaced, hinstalled⟩
      · exact ht.restoreEntry hcurrent
      · refine .inr ⟨displaced, ht.displacedEntry hdisplaced, fun hroute => hinstalled ?_⟩
        obtain ⟨origin, horigin⟩ := route_of_displacedEntry hdisplaced
        rw [← hroute, ht.route horigin, horigin]
    · rcases h.restoration identity hi with hcurrent | ⟨restored, hrestored, hsame⟩
      · exact .inr (ht.restoration hcurrent)
      · exact .inr ⟨restored, ht.restoredTarget hrestored, hsame⟩

theorem binds_of_detachedIdentity {header : RecordHeader} {detached : ObjectIdentity} {label : String}
    (h : validateDetachedIdentity header detached label = .ok ()) :
    header.original.Binds (some detached) := by
  unfold validateDetachedIdentity at h
  obtain ⟨-, h⟩ := check_eq_ok.mp h
  cases ho : header.original with
  | absent presentation => rw [ho] at h; cases h
  | present identity metadata =>
    rw [ho] at h
    rw [corruptIf_eq_ok, not_not] at h
    exact ⟨detached, rfl, h⟩

theorem binds_of_detachedOriginal {header : RecordHeader} {detached : Option ObjectIdentity}
    (h : validateDetachedOriginal header detached = .ok ()) : header.original.Binds detached := by
  cases ho : header.original with
  | absent presentation =>
    cases detached with
    | none => exact rfl
    | some identity => simp only [validateDetachedOriginal, ho] at h; cases h
  | present identity metadata =>
    cases detached with
    | none => simp only [validateDetachedOriginal, ho] at h; cases h
    | some kept =>
      simp only [validateDetachedOriginal, ho] at h
      have hb := binds_of_detachedIdentity h
      rwa [ho] at hb

theorem binds_of_restoreDetached {header : RecordHeader} {origin : RestoreOrigin} {name : Option String}
    {detached : Option ObjectIdentity} (h : validateRestoreDetached header origin name detached = .ok ()) :
    header.original.Binds detached ∧ name = detachedName header origin := by
  have hkept : ∀ {kept : Option ObjectIdentity}, kept ≠ none →
      kept.elim (.ok ()) (fun i => validateDetachedIdentity header i "detached original") = .ok () →
      header.original.Binds kept := by
    intro kept hne hv
    cases kept with
    | none => exact absurd rfl hne
    | some identity => exact binds_of_detachedIdentity hv
  cases origin with
  | installed =>
    cases ho : header.original.existed with
    | false =>
      simp only [validateRestoreDetached, ho, corruptIf_eq_ok, not_or, Bool.not_eq_true,
        Option.isSome_eq_false_iff, Option.isNone_iff_eq_none] at h
      refine ⟨?_, by simp [detachedName, ho, h.1]⟩
      cases horiginal : header.original with
      | present identity metadata => rw [horiginal] at ho; cases ho
      | absent presentation => exact h.2
    | true =>
      simp only [validateRestoreDetached, ho, check_eq_ok, corruptIf_eq_ok, not_or, not_not] at h
      obtain ⟨⟨hname, hsome⟩, -, hv⟩ := h
      exact ⟨hkept hsome hv, by simp [detachedName, ho, hname]⟩
  | stored =>
    simp only [validateRestoreDetached, check_eq_ok, corruptIf_eq_ok, not_or, not_not] at h
    obtain ⟨-, ⟨hname, hsome⟩, -, hv⟩ := h
    exact ⟨hkept hsome hv, hname⟩

theorem validateFinished_bound {header : RecordHeader} {origin : RestoreOrigin}
    {restored displaced detached : Option ObjectIdentity} {displacedName name : Option String}
    (h : validateFinished header origin restored displacedName displaced name detached = .ok ()) :
    restored.isSome = header.logicalPresent ∧ header.original.Binds detached ∧
      name = detachedName header origin := by
  cases origin with
  | installed =>
    simp only [validateFinished, check_eq_ok, corruptIf_eq_ok, not_not] at h
    obtain ⟨hpresent, -, h⟩ := h
    obtain ⟨displacedName, -, h⟩ := bind_eq_ok.mp h
    obtain ⟨-, h⟩ := check_eq_ok.mp h
    obtain ⟨displaced, -, h⟩ := bind_eq_ok.mp h
    obtain ⟨-, hdetached⟩ := check_eq_ok.mp h
    exact ⟨hpresent.symm, binds_of_restoreDetached hdetached⟩
  | stored =>
    simp only [validateFinished, check_eq_ok, corruptIf_eq_ok, not_not] at h
    exact ⟨h.1.symm, binds_of_restoreDetached h.2.2.2⟩

/-- The checks on one row bind everything but the name of the offline route, which the row before it binds. -/
theorem wellBound_of_valid {row : SnapshotRecord}
    (h : validateLifecycleStructure row.header row.header.lifecycle = .ok ())
    (hstored : row.header.lifecycle.route = some .stored → ∀ name,
      row.header.lifecycle.detachedEntry = some name → name = some row.header.storedName) :
    WellBound row := by
  cases hl : row.header.lifecycle with
  | captured => constructor <;> rw [hl] <;> intro _ hn <;> cases hn
  | installIntent => constructor <;> rw [hl] <;> intro _ hn <;> cases hn
  | installed detached =>
    rw [hl] at h
    constructor <;> rw [hl] <;> intro _ hn <;> cases hn
    exact binds_of_detachedOriginal h
  | mountIntent detached =>
    rw [hl] at h
    constructor <;> rw [hl] <;> intro _ hn <;> cases hn
    exact binds_of_detachedOriginal h
  | unmountIntent next detached =>
    rw [hl] at h
    constructor <;> rw [hl] <;> intro _ hn <;> cases hn
    exact binds_of_detachedOriginal h
  | storeIntent name =>
    rw [hl] at hstored
    constructor <;> rw [hl] <;> intro _ hn <;> cases hn
    exact ⟨.stored, rfl, hstored rfl _ rfl⟩
  | stored name detached =>
    rw [hl] at h hstored
    obtain ⟨-, h⟩ := check_eq_ok.mp h
    obtain ⟨-, h⟩ := check_eq_ok.mp h
    constructor <;> rw [hl] <;> intro _ hn <;> cases hn
    · exact binds_of_detachedIdentity h
    · exact ⟨.stored, rfl, hstored rfl _ rfl⟩
  | restoreIntent origin restoreName identity name detached =>
    rw [hl] at h
    obtain ⟨restoreName, -, h⟩ := bind_eq_ok.mp h
    obtain ⟨-, h⟩ := check_eq_ok.mp h
    obtain ⟨-, h⟩ := check_eq_ok.mp h
    obtain ⟨-, h⟩ := check_eq_ok.mp h
    obtain ⟨hbinds, hname⟩ := binds_of_restoreDetached h
    constructor <;> rw [hl] <;> intro _ hn <;> cases hn
    · exact hbinds
    · exact ⟨origin, rfl, hname⟩
  | restored origin restored displacedName displaced name detached =>
    rw [hl] at h
    obtain ⟨hpresent, hbinds, hname⟩ := validateFinished_bound h
    constructor <;> rw [hl] <;> intro _ hn <;> cases hn
    · exact hbinds
    · exact ⟨origin, rfl, hname⟩
    · exact hpresent
  | deleteIntent origin restored displacedName displaced name detached =>
    rw [hl] at h
    obtain ⟨hpresent, hbinds, hname⟩ := validateFinished_bound h
    constructor <;> rw [hl] <;> intro _ hn <;> cases hn
    · exact hbinds
    · exact ⟨origin, rfl, hname⟩
    · exact hpresent

theorem WellBound.succeeds {current next : SnapshotRecord} (h : WellBound current)
    (hs : Succeeds current next) (hv : validateSnapshot next = .ok ()) : WellBound next := by
  refine wellBound_of_valid (validateSnapshot_facts hv).structural fun hroute name hname => ?_
  have hcurrent : ∀ kept, current.header.lifecycle.detachedEntry = some kept →
      current.header.lifecycle.route = some .stored → kept = some next.header.storedName := by
    intro kept hkept hstored
    obtain ⟨origin, horigin, hk⟩ := h.entry kept hkept
    rw [hstored] at horigin
    cases horigin
    rw [hk, detachedName, hs.storedName]
  rcases hs.transition with hl | ht
  · rw [hl] at hroute hname
    exact hcurrent name hname hroute
  · revert hcurrent
    generalize hlife : current.header.lifecycle = l at ht
    generalize hlife' : next.header.lifecycle = l' at ht hroute hname
    intro hcurrent
    cases ht with
    | store entry bound =>
      cases hname
      rw [bound, hs.storedName]
    | stored entry detached =>
      cases hname
      exact hcurrent _ rfl rfl
    | restoreStored restoreName identity entry detached =>
      cases hname
      exact hcurrent _ rfl rfl
    | identify => cases hname; exact hcurrent _ rfl hroute
    | restored => cases hname; exact hcurrent _ rfl hroute
    | delete => cases hname; exact hcurrent _ rfl hroute
    | install => cases hroute
    | installed => cases hroute
    | mount => cases hroute
    | abort => cases hroute
    | update => cases hroute
    | unmount => cases hroute
    | leave => cases hroute
    | restoreInstalled => cases hroute
    | restoreUnmounted => cases hroute

theorem Starts.wellBound {next : SnapshotRecord} (h : Starts next) : WellBound next := by
  constructor <;> rw [h.phase] <;> intro _ hn <;> cases hn

def Call.extend (rows : List SnapshotRecord) : Call → List SnapshotRecord
  | .commit _ _ none next => [next]
  | .commit _ _ (some _) next => rows ++ [next]
  | .beginFinalization .. => rows
  | .finishFinalization .. => []

/-- The rows of the current generation of a path, in the order in which they were accepted. -/
def generationRows (fileId : Path) (calls : List Call) : List SnapshotRecord :=
  (calls.filter fun call => call.path = fileId).foldl Call.extend []

theorem generationRows_append (fileId : Path) (calls : List Call) (call : Call) :
    generationRows fileId (calls ++ [call]) =
      if call.path = fileId then call.extend (generationRows fileId calls) else generationRows fileId calls := by
  rw [generationRows, List.filter_append, List.foldl_append]
  by_cases hp : call.path = fileId
  · simp [hp, generationRows]
  · simp [hp, generationRows]

/-- The rows of a generation, and the entry it has led to. -/
structure Generation (rows : List SnapshotRecord) (entry : Entry) : Prop where
  last : ∀ record, entry = .present record → rows.getLast? = some record
  bound : ∀ row ∈ rows, WellBound row
  keeps : rows.Pairwise KeepsBindings

/-- What holds of the first row of a generation and of every row after it, and between an earlier row and a later. -/
structure Maintained (I : SnapshotRecord → Prop) (R : SnapshotRecord → SnapshotRecord → Prop) : Prop where
  start : ∀ next, validateSnapshot next = .ok () → Starts next → I next
  next : ∀ current next, I current → Succeeds current next → validateSnapshot next = .ok () → I next
  refl : ∀ row, R row row
  later : ∀ row current next, R row current → Succeeds current next → R row next

theorem maintained_bindings : Maintained WellBound KeepsBindings where
  start _ _ hstarts := hstarts.wellBound
  next _ _ hbound hs hv := hbound.succeeds hs hv
  refl := KeepsBindings.refl
  later _ _ _ hkeeps hs := hkeeps.succeeds hs

namespace SqliteStore

theorem run_last (calls : List Call) (fileId : Path) {record : SnapshotRecord}
    (h : lastEntry fileId (accepted empty calls) = .present record) :
    (generationRows fileId (accepted empty calls)).getLast? = some record := by
  induction calls using List.reverseRecOn with
  | nil => cases h
  | append_singleton calls call ih =>
    rw [accepted_append] at h ⊢
    by_cases ha : accepts (run empty calls) call = true
    · rw [if_pos ha, lastEntry_append] at h
      rw [if_pos ha, generationRows_append]
      by_cases hp : call.path = fileId
      · rw [if_pos hp] at h ⊢
        cases call with
        | commit outcome path expected next =>
          cases h
          cases expected with
          | none => rfl
          | some version => exact List.getLast?_concat
        | beginFinalization => cases h
        | finishFinalization => cases h
      · rw [if_neg hp] at h ⊢
        exact ih h
    · rw [if_neg ha, List.append_nil] at h ⊢
      exact ih h

theorem run_maintained {I : SnapshotRecord → Prop} {R : SnapshotRecord → SnapshotRecord → Prop} (h : Maintained I R)
    (calls : List Call) (fileId : Path) :
    (∀ row ∈ generationRows fileId (accepted empty calls), I row) ∧
      (generationRows fileId (accepted empty calls)).Pairwise R := by
  induction calls using List.reverseRecOn with
  | nil => exact ⟨fun _ hrow => (by cases hrow), .nil⟩
  | append_singleton calls call ih =>
    rw [accepted_append]
    rcases step_accepts (run_holds_lastEntry calls call.path) with ⟨ha, -⟩ | ⟨ha, happly, -⟩
    · rw [ha]
      simpa using ih
    · rw [ha, if_pos rfl, generationRows_append]
      by_cases hp : call.path = fileId
      · rw [if_pos hp]
        rw [hp] at happly
        cases call with
        | commit outcome path expected next =>
          obtain ⟨-, hv, ⟨rfl, -, hstarts⟩ | ⟨current, rfl, hcurrent, hs⟩⟩ := Entry.commit_inv happly
          · exact ⟨List.forall_mem_singleton.mpr (h.start next hv hstarts), List.pairwise_singleton _ _⟩
          · obtain ⟨hrows, hpairs⟩ := ih
            obtain ⟨earlier, hsplit⟩ := List.getLast?_eq_some_iff.mp (run_last calls fileId hcurrent)
            have hlast : current ∈ generationRows fileId (accepted empty calls) := by
              rw [hsplit]
              exact List.mem_append_right _ (List.mem_singleton_self current)
            have hlater : ∀ row ∈ generationRows fileId (accepted empty calls), R row current := by
              rw [hsplit] at hpairs ⊢
              exact List.forall_mem_append.mpr ⟨fun row hrow => (List.pairwise_append.mp hpairs).2.2 row hrow current
                (List.mem_singleton_self current), List.forall_mem_singleton.mpr (h.refl current)⟩
            refine ⟨List.forall_mem_append.mpr ⟨hrows, List.forall_mem_singleton.mpr ?_⟩, List.pairwise_append.mpr
              ⟨hpairs, List.pairwise_singleton _ _, fun row hrow => List.forall_mem_singleton.mpr ?_⟩⟩
            · exact h.next current next (hrows current hlast) hs hv
            · exact h.later row current next (hlater row hrow) hs
        | beginFinalization => exact ih
        | finishFinalization => exact ⟨fun _ hrow => (by cases hrow), .nil⟩
      · rwa [if_neg hp]

theorem run_generation (calls : List Call) (fileId : Path) :
    Generation (generationRows fileId (accepted empty calls)) (lastEntry fileId (accepted empty calls)) :=
  have hrows := run_maintained maintained_bindings calls fileId
  ⟨fun _ he => run_last calls fileId he, hrows.1, hrows.2⟩

/-- Every row binds its detached original, and later rows keep whatever earlier ones have bound. -/
theorem bindings_fixed (calls : List Call) (fileId : Path) :
    let rows := generationRows fileId (accepted empty calls)
    (∀ record, (run empty calls).load fileId = .ok (.present record) → rows.getLast? = some record) ∧
      (∀ row ∈ rows, WellBound row) ∧ rows.Pairwise KeepsBindings := by
  have hgeneration := run_generation calls fileId
  refine ⟨fun record hload => hgeneration.last record ?_, hgeneration.bound, hgeneration.keeps⟩
  rw [load, (run_holds_lastEntry calls fileId).loadRecord] at hload
  exact Except.ok.inj hload

end SqliteStore

end FileGuard.Store
