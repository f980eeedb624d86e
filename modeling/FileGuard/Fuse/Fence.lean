import FileGuard.CrashLogic.Within
import FileGuard.Fuse.Linearizable
import FileGuard.Recovery.Runs

/-! What a commit may do to the row of a path, and what it may do to it while another program works on it. -/

namespace FileGuard.Fuse

open Store Files Transaction Recovery CrashLogic

def isFence : Lifecycle → Bool
  | .unmountIntent _ _ => true
  | _ => false

/-- Whether a call has changed the row. -/
def changes (p : Path) (w w' : World) : Bool := decide (w'.store p ≠ w.store p)

/-- The store takes a row in the place of the one before it. -/
structure Takes (p : Path) (w : World) (row next : SnapshotRecord) (w' : World) : Prop where
  before : w.store p = .present row
  accepted : (Entry.present row).commit p (some row.version) next = .ok (.present next)
  after : w' = w.putEntry p (.present next)

variable {host : Host} {p : Path} {w w' w'' : World} {row next : SnapshotRecord}

theorem Takes.stored (h : Takes p w row next w') : w'.store p = .present next := by
  rw [h.after]
  exact Function.update_self ..

theorem Takes.revision (h : Takes p w row next w') : next.header.revision = row.header.revision + 1 := by
  obtain ⟨row', hrow, -, hrevision⟩ := commit_present h.accepted
  cases hrow
  exact hrevision

theorem Takes.valid (h : Takes p w row next w') : validateSnapshot next = .ok () ∧ next.header.pathHex = pathToHex p := by
  have haccepted := h.accepted
  unfold Entry.commit at haccepted
  exact validateSuccessor_snapshot (check_eq_ok.mp haccepted).1

theorem Takes.changes (h : Takes p w row next w') : changes p w w' = true := by
  refine decide_eq_true ?_
  rw [h.stored, h.before]
  rintro he
  cases he
  have := h.revision
  omega

theorem changes_refl : changes p w w = false := decide_eq_false (not_not.mpr rfl)

/-- A commit that expects a row leaves the world as it is, or the store takes its row in the place of that one. -/
theorem commit_cases {c : Choice} {current next : SnapshotRecord} {answer : StoreResult RecordVersion}
    (h : w.exec host c (.commit p (some current.version) next) = (answer, w')) :
    (w' = w ∧ ∃ error, answer = .error error ∧ ∀ message, error = .indeterminate message →
        ∃ row, Takes p w row next (w.putEntry p (.present next)) ∧ row.version = current.version) ∨
      (∃ row, Takes p w row next w' ∧ row.version = current.version) ∧
        (answer = .ok next.version ∨ ∃ message, answer = .error (.indeterminate message)) := by
  have htakes (haccepted : (w.store p).commit p (some current.version) next = .ok (.present next)) :
      ∃ row, Takes p w row next (w.putEntry p (.present next)) ∧ row.version = current.version := by
    obtain ⟨row, hrow, hversion, -⟩ := commit_present haccepted
    rw [hrow, ← hversion] at haccepted
    exact ⟨row, ⟨hrow, haccepted, rfl⟩, hversion⟩
  simp only [World.exec, World.commitEntry] at h
  rcases settle_cases w c.answer "snapshot commit" next.version
      (((w.store p).commit p (some current.version) next).map (w.putEntry p)) with
    ⟨error, hbody, hs⟩ | ⟨after, hbody, hs⟩
  · rw [hs] at h
    cases h
    refine .inl ⟨rfl, error, rfl, ?_⟩
    rintro message rfl
    exact absurd (error_of_map hbody) (definite_commit _ _ _ _ message)
  · obtain ⟨haccepted, rfl⟩ := accepted_of_map hbody
    rcases hs with hs | ⟨message, -, hs⟩ | ⟨committed, message, -, hs⟩
    · rw [hs] at h
      cases h
      exact .inr ⟨htakes haccepted, .inl rfl⟩
    · rw [hs] at h
      cases h
      exact .inl ⟨rfl, _, rfl, fun _ _ => htakes haccepted⟩
    · rw [hs] at h
      cases committed with
      | true =>
        cases h
        exact .inr ⟨htakes haccepted, .inr ⟨_, rfl⟩⟩
      | false =>
        cases h
        exact .inl ⟨rfl, _, rfl, fun _ _ => htakes haccepted⟩

/-- The row is that record, or a later one. -/
structure Behind (p : Path) (current : SnapshotRecord) (w : World) : Prop where
  bound : current.header.pathHex = pathToHex p
  row : ∃ row, w.store p = .present row ∧ (current = row ∨ current.header.revision < row.header.revision)

theorem Behind.takes {current : SnapshotRecord} (h : Behind p current w) (ht : Takes p w row next w')
    (hversion : row.version = current.version) : current = row := by
  obtain ⟨row', hrow, rfl | hlt⟩ := h.row
  · rw [ht.before] at hrow
    cases hrow
    rfl
  · rw [ht.before] at hrow
    cases hrow
    have : row.header.revision = current.header.revision := congrArg RecordVersion.revision hversion
    omega

theorem Behind.later {current : SnapshotRecord} (h : Behind p current w) (ht : Takes p w row next w') :
    Behind p current w' := by
  obtain ⟨row', hrow, hcurrent⟩ := h.row
  cases ht.before.symm.trans hrow
  have hlt : row.header.revision < next.header.revision := by
    rw [ht.revision]
    exact Nat.lt_succ_self _
  refine ⟨h.bound, next, ht.stored, .inr ?_⟩
  rcases hcurrent with rfl | hlt'
  · exact hlt
  · exact hlt'.trans hlt

theorem Takes.behind (h : Takes p w row next w') : Behind p next w' := ⟨h.valid.2, next, h.stored, .inl rfl⟩

section mutation

/-- While a mutation works, the row may be fenced. -/
def MayFence (p : Path) (s s' : World × Bool) : Prop :=
  s'.2 = s.2 ∧ ∀ row, s.1.store p = .present row → ∃ row', s'.1.store p = .present row' ∧
    row'.contents = row.contents ∧
      (row' = row ∨ row.header.revision < row'.header.revision ∧ isFence row'.header.lifecycle = true)

theorem MayFence.refl (s : World × Bool) : MayFence p s s := ⟨rfl, fun row h => ⟨row, h, rfl, .inl rfl⟩⟩

theorem MayFence.trans {s s' s'' : World × Bool} (h : MayFence p s s') (h' : MayFence p s' s'') :
    MayFence p s s'' := by
  refine ⟨h'.1.trans h.1, fun row hrow => ?_⟩
  obtain ⟨row', hrow', hcontents, hlater⟩ := h.2 row hrow
  obtain ⟨row'', hrow'', hcontents', hlater'⟩ := h'.2 row' hrow'
  refine ⟨row'', hrow'', hcontents'.trans hcontents, ?_⟩
  rcases hlater with rfl | ⟨hlt, hfence⟩ <;> rcases hlater' with rfl | ⟨hlt', hfence'⟩
  · exact .inl rfl
  · exact .inr ⟨hlt', hfence'⟩
  · exact .inr ⟨hlt, hfence⟩
  · exact .inr ⟨hlt.trans hlt', hfence'⟩

theorem Takes.mayFence (h : Takes p w row next w') (landed : Bool) (hf : isFence next.header.lifecycle = true)
    (hcontents : next.contents = row.contents) : MayFence p (w, landed) (w', landed) := by
  refine ⟨rfl, fun current hcurrent => ⟨next, h.stored, ?_, .inr ⟨?_, hf⟩⟩⟩ <;> cases h.before.symm.trans hcurrent
  · exact hcontents
  · rw [h.revision]
    exact Nat.lt_succ_self _

theorem MayFence.behind {s s' : World × Bool} {current : SnapshotRecord} (h : MayFence p s s')
    (hb : Behind p current s.1) : Behind p current s'.1 := by
  obtain ⟨row, hrow, hcurrent⟩ := hb.row
  obtain ⟨row', hrow', -, hlater⟩ := h.2 row hrow
  refine ⟨hb.bound, row', hrow', ?_⟩
  rcases hlater with rfl | ⟨hlt, -⟩
  · exact hcurrent
  · rcases hcurrent with rfl | hlt'
    · exact .inr hlt
    · exact .inr (hlt'.trans hlt)

/-- The record shows the contents of the row. -/
def Shows (p : Path) (current : SnapshotRecord) (w : World) : Prop :=
  ∃ row, w.store p = .present row ∧ current.contents = row.contents

theorem MayFence.shows {s s' : World × Bool} {current : SnapshotRecord} (h : MayFence p s s')
    (hs : Shows p current s.1) : Shows p current s'.1 := by
  obtain ⟨row, hrow, hcontents⟩ := hs
  obtain ⟨row', hrow', hsame, -⟩ := h.2 row hrow
  exact ⟨row', hrow', hcontents.trans hsame.symm⟩

/-- The daemon's machine, on which a flag remembers that a call has changed the row. -/
def watching (host : Host) (p : Path) : Machine signature (World × Bool) where
  step o s r s' := ∃ c, s.1.exec host c o = (r, s'.1) ∧ s'.2 = (s.2 || changes p s.1 s'.1)
  rely := MayFence p
  rely_refl := MayFence.refl

/-- What a call of a mutation does to the world. -/
def Lands (p : Path) (m : Mutation) (s s' : World × Bool) : Prop :=
  s'.1 = s.1 ∨ s.2 = false ∧ ∃ row, isMountIntent row.header.lifecycle = true ∧ row.header.blockedReason = none ∧
    Takes p s.1 row (mountedSuccessor row (m.effect row.contents)) s'.1

/-- How a mutation ends: acknowledged once it has landed, and refused unless it has, but for an error that says so. -/
structure Answered {ε α : Type} (p : Path) (published : α → SnapshotRecord) (uncertain : ε → Bool)
    (result : Except ε α) (s : World × Bool) : Prop where
  acknowledged : ∀ a, result = .ok a → s.2 = true ∧ Behind p (published a) s.1 ∧ Shows p (published a) s.1
  refused : ∀ error, result = .error error → s.2 = true → uncertain error = true

variable {ε α : Type} {published : α → SnapshotRecord} {uncertain : ε → Bool} {s : World × Bool} {m : Mutation}

theorem Answered.stable {result : Except ε α} {s' : World × Bool} (hr : MayFence p s s')
    (h : Answered p published uncertain result s) : Answered p published uncertain result s' := by
  refine ⟨fun a ha => ?_, fun error he hs => ?_⟩
  · obtain ⟨hs, hb, hshows⟩ := h.acknowledged a ha
    exact ⟨hr.1.trans hs, hr.behind hb, hr.shows hshows⟩
  · exact h.refused error he (hr.1.symm.trans hs)

theorem answered_ok {a : α} (hs : s.2 = true) (hb : Behind p (published a) s.1) (hshows : Shows p (published a) s.1) :
    Answered p published uncertain (.ok a) s :=
  ⟨fun _ ha => by cases ha; exact ⟨hs, hb, hshows⟩, nofun⟩

theorem answered_error {error : ε} (h : s.2 = true → uncertain error = true) :
    Answered p published uncertain (.error error) s :=
  ⟨nofun, fun _ he => by cases he; exact h⟩

theorem answered_unlanded {error : ε} (h : s.2 = false) : Answered p published uncertain (.error error) s :=
  answered_error fun hs => by rw [h] at hs; cases hs

/-- A reload does not see a row that has not been committed. -/
theorem observeCandidate_watching {commitError : String} (bound : next.header.pathHex = pathToHex p)
    (unseen : s.2 = false → ∀ s', MayFence p s s' → s'.1.store p ≠ .present next) :
    wp (watching host p) (Lands p m) (observeCandidate p next commitError) (Answered p id isIndeterminate) s := by
  rintro s₁ hr r s₂ ⟨c, hexec, hflag⟩
  have hquiet : s₂.1 = s₁.1 := by
    have hsame : (s₁.1.exec host c (.load p)).2 = s₁.1 := by
      rcases @exec_load host s₁.1 c p with ⟨message, he⟩ | he <;> rw [he]
    rw [hexec] at hsame
    exact hsame
  refine ⟨.inl hquiet, ?_⟩
  have hkept : s₂.2 = s.2 := by
    rw [hflag, hquiet, changes_refl, Bool.or_false]
    exact hr.1
  rcases @exec_load host s₁.1 c p with ⟨message, he⟩ | he
  · rw [he] at hexec
    cases congrArg Prod.fst hexec
    exact answered_error fun _ => rfl
  · rw [he] at hexec
    cases congrArg Prod.fst hexec
    cases hs : s₁.1.store p with
    | missing => exact answered_error fun _ => rfl
    | finalizing marker => exact answered_error fun _ => rfl
    | present observed =>
      simp only [Prog.pure_bind]
      split_ifs with ho
      · subst ho
        refine answered_ok ?_ ⟨bound, observed, by rw [hquiet, hs], .inl rfl⟩ ⟨observed, by rw [hquiet, hs], rfl⟩
        by_contra hno
        exact unseen (hkept.symm.trans (Bool.not_eq_true _ ▸ hno)) s₁ hr hs
      · exact answered_error fun _ => rfl

theorem isFence_of_mount {lifecycle : Lifecycle} (h : isMountIntent lifecycle = true) : isFence lifecycle = false := by
  cases lifecycle with
  | mountIntent detached => rfl
  | _ => cases h

theorem updateContents_watching {current : SnapshotRecord} (hb : Behind p current w) :
    wp (watching host p) (Lands p m) (updateContents current (m.effect current.contents))
      (Answered p id isIndeterminate) (w, false) := by
  have hp := hb.bound
  unfold updateContents requireUnblocked
  simp only [recordPath_eq hp, Prog.bind_eq, Prog.pure_bind]
  cases hblocked : current.header.blockedReason with
  | some reason => exact answered_unlanded rfl
  | none =>
    simp only [Prog.pure_bind]
    split_ifs with hm
    · exact answered_unlanded rfl
    · rintro s₁ hr r s₂ ⟨c, hexec, hflag⟩
      have hmounted := Bool.not_eq_false _ ▸ hm
      have hb₁ : Behind p current s₁.1 := hr.behind hb
      rw [hr.1, Bool.false_or] at hflag
      rcases commit_cases hexec with ⟨hsame, error, rfl, hind⟩ | ⟨⟨row, htakes, hversion⟩, rfl | ⟨message, rfl⟩⟩
      · refine ⟨.inl hsame, ?_⟩
        rw [hsame, changes_refl] at hflag
        cases error with
        | indeterminate message =>
          refine observeCandidate_watching hp fun _ s' hr' hseen => ?_
          obtain ⟨row, htakes, hversion⟩ := hind message rfl
          obtain rfl := hb₁.takes htakes hversion
          obtain ⟨row', hrow', -, hlater⟩ := hr'.2 current (by rw [hsame]; exact htakes.before)
          rw [hrow'] at hseen
          cases hseen
          rcases hlater with he | ⟨-, hfence⟩
          · have := htakes.revision
            rw [he] at this
            omega
          · have hno : isFence (mountedSuccessor current (m.effect current.contents)).header.lifecycle = false :=
              isFence_of_mount hmounted
            rw [hno] at hfence
            cases hfence
        | _ => exact answered_error fun hs => by rw [hflag] at hs; cases hs
      · obtain rfl := hb₁.takes htakes hversion
        rw [htakes.changes] at hflag
        refine ⟨.inr ⟨hr.1, current, hmounted, hblocked, htakes⟩, ?_⟩
        simp only [Prog.pure_bind, ↓reduceIte]
        exact answered_ok hflag htakes.behind ⟨_, htakes.stored, rfl⟩
      · obtain rfl := hb₁.takes htakes hversion
        rw [htakes.changes] at hflag
        refine ⟨.inr ⟨hr.1, current, hmounted, hblocked, htakes⟩, observeCandidate_watching hp fun hs => ?_⟩
        rw [hflag] at hs
        cases hs

variable {shared : Shared}

theorem commitContents_watching (hb : Behind p shared.content w) :
    wp (watching host p) (Lands p m) (shared.commitContents (m.effect shared.content.contents))
      (Answered p Shared.content fun error => isUncertain (.error error)) (w, false) := by
  unfold Shared.commitContents
  rw [Prog.bind_eq, wp_bind, wp_mapError]
  refine wp_mono (updateContents_watching hb) ?_
  rintro (error | record) s h
  · exact answered_error (h.refused error rfl)
  · obtain ⟨hs, hbehind, hshows⟩ := h.acknowledged record rfl
    exact answered_ok hs hbehind hshows

theorem mutation_watching (hb : Behind p shared.content w) :
    wp (watching host p) (Lands p m) (m.prog shared)
      (Answered p Shared.content fun error => isUncertain (.error error)) (w, false) := by
  have hcommit : wp (watching host p) (Lands p m) (shared.commitContents (m.effect shared.content.contents))
      (Answered p Shared.content fun error => isUncertain (.error error)) (w, false) := commitContents_watching hb
  cases m with
  | truncate newSize =>
    simp only [Mutation.prog, Shared.applyTruncate]
    split_ifs
    · exact answered_unlanded rfl
    · rwa [Mutation.effect, ← resize_eq] at hcommit
  | write fh offset data =>
    simp only [Mutation.prog, Shared.applyWrite, Prog.bind_eq]
    rw [wp_bind]
    split
    · cases hend : checkedWriteEnd offset data.length with
      | error errno => exact answered_unlanded rfl
      | ok stop =>
        cases checkedWriteEnd_eq_ok hend
        simp only [copyInto_grown]
        rw [wp_bind]
        refine wp_mono hcommit ?_
        rintro (error | shared') s h
        · exact answered_error (h.refused error rfl)
        · obtain ⟨hs, hbehind, hshows⟩ := h.acknowledged shared' rfl
          exact answered_ok hs hbehind hshows
    · exact answered_unlanded rfl

end mutation

section unmount

/-- While `begin_unmount` works, mutations may land, but not behind the fence. -/
def MayLand (p : Path) (w w' : World) : Prop :=
  ∀ row, w.store p = .present row → ∃ row', w'.store p = .present row' ∧ row'.header.pathHex = row.header.pathHex ∧
    (row' = row ∨ row.header.revision < row'.header.revision ∧ isFence row.header.lifecycle = false)

theorem MayLand.refl (w : World) : MayLand p w w := fun row h => ⟨row, h, rfl, .inl rfl⟩

theorem MayLand.trans (h : MayLand p w w') (h' : MayLand p w' w'') : MayLand p w w'' := by
  intro row hrow
  obtain ⟨row', hrow', hpath, hlater⟩ := h row hrow
  obtain ⟨row'', hrow'', hpath', hlater'⟩ := h' row' hrow'
  refine ⟨row'', hrow'', hpath'.trans hpath, ?_⟩
  rcases hlater with rfl | ⟨hlt, hfence⟩
  · exact hlater'
  · refine .inr ⟨?_, hfence⟩
    rcases hlater' with rfl | ⟨hlt', -⟩
    · exact hlt
    · exact hlt.trans hlt'

theorem Takes.mayLand (h : Takes p w row next w') (hf : isFence row.header.lifecycle = false)
    (bound : row.header.pathHex = pathToHex p) : MayLand p w w' := by
  intro current hcurrent
  cases h.before.symm.trans hcurrent
  refine ⟨next, h.stored, h.valid.2.trans bound.symm, .inr ⟨?_, hf⟩⟩
  rw [h.revision]
  exact Nat.lt_succ_self _

theorem MayLand.fence (h : MayLand p w w') (hrow : w.store p = .present row) (hf : isFence row.header.lifecycle = true) :
    w'.store p = .present row := by
  obtain ⟨row', hrow', -, rfl | ⟨-, hno⟩⟩ := h row hrow
  · exact hrow'
  · rw [hf] at hno
    cases hno

/-- The daemon's machine while mutations land on it. -/
def landing (host : Host) (p : Path) : Machine signature World where
  step o w r w' := ∃ c, w.exec host c o = (r, w')
  rely := MayLand p
  rely_refl := MayLand.refl

/-- What a call of `begin_unmount` does to the world. -/
def Fences (p : Path) (outcome : UnmountNext) (w w' : World) : Prop :=
  w' = w ∨ ∃ row detached, row.header.lifecycle = .mountIntent detached ∧ row.header.blockedReason = none ∧
    Takes p w row (row.successor (.unmountIntent outcome detached) row.contents) w'

/-- When `begin_unmount` returns, the row it returns is fenced as it was asked to. -/
def Returned (p : Path) (outcome : UnmountNext) (result : Except TxError SnapshotRecord) (w : World) : Prop :=
  ∀ record, result = .ok record → w.store p = .present record ∧
    ∃ detached, record.header.lifecycle = .unmountIntent outcome detached

variable {outcome : UnmountNext}

theorem Returned.stable {result : Except TxError SnapshotRecord} (hr : MayLand p w w')
    (h : Returned p outcome result w) : Returned p outcome result w' := by
  intro record hrecord
  obtain ⟨hrow, detached, hd⟩ := h record hrecord
  exact ⟨hr.fence hrow (by rw [hd]; rfl), detached, hd⟩

theorem returned_error (error : TxError) : Returned p outcome (.error error) w := by
  intro record hrecord
  cases hrecord

def Held (p : Path) (w : World) : Prop := ∃ row, w.store p = .present row ∧ row.header.pathHex = pathToHex p

theorem MayLand.held (h : MayLand p w w') (hheld : Held p w) : Held p w' := by
  obtain ⟨row, hrow, hpath⟩ := hheld
  obtain ⟨row', hrow', hpath', -⟩ := h row hrow
  exact ⟨row', hrow', hpath'.trans hpath⟩

theorem load_landing (hheld : Held p w) :
    wp (landing host p) (Fences p outcome) (load p) (fun r w' => ∀ entry, r = .ok entry →
      ∃ row, entry = .present row ∧ w'.store p = .present row ∧ row.header.pathHex = pathToHex p) w := by
  unfold load storeLoad
  rw [Prog.bind_eq, wp_bind]
  rintro w₁ hr r w₂ ⟨c, hexec⟩
  obtain ⟨row, hrow, hpath⟩ := MayLand.held hr hheld
  rcases @exec_load host w₁ c p with ⟨message, he⟩ | he
  · obtain ⟨rfl, rfl⟩ := Prod.mk.inj (he.symm.trans hexec)
    refine ⟨.inl rfl, ?_⟩
    intro entry hentry
    cases hentry
  · obtain ⟨rfl, rfl⟩ := Prod.mk.inj (he.symm.trans hexec)
    refine ⟨.inl rfl, ?_⟩
    intro entry hentry
    cases hentry
    exact ⟨row, hrow, hrow, hpath⟩

theorem loadPresent_landing (hheld : Held p w) :
    wp (landing host p) (Fences p outcome) (Manager.loadPresent p)
      (fun r w' => ∀ record, r = .ok record → record.header.blockedReason = none ∧ w'.store p = .present record ∧
        record.header.pathHex = pathToHex p) w := by
  unfold Manager.loadPresent
  rw [Prog.bind_eq, wp_bind]
  refine wp_mono (load_landing hheld) ?_
  rintro (error | entry) w' h
  · intro record hrecord
    cases hrecord
  · obtain ⟨row, rfl, hrow, hpath⟩ := h entry rfl
    rw [onOk_ok]
    unfold requireUnblocked
    cases hblocked : row.header.blockedReason with
    | some reason =>
      simp only [hblocked, bail, Prog.bind_eq, Prog.fail_bind, wp_fail]
      intro record hrecord
      cases hrecord
    | none =>
      simp only [hblocked, Prog.bind_eq, Prog.pure_bind, Prog.pure_eq, wp_pure]
      intro record hrecord
      cases hrecord
      exact ⟨hblocked, hrow, hpath⟩

theorem MayLand.takes {current : SnapshotRecord} (h : MayLand p w w') (hcurrent : w.store p = .present current)
    (ht : Takes p w' row next w'') (hversion : row.version = current.version) : row = current := by
  obtain ⟨row', hrow', -, hlater⟩ := h current hcurrent
  rw [ht.before] at hrow'
  cases hrow'
  rcases hlater with rfl | ⟨hlt, -⟩
  · rfl
  · have : row.header.revision = current.header.revision := congrArg RecordVersion.revision hversion
    omega

theorem transition_landing {current : SnapshotRecord} {detached : Option ObjectIdentity}
    (hcurrent : w.store p = .present current) (hpath : current.header.pathHex = pathToHex p)
    (hblocked : current.header.blockedReason = none) (hmounted : current.header.lifecycle = .mountIntent detached) :
    wp (landing host p) (Fences p outcome) (transition current (.unmountIntent outcome detached))
      (fun r w' => Held p w' ∧ Returned p outcome r w') w := by
  unfold transition commitSuccessor
  simp only [recordPath_eq hpath, Prog.bind_eq, Prog.pure_bind]
  rw [wp_bind, wp_mapError, wp_bind]
  rintro w₁ hr r w₂ ⟨c, hexec⟩
  rcases commit_cases hexec with ⟨rfl, error, rfl, -⟩ | ⟨⟨row, htakes, hversion⟩, hanswer⟩
  · exact ⟨.inl rfl, hr.held ⟨current, hcurrent, hpath⟩, returned_error _⟩
  · obtain rfl := hr.takes hcurrent htakes hversion
    refine ⟨.inr ⟨row, detached, hmounted, hblocked, htakes⟩, ?_⟩
    have hheld : Held p w₂ := ⟨_, htakes.stored, hpath⟩
    rcases hanswer with rfl | ⟨message, rfl⟩
    · refine ⟨hheld, ?_⟩
      intro record hrecord
      cases hrecord
      exact ⟨htakes.stored, detached, rfl⟩
    · exact ⟨hheld, returned_error _⟩

theorem beginUnmountLoop_landing {rounds : ℕ} (hheld : Held p w) :
    wp (landing host p) (Fences p outcome) (Manager.beginUnmountLoop p outcome rounds) (Returned p outcome) w := by
  induction rounds generalizing w with
  | zero => exact returned_error _
  | succ rounds ih =>
    unfold Manager.beginUnmountLoop
    rw [Prog.bind_eq, wp_bind]
    refine wp_mono (loadPresent_landing hheld) ?_
    rintro (error | record) w₁ hloaded
    · exact returned_error error
    · obtain ⟨hblocked, hrecord, hpath⟩ := hloaded record rfl
      rw [onOk_ok]
      cases hl : record.header.lifecycle with
      | mountIntent detached =>
        simp only [Prog.bind_eq]
        rw [wp_bind, wp_attempt]
        refine wp_mono (transition_landing hrecord hpath hblocked hl) ?_
        rintro answer w₂ ⟨hheld₂, hreturned⟩
        unfold onAttempt
        rw [onOk_ok]
        split
        · exact hreturned
        · exact ih hheld₂
        · exact returned_error _
      | unmountIntent current detached =>
        simp only
        split_ifs with hsame
        · intro record' hreturned
          cases hreturned
          exact ⟨hrecord, detached, by rw [hl, hsame]⟩
        · exact returned_error _
      | _ => exact returned_error _

end unmount

end FileGuard.Fuse
