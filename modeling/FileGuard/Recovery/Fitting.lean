import FileGuard.Recovery.Growth

/-! The calls of the coordinator on rows that have room, whatever becomes of the files meanwhile. -/

namespace FileGuard.Recovery

open Store Files Transaction CrashLogic

/-- The row or the marker of the call is short enough for the database. -/
def Bounded : Op → Prop
  | .commit _ _ next => headerLength next.header ≤ headerLimit
  | .beginFinalization _ _ marker => markerLength marker ≤ headerLimit
  | _ => True

/-- A generation that the call starts has room to grow. -/
def StartsRoomy : Op → Prop
  | .commit _ none captured => Roomy captured.header
  | _ => True

/-- The coordinator on any machine, among others who leave the store to it. -/
def daemonMachine (host : Host) : Machine signature World where
  step o w r w' := ∃ c, isToken c.token ∧ w.exec host c o = (r, w')
  rely w w' := w'.store = w.store
  rely_refl _ := rfl

/-- The same in runs in which every captured row leaves room. -/
def roomyMachine (host : Host) : Machine signature World :=
  { daemonMachine host with step := fun o w r w' => StartsRoomy o ∧ (daemonMachine host).step o w r w' }

/-- Every call so far is within the bound, and every row that is there can go on to the end. -/
structure Ample (s : World × List Op) : Prop where
  bounded : ∀ o ∈ s.2, Bounded o
  made : ∀ p expected next, .commit p expected next ∈ s.2 → Grown p next
  rows : ∀ p r, s.1.store p = .present r → Filed p r

def Answers : (o : Op) → o.Resp → Prop
  | .load p, answer => ∀ r, answer = .ok (.present r) → Filed p r
  | .commit p _ next, answer => ∀ version, answer = .ok version → Filed p next
  | .randomToken, token => isToken token
  | .openFile _, answer => ∀ error, answer = .error error → error.display.length ≤ 100
  | .openDirectory directory _, answer =>
    directory.Normal → ∀ error, answer = .error error → error.display.length ≤ 2 * directory.length + 300
  | _, _ => True

variable {host : Host} {p : Path} {r next : SnapshotRecord} {w : World} {c : Choice} {α β ε : Type} {B : ε → Prop}

abbrev Fitting (host : Host) (B : ε → Prop) (prog : Prog signature ε α) (P : α → Prop) : Prop :=
  Within (roomyMachine host).logged Ample B prog P

theorem Grown.filed {entry after : Entry} {expected : Option RecordVersion} (h : Grown p next)
    (hc : entry.commit p expected next = .ok after) : Filed p next := by
  have hafter := Entry_commit_ok hc
  obtain ⟨⟨hvalid, -, hfits⟩, -⟩ := Entry.commit_evolves (hafter ▸ hc) .acknowledged
  exact { h with revision := hfits.1, length := (validateSnapshot_facts hvalid).length }

theorem settle_ok {δ : Type} {s s' : δ} {outcome : SqliteStore.CommitOutcome} {what : String} {answer a : α}
    {body : StoreResult δ} (h : SqliteStore.settle s outcome what answer body = (.ok a, s')) :
    body = .ok s' := by
  rcases settle_cases s outcome what answer body with ⟨error, -, hs⟩ | ⟨next, hbody, hs | ⟨message, -, hs⟩ | ⟨_, message, -, hs⟩⟩
  · rw [hs] at h
    cases h
  · rw [hs] at h
    cases h
    exact hbody
  · rw [hs] at h
    cases h
  · rw [hs] at h
    cases h

theorem exec_rows {o : Op} (hmade : ∀ p expected next, o = .commit p expected next → Grown p next)
    (h : ∀ p r, w.store p = .present r → Filed p r) :
    ∀ p r, (w.exec host c o).2.store p = .present r → Filed p r := by
  have hupdate {p : Path} {after : Entry} (hafter : ∀ r, after = .present r → Filed p r) :
      ∀ q r, Function.update w.store p after q = .present r → Filed q r := by
    intro q r hq
    by_cases hpq : q = p
    · subst hpq
      rw [Function.update_self] at hq
      exact hafter r hq
    · rw [Function.update_of_ne hpq] at hq
      exact h q r hq
  by_cases ho : submits o = false
  · rw [exec_quiet ho]
    exact h
  cases o with
  | commit p expected next =>
    rcases commitEntry_store (w := w) c p "snapshot commit" next.version ((w.store p).commit p expected next) with
      hstore | ⟨after, hafter, hstore⟩
    · exact fun q r hq => h q r (hstore ▸ hq)
    · have hfiled := (hmade p expected next rfl).filed hafter
      cases Entry_commit_ok hafter
      rw [World.exec, hstore]
      apply hupdate
      intro r hr
      cases hr
      exact hfiled
  | beginFinalization p expected marker =>
    rcases commitEntry_store (w := w) c p "snapshot finalization" marker.version
      ((w.store p).beginFinalization p expected marker) with hstore | ⟨after, hafter, hstore⟩
    · exact fun q r hq => h q r (hstore ▸ hq)
    · rw [World.exec, hstore]
      cases (Entry.beginFinalization_inv hafter).1
      exact hupdate (fun r hr => by cases hr)
  | finishFinalization p expected =>
    rcases commitEntry_store (w := w) c p "marker deletion" () ((w.store p).finishFinalization expected) with
      hstore | ⟨after, hafter, hstore⟩
    · exact fun q r hq => h q r (hstore ▸ hq)
    · rw [World.exec, hstore]
      cases (Entry.finishFinalization_inv hafter).1
      exact hupdate (fun r hr => by cases hr)
  | _ => exact absurd rfl ho

theorem length_toString {n k : ℕ} (hk : 0 < k) (h : n < 10 ^ k) : (toString n).length ≤ k := by
  have hdigits := (Nat.length_toDigits_le_iff (b := 10) (n := n) (k := k) (by decide) hk).mpr h
  exact (String.length_ofList (l := Nat.toDigits 10 n)).le.trans hdigits

theorem length_word (n : UInt64) : (toString n.toNat).length ≤ 20 :=
  length_toString (by decide) (n.toNat_lt.trans (by decide))

theorem length_uid (uid : UInt32) : (toString uid.toNat).length ≤ 10 :=
  length_toString (by decide) (uid.toNat_lt.trans (by decide))

/-! What is wrong with a staging directory is told with its path, or that of an ancestor. -/

theorem ancestor_refusal {directory : Path} {error : IoError} (hnormal : directory.Normal)
    (h : World.validateTrustedAncestors host c directory = .error error) :
    error.display.length ≤ 2 * directory.length + 300 := by
  unfold World.validateTrustedAncestors at h
  split at h
  · next depth _ =>
    dsimp only at h
    split_ifs at h with hdepth
    cases h
    have hdisplay := display_length (Path.render ((Path.normals directory).take depth))
    have hshorter := hnormal.ancestor_length hdepth
    have huid : host.uid.toNat.repr.length ≤ 10 := length_uid host.uid
    have h₁ : "staging ancestor ".length ≤ 20 := by decide
    have h₂ : " must be owned by root or uid ".length ≤ 40 := by decide
    have h₃ : ", and must not be group/world-writable unless it is a root-owned sticky directory".length ≤ 100 := by decide
    simp only [IoError.display, String.length_append, toString]
    omega
  · cases h

theorem private_refusal {directory : Path} {device : UInt64} {error : IoError}
    (h : World.validatePrivateDirectory host c directory device = .error error) :
    error.display.length ≤ 2 * directory.length + 300 := by
  unfold World.validatePrivateDirectory at h
  split_ifs at h
  cases h
  have hdisplay := display_length directory
  have huid : host.uid.toNat.repr.length ≤ 10 := length_uid host.uid
  have hdevice : device.toNat.repr.length ≤ 20 := length_word device
  have h₁ : "staging directory ".length ≤ 20 := by decide
  have h₂ : " must be a mode-0700 directory owned by uid ".length ≤ 50 := by decide
  have h₃ : " on device ".length ≤ 20 := by decide
  simp only [IoError.display, String.length_append, toString]
  omega

theorem exec_answers {o : Op} (htoken : isToken c.token)
    (hmade : ∀ p expected next, o = .commit p expected next → Grown p next)
    (h : ∀ p r, w.store p = .present r → Filed p r) : Answers o (w.exec host c o).1 := by
  cases o with
  | load p =>
    intro r hr
    rcases @exec_load host w c p with ⟨message, he⟩ | he
    · rw [he] at hr
      cases hr
    · rw [he] at hr
      exact h p r (Except.ok.inj hr)
  | commit p expected next =>
    intro version hversion
    have hsettled : SqliteStore.settle w c.answer "snapshot commit" next.version
        (((w.store p).commit p expected next).map (w.putEntry p)) = (.ok version, (w.exec host c (.commit p expected next)).2) :=
      Prod.ext hversion rfl
    obtain ⟨haccepted, -⟩ := accepted_of_map (settle_ok hsettled)
    exact (hmade p expected next rfl).filed haccepted
  | randomToken => exact htoken
  | openFile slot =>
    intro error herror
    simp only [World.exec] at herror
    split at herror <;> cases herror
    decide
  | openDirectory directory device =>
    intro hnormal error herror
    simp only [World.exec] at herror
    cases hancestors : World.validateTrustedAncestors host c directory with
    | error refusal =>
      rw [hancestors] at herror
      cases herror
      exact ancestor_refusal hnormal hancestors
    | ok _ =>
      rw [hancestors] at herror
      split_ifs at herror
      · exact private_refusal herror
      · cases herror
        exact le_trans (by decide) (Nat.le_add_left 300 _)
  | _ => trivial

theorem fitting_call {o : Op} (h : StartsRoomy o → Bounded o ∧ ∀ p expected next, o = .commit p expected next → Grown p next) :
    Fitting host B (Files.perform o) (Answers o) := by
  refine .perform ?_
  rintro ⟨w, log⟩ answer ⟨w', log'⟩ hi ⟨⟨hroomy, c, htoken, hexec⟩, rfl⟩
  obtain ⟨hbounded, hmade⟩ := h hroomy
  have hrows := @exec_rows host w c o hmade hi.rows
  have hanswers := @exec_answers host w c o htoken hmade hi.rows
  rw [hexec] at hrows hanswers
  refine ⟨⟨List.forall_mem_cons.mpr ⟨hbounded, hi.bounded⟩, ?_, hrows⟩, hanswers⟩
  intro p expected next hmem
  rcases List.mem_cons.mp hmem with heq | hmem
  · exact hmade p expected next heq.symm
  · exact hi.made p expected next hmem

theorem fitting_quiet {o : Op} (ho : submits o = false) : Fitting host B (Files.perform o) (Answers o) := by
  apply fitting_call
  intro _
  cases o with
  | commit | beginFinalization | finishFinalization => cases ho
  | _ => exact ⟨trivial, fun _ _ _ h => by cases h⟩

/-- A program that keeps all this, whatever it answers. -/
abbrev Safe (host : Host) (prog : Prog signature ε α) : Prop := Fitting host (fun _ => True) prog fun _ => True

namespace Safe

theorem of {prog : Prog signature ε α} {P : α → Prop} (h : Fitting host B prog P) : Safe host prog :=
  Within.mono h (fun _ _ => trivial) fun _ _ => trivial

theorem call {o : Op} (ho : submits o = false) : Safe host (Files.perform o : Prog signature ε o.Resp) :=
  .of (B := fun _ => True) (fitting_quiet ho)

theorem bind {prog : Prog signature ε α} {f : α → Prog signature ε β} (h : Safe host prog) (hf : ∀ a, Safe host (f a)) :
    Safe host (prog.bind f) := Within.bind h fun a _ => hf a

theorem attempt {prog : Prog signature ε α} (h : Safe host prog) :
    Safe host (prog.attempt : Prog signature ε (Except ε α)) := .of (B := fun _ => True) (Within.attempt h)

theorem mapError {δ : Type} {f : ε → δ} {prog : Prog signature ε α} (h : Safe host prog) : Safe host (prog.mapError f) :=
  Within.mapError h fun _ _ => trivial

theorem ofExcept (x : Except ε α) : Safe host (Prog.ofExcept x : Prog signature ε α) := by
  cases x <;> trivial

theorem lift {prog : FileProg (IoResult α)} (h : Safe host prog) : Safe host (Files.lift prog) :=
  h.bind fun _ => ofExcept _

theorem failIf (c : Prop) [Decidable c] (error : ε) : Safe host (Files.failIf c error : Prog signature ε Unit) := by
  unfold Files.failIf
  split <;> trivial

theorem otherIf (c : Prop) [Decidable c] (message : String) : Safe host (Files.otherIf c message) := failIf c _

end Safe

section files

variable (s : StagingArea) (name : String) (file : ObjectId) (metadata : RestoreMetadata)

theorem safe_sync : Safe host (s.sync : Prog signature ε Unit) := .call rfl

theorem safe_stagingObserve : Safe host (s.observe name) :=
  (Safe.ofExcept _).bind fun _ => .call rfl

theorem safe_discardEntry : Safe host (s.discardEntry name) := by
  unfold StagingArea.discardEntry
  refine Safe.bind (.call rfl) fun found => ?_
  cases found with
  | none => trivial
  | some identity => exact (Safe.lift (.call rfl)).bind fun _ => safe_sync s

theorem safe_discardUncommitted : Safe host (s.discardUncommitted name) :=
  (Safe.ofExcept _).bind fun _ => safe_discardEntry s _

theorem safe_discardConstruction : Safe host (s.discardConstruction name) :=
  (Safe.ofExcept _).bind fun _ => safe_discardEntry s _

theorem safe_removeVerified (expected : ObjectIdentity) : Safe host (s.removeVerified name expected) :=
  (Safe.ofExcept _).bind fun _ => (Safe.lift (.call rfl)).bind fun _ => safe_sync s

theorem safe_isEmpty : Safe host (s.isEmpty : Prog signature ε Bool) := Safe.bind (.call rfl) fun _ => trivial

theorem safe_containsOnly (names : List String) : Safe host (s.containsOnly names : Prog signature ε Bool) :=
  Safe.bind (.call rfl) fun _ => trivial

theorem safe_removeIfEmpty : Safe host s.removeIfEmpty :=
  (safe_isEmpty s).bind fun _ => (Safe.failIf _ _).bind fun _ => .lift (.call rfl)

theorem safe_applyXattrs (xattrs : List ExtendedAttribute) : Safe host (StagingArea.applyXattrs file xattrs) := by
  induction xattrs with
  | nil => trivial
  | cons xattr rest ih =>
    unfold StagingArea.applyXattrs
    apply (Safe.ofExcept _).bind
    intro name
    apply (Safe.ofExcept _).bind
    intro value
    apply (Safe.ofExcept _).bind
    intro name
    exact (Safe.lift (.call rfl)).bind fun _ => ih

theorem safe_fill (contents : Bytes) (exact : Bool) : Safe host (StagingArea.fill file contents metadata exact) := by
  unfold StagingArea.fill StagingArea.applyOwnershipAndMode
  apply (Safe.lift (.call rfl)).bind
  intro _
  apply Safe.bind ((Safe.otherIf _ _).bind fun _ => (Safe.lift (.call rfl)).bind fun _ => Safe.lift (.call rfl))
  intro _
  cases exact with
  | false => exact .call rfl
  | true =>
    apply (safe_applyXattrs file metadata.xattrs).bind
    intro _
    exact (Safe.lift (.call rfl)).bind fun _ => .call rfl

theorem safe_publish (constructionName : String) : Safe host (s.publish file constructionName name) := by
  unfold StagingArea.publish
  apply Safe.bind (.call rfl)
  intro beforeRename
  apply (safe_sync s).bind
  intro _
  apply (Safe.attempt (Safe.lift (.call rfl))).bind
  intro operation
  apply Safe.bind (.call rfl)
  intro constructed
  apply Safe.bind (.call rfl)
  intro installed
  split
  · exact (safe_sync s).bind fun _ => trivial
  · split <;> trivial

theorem safe_createFile (contents : Bytes) (exact : Bool) : Safe host (s.createFile name contents metadata exact) := by
  unfold StagingArea.createFile
  apply (Safe.otherIf _ _).bind
  intro _
  apply (Safe.ofExcept _).bind
  intro name
  apply (safe_discardEntry s _).bind
  intro _
  apply (Safe.lift (.call rfl)).bind
  intro file
  apply (Safe.attempt ((safe_fill file metadata contents exact).bind fun _ => safe_publish s name file _)).bind
  intro result
  cases result with
  | ok identity => trivial
  | error error => exact (safe_discardEntry s _).attempt.bind fun _ => trivial

end files

/-! The programs whose errors end up in the reason that a row is blocked for. -/

/-- A text with room for a path in it, as long as `n`. -/
def Brief (n : ℕ) (text : String) : Prop := text.length ≤ n + 300

abbrev Briefly (host : Host) (n : ℕ) (prog : FileProg α) (P : α → Prop) : Prop :=
  Fitting host (fun error => Brief n error.display) prog P

variable {n : ℕ}

theorem Brief.of_le {text : String} (h : text.length ≤ 300) : Brief n text :=
  h.trans (Nat.le_add_left 300 _)

theorem brief_display (hp : 2 * p.length ≤ n) {text : String} (h : text.length ≤ 300) :
    Brief n (Path.display p ++ text) := by
  have hdisplay := display_length p
  rw [Brief, String.length_append]
  omega

section brief

variable {s : StagingArea} {name : String} {metadata : RestoreMetadata} {resolved : ResolvedPath}

theorem briefly_otherIf {c : Prop} [Decidable c] {message : String} (h : Brief n message) :
    Briefly host n (otherIf c message) fun _ => True := by
  unfold otherIf failIf
  split
  · exact h
  · trivial

theorem briefly_lift {prog : FileProg (IoResult α)}
    (h : Briefly host n prog fun answer => ∀ error, answer = .error error → error.display.length ≤ 100) :
    Briefly host n (lift prog) fun _ => True := by
  apply Within.bind h
  intro answer hanswer
  cases answer with
  | ok a => trivial
  | error error => exact Brief.of_le ((hanswer error rfl).trans (by decide))

theorem briefly_validateRegular (identity : ObjectIdentity) : Briefly host n (validateRegular identity) fun _ => True :=
  Within.bind (briefly_otherIf (.of_le (by decide))) fun _ _ => briefly_otherIf (.of_le (by decide))

theorem briefly_restoreMetadata {file : ObjectId} {stat : Stat} :
    Briefly host n (Files.restoreMetadata file stat) fun _ => True :=
  Within.bind (fitting_quiet (o := .listXattrs file) rfl) fun _ _ => trivial

theorem briefly_readFileAt (slot : Slot) : Briefly host n (readFileAt slot) fun _ => True := by
  unfold readFileAt
  apply Within.bind (briefly_lift (fitting_quiet (o := .openFile slot) rfl))
  intro file _
  apply Within.bind (fitting_quiet (o := .fstat file) rfl)
  intro before _
  apply Within.bind (briefly_validateRegular _)
  intro _ _
  apply Within.bind (briefly_otherIf (.of_le (by decide)))
  intro _ _
  apply Within.bind (fitting_quiet (o := .readToEnd file) rfl)
  intro contents _
  apply Within.bind (fitting_quiet (o := .fstat file) rfl)
  intro after _
  apply Within.bind (briefly_otherIf (.of_le (by decide)))
  intro _ _
  exact Within.bind briefly_restoreMetadata fun _ _ => trivial

theorem briefly_entryName (name : String) : Briefly host n (Prog.ofExcept (entryName name)) fun actual => actual = name := by
  unfold entryName
  split_ifs
  · exact Brief.of_le (by decide)
  · exact Brief.of_le (by decide)
  · rfl

theorem briefly_stagingObserve : Briefly host n (s.observe name) fun _ => True :=
  Within.bind (briefly_entryName name) fun _ _ => Within.mono (fitting_quiet rfl) (fun _ _ => trivial) fun _ h => h

theorem briefly_readFile : Briefly host n (s.readFile name) fun _ => True :=
  Within.bind (briefly_entryName name) fun _ _ => briefly_readFileAt _

theorem briefly_verifySnapshot {contents : Bytes} (hname : name.length ≤ 42) :
    Briefly host n (s.verifySnapshot name contents metadata) fun _ => True := by
  unfold StagingArea.verifySnapshot
  apply Within.bind briefly_readFile
  intro actual _
  refine Within.bind (briefly_otherIf (.of_le ?_)) fun _ _ => trivial
  rw [String.length_append, String.length_append]
  have h₁ : "staging entry \"".length ≤ 50 := by decide
  have h₂ : "\" no longer matches the captured snapshot".length ≤ 50 := by decide
  omega

theorem safe_verifyPlaceholder : Safe host (s.verifyPlaceholder name metadata) :=
  (Safe.of (briefly_readFile (n := 0))).bind fun _ => (Safe.otherIf _ _).bind fun _ => trivial

theorem safe_verifyRestoration {contents : Bytes} : Safe host (s.verifyRestoration name contents metadata) :=
  (Safe.of (briefly_readFile (n := 0))).bind fun _ => (Safe.otherIf _ _).bind fun _ => trivial

theorem safe_verifyFinalization {length : ℕ} {digest : String} :
    Safe host (s.verifyFinalization name length digest metadata) :=
  (Safe.of (briefly_readFile (n := 0))).bind fun _ => (Safe.otherIf _ _).bind fun _ => trivial

theorem safe_resolvedVerifyFinalization {length : ℕ} {digest : String} :
    Safe host (resolved.verifyFinalization length digest metadata) :=
  (Safe.of (briefly_readFileAt (n := 0) resolved.slot)).bind fun _ => (Safe.otherIf _ _).bind fun _ => trivial

theorem briefly_verifyRestoration (hp : 2 * resolved.path.length ≤ n) {contents : Bytes} :
    Briefly host n (resolved.verifyRestoration contents metadata) fun _ => True := by
  unfold ResolvedPath.verifyRestoration
  apply Within.bind (briefly_readFileAt _)
  intro actual _
  exact Within.bind (briefly_otherIf (brief_display hp (by decide))) fun _ _ => trivial

theorem briefly_openAt {cwd path : Path} {device : UInt64} (hpath : path.Normal) (hn : 2 * path.length ≤ n) :
    Briefly host n (StagingArea.openAt cwd path device) fun _ => True := by
  unfold StagingArea.openAt
  rw [absoluteLexical_normal hpath, Prog.ofExcept_ok, Prog.bind_eq, Prog.pure_bind, Prog.bind_eq]
  apply Within.bind (P := fun _ => True)
  · apply Within.bind (fitting_quiet (o := .openDirectory path device) rfl)
    intro answer hanswer
    cases answer with
    | ok a => trivial
    | error error => exact (hanswer hpath error rfl).trans (Nat.add_le_add_right hn 300)
  · intro _ _
    trivial

theorem safe_openAt {cwd path : Path} {device : UInt64} : Safe host (StagingArea.openAt cwd path device) :=
  (Safe.ofExcept _).bind fun _ => (Safe.lift (.call rfl)).bind fun _ => trivial

theorem brief_size (hp : 2 * p.length ≤ n) (size : UInt64) : Brief n (Path.display p ++ " is " ++ toString size.toNat ++
    " bytes; maximum credential size is " ++ toString maxCredentialSize) := by
  have hdisplay := display_length p
  have hsize := length_word size
  have hlimit : (toString maxCredentialSize).length ≤ 20 := by decide
  have h₁ : " is ".length ≤ 50 := by decide
  have h₂ : " bytes; maximum credential size is ".length ≤ 50 := by decide
  simp only [Brief, String.length_append]
  omega

theorem briefly_capture (hp : 2 * resolved.path.length ≤ n) : Briefly host n resolved.capture fun _ => True := by
  unfold ResolvedPath.capture
  apply Within.bind (fitting_quiet (o := .parentStat) rfl)
  intro parent _
  apply Within.bind (Within.attempt (briefly_lift (n := n) (fitting_quiet (o := .openFile _) rfl)))
  intro answer hanswer
  split
  · trivial
  · exact hanswer
  · next file =>
    apply Within.bind (fitting_quiet (o := .fstat file) rfl)
    intro before _
    apply Within.bind (briefly_validateRegular _)
    intro _ _
    apply Within.bind (briefly_otherIf (brief_size hp before.identity.size))
    intro _ _
    apply Within.bind briefly_restoreMetadata
    intro metadata _
    apply Within.bind (fitting_quiet (o := .readToEnd file) rfl)
    intro contents _
    apply Within.bind (fitting_quiet (o := .fstat file) rfl)
    intro after _
    apply Within.bind (briefly_otherIf (brief_display hp (by decide)))
    intro _ _
    trivial

end brief

end FileGuard.Recovery
