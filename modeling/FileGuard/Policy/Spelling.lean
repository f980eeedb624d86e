import FileGuard.Policy.Evaluate

/-! Two rule entries that spell the same paths differently. -/

namespace FileGuard.Policy

open Store

/-- Two absolute spellings of one path. -/
def Respells (p q : String) : Prop :=
  Path.isAbsolute (utf8 p) = true ∧ Path.isAbsolute (utf8 q) = true ∧
    ∃ normal, absoluteLexical (utf8 p) = .ok normal ∧ absoluteLexical (utf8 q) = .ok normal

structure RuleEntry.Respells (e e' : RuleEntry) : Prop where
  file : Policy.Respells e.file e'.file
  binary : Policy.Respells e.binary e'.binary
  script : e.script = none ∧ e'.script = none ∨
    ∃ s s', e.script = some s ∧ e'.script = some s' ∧ Policy.Respells s s'
  action : e.action = e'.action
  access : e.access = e'.access
  sha256 : e.sha256 = e'.sha256
  scriptSha256 : e.scriptSha256 = e'.scriptSha256

/-- The kernel reports the paths of a process and of the file without `.`, `..` and repeated slashes. -/
structure Reported (process : ProcessInfo) (file : Path) : Prop where
  binary : Path.Normal process.binaryPath
  script : ∀ script, process.script = some script → Path.Normal script
  file : Path.Normal file

/-- The two rules answer every lookup alike, among whatever other rules. -/
def SameLookups (r r' : ActiveRule) : Prop :=
  ∀ before after hashes process file req, Reported process file → req ≠ .any →
    lookupLoop hashes process file req 0 false (before ++ r :: after) =
      lookupLoop hashes process file req 0 false (before ++ r' :: after)

/-- Adding the one entry after the other leaves at most one new rule. -/
def AddedOnce (home : PolicyResult (Option Path)) (ids : IdSource) (e e' : RuleEntry) : Prop :=
  ∀ (m : RuleManager) (refused refused' : Option String),
    (((m.addManagedRule home ids refused e).2.addManagedRule home ids refused' e').2).rules.length ≤ m.rules.length + 1

section prepared

variable {home : PolicyResult (Option Path)} {e e' p : RuleEntry} {r : Rule}

theorem expandPath_absolute (home : PolicyResult (Option Path)) {path : Path} (h : Path.isAbsolute path = true) :
    expandPath home path = .ok path := by
  have hroot : Path.components path = .rootDir :: Path.body path := by rw [Path.components, if_pos h]
  rw [expandPath, hroot]

theorem scriptFromEntry_respells {hash : Option String} {script : Option ScriptIdentity}
    (h : e.Respells e') (hscript : scriptFromEntry e.script hash = .ok script) :
    scriptFromEntry e'.script hash = .ok script := by
  rcases h.script with ⟨hnone, hnone'⟩ | ⟨s, s', hs, hs', habs, habs', normal, hnormal, hnormal'⟩
  · rw [hnone']
    rw [hnone] at hscript
    exact hscript
  · rw [hs] at hscript
    rw [hs']
    simp only [scriptFromEntry, habs, Bool.true_eq_false, if_false, hnormal] at hscript
    simp only [scriptFromEntry, habs', Bool.true_eq_false, if_false, hnormal']
    exact hscript

theorem ruleFromEntry_respells (h : e.Respells e') (hrule : ruleFromEntry home e = .ok r) :
    ruleFromEntry home e' = .ok { r with binary := utf8 e'.binary } := by
  obtain ⟨habs, habs', normal, hnormal, hnormal'⟩ := h.file
  unfold ruleFromEntry at hrule ⊢
  rw [expandPath_absolute home habs] at hrule
  rw [expandPath_absolute home habs']
  simp only [bind, Except.bind, habs, habs', Bool.true_eq_false, if_false, hnormal, hnormal', h.binary.1,
    h.binary.2.1] at hrule ⊢
  rw [← h.sha256, ← h.action, ← h.access, ← h.scriptSha256]
  obtain ⟨identity, hidentity, hrule⟩ := bind_eq_ok.mp hrule
  obtain ⟨script, hscript, hrule⟩ := bind_eq_ok.mp hrule
  cases hrule
  exact bind_eq_ok.mpr ⟨identity, hidentity, bind_eq_ok.mpr ⟨script, scriptFromEntry_respells h hscript, rfl⟩⟩

theorem prepareRuleEntry_respells (h : e.Respells e') (hp : prepareRuleEntry home e = .ok (p, r)) :
    prepareRuleEntry home e' = .ok ({ p with binary := e'.binary }, { r with binary := utf8 e'.binary }) := by
  unfold prepareRuleEntry at hp ⊢
  obtain ⟨sha256, hsha, hp⟩ := bind_eq_ok.mp hp
  obtain ⟨scriptSha256, hscriptSha, hp⟩ := bind_eq_ok.mp hp
  obtain ⟨compiled, hcompiled, hp⟩ := bind_eq_ok.mp hp
  obtain ⟨file, hfile, hp⟩ := bind_eq_ok.mp hp
  cases hp
  have hnormalized : RuleEntry.Respells { e with sha256 := sha256, scriptSha256 := scriptSha256 }
      { e' with sha256 := sha256, scriptSha256 := scriptSha256 } :=
    ⟨h.file, h.binary, h.script, h.action, h.access, rfl, rfl⟩
  refine bind_eq_ok.mpr ⟨sha256, h.sha256 ▸ hsha, ?_⟩
  refine bind_eq_ok.mpr ⟨scriptSha256, h.scriptSha256 ▸ hscriptSha, ?_⟩
  refine bind_eq_ok.mpr ⟨_, ruleFromEntry_respells hnormalized hcompiled, ?_⟩
  refine bind_eq_ok.mpr ⟨file, hfile, ?_⟩
  simp only [h.action, h.access]

theorem scriptFromEntry_path {script hash : Option String} {identity : Option ScriptIdentity}
    (h : scriptFromEntry script hash = .ok identity) : ∀ s, identity = some s → Path.Normal (utf8 s.path) := by
  cases script with
  | none =>
    cases hash with
    | none => cases h; nofun
    | some value => cases h
  | some path =>
    simp only [scriptFromEntry] at h
    split_ifs at h
    obtain ⟨lexical, hlexical, h⟩ := bind_eq_ok.mp h
    obtain ⟨normal, hnormal, h⟩ := bind_eq_ok.mp h
    obtain ⟨pin, -, h⟩ := bind_eq_ok.mp h
    cases h
    intro s hs
    cases hs
    rw [utf8_of_toStr (elim_eq_ok.mp hnormal)]
    exact absoluteLexical_normal hlexical

theorem ruleFromEntry_paths (h : ruleFromEntry home e = .ok r) :
    r.binary = utf8 e.binary ∧ Path.isAbsolute r.binary = true ∧ Path.Normal r.file ∧
      ∀ script, r.script = some script → Path.Normal (utf8 script.path) := by
  unfold ruleFromEntry at h
  obtain ⟨expanded, -, h⟩ := bind_eq_ok.mp h
  split_ifs at h
  obtain ⟨lexical, hlexical, h⟩ := bind_eq_ok.mp h
  simp only at h
  split_ifs at h with hbinary
  obtain ⟨identity, -, h⟩ := bind_eq_ok.mp h
  obtain ⟨script, hscript, h⟩ := bind_eq_ok.mp h
  cases h
  exact ⟨rfl, by simpa using hbinary, absoluteLexical_normal hlexical, scriptFromEntry_path hscript⟩

theorem prepareRuleEntry_binary (hp : prepareRuleEntry home e = .ok (p, r)) : p.binary = e.binary := by
  unfold prepareRuleEntry at hp
  obtain ⟨sha256, -, hp⟩ := bind_eq_ok.mp hp
  obtain ⟨scriptSha256, -, hp⟩ := bind_eq_ok.mp hp
  obtain ⟨compiled, -, hp⟩ := bind_eq_ok.mp hp
  obtain ⟨file, -, hp⟩ := bind_eq_ok.mp hp
  cases hp
  rfl

end prepared

section lookups

variable {r r' : ActiveRule} {process : ProcessInfo} {file : Path} {req : Access} {hashes : ℕ → Hashes}

theorem lookupLoop_replace (hmatch : ∀ hashFile, ruleMatches hashFile process file req r =
      ruleMatches hashFile process file req r')
    (haction : r.compiled.action = r'.compiled.action) (n : ℕ) (matched : Bool) (before after : List ActiveRule) :
    lookupLoop hashes process file req n matched (before ++ r :: after) =
      lookupLoop hashes process file req n matched (before ++ r' :: after) := by
  induction before generalizing n matched with
  | nil => rw [List.nil_append, List.nil_append, lookupLoop, lookupLoop, hmatch, haction]
  | cons rule before ih => simp only [List.cons_append, lookupLoop, ih]

theorem ruleMatches_of_same (h : r'.compiled = { r.compiled with binary := r'.compiled.binary })
    (hbinary : Path.same r.compiled.binary process.binaryPath = Path.same r'.compiled.binary process.binaryPath)
    (hashFile : Hashes) : ruleMatches hashFile process file req r = ruleMatches hashFile process file req r' := by
  simp only [ruleMatches, identityMatches, ← hbinary]
  rw [h]

def runs (rule : Rule) : ProcessInfo where
  pid := 0
  startTime := 0
  binaryPath := Path.render (Path.normals rule.binary)
  binaryName := ""
  binarySha256 := rule.identity.hash.getD ""
  script := rule.script.map fun script => utf8 script.path

def pinned (rule : Rule) : Hashes := fun _ => .ok ((rule.script.bind (·.pin.hash)).getD "")

theorem Normal.noParent {p : Path} (h : Path.Normal p) : Component.parentDir ∉ Path.components p := by
  obtain ⟨parts, hparts, rfl⟩ := h
  rw [Path.components_render parts hparts]
  simp

theorem normals_proper (p : Path) : ∀ part ∈ Path.normals p, Path.Proper part := by
  intro part hpart
  obtain ⟨c, hc, hpart⟩ := List.mem_filterMap.mp hpart
  cases c with
  | normal q => cases hpart; exact Path.proper_of_mem_components p part hc
  | rootDir | curDir | parentDir => cases hpart

theorem map_filterMap_normal {part : Component → Option Bytes} (hpart : ∀ q, part (.normal q) = some q)
    {cs : List Component} (h : ∀ c ∈ cs, ∃ q, c = .normal q) : (cs.filterMap part).map .normal = cs := by
  induction cs with
  | nil => rfl
  | cons c cs ih =>
    obtain ⟨⟨q, rfl⟩, hcs⟩ := List.forall_mem_cons.mp h
    rw [List.filterMap_cons_some (hpart q), List.map_cons, ih hcs]

theorem components_render_normals {p : Path} (habs : Path.isAbsolute p = true)
    (hp : Component.parentDir ∉ Path.components p) :
    Path.components (Path.render (Path.normals p)) = Path.components p := by
  have hroot : Path.components p = .rootDir :: Path.body p := by rw [Path.components, if_pos habs]
  have hbody : ∀ c ∈ Path.body p, ∃ part, c = .normal part := by
    intro c hc
    obtain ⟨part, -, rfl⟩ := List.mem_map.mp hc
    unfold Path.component
    split_ifs with hdots
    · rw [Path.component, if_pos hdots] at hc
      exact absurd (hroot ▸ List.mem_cons_of_mem _ hc) hp
    · exact ⟨part, rfl⟩
  rw [Path.components_render _ (normals_proper p), Path.normals, hroot, List.filterMap_cons_none rfl]
  exact congrArg _ (map_filterMap_normal (fun _ => rfl) hbody)

theorem lookupLoop_runs {home : PolicyResult (Option Path)} {e : RuleEntry}
    (hr : ruleFromEntry home e = .ok r.compiled) (hp : Component.parentDir ∉ Path.components r.compiled.binary) :
    Reported (runs r.compiled) r.compiled.file ∧ ∃ req, req ≠ .any ∧ ∃ action,
      lookupLoop (fun _ => pinned r.compiled) (runs r.compiled) r.compiled.file req 0 false [r] = some action := by
  obtain ⟨-, habs, hfile, hscript⟩ := ruleFromEntry_paths hr
  have hbinary : Path.same r.compiled.binary (runs r.compiled).binaryPath = true := by
    rw [Path.same, runs, components_render_normals habs hp]
    exact beq_self_eq_true _
  refine ⟨⟨⟨_, normals_proper _, rfl⟩, ?_, hfile⟩, ?_⟩
  · intro script hs
    obtain ⟨identity, hidentity, rfl⟩ := Option.map_eq_some_iff.mp hs
    exact hscript identity hidentity
  · obtain ⟨req, hreq, hcovers⟩ : ∃ req, req ≠ Access.any ∧ r.compiled.access.covers req = true := by
      cases r.compiled.access with
      | read => exact ⟨.read, nofun, rfl⟩
      | write => exact ⟨.write, nofun, rfl⟩
      | any => exact ⟨.read, nofun, rfl⟩
    have hidentity : identityMatches (pinned r.compiled) r.compiled (runs r.compiled) = true := by
      refine identityMatches_iff.mpr ⟨fun hash hhash => ?_, fun expected hexpected => ?_⟩
      · simp [runs, hhash, IdentityPin.hash]
      · refine ⟨utf8 expected.path, by simp [runs, hexpected], toStr_utf8 _, fun hash hhash => ?_⟩
        simp [pinned, hexpected, hhash, IdentityPin.hash]
    have hmatch : ruleMatches (pinned r.compiled) (runs r.compiled) r.compiled.file req r = true := by
      rw [ruleMatches, hbinary, hcovers, hidentity]
      simp [Path.same]
    refine ⟨req, hreq, r.compiled.action, ?_⟩
    rw [lookupLoop, if_pos hmatch]
    cases r.compiled.action <;> rfl

theorem SameLookups.components_eq {home : PolicyResult (Option Path)} {e : RuleEntry}
    (hr : ruleFromEntry home e = .ok r.compiled) (hp : Component.parentDir ∉ Path.components r.compiled.binary)
    (h : SameLookups r r') : Path.components r.compiled.binary = Path.components r'.compiled.binary := by
  obtain ⟨hreported, req, hreq, action, haction⟩ := lookupLoop_runs hr hp
  have hsame := h [] [] (fun _ => pinned r.compiled) _ _ req hreported hreq
  rw [List.nil_append, List.nil_append, haction, lookupLoop] at hsame
  by_contra hne
  have hbinary : Path.same r'.compiled.binary (runs r.compiled).binaryPath = false := by
    rw [Path.same, runs, components_render_normals (ruleFromEntry_paths hr).2.1 hp]
    exact beq_eq_false_iff_ne.mpr (Ne.symm hne)
  rw [if_neg (by simp [ruleMatches, hbinary])] at hsame
  cases hsame

theorem SameLookups.symm (h : SameLookups r r') : SameLookups r' r :=
  fun before after hashes process file req hreported hreq => (h before after hashes process file req hreported hreq).symm

theorem sameLookups_iff {home : PolicyResult (Option Path)} {e e' : RuleEntry}
    (hr : ruleFromEntry home e = .ok r.compiled) (hr' : ruleFromEntry home e' = .ok r'.compiled)
    (hrule : r'.compiled = { r.compiled with binary := r'.compiled.binary }) :
    SameLookups r r' ↔ Path.components r.compiled.binary = Path.components r'.compiled.binary ∨
      Component.parentDir ∈ Path.components r.compiled.binary ∧
        Component.parentDir ∈ Path.components r'.compiled.binary := by
  constructor
  · intro h
    by_cases hp : Component.parentDir ∈ Path.components r.compiled.binary
    · by_cases hp' : Component.parentDir ∈ Path.components r'.compiled.binary
      · exact .inr ⟨hp, hp'⟩
      · exact .inl (SameLookups.components_eq hr' hp' h.symm).symm
    · exact .inl (SameLookups.components_eq hr hp h)
  · intro h before after hashes process file req hreported _
    have hbinary : Path.same r.compiled.binary process.binaryPath =
        Path.same r'.compiled.binary process.binaryPath := by
      rcases h with heq | ⟨hp, hp'⟩
      · rw [Path.same, Path.same, heq]
      · have hno := Normal.noParent hreported.binary
        have hinert {b : Path} (hb : Component.parentDir ∈ Path.components b) :
            Path.same b process.binaryPath = false :=
          beq_eq_false_iff_ne.mpr fun heq => hno (heq ▸ hb)
        rw [hinert hp, hinert hp']
    have haction : r.compiled.action = r'.compiled.action := by rw [hrule]
    exact lookupLoop_replace (ruleMatches_of_same hrule hbinary) haction 0 false before after

end lookups

section adding

variable {home : PolicyResult (Option Path)} {ids : IdSource} {e e' p : RuleEntry} {r : Rule} {m : RuleManager}
  {refused : Option String}

theorem addManagedRule_adds (hp : prepareRuleEntry home e = .ok (p, r)) :
    (m.addManagedRule home ids refused e).2.rules = m.rules ∨
      (m.addManagedRule home ids refused e).2.rules.length = m.rules.length + 1 ∧
        (m.addManagedRule home ids refused e).2.holds p = true := by
  unfold RuleManager.addManagedRule
  simp only [hp]
  split_ifs
  · exact .inl rfl
  · cases m.ruleStore.insert ids refused p with
    | error message => exact .inl rfl
    | ok inserted =>
      obtain ⟨_ | stored, ruleStore⟩ := inserted
      · exact .inl rfl
      · refine .inr ⟨by simp, ?_⟩
        simp [RuleManager.holds]

theorem addManagedRule_held (hp : prepareRuleEntry home e = .ok (p, r)) (h : m.holds p = true) :
    m.addManagedRule home ids refused e = (.ok false, m) := by
  unfold RuleManager.addManagedRule
  simp only [hp, if_pos h]

theorem addManagedRule_fresh (hp : prepareRuleEntry home e = .ok (p, r)) (h : m.holds p = false)
    (hrows : ∀ row ∈ m.ruleStore.rows, row.entry ≠ p) :
    let id := ids.next m.ruleStore.highest
    m.addManagedRule home ids none e =
      (.ok true, ⟨m.rules ++ [⟨p, r, some id⟩], ⟨m.ruleStore.rows ++ [⟨id, p⟩], id⟩⟩) := by
  intro id
  have hinsert : m.ruleStore.insertOne ids p = (some ⟨id, p⟩, ⟨m.ruleStore.rows ++ [⟨id, p⟩], id⟩) := by
    rw [RuleStore.insertOne, if_neg]
    rw [List.any_eq_true]
    rintro ⟨row, hrow, heq⟩
    exact hrows row hrow (RuleEntry.toJson_injective (eq_of_beq heq))
  unfold RuleManager.addManagedRule
  simp [hp, h, RuleStore.insert, RuleStore.insertMany, RuleStore.insertAll, hinsert, bind, Except.bind]

theorem addedOnce_same (hp : prepareRuleEntry home e = .ok (p, r)) (hp' : prepareRuleEntry home e' = .ok (p, r)) :
    AddedOnce home ids e e' := by
  intro m refused refused'
  rcases @addManagedRule_adds home ids e p r m refused hp with hsame | ⟨hmore, hheld⟩
  · rcases @addManagedRule_adds home ids e' p r (m.addManagedRule home ids refused e).2 refused' hp' with
      hsame' | ⟨hmore', -⟩
    · rw [hsame', hsame]
      exact Nat.le_succ _
    · rw [hmore', hsame]
  · rw [addManagedRule_held hp' hheld]
    exact le_of_eq hmore

theorem AddedOnce.prepared_eq {p' : RuleEntry} {r' : Rule} (hp : prepareRuleEntry home e = .ok (p, r))
    (hp' : prepareRuleEntry home e' = .ok (p', r')) (h : AddedOnce home ids e e') : p = p' := by
  by_contra hne
  have htwice := h ⟨[], .empty⟩ none none
  have hfirst := @addManagedRule_fresh home ids e p r ⟨[], .empty⟩ hp rfl nofun
  rw [hfirst] at htwice
  have hsecond := @addManagedRule_fresh home ids e' p' r' ⟨[⟨p, r, some (ids.next 0)⟩], ⟨[⟨ids.next 0, p⟩], ids.next 0⟩⟩
    hp' (by simp [RuleManager.holds, hne]) (by simpa using hne)
  simp only [RuleStore.empty, List.nil_append] at htwice
  rw [hsecond] at htwice
  simp at htwice

end adding

/-- Two entries that spell the same paths differently are one rule exactly where they spell the binary alike; a
lookup forgives dots and slashes in it, and two binaries with `..` are both inert. -/
theorem respelling_interchangeable (home : PolicyResult (Option Path)) (ids : IdSource) {e e' p p' : RuleEntry}
    {r r' : Rule} (learnedId learnedId' : Option ℤ) (h : e.Respells e')
    (hp : prepareRuleEntry home e = .ok (p, r)) (hp' : prepareRuleEntry home e' = .ok (p', r')) :
    (SameLookups ⟨p, r, learnedId⟩ ⟨p', r', learnedId'⟩ ∧ AddedOnce home ids e e' ↔ e.binary = e'.binary) ∧
      (SameLookups ⟨p, r, learnedId⟩ ⟨p', r', learnedId'⟩ ↔
        Path.components (utf8 e.binary) = Path.components (utf8 e'.binary) ∨
          Component.parentDir ∈ Path.components (utf8 e.binary) ∧
            Component.parentDir ∈ Path.components (utf8 e'.binary)) ∧
      (AddedOnce home ids e e' ↔ e.binary = e'.binary) := by
  have hr := (prepareRuleEntry_prepared hp).2
  have hr' := (prepareRuleEntry_prepared hp').2
  obtain ⟨rfl, rfl⟩ : p' = { p with binary := e'.binary } ∧ r' = { r with binary := utf8 e'.binary } := by
    have := hp'.symm.trans (prepareRuleEntry_respells h hp)
    simpa using this
  have hbinary := prepareRuleEntry_binary hp
  have hutf : r.binary = utf8 e.binary := by rw [(ruleFromEntry_paths hr).1, hbinary]
  have hlookups := @sameLookups_iff ⟨p, r, learnedId⟩
    ⟨{ p with binary := e'.binary }, { r with binary := utf8 e'.binary }, learnedId'⟩ home _ _ hr hr' rfl
  rw [hutf] at hlookups
  have hadded : AddedOnce home ids e e' ↔ e.binary = e'.binary := by
    constructor
    · intro honce
      have hsame := congrArg RuleEntry.binary (honce.prepared_eq hp hp')
      exact hbinary.symm.trans hsame
    · intro heq
      refine addedOnce_same hp (hp'.trans ?_)
      rw [← heq, ← hutf, ← hbinary]
  refine ⟨⟨fun hboth => hadded.mp hboth.2, fun heq => ⟨hlookups.mpr (.inl ?_), hadded.mpr heq⟩⟩, hlookups, hadded⟩
  rw [heq]

def denied (binary : String) : RuleEntry := ⟨"/a", binary, .deny, .any, none, none, none⟩

def deniedRule (binary : String) : Rule := ⟨utf8 "/a", utf8 binary, .deny, .any, .unpinned, none⟩

/-- The deny of the second spelling is inert, and it is added beside the first. -/
theorem respelling_dotted :
    (denied "/usr/bin/x").Respells (denied "/usr/bin/../bin/x") ∧
      prepareRuleEntry exampleHome (denied "/usr/bin/x") = .ok (denied "/usr/bin/x", deniedRule "/usr/bin/x") ∧
      prepareRuleEntry exampleHome (denied "/usr/bin/../bin/x") =
        .ok (denied "/usr/bin/../bin/x", deniedRule "/usr/bin/../bin/x") ∧
      ¬ SameLookups ⟨denied "/usr/bin/x", deniedRule "/usr/bin/x", some 1⟩
        ⟨denied "/usr/bin/../bin/x", deniedRule "/usr/bin/../bin/x", some 2⟩ ∧
      ¬ AddedOnce exampleHome .autoincrement (denied "/usr/bin/x") (denied "/usr/bin/../bin/x") := by
  have hp : prepareRuleEntry exampleHome (denied "/usr/bin/x") = .ok (denied "/usr/bin/x", deniedRule "/usr/bin/x") := by
    decide +kernel
  have hp' : prepareRuleEntry exampleHome (denied "/usr/bin/../bin/x") =
      .ok (denied "/usr/bin/../bin/x", deniedRule "/usr/bin/../bin/x") := by
    decide +kernel
  have hrespells (s t : String) (normal : Path) (hs : Path.isAbsolute (utf8 s) = true ∧ Path.isAbsolute (utf8 t) = true ∧
      absoluteLexical (utf8 s) = .ok normal ∧ absoluteLexical (utf8 t) = .ok normal) : Respells s t :=
    ⟨hs.1, hs.2.1, normal, hs.2.2⟩
  refine ⟨⟨hrespells _ _ (utf8 "/a") (by decide +kernel), hrespells _ _ (utf8 "/usr/bin/x") (by decide +kernel),
    .inl ⟨rfl, rfl⟩, rfl, rfl, rfl, rfl⟩, hp, hp', fun h => ?_, fun h => ?_⟩
  · have heq := h.components_eq (prepareRuleEntry_prepared hp).2 (by decide +kernel)
    exact absurd heq (by decide +kernel)
  · exact absurd (h.prepared_eq hp hp') (by decide +kernel)

/-- A file spelled differently is forgiven. -/
theorem respelling_file :
    SameLookups ⟨denied "/bin/x", deniedRule "/bin/x", some 1⟩ ⟨denied "/bin/x", deniedRule "/bin/x", some 2⟩ ∧
      AddedOnce exampleHome .autoincrement (denied "/bin/x") { denied "/bin/x" with file := "/b/../a/." } := by
  have hrespells : (denied "/bin/x").Respells { denied "/bin/x" with file := "/b/../a/." } :=
    ⟨⟨by decide +kernel, by decide +kernel, utf8 "/a", by decide +kernel, by decide +kernel⟩,
      ⟨by decide +kernel, by decide +kernel, utf8 "/bin/x", by decide +kernel, by decide +kernel⟩,
      .inl ⟨rfl, rfl⟩, rfl, rfl, rfl, rfl⟩
  exact (respelling_interchangeable exampleHome .autoincrement (some 1) (some 2) hrespells (by decide +kernel)
    (by decide +kernel)).1.mpr rfl

end FileGuard.Policy
