import FileGuard.Policy.Evaluate
import FileGuard.Policy.Agreement

/-! The rule a permanent answer leaves behind, and what it matches from then on. -/

namespace FileGuard.Policy

open Store

/-- What the hash functions print: 32 bytes in lower-case hexadecimal. -/
def IsDigest (hash : String) : Prop := ∃ bytes : Bytes, bytes.length = 32 ∧ hash = hexEncode bytes

theorem hexChar_lower (n : ℕ) (h : n < 16) :
    isAsciiHexdigit (hexChar n) = true ∧ (hexChar n).toLower = hexChar n := by
  interval_cases n <;> decide

theorem IsDigest.normal {hash : String} (h : IsDigest hash) :
    isSha256 hash = true ∧ toAsciiLowercase hash = hash := by
  obtain ⟨bytes, hlength, rfl⟩ := h
  have hchars : ∀ c ∈ encodeChars bytes, isAsciiHexdigit c = true ∧ c.toLower = c := by
    intro c hc
    obtain ⟨b, -, hc⟩ := List.mem_flatMap.mp hc
    have hb := b.toNat_lt
    simp only [List.mem_cons, List.not_mem_nil, or_false] at hc
    rcases hc with rfl | rfl
    · exact hexChar_lower _ (by omega)
    · exact hexChar_lower _ (by omega)
  constructor
  · rw [isSha256, hexEncode, String.length_ofList, encodeChars_length, hlength, String.toList_ofList]
    simpa using fun c hc => (hchars c hc).1
  · rw [toAsciiLowercase, hexEncode, String.toList_ofList, List.map_congr_left fun c hc => (hchars c hc).2, List.map_id']

/-- What a process, the file and the script must be for `persist_rule`, as its callers have them. -/
structure Captured (hashFile : Hashes) (process : ProcessInfo) (file : Path) : Prop where
  binary : IsDigest process.binarySha256
  script : ∀ script, process.script = some script → Path.Normal script
  digest : ∀ script hash, hashFile script = .ok hash → IsDigest hash
  file : Path.Normal file

/-- The rule that an answer makes of a process, its script with the hash it has now. -/
structure Pins (hashFile : Hashes) (process : ProcessInfo) (file : Path) (action : Action) (rule : Rule) : Prop where
  file : rule.file = file
  binary : rule.binary = process.binaryPath
  action : rule.action = action
  access : rule.access = .any
  identity : rule.identity = .sha256 process.binarySha256
  interpreter : isInterpreter process.binaryName = true → process.script ≠ none
  unscripted : process.script = none → rule.script = none
  scripted : ∀ script, process.script = some script → ∃ path hash, toStr script = some path ∧
    hashFile script = .ok hash ∧ rule.script = some ⟨path, .sha256 hash⟩

section

variable {home : PolicyResult (Option Path)} {hashFile : Hashes} {process : ProcessInfo} {file : Path}
  {action : Action} {rule : Rule} {entry : RuleEntry}

theorem persistedRule_pins (h : PolicyEngine.persistedRule hashFile process file .any action = .ok rule) :
    Pins hashFile process file action rule := by
  unfold PolicyEngine.persistedRule at h
  split_ifs at h with hinterpreter
  obtain ⟨script, hscript, h⟩ := bind_eq_ok.mp h
  cases h
  refine ⟨rfl, rfl, rfl, rfl, rfl, fun hi hnone => hinterpreter ⟨hi, hnone⟩, fun hnone => ?_, fun path hpath => ?_⟩
  · rw [hnone] at hscript
    cases hscript
    rfl
  · rw [hpath] at hscript
    obtain ⟨name, hname, hscript⟩ := bind_eq_ok.mp hscript
    obtain ⟨hash, hhash, hscript⟩ := bind_eq_ok.mp hscript
    cases hscript
    refine ⟨name, hash, elim_eq_ok.mp hname, ?_, rfl⟩
    cases hfile : hashFile path with
    | error message => rw [hfile] at hhash; cases hhash
    | ok actual => rw [hfile] at hhash; cases hhash; rfl

theorem normalizeHash_digest {hash : String} (h : IsDigest hash) (field : String) :
    normalizeHash (some hash) field = .ok (some hash) := by
  rw [normalizeHash, if_pos h.normal.1, h.normal.2]

theorem identityPin_digest {hash : String} (h : IsDigest hash) (field : String) :
    identityPin (some hash) field = .ok (.sha256 hash) := by
  rw [identityPin, if_pos h.normal.1, h.normal.2]

theorem entryOf_fields (h : RuleManager.entryOf rule = .ok entry) :
    toStr rule.file = some entry.file ∧ toStr rule.binary = some entry.binary ∧
      entry.action = rule.action.entryAction ∧ entry.access = rule.access ∧ entry.sha256 = rule.identity.hash ∧
      entry.script = rule.script.map (·.path) ∧ entry.scriptSha256 = rule.script.bind (·.pin.hash) := by
  unfold RuleManager.entryOf at h
  obtain ⟨name, hname, h⟩ := bind_eq_ok.mp h
  obtain ⟨binary, hbinary, h⟩ := bind_eq_ok.mp h
  cases h
  exact ⟨elim_eq_ok.mp hname, elim_eq_ok.mp hbinary, rfl, rfl, rfl, rfl, rfl⟩

theorem Pins.script_stands (h : Pins hashFile process file action rule) (hcaptured : Captured hashFile process file)
    (hentry : RuleManager.entryOf rule = .ok entry) :
    normalizeHash entry.scriptSha256 "script_sha256" = .ok entry.scriptSha256 ∧
      scriptFromEntry entry.script entry.scriptSha256 = .ok rule.script := by
  obtain ⟨-, -, -, -, -, hscript, hscriptSha⟩ := entryOf_fields hentry
  cases hp : process.script with
  | none =>
    rw [h.unscripted hp] at hscript hscriptSha
    rw [hscript, hscriptSha, h.unscripted hp]
    exact ⟨rfl, rfl⟩
  | some script =>
    obtain ⟨path, hash, hpath, hhash, hrule⟩ := h.scripted script hp
    have hdigest := hcaptured.digest script hash hhash
    have hnormal := hcaptured.script script hp
    rw [hrule] at hscript hscriptSha
    rw [hscript, hscriptSha, hrule]
    simp only [Option.map_some, Option.bind_some, IdentityPin.hash]
    refine ⟨normalizeHash_digest hdigest _, ?_⟩
    simp only [scriptFromEntry, utf8_of_toStr hpath, hnormal.isAbsolute, Bool.true_eq_false, if_false,
      Normal.absoluteLexical hnormal, identityPin_digest hdigest]
    exact bind_eq_ok.mpr ⟨script, rfl, bind_eq_ok.mpr ⟨path, elim_eq_ok.mpr hpath, rfl⟩⟩

theorem Pins.prepare (h : Pins hashFile process file action rule) (hcaptured : Captured hashFile process file)
    (hentry : RuleManager.entryOf rule = .ok entry) {prepared : RuleEntry × Rule}
    (hp : prepareRuleEntry home entry = .ok prepared) : prepared = (entry, rule) := by
  obtain ⟨hfile, hbinary, haction, haccess, hsha, hscript, -⟩ := entryOf_fields hentry
  obtain ⟨hscriptSha, hstands⟩ := h.script_stands hcaptured hentry
  have hnormal : Path.Normal rule.file := h.file ▸ hcaptured.file
  have hidentity : entry.sha256 = some process.binarySha256 := by rw [hsha, h.identity]; rfl
  have hcompile : prepareRuleEntry home entry = ruleFromEntry home entry >>= fun compiled =>
      (toStr compiled.file).elim (.error "rule file path must be valid UTF-8") .ok >>= fun file =>
        .ok ({ entry with file := file, script := compiled.script.map (·.path) }, compiled) := by
    have hnormalize := normalizeHash_digest hcaptured.binary "sha256"
    rw [← hidentity] at hnormalize
    rw [prepareRuleEntry, hnormalize, hscriptSha]
    rfl
  have hrule : ∀ compiled, ruleFromEntry home entry = .ok compiled → compiled = rule := by
    intro compiled hcompiled
    unfold ruleFromEntry at hcompiled
    rw [utf8_of_toStr hfile, Normal.expandPath home hnormal, utf8_of_toStr hbinary, hidentity,
      identityPin_digest hcaptured.binary, hstands] at hcompiled
    simp only [bind, Except.bind, hnormal.isAbsolute, Bool.true_eq_false, if_false, Normal.absoluteLexical hnormal]
      at hcompiled
    split_ifs at hcompiled
    cases hcompiled
    rw [haction, haccess, ← h.identity]
    cases rule with
    | mk file binary action access identity script => cases action <;> rfl
  rw [hcompile] at hp
  obtain ⟨compiled, hcompiled, hp⟩ := bind_eq_ok.mp hp
  obtain ⟨name, hname, hp⟩ := bind_eq_ok.mp hp
  cases hrule compiled hcompiled
  cases hp
  have hsame : name = entry.file := Option.some.inj ((elim_eq_ok.mp hname).symm.trans hfile)
  rw [hsame, ← hscript]

theorem Pins.applies_iff (h : Pins hashFile process file action rule) (l : Lookup) (access : Access) :
    rule.Applies l access ↔ Path.same file l.file = true ∧ Path.same process.binaryPath l.process.binaryPath = true ∧
      l.process.binarySha256 = process.binarySha256 ∧ ∀ script, process.script = some script →
        l.process.script = some script ∧ ∃ hash, hashFile script = .ok hash ∧ l.hashFile script = .ok hash := by
  constructor
  · intro happlies
    refine ⟨h.file ▸ happlies.file, h.binary ▸ happlies.binary, happlies.identity _ h.identity, fun script hscript => ?_⟩
    obtain ⟨path, hash, hpath, hhash, hrule⟩ := h.scripted script hscript
    obtain ⟨script', hscript', hpath', hpin⟩ := happlies.script _ hrule
    have hsame : script' = script := (utf8_of_toStr hpath').symm.trans (utf8_of_toStr hpath)
    exact ⟨hsame ▸ hscript', hash, hhash, hsame ▸ hpin hash rfl⟩
  · rintro ⟨hfile, hbinary, hidentity, hscript⟩
    refine ⟨h.file ▸ hfile, h.binary ▸ hbinary, .inl h.access, fun hash hhash => ?_, fun expected hexpected => ?_⟩
    · rw [h.identity] at hhash
      cases hhash
      exact hidentity
    · cases hp : process.script with
      | none => exact absurd ((h.unscripted hp).symm.trans hexpected) nofun
      | some script =>
        obtain ⟨path, hash, hpath, hhash, hrule⟩ := h.scripted script hp
        obtain ⟨hsame, hash', hhash', hcurrent⟩ := hscript script hp
        cases hrule.symm.trans hexpected
        refine ⟨script, hsame, hpath, fun pin hpin => ?_⟩
        cases hpin
        cases hhash.symm.trans hhash'
        exact hcurrent

variable {ids : IdSource} {refused : Option String} {declared : List ManagedRule} {engine : PolicyEngine}

/-- What a permanent answer leaves: one pinned rule, in memory already or new in memory and repository. -/
structure Persisted (hashFile : Hashes) (process : ProcessInfo) (file : Path) (action : Action)
    (before after : RuleManager) (rule : ActiveRule) : Prop where
  mem : rule ∈ after.rules
  pins : Pins hashFile process file action rule.compiled
  entry : RuleManager.entryOf rule.compiled = .ok rule.entry
  rules : ∀ r ∈ after.rules, r ∈ before.rules ∨ r = rule
  rows : ∀ row ∈ after.ruleStore.rows, row ∈ before.ruleStore.rows ∨ row.entry = rule.entry

theorem addManagedRule_persisted {m : RuleManager} (hagrees : RuleManager.Agrees home declared m)
    (hpins : Pins hashFile process file action rule) (hcaptured : Captured hashFile process file)
    (hentry : RuleManager.entryOf rule = .ok entry) {added : Bool}
    (hok : (m.addManagedRule home ids refused entry).1 = .ok added) :
    ∃ active, Persisted hashFile process file action m (m.addManagedRule home ids refused entry).2 active := by
  unfold RuleManager.addManagedRule at hok ⊢
  cases hp : prepareRuleEntry home entry with
  | error message => rw [hp] at hok; cases hok
  | ok prepared =>
    cases hpins.prepare hcaptured hentry hp
    simp only [hp] at hok ⊢
    cases hheld : m.holds entry with
    | true =>
      obtain ⟨active, hactive, heq⟩ := List.any_eq_true.mp hheld
      have hsame : active.entry = entry := eq_of_beq heq
      have hcompiled := hagrees.compiled active hactive
      rw [hsame, hp] at hcompiled
      obtain rfl : rule = active.compiled := by simpa using hcompiled
      simp only [if_true]
      exact ⟨active, hactive, hpins, hsame ▸ hentry, fun r hr => .inl hr, fun row hrow => .inl hrow⟩
    | false =>
      simp only [hheld, Bool.false_eq_true, if_false] at hok ⊢
      cases refused with
      | some message => cases hok
      | none =>
        rw [RuleManager.insert_fresh hagrees hheld]
        refine ⟨⟨entry, rule, some (ids.next m.ruleStore.highest)⟩, by simp, hpins, hentry, fun r hr => ?_,
          fun row hrow => ?_⟩
        · exact (List.mem_append.mp hr).imp_right List.mem_singleton.mp
        · refine (List.mem_append.mp hrow).imp_right fun hnew => ?_
          rw [List.mem_singleton.mp hnew]

theorem persistRule_persisted (hagrees : RuleManager.Agrees home declared engine.rules)
    (hcaptured : Captured hashFile process file)
    (hok : (engine.persistRule home ids refused hashFile process file .any action).1 = .ok ()) :
    ∃ rule, Persisted hashFile process file action engine.rules
      (engine.persistRule home ids refused hashFile process file .any action).2.rules rule := by
  unfold PolicyEngine.persistRule at hok ⊢
  cases hrule : PolicyEngine.persistedRule hashFile process file .any action with
  | error message => rw [hrule] at hok; cases hok
  | ok rule =>
    simp only [hrule, RuleManager.addPersistentRule] at hok ⊢
    cases hentry : RuleManager.entryOf rule with
    | error message => rw [hentry] at hok; cases hok
    | ok entry =>
      simp only [hentry] at hok ⊢
      cases hadded : (engine.rules.addManagedRule home ids refused entry).1 with
      | error message => rw [hadded] at hok; cases hok
      | ok added => exact addManagedRule_persisted hagrees (persistedRule_pins hrule) hcaptured hentry hadded

theorem persistRule_run (engine : PolicyEngine) :
    (engine.persistRule home ids refused hashFile process file .any action).2 = engine ∨
      ∃ call, (engine.persistRule home ids refused hashFile process file .any action).1 =
          (engine.rules.step home ids refused call).1 ∧
        (engine.persistRule home ids refused hashFile process file .any action).2 =
          { engine with rules := (engine.rules.step home ids refused call).2 } := by
  unfold PolicyEngine.persistRule
  cases PolicyEngine.persistedRule hashFile process file .any action with
  | error message => exact .inl rfl
  | ok rule => exact .inr ⟨.addPersistent rule, rfl, rfl⟩

theorem mem_mapM {α β : Type} {f : α → PolicyResult β} {l : List α} {results : List β} (h : l.mapM f = .ok results)
    {x : α} (hx : x ∈ l) : ∃ y ∈ results, f x = .ok y := by
  induction l generalizing results with
  | nil => cases hx
  | cons a l ih =>
    rw [List.mapM_cons] at h
    obtain ⟨b, hb, h⟩ := bind_eq_ok.mp h
    obtain ⟨rest, hrest, h⟩ := bind_eq_ok.mp h
    cases h
    rcases List.mem_cons.mp hx with rfl | hx
    · exact ⟨b, List.mem_cons_self, hb⟩
    · obtain ⟨y, hy, hfy⟩ := ih hrest hx
      exact ⟨y, List.mem_cons_of_mem _ hy, hfy⟩

theorem restart_learned {m restarted : RuleManager} (hagrees : RuleManager.Agrees home declared m) {active : ActiveRule}
    (hactive : active ∈ m.rules) (hlearned : active.learnedId ≠ none) {config : List RuleEntry}
    (hnew : RuleManager.new home config m.ruleStore none = .ok restarted) :
    ∃ r ∈ restarted.rules, r.entry = active.entry ∧ r.compiled = active.compiled := by
  rcases hagrees.mem.mp ⟨active, hactive, rfl, rfl⟩ with hdeclared | ⟨row, hrow, hmanaged⟩
  · exact absurd (hagrees.declarative _ hdeclared) hlearned
  · have hentry : row.entry = active.entry := congrArg ManagedRule.entry hmanaged
    unfold RuleManager.new at hnew
    obtain ⟨rules, -, hnew⟩ := bind_eq_ok.mp hnew
    obtain ⟨stored, hstored, hnew⟩ := bind_eq_ok.mp hnew
    obtain ⟨learned, hlearned, hnew⟩ := bind_eq_ok.mp hnew
    cases hnew
    cases hagrees.list.symm.trans hstored
    obtain ⟨r, hr, hactivate⟩ := mem_mapM hlearned hrow
    refine ⟨r, List.mem_append_right _ hr, ?_⟩
    rw [RuleManager.activate, hentry, hagrees.compiled active hactive] at hactivate
    cases hactivate
    exact ⟨rfl, rfl⟩

/-- Where the rule is active, its own process is not asked about again. -/
theorem Pins.decides {prompter : Question → PromptAnswer} {hashFile' : Hashes} {needsRead needsWrite : Bool}
    (hpins : Pins hashFile process file action rule)
    (hunchanged : ∀ script, process.script = some script → hashFile' script = hashFile script)
    (hactive : ∃ r ∈ engine.rules.rules, r.compiled = rule) :
    let l : Lookup := ⟨process, file, hashFile', engine.session⟩
    let again := engine.evaluateOpen home ids refused hashFile' prompter process file needsRead needsWrite
    again.2.2 = [] ∧
      (action = .deny → (needsRead || needsWrite) = true → again.1 = .denyAlways) ∧
      (action = .allow → again.1 = .allowAlways ∨ again.1 = .denyAlways ∧
        ∃ access ∈ directions needsRead needsWrite, l.Ruled engine.rules.rules .deny access) := by
  intro l again
  obtain ⟨r, hr, rfl⟩ := hactive
  have hruled (access : Access) : l.Ruled engine.rules.rules action access := by
    refine ⟨r, hr, hpins.action, (hpins.applies_iff l access).mpr ⟨by simp [Path.same, l], by simp [Path.same, l], rfl, ?_⟩⟩
    intro script hscript
    obtain ⟨-, hash, -, hhash, -⟩ := hpins.scripted script hscript
    exact ⟨hscript, hash, hhash, (hunchanged script hscript).trans hhash⟩
  rcases @Lookup.decide_cases l engine.rules.rules (directions needsRead needsWrite) true with hd | hd | hd
  · have hagain : again = (.denyAlways, engine, []) := PolicyEngine.evaluateOpen_some hd
    rw [hagain]
    exact ⟨rfl, fun _ _ => rfl, fun _ => .inr ⟨rfl, Lookup.decide_deny_iff.mp hd⟩⟩
  · have hagain : again = (.allowAlways, engine, []) := PolicyEngine.evaluateOpen_some hd
    rw [hagain]
    refine ⟨rfl, fun hdeny hneeded => ?_, fun _ => .inl rfl⟩
    obtain ⟨access, haccess⟩ : ∃ access, access ∈ directions needsRead needsWrite := by
      cases needsRead <;> cases needsWrite <;> simp_all [directions]
    exact absurd (hdeny ▸ hruled access) ((Lookup.decide_allow_iff.mp hd).2 access haccess).1
  · obtain ⟨hnodeny, hopen⟩ := Lookup.decide_none_iff.mp hd
    push Not at hopen
    obtain ⟨access, haccess, hnoallow, -⟩ := hopen
    cases action with
    | allow => exact absurd (hruled access) hnoallow
    | deny => exact absurd (hruled access) (hnodeny access haccess)

end

/-- A permanent answer creates one fully pinned rule or changes nothing, and the rule matches exactly the accesses of
that binary and script to that file, in memory and after every restart. -/
theorem persist_exact (home : PolicyResult (Option Path)) (ids : IdSource) {config : List RuleEntry}
    {start : RuleManager} (hnew : RuleManager.new home config .empty none = .ok start)
    (calls : List (Option String × RuleManager.Call)) {engine : PolicyEngine}
    (hengine : engine.rules = start.run home ids calls) (refused : Option String) {hashFile : Hashes}
    {process : ProcessInfo} {file : Path} (action : Action) (hcaptured : Captured hashFile process file) :
    let persisted := engine.persistRule home ids refused hashFile process file .any action
    (∀ message, persisted.1 = .error message → persisted.2 = engine) ∧
      (persisted.1 = .ok () → ∃ rule,
        Persisted hashFile process file action engine.rules persisted.2.rules rule ∧
        (∀ l access, rule.compiled.Applies l access ↔
          Path.same file l.file = true ∧ Path.same process.binaryPath l.process.binaryPath = true ∧
            l.process.binarySha256 = process.binarySha256 ∧ ∀ script, process.script = some script →
              l.process.script = some script ∧ ∃ hash, hashFile script = .ok hash ∧ l.hashFile script = .ok hash) ∧
        RuleManager.new home config persisted.2.rules.ruleStore none = .ok persisted.2.rules ∧
        (rule.learnedId ≠ none → ∀ config' restarted,
          RuleManager.new home config' persisted.2.rules.ruleStore none = .ok restarted →
            ∃ r ∈ restarted.rules, r.entry = rule.entry ∧ r.compiled = rule.compiled) ∧
        ∀ (later : PolicyEngine) (hashFile' : Hashes) (refused' : Option String) (prompter : Question → PromptAnswer)
          (needsRead needsWrite : Bool), (∃ r ∈ later.rules.rules, r.compiled = rule.compiled) →
          (∀ script, process.script = some script → hashFile' script = hashFile script) →
          let again := later.evaluateOpen home ids refused' hashFile' prompter process file needsRead needsWrite
          again.2.2 = [] ∧ (action = .deny → (needsRead || needsWrite) = true → again.1 = .denyAlways) ∧
            (action = .allow → again.1 = .allowAlways ∨ again.1 = .denyAlways ∧
              ∃ access ∈ directions needsRead needsWrite,
                (Lookup.mk process file hashFile' later.session).Ruled later.rules.rules .deny access)) := by
  intro persisted
  obtain ⟨hstart, -, hconfig⟩ := RuleManager.new_agrees hnew
  have hagrees : RuleManager.Agrees home start.managedRules engine.rules :=
    hengine ▸ RuleManager.run_agrees hstart calls
  have hkept : (∀ message, persisted.1 = .error message → persisted.2 = engine) ∧
      RuleManager.Agrees home start.managedRules persisted.2.rules := by
    rcases @persistRule_run home hashFile process file action ids refused engine with hsame | ⟨call, hresult, hrules⟩
    · have hsame' : persisted.2 = engine := hsame
      exact ⟨fun _ _ => hsame', hsame' ▸ hagrees⟩
    · have hstep : RuleManager.AgreementKept home start.managedRules engine.rules (engine.rules.step home ids refused call).1
          (engine.rules.step home ids refused call).2 := RuleManager.step_kept hagrees call
      have hrules' : persisted.2 = { engine with rules := (engine.rules.step home ids refused call).2 } := hrules
      refine ⟨fun message herror => ?_, hrules' ▸ hstep.agrees⟩
      rw [hrules', hstep.unchanged message (hresult.symm.trans herror)]
  obtain ⟨hunchanged, hafter⟩ := hkept
  refine ⟨hunchanged, fun hok => ?_⟩
  obtain ⟨rule, hrule⟩ := persistRule_persisted hagrees hcaptured hok
  refine ⟨rule, hrule, hrule.pins.applies_iff, (hafter.faithful hconfig hstart.compiled).restart,
    fun hlearned config' restarted => restart_learned hafter hrule.mem hlearned, ?_⟩
  intro later hashFile' refused' prompter needsRead needsWrite hactive hsame
  exact hrule.pins.decides hsame hactive

def scriptProcess : ProcessInfo :=
  ⟨7, 1, utf8 "/usr/bin/python3", "python3", hexEncode (List.replicate 32 0), some (utf8 "/s.py")⟩

def scriptHashes : Hashes := fun _ => .ok (hexEncode (List.replicate 32 1))

/-- An interpreter with a script that can be read gets a rule pinned to both. -/
theorem persist_exact_script :
    let engine : PolicyEngine := ⟨⟨[], .empty⟩, [], .deny, []⟩
    ∃ rule, Persisted scriptHashes scriptProcess (utf8 "/a") .allow engine.rules
      (engine.persistRule exampleHome .autoincrement none scriptHashes scriptProcess (utf8 "/a") .any .allow).2.rules
      rule := by
  intro engine
  have hnormal : ∀ parts : List Bytes, (∀ part ∈ parts, Path.Proper part) → Path.Normal (Path.render parts) :=
    fun parts h => ⟨parts, h, rfl⟩
  have hcaptured : Captured scriptHashes scriptProcess (utf8 "/a") := by
    refine ⟨⟨_, List.length_replicate, rfl⟩, fun script hscript => ?_, fun script hash hhash => ?_, ?_⟩
    · cases hscript
      exact hnormal [utf8 "s.py"] (by decide +kernel)
    · cases hhash
      exact ⟨_, List.length_replicate, rfl⟩
    · exact hnormal [utf8 "a"] (by decide +kernel)
  obtain ⟨-, hok⟩ := @persist_exact exampleHome .autoincrement [] ⟨[], .empty⟩ rfl [] engine rfl none scriptHashes
    scriptProcess (utf8 "/a") .allow hcaptured
  obtain ⟨rule, hrule, -⟩ := hok (by decide +kernel)
  exact ⟨rule, hrule⟩

end FileGuard.Policy
