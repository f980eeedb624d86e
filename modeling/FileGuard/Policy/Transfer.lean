import FileGuard.Policy.Agreement
import FileGuard.Policy.Engine

/-! Exporting the rules of a manager and importing them again. -/

namespace FileGuard.Policy

open Store

/-- What the TOML library does with the documents of rules. -/
structure RulesCodec where
  toToml : List RuleEntry → PolicyResult String
  fromToml : String → PolicyResult (List RuleEntry)

/-- Every document can be written and reads back as itself; one without rules is empty, and so is a comment. -/
structure RulesCodec.RoundTrips (codec : RulesCodec) : Prop where
  writes : ∀ rules, ∃ text, codec.toToml rules = .ok text
  reads : ∀ rules text, codec.toToml rules = .ok text → codec.fromToml text = .ok rules
  empty : codec.toToml [] = .ok ""
  comment : codec.fromToml "# no rules configured\n" = .ok []

namespace RuleManager

/-- What `rules export` prints. -/
def exportRules (codec : RulesCodec) (m : RuleManager) : PolicyResult String := do
  let text ← codec.toToml (m.managedRules.map (·.entry))
  .ok (if text = "" then "# no rules configured\n" else text)

/-- What `rules import` does with a document. -/
def importDocument (codec : RulesCodec) (home : PolicyResult (Option Path)) (ids : IdSource) (m : RuleManager)
    (refused : Option String) (document : String) : PolicyResult ℕ × RuleManager :=
  match codec.fromToml document with
  | .error e => (.error e, m)
  | .ok entries => m.importManagedRules home ids refused entries

end RuleManager

/-- A rule as preparing leaves it, wherever the user's home is. -/
def ActiveRule.Prepared (a : ActiveRule) : Prop := ∀ home, prepareRuleEntry home a.entry = .ok (a.entry, a.compiled)

theorem prepareRuleEntry_anywhere {home : PolicyResult (Option Path)} {entry prepared : RuleEntry} {rule : Rule}
    (h : prepareRuleEntry home entry = .ok (prepared, rule)) (home' : PolicyResult (Option Path)) :
    prepareRuleEntry home' prepared = .ok (prepared, rule) := by
  have hprepared := (prepareRuleEntry_prepared h).1
  unfold prepareRuleEntry at hprepared ⊢
  obtain ⟨sha256, hsha, hprepared⟩ := bind_eq_ok.mp hprepared
  obtain ⟨scriptSha256, hscriptSha, hprepared⟩ := bind_eq_ok.mp hprepared
  simp only at hprepared
  obtain ⟨compiled, hcompiled, hprepared⟩ := bind_eq_ok.mp hprepared
  obtain ⟨file, hfile, hprepared⟩ := bind_eq_ok.mp hprepared
  refine bind_eq_ok.mpr ⟨sha256, hsha, bind_eq_ok.mpr ⟨scriptSha256, hscriptSha, bind_eq_ok.mpr ⟨compiled, ?_,
    bind_eq_ok.mpr ⟨file, hfile, hprepared⟩⟩⟩⟩
  -- the file of a prepared entry is in normal form, so no tilde is left to expand
  have hentry : prepared.file = file := (congrArg (fun p => p.1.file) (Except.ok.inj hprepared)).symm
  have hbytes : utf8 prepared.file = compiled.file := by rw [hentry, utf8_of_toStr (elim_eq_ok.mp hfile)]
  have hnormal : Path.Normal (utf8 prepared.file) := by
    rw [hbytes]
    unfold ruleFromEntry at hcompiled
    obtain ⟨expanded, -, hcompiled⟩ := bind_eq_ok.mp hcompiled
    split_ifs at hcompiled
    obtain ⟨lexical, hlexical, hcompiled⟩ := bind_eq_ok.mp hcompiled
    simp only at hcompiled
    split_ifs at hcompiled
    obtain ⟨identity, -, hcompiled⟩ := bind_eq_ok.mp hcompiled
    obtain ⟨script, -, hcompiled⟩ := bind_eq_ok.mp hcompiled
    cases hcompiled
    exact absoluteLexical_normal hlexical
  unfold ruleFromEntry at hcompiled ⊢
  rw [Normal.expandPath home hnormal] at hcompiled
  rw [Normal.expandPath home' hnormal]
  exact hcompiled

theorem ActiveRule.Prepared.of {home : PolicyResult (Option Path)} {entry : RuleEntry} {a : ActiveRule}
    (h : prepareRuleEntry home entry = .ok (a.entry, a.compiled)) : a.Prepared := prepareRuleEntry_anywhere h

namespace RuleManager

variable {home home' : PolicyResult (Option Path)} {ids ids' : IdSource} {m : RuleManager} {refused : Option String}

def Prepared (m : RuleManager) : Prop := ∀ a ∈ m.rules, a.Prepared

theorem prepared_new {config : List RuleEntry} {ruleStore : RuleStore}
    (h : new home config ruleStore refused = .ok m) : m.Prepared := by
  unfold new at h
  obtain ⟨rules, hrules, h⟩ := bind_eq_ok.mp h
  obtain ⟨stored, -, h⟩ := bind_eq_ok.mp h
  obtain ⟨learned, hlearned, h⟩ := bind_eq_ok.mp h
  cases h
  obtain ⟨-, hdeclared⟩ := mapM_activate config (fun _ => none) id rules hrules
  obtain ⟨-, hstored⟩ := mapM_activate stored (fun row => some row.id) (·.entry) learned hlearned
  exact List.forall_mem_append.mpr ⟨fun a ha => .of (hdeclared a ha), fun a ha => .of (hstored a ha)⟩

theorem Prepared.add (h : m.Prepared) (entry : RuleEntry) :
    (m.addManagedRule home ids refused entry).2.Prepared := by
  unfold addManagedRule
  cases hp : prepareRuleEntry home entry with
  | error e => exact h
  | ok prepared =>
    obtain ⟨entry, compiled⟩ := prepared
    dsimp only
    split_ifs
    · exact h
    · split
      · exact h
      · exact h
      · exact List.forall_mem_append.mpr ⟨h, List.forall_mem_singleton.mpr (.of hp)⟩

theorem pushInserted_prepared {prepared : List (RuleEntry × Rule)}
    (hprepared : ∀ p ∈ prepared, prepareRuleEntry home p.1 = .ok p) {rules : List ActiveRule}
    (h : ∀ a ∈ rules, a.Prepared) (inserted : List StoredRule) :
    ∀ a ∈ (pushInserted prepared rules inserted).2, a.Prepared := by
  induction inserted generalizing rules with
  | nil => exact h
  | cons stored rest ih =>
    rw [pushInserted]
    cases hfind : prepared.find? (fun p => p.1 == stored.entry) with
    | none => exact h
    | some p =>
      have hentry : p.1 = stored.entry := by simpa using List.find?_some hfind
      have hp := hprepared p (List.mem_of_find?_eq_some hfind)
      refine ih (List.forall_mem_append.mpr ⟨h, List.forall_mem_singleton.mpr ?_⟩)
      exact .of (hentry ▸ hp : prepareRuleEntry home stored.entry = .ok (stored.entry, p.2))

theorem Prepared.import (h : m.Prepared) (entries : List RuleEntry) :
    (m.importManagedRules home ids refused entries).2.Prepared := by
  unfold importManagedRules
  cases hp : entries.mapM (prepareRuleEntry home) with
  | error e => exact h
  | ok prepared =>
    cases refused with
    | some message => exact h
    | none => exact pushInserted_prepared (mapM_prepared hp) h _

theorem Prepared.edit (h : m.Prepared) (id : ℤ) (action : Option RuleAction) (access : Option Access)
    (pin : RulePinUpdate) : (m.editManagedRule home refused id action access pin).2.Prepared := by
  unfold editManagedRule
  cases hfind : m.rules.find? (fun rule => rule.learnedId == some id) with
  | none => exact h
  | some rule =>
    dsimp only
    cases hp : prepareRuleEntry home (applyRuleEdit rule.entry action access pin) with
    | error e => exact h
    | ok prepared =>
      obtain ⟨entry, compiled⟩ := prepared
      dsimp only
      split_ifs
      · exact h
      · cases m.ruleStore.replace refused id entry with
        | error e => exact h
        | ok ruleStore =>
          intro a ha
          rcases List.mem_or_eq_of_mem_set ha with hold | rfl
          · exact h a hold
          · exact .of hp

theorem Prepared.remove (h : m.Prepared) (id : ℤ) : (m.removeManagedRule refused id).2.Prepared := by
  unfold removeManagedRule
  cases m.rules.find? (fun rule => rule.learnedId == some id) with
  | none => exact h
  | some rule =>
    dsimp only
    cases m.ruleStore.remove refused id with
    | error e => exact h
    | ok ruleStore => exact fun a ha => h a (List.mem_of_mem_eraseIdx ha)

theorem Prepared.step (h : m.Prepared) (call : Call) : (m.step home ids refused call).2.Prepared := by
  cases call with
  | add entry => exact h.add entry
  | «import» entries => exact h.import entries
  | edit id action access pin => exact h.edit id action access pin
  | remove id => exact h.remove id
  | addPersistent rule =>
    rw [RuleManager.step, addPersistentRule]
    cases entryOf rule with
    | error e => exact h
    | ok entry => exact h.add entry

theorem Prepared.run (h : m.Prepared) (calls : List (Option String × Call)) : (m.run home ids calls).Prepared := by
  induction calls generalizing m with
  | nil => exact h
  | cons call calls ih => exact ih (h.step call.2)

end RuleManager

/-! A lookup depends on which rules there are and not on their order or number. -/

section

variable {hashFile : Hashes} {process : ProcessInfo} {file : Path} {req : Access}

theorem lookupLoop_eq (n : ℕ) (matched : Bool) (rules : List ActiveRule) :
    lookupLoop (fun _ => hashFile) process file req n matched rules =
      if rules.any fun r => ruleMatches hashFile process file req r && r.compiled.action == .deny then some .deny
      else if matched || rules.any fun r => ruleMatches hashFile process file req r && r.compiled.action == .allow then
        some .allow
      else none := by
  induction rules generalizing n matched with
  | nil => simp [lookupLoop]
  | cons r rules ih =>
    rw [lookupLoop, List.any_cons, List.any_cons]
    cases hm : ruleMatches hashFile process file req r
    · rw [if_neg Bool.false_ne_true, ih]
      simp
    · cases ha : r.compiled.action
      · simp [ih]
      · simp

theorem lookupLoop_congr {rules rules' : List ActiveRule} (n : ℕ) (matched : Bool)
    (h : ∀ rule, (∃ a ∈ rules, a.compiled = rule) ↔ ∃ a ∈ rules', a.compiled = rule) :
    lookupLoop (fun _ => hashFile) process file req n matched rules =
      lookupLoop (fun _ => hashFile) process file req n matched rules' := by
  have hany (action : Action) :
      (rules.any fun r => ruleMatches hashFile process file req r && r.compiled.action == action) =
        rules'.any fun r => ruleMatches hashFile process file req r && r.compiled.action == action := by
    rw [Bool.eq_iff_iff, List.any_eq_true, List.any_eq_true]
    constructor
    · rintro ⟨a, ha, hmatch⟩
      obtain ⟨b, hb, hsame⟩ := (h a.compiled).mp ⟨a, ha, rfl⟩
      exact ⟨b, hb, by rw [ruleMatches, hsame]; exact hmatch⟩
    · rintro ⟨b, hb, hmatch⟩
      obtain ⟨a, ha, hsame⟩ := (h b.compiled).mpr ⟨b, hb, rfl⟩
      exact ⟨a, ha, by rw [ruleMatches, hsame]; exact hmatch⟩
  rw [lookupLoop_eq, lookupLoop_eq, hany, hany]

end

theorem RuleStore.insertAll_rows (ids : IdSource) (store : RuleStore) (entries : List RuleEntry) (entry : RuleEntry) :
    (∃ row ∈ (store.insertAll ids entries).2.rows, row.entry = entry) ↔
      (∃ row ∈ store.rows, row.entry = entry) ∨ entry ∈ entries := by
  induction entries generalizing store with
  | nil => simp [insertAll]
  | cons e entries ih =>
    rw [insertAll, List.mem_cons]
    dsimp only
    rw [ih, insertOne]
    split_ifs with hheld
    · obtain ⟨row, hrow, htext⟩ := List.any_eq_true.mp hheld
      have hentry := RuleEntry.toJson_injective (eq_of_beq htext)
      constructor
      · exact fun h => h.imp_right .inr
      · rintro (hold | rfl | hmem)
        · exact .inl hold
        · exact .inl ⟨row, hrow, hentry⟩
        · exact .inr hmem
    · simp only [List.mem_append, List.mem_singleton, or_and_right, exists_or, exists_eq_left, or_assoc]
      exact or_congr_right (or_congr_left eq_comm)

namespace RuleManager

variable {home home' : PolicyResult (Option Path)} {ids ids' : IdSource} {m : RuleManager} {refused : Option String}

theorem Prepared.mapM (h : m.Prepared) (home : PolicyResult (Option Path)) :
    (m.rules.map (·.entry)).mapM (prepareRuleEntry home) = .ok (m.rules.map fun a => (a.entry, a.compiled)) := by
  obtain ⟨rules, store⟩ := m
  induction rules with
  | nil => rfl
  | cons a rules ih =>
    obtain ⟨ha, hrules⟩ := List.forall_mem_cons.mp h
    rw [List.map_cons, List.mapM_cons]
    exact bind_eq_ok.mpr ⟨_, ha home, bind_eq_ok.mpr ⟨_, ih hrules, rfl⟩⟩

variable (home ids) in
/-- Importing what a manager has already adds nothing and changes nothing. -/
theorem import_held {m' : RuleManager} (h : m'.Prepared) (hheld : ∀ a ∈ m'.rules, m.holds a.entry = true) :
    (m.importManagedRules home ids none (m'.rules.map (·.entry))) = (.ok 0, m) ∧
      ∀ refused, (m.importManagedRules home ids refused (m'.rules.map (·.entry))).2 = m := by
  have hnew : ((m'.rules.map fun a => (a.entry, a.compiled)).map (·.1)).filter (fun entry => ¬ m.holds entry) = [] := by
    rw [List.filter_eq_nil_iff]
    intro entry hentry
    obtain ⟨p, hp, rfl⟩ := List.mem_map.mp hentry
    obtain ⟨a, ha, rfl⟩ := List.mem_map.mp hp
    simpa using hheld a ha
  have hnone : m.importManagedRules home ids none (m'.rules.map (·.entry)) = (.ok 0, m) := by
    rw [importManagedRules, h.mapM home]
    simp only [hnew, RuleStore.insertMany, RuleStore.insertAll, pushInserted]
    rfl
  refine ⟨hnone, fun refused => ?_⟩
  cases refused with
  | none => rw [hnone]
  | some message =>
    rw [importManagedRules, h.mapM home]
    rfl

theorem agrees_empty (home : PolicyResult (Option Path)) (highest : ℤ) :
    Agrees home [] ⟨[], ⟨[], highest⟩⟩ :=
  ⟨rfl, by simp, by simp, List.Pairwise.nil, by simp, by simp, by simp⟩

variable (home ids) in
/-- Importing into a manager without rules leaves one rule for each entry, compiled as before. -/
theorem import_empty (h : m.Prepared) (highest : ℤ) :
    ∃ added m', (importManagedRules home ids ⟨[], ⟨[], highest⟩⟩ none (m.rules.map (·.entry))) = (.ok added, m') ∧
      m'.Prepared ∧ ∀ entry compiled, (∃ a ∈ m'.rules, a.entry = entry ∧ a.compiled = compiled) ↔
        ∃ a ∈ m.rules, a.entry = entry ∧ a.compiled = compiled := by
  set prepared := m.rules.map fun a => (a.entry, a.compiled) with hprepared
  have hpairs : ∀ p ∈ prepared, prepareRuleEntry home p.1 = .ok p := by
    intro p hp
    obtain ⟨a, ha, rfl⟩ := List.mem_map.mp hp
    exact h a ha home
  have hentries : prepared.map (·.1) = m.rules.map (·.entry) := by rw [hprepared, List.map_map]; rfl
  have hnew : (prepared.map (·.1)).filter (fun entry => ¬ holds ⟨[], ⟨[], highest⟩⟩ entry) = m.rules.map (·.entry) := by
    rw [hentries]
    exact List.filter_eq_self.mpr fun _ _ => rfl
  obtain ⟨rules, hpush, hkept⟩ := pushInserted_insertAll (agrees_empty home highest) hpairs
    (m.rules.map (·.entry)) fun e he => ⟨by simpa [hprepared] using he, nofun⟩
  set inserted := RuleStore.insertAll ids ⟨[], highest⟩ (m.rules.map (·.entry))
  have himport : importManagedRules home ids ⟨[], ⟨[], highest⟩⟩ none (m.rules.map (·.entry)) =
      (.ok inserted.1.length, ⟨rules, inserted.2⟩) := by
    rw [importManagedRules, h.mapM home]
    simp only [← hprepared, hnew, RuleStore.insertMany]
    rw [hpush]
    rfl
  have hm' : Prepared ⟨rules, inserted.2⟩ := fun a ha => .of (hkept.agrees.compiled a ha)
  have hsame (entry : RuleEntry) : (∃ a ∈ rules, a.entry = entry) ↔ ∃ a ∈ m.rules, a.entry = entry := by
    have hheld : holds ⟨rules, inserted.2⟩ entry = true ↔ _ := hkept.agrees.holds_iff
    rw [holds, List.any_eq_true] at hheld
    have hrows := RuleStore.insertAll_rows ids ⟨[], highest⟩ (m.rules.map (·.entry)) entry
    simpa using hheld.trans (by simpa using hrows)
  have hunique {a b : ActiveRule} (ha : a.Prepared) (hb : b.Prepared) (hentry : a.entry = b.entry) :
      a.compiled = b.compiled := by
    have hboth := (hentry ▸ ha home).symm.trans (hb home)
    exact congrArg Prod.snd (Except.ok.inj hboth)
  refine ⟨_, _, himport, hm', fun entry compiled => ⟨?_, ?_⟩⟩
  · rintro ⟨a, ha, rfl, rfl⟩
    obtain ⟨b, hb, hentry⟩ := (hsame a.entry).mp ⟨a, ha, rfl⟩
    exact ⟨b, hb, hentry, hunique (h b hb) (hm' a ha) hentry⟩
  · rintro ⟨b, hb, rfl, rfl⟩
    obtain ⟨a, ha, hentry⟩ := (hsame b.entry).mpr ⟨b, hb, rfl⟩
    exact ⟨a, ha, hentry, hunique (hm' a ha) (h b hb) hentry⟩

variable {codec : RulesCodec}

theorem export_reads (hcodec : codec.RoundTrips) (m : RuleManager) :
    ∃ document, m.exportRules codec = .ok document ∧ codec.fromToml document = .ok (m.rules.map (·.entry)) := by
  have hentries : m.managedRules.map (·.entry) = m.rules.map (·.entry) := by
    rw [managedRules, List.map_map]
    rfl
  obtain ⟨text, htext⟩ := hcodec.writes (m.rules.map (·.entry))
  have hread := hcodec.reads _ _ htext
  refine ⟨_, bind_eq_ok.mpr ⟨text, by rw [hentries, htext], rfl⟩, ?_⟩
  split_ifs with hempty
  · have hnone := hcodec.reads _ _ hcodec.empty
    rw [hempty, hnone, Except.ok.injEq] at hread
    rw [hcodec.comment, hread]
  · exact hread

/-- Rules move between managers without change: what a manager exports it imports as nothing new, a manager without
rules that imports it answers every lookup as the first one does, and what that one exports is nothing new to the
first. -/
theorem rules_transfer (hcodec : codec.RoundTrips) {config : List RuleEntry} {ruleStore : RuleStore} {start : RuleManager}
    (hnew : new home config ruleStore refused = .ok start) (calls : List (Option String × Call)) (highest : ℤ) :
    let m := start.run home ids calls
    ∃ document, m.exportRules codec = .ok document ∧
      m.importDocument codec home ids none document = (.ok 0, m) ∧
      (∀ refused, (m.importDocument codec home ids refused document).2 = m) ∧
      ∃ added m', importDocument codec home' ids' ⟨[], ⟨[], highest⟩⟩ none document = (.ok added, m') ∧
        (∀ (engine : PolicyEngine) hashFile process file req,
          { engine with rules := m' }.lookupRule (fun _ => hashFile) process file req =
            { engine with rules := m }.lookupRule (fun _ => hashFile) process file req) ∧
        ∃ document', m'.exportRules codec = .ok document' ∧
          m.importDocument codec home ids none document' = (.ok 0, m) ∧
          ∀ refused, (m.importDocument codec home ids refused document').2 = m := by
  intro m
  have hm : m.Prepared := (prepared_new hnew).run calls
  obtain ⟨document, hexport, hread⟩ := m.export_reads hcodec
  have hself := import_held home ids hm fun a ha => List.any_eq_true.mpr ⟨a, ha, beq_self_eq_true _⟩
  obtain ⟨added, m', himport, hm', hrules⟩ := import_empty home' ids' hm highest
  obtain ⟨document', hexport', hread'⟩ := m'.export_reads hcodec
  have hheld : ∀ a ∈ m'.rules, m.holds a.entry = true := by
    intro a ha
    obtain ⟨b, hb, hentry, -⟩ := (hrules a.entry a.compiled).mp ⟨a, ha, rfl, rfl⟩
    exact List.any_eq_true.mpr ⟨b, hb, by rw [hentry]; exact beq_self_eq_true _⟩
  have hback := import_held home ids hm' hheld
  refine ⟨document, hexport, ?_, ?_, added, m', ?_, ?_, document', hexport', ?_, ?_⟩
  · rw [importDocument, hread]
    exact hself.1
  · intro refused
    rw [importDocument, hread]
    exact hself.2 refused
  · rw [importDocument, hread]
    exact himport
  · intro engine hashFile process file req
    refine lookupLoop_congr 0 false fun rule => ?_
    constructor
    · rintro ⟨a, ha, rfl⟩
      obtain ⟨b, hb, -, hcompiled⟩ := (hrules a.entry a.compiled).mp ⟨a, ha, rfl, rfl⟩
      exact ⟨b, hb, hcompiled⟩
    · rintro ⟨b, hb, rfl⟩
      obtain ⟨a, ha, -, hcompiled⟩ := (hrules b.entry b.compiled).mpr ⟨b, hb, rfl, rfl⟩
      exact ⟨a, ha, hcompiled⟩
  · rw [importDocument, hread']
    exact hback.1
  · intro refused
    rw [importDocument, hread']
    exact hback.2 refused

/-! A codec that writes the one document below as TOML, and every other one in some way of its own. -/

def declaredEntry : RuleEntry := ⟨"/a", "/bin/b", .allow, .read, none, none, none⟩

def learnedEntry : RuleEntry := ⟨"/home/u/c", "/bin/d", .deny, .write, none, none, none⟩

def exampleDocument : String :=
  "[[rule]]\nfile = \"/a\"\nbinary = \"/bin/b\"\naction = \"allow\"\n\n" ++
    "[[rule]]\nfile = \"/home/u/c\"\nbinary = \"/bin/d\"\naction = \"deny\"\naccess = \"write\"\n"

def tagged (rules : List RuleEntry) : List Char :=
  rules.flatMap fun entry => (entry.toJson.flatMap fun c => ['a', c]) ++ ['b']

theorem tagged_text_inj {s t rest rest' : List Char}
    (h : (s.flatMap fun c => ['a', c]) ++ 'b' :: rest = (t.flatMap fun c => ['a', c]) ++ 'b' :: rest') :
    s = t ∧ rest = rest' := by
  induction s generalizing t with
  | nil => cases t <;> simp_all
  | cons c s ih =>
    cases t with
    | nil => simp at h
    | cons d t =>
      simp only [List.flatMap_cons, List.cons_append, List.nil_append, List.cons.injEq, true_and] at h
      obtain ⟨rfl, hrest⟩ := ih h.2
      exact ⟨by rw [h.1], hrest⟩

theorem tagged_injective : Function.Injective tagged := by
  intro rules
  induction rules with
  | nil =>
    intro rules' h
    cases rules' with
    | nil => rfl
    | cons entry rules' =>
      have hlength := congrArg List.length h
      simp [tagged] at hlength
  | cons entry rules ih =>
    intro rules' h
    cases rules' with
    | nil =>
      have hlength := congrArg List.length h
      simp [tagged] at hlength
    | cons entry' rules' =>
      simp only [tagged, List.flatMap_cons, List.append_assoc, List.singleton_append] at h
      obtain ⟨htext, hrest⟩ := tagged_text_inj h
      rw [RuleEntry.toJson_injective htext, ih hrest]

def exampleText (rules : List RuleEntry) : String :=
  if rules = [declaredEntry, learnedEntry] then exampleDocument else String.ofList (tagged rules)

theorem head_tagged {rules : List RuleEntry} {c : Char} (h : (tagged rules).head? = some c) : c = 'a' ∨ c = 'b' := by
  cases rules with
  | nil => cases h
  | cons entry rules =>
    simp only [tagged, List.flatMap_cons] at h
    cases hjson : entry.toJson with
    | nil =>
      simp only [hjson, List.flatMap_nil, List.nil_append, List.cons_append, List.head?_cons, Option.some_inj] at h
      exact .inr h.symm
    | cons d json =>
      simp only [hjson, List.flatMap_cons, List.cons_append, List.head?_cons, Option.some_inj] at h
      exact .inl h.symm

theorem exampleText_injective : Function.Injective exampleText := by
  have hother (rules : List RuleEntry) : String.ofList (tagged rules) ≠ exampleDocument := by
    intro h
    have hlist := congrArg (fun s => s.toList.head?) h
    simp only [String.toList_ofList] at hlist
    exact absurd (head_tagged (hlist.trans (show _ = some '[' by decide +kernel))) (by decide)
  intro rules rules' h
  unfold exampleText at h
  split_ifs at h with hr hr'
  · rw [hr, hr']
  · exact (hother rules' h.symm).elim
  · exact (hother rules h).elim
  · have hlist := congrArg String.toList h
    rw [String.toList_ofList, String.toList_ofList] at hlist
    exact tagged_injective hlist

theorem exampleText_ne_comment (rules : List RuleEntry) : exampleText rules ≠ "# no rules configured\n" := by
  unfold exampleText
  split_ifs
  · decide
  · intro h
    have hlist := congrArg (fun s => s.toList.head?) h
    simp only [String.toList_ofList] at hlist
    exact absurd (head_tagged (hlist.trans (show _ = some '#' by decide))) (by decide)

open Classical in
noncomputable def exampleCodec : RulesCodec where
  toToml rules := .ok (exampleText rules)
  fromToml text :=
    if text = "# no rules configured\n" then .ok []
    else if h : ∃ rules, exampleText rules = text then .ok h.choose
    else .error "invalid TOML"

theorem exampleCodec_roundTrips : exampleCodec.RoundTrips := by
  refine ⟨fun rules => ⟨_, rfl⟩, ?_, ?_, by simp [exampleCodec]⟩
  · intro rules text htext
    have htext' : exampleText rules = text := Except.ok.inj htext
    have hsome : ∃ rules, exampleText rules = text := ⟨rules, htext'⟩
    have hne : text ≠ "# no rules configured\n" := htext' ▸ exampleText_ne_comment rules
    simp only [exampleCodec, hne, if_false, dif_pos hsome]
    rw [exampleText_injective (hsome.choose_spec.trans htext'.symm)]
  · change Except.ok (exampleText []) = _
    rw [exampleText, if_neg (by simp)]
    rfl

/-- A declared and a learned rule move to a second manager, which has learned both and exports nothing new. -/
theorem rules_transfer_example :
    let home : PolicyResult (Option Path) := .ok (some (utf8 "/home/u"))
    let allowed : Rule := ⟨utf8 "/a", utf8 "/bin/b", .allow, .read, .unpinned, none⟩
    let denied : Rule := ⟨utf8 "/home/u/c", utf8 "/bin/d", .deny, .write, .unpinned, none⟩
    let first : RuleManager :=
      ⟨[⟨declaredEntry, allowed, none⟩, ⟨learnedEntry, denied, some 1⟩], ⟨[⟨1, learnedEntry⟩], 1⟩⟩
    let second : RuleManager :=
      ⟨[⟨declaredEntry, allowed, some 1⟩, ⟨learnedEntry, denied, some 2⟩],
        ⟨[⟨1, declaredEntry⟩, ⟨2, learnedEntry⟩], 2⟩⟩
    ∃ document document', exportRules exampleCodec first = .ok document ∧
      importDocument exampleCodec home .autoincrement first none document = (.ok 0, first) ∧
      importDocument exampleCodec home .autoincrement ⟨[], .empty⟩ none document = (.ok 2, second) ∧
      exportRules exampleCodec second = .ok document' ∧
      importDocument exampleCodec home .autoincrement first none document' = (.ok 0, first) := by
  intro home allowed denied first second
  have hnew : new home [declaredEntry] .empty none = .ok ⟨[⟨declaredEntry, allowed, none⟩], .empty⟩ := by
    decide +kernel
  have hrun : RuleManager.run home .autoincrement ⟨[⟨declaredEntry, allowed, none⟩], .empty⟩
      [(none, .add { learnedEntry with file := "~/c" })] = first := by
    decide +kernel
  have hmoved : importManagedRules home .autoincrement ⟨[], .empty⟩ none (first.rules.map (·.entry)) =
      (.ok 2, second) := by
    decide +kernel
  obtain ⟨document, hexport, himport, -, added, m', hsecond, -, document', hexport', hback, -⟩ :=
    @rules_transfer home home .autoincrement .autoincrement none exampleCodec exampleCodec_roundTrips [declaredEntry]
      .empty _ hnew [(none, .add { learnedEntry with file := "~/c" })] 0
  rw [hrun] at hexport himport hback
  obtain ⟨text, htext, hread⟩ := export_reads exampleCodec_roundTrips first
  cases hexport.symm.trans htext
  have hmoved' : importDocument exampleCodec home .autoincrement ⟨[], ⟨[], 0⟩⟩ none document = (.ok 2, second) := by
    rw [importDocument, hread]
    exact hmoved
  cases hsecond.symm.trans hmoved'
  exact ⟨document, document', hexport, himport, hmoved', hexport', hback⟩

end RuleManager

end FileGuard.Policy
