import FileGuard.Control.Api
import FileGuard.Policy.Transfer

/-! What the commands leave in the repository, and when one of them has nothing left to do. -/

namespace FileGuard.Control

open Policy

variable {home : PolicyResult (Option Store.Path)} {ids : IdSource}

/-- An entry as preparing leaves it, wherever the user's home is. -/
def NormalEntry (entry : RuleEntry) : Prop := ∃ compiled, ∀ home, prepareRuleEntry home entry = .ok (entry, compiled)

theorem normalEntry_prepared {entry prepared : RuleEntry} {compiled : Rule}
    (h : prepareRuleEntry home entry = .ok (prepared, compiled)) : NormalEntry prepared :=
  ⟨compiled, prepareRuleEntry_anywhere h⟩

theorem normalEntry_mapM {entries : List RuleEntry} {prepared : List (RuleEntry × Rule)}
    (h : entries.mapM (prepareRuleEntry home) = .ok prepared) : ∀ p ∈ prepared, NormalEntry p.1 :=
  fun p hp => normalEntry_prepared (RuleManager.mapM_prepared h p hp)

/-- A repository as the code writes it. -/
structure Sound (store : RuleStore) : Prop where
  ascending : store.rows.Pairwise fun a b => a.id < b.id
  bounded : ∀ row ∈ store.rows, row.id ≤ store.highest
  normal : ∀ row ∈ store.rows, NormalEntry row.entry

theorem sound_empty : Sound .empty := ⟨List.Pairwise.nil, nofun, nofun⟩

variable {store : RuleStore}

theorem Sound.insertOne (h : Sound store) {entry : RuleEntry} (hentry : NormalEntry entry) :
    Sound (store.insertOne ids entry).2 := by
  unfold RuleStore.insertOne
  have habove := ids.increasing store.highest
  split_ifs
  · exact h
  · refine ⟨List.pairwise_append.mpr ⟨h.ascending, List.pairwise_singleton .., fun row hrow new hnew => ?_⟩,
      List.forall_mem_append.mpr ⟨fun row hrow => ?_, List.forall_mem_singleton.mpr le_rfl⟩,
      List.forall_mem_append.mpr ⟨h.normal, List.forall_mem_singleton.mpr hentry⟩⟩
    · cases List.mem_singleton.mp hnew
      exact lt_of_le_of_lt (h.bounded row hrow) habove
    · exact le_of_lt (lt_of_le_of_lt (h.bounded row hrow) habove)

variable (ids) in
theorem Sound.insertAll (h : Sound store) {entries : List RuleEntry} (hentries : ∀ entry ∈ entries, NormalEntry entry) :
    Sound (store.insertAll ids entries).2 := by
  induction entries generalizing store with
  | nil => exact h
  | cons entry entries ih =>
    obtain ⟨hentry, hrest⟩ := List.forall_mem_cons.mp hentries
    exact ih (h.insertOne hentry) hrest

theorem Sound.replace (h : Sound store) (id : ℤ) {entry : RuleEntry} (hentry : NormalEntry entry) :
    Sound { store with rows := store.rows.map fun row => if row.id = id then ⟨id, entry⟩ else row } := by
  refine ⟨List.pairwise_map.mpr (h.ascending.imp fun hlt => by rwa [RuleManager.replaced_id, RuleManager.replaced_id]), ?_, ?_⟩
  · intro row hrow
    obtain ⟨old, hold, rfl⟩ := List.mem_map.mp hrow
    rw [RuleManager.replaced_id]
    exact h.bounded old hold
  · intro row hrow
    obtain ⟨old, hold, rfl⟩ := List.mem_map.mp hrow
    split_ifs
    · exact hentry
    · exact h.normal old hold

theorem Sound.filter (h : Sound store) (p : StoredRule → Bool) : Sound { store with rows := store.rows.filter p } :=
  ⟨h.ascending.sublist List.filter_sublist, fun row hrow => h.bounded row (List.mem_of_mem_filter hrow),
    fun row hrow => h.normal row (List.mem_of_mem_filter hrow)⟩

section

variable {m : RuleManager} {refused : Option String}

theorem Sound.add (h : Sound m.ruleStore) (entry : RuleEntry) :
    Sound (m.addManagedRule home ids refused entry).2.ruleStore := by
  unfold RuleManager.addManagedRule
  cases hp : prepareRuleEntry home entry with
  | error e => exact h
  | ok prepared =>
    have hinsert := h.insertAll ids (List.forall_mem_singleton.mpr (normalEntry_prepared hp))
    dsimp only
    split_ifs
    · exact h
    · cases refused with
      | some message => exact h
      | none =>
        rw [RuleStore.insert, RuleStore.insertMany]
        dsimp only [bind, Except.bind]
        cases (m.ruleStore.insertAll ids [prepared.1]).1.getLast? <;> exact hinsert

theorem Sound.import (h : Sound m.ruleStore) (entries : List RuleEntry) :
    Sound (m.importManagedRules home ids refused entries).2.ruleStore := by
  unfold RuleManager.importManagedRules
  cases hp : entries.mapM (prepareRuleEntry home) with
  | error e => exact h
  | ok prepared =>
    cases refused with
    | some message => exact h
    | none =>
      refine h.insertAll ids fun entry hentry => ?_
      obtain ⟨p, hmem, rfl⟩ := List.mem_map.mp (List.mem_of_mem_filter hentry)
      exact normalEntry_mapM hp p hmem

theorem Sound.edit (h : Sound m.ruleStore) (id : ℤ) (action : Option RuleAction) (access : Option Access)
    (pin : RulePinUpdate) : Sound (m.editManagedRule home refused id action access pin).2.ruleStore := by
  unfold RuleManager.editManagedRule
  cases m.rules.find? (fun rule => rule.learnedId == some id) with
  | none => exact h
  | some rule =>
    dsimp only
    cases hp : prepareRuleEntry home (applyRuleEdit rule.entry action access pin) with
    | error e => exact h
    | ok prepared =>
      dsimp only
      split_ifs
      · exact h
      · unfold RuleStore.replace
        cases refused with
        | some message => exact h
        | none =>
          dsimp only
          split_ifs
          · exact h
          · exact h
          · exact h.replace id (normalEntry_prepared hp)

theorem Sound.remove (h : Sound m.ruleStore) (id : ℤ) : Sound (m.removeManagedRule refused id).2.ruleStore := by
  unfold RuleManager.removeManagedRule
  cases m.rules.find? (fun rule => rule.learnedId == some id) with
  | none => exact h
  | some rule =>
    unfold RuleStore.remove
    cases refused with
    | some message => exact h
    | none =>
      dsimp only
      split_ifs
      · exact h
      · exact h.filter _

theorem Sound.addPersistent (h : Sound m.ruleStore) (rule : Rule) :
    Sound (m.addPersistentRule home ids refused rule).2.ruleStore := by
  unfold RuleManager.addPersistentRule
  cases RuleManager.entryOf rule with
  | error e => exact h
  | ok entry => exact h.add entry

theorem Sound.execute (h : Sound m.ruleStore) (command : ControlCommand) :
    Sound (execute ids home m refused command).2.ruleStore := by
  cases command with
  | listRules => exact h
  | addRule entry => exact h.add entry
  | importRules entries => exact h.import entries
  | editRule id action access pin => exact h.edit id action access pin
  | removeRule id => exact h.remove id

end

/-! When a command has nothing left to do. -/

/-- Every entry that `entry` may be prepared as. -/
def Prepares (home : PolicyResult (Option Store.Path)) (entry : RuleEntry) (p : RuleEntry → Prop) : Prop :=
  match prepareRuleEntry home entry with
  | .ok prepared => p prepared.1
  | .error _ => True

instance (home : PolicyResult (Option Store.Path)) (entry : RuleEntry) (p : RuleEntry → Prop) [DecidablePred p] :
    Decidable (Prepares home entry p) := by
  unfold Prepares
  cases prepareRuleEntry home entry with
  | ok prepared => exact inferInstanceAs (Decidable (p prepared.1))
  | error e => exact inferInstanceAs (Decidable True)

theorem Prepares.of_ok {entry : RuleEntry} {p : RuleEntry → Prop} (h : Prepares home entry p)
    {prepared : RuleEntry × Rule} (hp : prepareRuleEntry home entry = .ok prepared) : p prepared.1 := by
  rwa [Prepares, hp] at h

/-- What the command asks for stands in the rules: an added rule is there, an edited one has its new fields or is gone,
a removed one is gone. -/
def Stands (home : PolicyResult (Option Store.Path)) (m : RuleManager) : ControlCommand → Prop
  | .listRules => True
  | .addRule entry => Prepares home entry fun prepared => m.holds prepared = true
  | .importRules entries => ∀ entry ∈ entries, Prepares home entry fun prepared => m.holds prepared = true
  | .editRule id action access pin => ∀ rule ∈ m.rules, rule.learnedId = some id →
      Prepares home (applyRuleEdit rule.entry action access pin) (· = rule.entry)
  | .removeRule id => ∀ rule ∈ m.rules, rule.learnedId ≠ some id

instance (home : PolicyResult (Option Store.Path)) (m : RuleManager) (command : ControlCommand) :
    Decidable (Stands home m command) := by
  cases command with
  | listRules => exact inferInstanceAs (Decidable True)
  | addRule entry => exact inferInstanceAs (Decidable (Prepares home entry fun prepared => m.holds prepared = true))
  | importRules entries =>
    exact inferInstanceAs (Decidable (∀ entry ∈ entries, Prepares home entry fun prepared => m.holds prepared = true))
  | editRule id action access pin =>
    exact inferInstanceAs (Decidable (∀ rule ∈ m.rules, rule.learnedId = some id →
      Prepares home (applyRuleEdit rule.entry action access pin) (· = rule.entry)))
  | removeRule id => exact inferInstanceAs (Decidable (∀ rule ∈ m.rules, rule.learnedId ≠ some id))

/-- It stands in the rules that a process finds when it opens the repository. -/
def StandsIn (launch : Launch) (store : RuleStore) (command : ControlCommand) : Prop :=
  match launch.load store with
  | .ok m => Stands launch.home m command
  | .error _ => True

instance (launch : Launch) (store : RuleStore) (command : ControlCommand) : Decidable (StandsIn launch store command) := by
  unfold StandsIn
  cases launch.load store with
  | ok m => exact inferInstanceAs (Decidable (Stands launch.home m command))
  | error e => exact inferInstanceAs (Decidable True)

/-- The learned rules of a manager that has just been loaded. -/
structure Loaded (m : RuleManager) : Prop where
  sound : Sound m.ruleStore
  learned : ∀ rule ∈ m.rules, ∀ id, rule.learnedId = some id → ⟨id, rule.entry⟩ ∈ m.ruleStore.rows

theorem mem_of_mapM_ok {α β : Type} {f : α → PolicyResult β} {l : List α} {l' : List β} (h : l.mapM f = .ok l') :
    ∀ b ∈ l', ∃ a ∈ l, f a = .ok b := by
  induction l generalizing l' with
  | nil =>
    cases h
    nofun
  | cons a l ih =>
    rw [List.mapM_cons] at h
    obtain ⟨b, hb, h⟩ := bind_eq_ok.mp h
    obtain ⟨rest, hrest, h⟩ := bind_eq_ok.mp h
    cases h
    refine List.forall_mem_cons.mpr ⟨⟨a, List.mem_cons_self, hb⟩, fun b' hb' => ?_⟩
    obtain ⟨a', ha', heq⟩ := ih hrest b' hb'
    exact ⟨a', List.mem_cons_of_mem _ ha', heq⟩

theorem mapM_ok_of_mem {α β : Type} {f : α → PolicyResult β} {l : List α} {l' : List β} (h : l.mapM f = .ok l') :
    ∀ a ∈ l, ∃ b ∈ l', f a = .ok b := by
  induction l generalizing l' with
  | nil => nofun
  | cons a l ih =>
    rw [List.mapM_cons] at h
    obtain ⟨b, hb, h⟩ := bind_eq_ok.mp h
    obtain ⟨rest, hrest, h⟩ := bind_eq_ok.mp h
    cases h
    refine List.forall_mem_cons.mpr ⟨⟨b, List.mem_cons_self, hb⟩, fun a' ha' => ?_⟩
    obtain ⟨b', hb', heq⟩ := ih hrest a' ha'
    exact ⟨b', List.mem_cons_of_mem _ hb', heq⟩

theorem activate_ok {learnedId : Option ℤ} {entry : RuleEntry} {rule : ActiveRule}
    (h : RuleManager.activate home learnedId entry = .ok rule) :
    rule.learnedId = learnedId ∧ prepareRuleEntry home entry = .ok (rule.entry, rule.compiled) := by
  unfold RuleManager.activate at h
  obtain ⟨⟨prepared, compiled⟩, hp, h⟩ := bind_eq_ok.mp h
  cases h
  exact ⟨rfl, hp⟩

theorem loaded_new {config : List RuleEntry} {refused : Option String} {m : RuleManager} (hstore : Sound store)
    (h : RuleManager.new home config store refused = .ok m) : m.ruleStore = store ∧ Loaded m := by
  unfold RuleManager.new at h
  obtain ⟨rules, hrules, h⟩ := bind_eq_ok.mp h
  obtain ⟨stored, hstored, h⟩ := bind_eq_ok.mp h
  obtain ⟨learned, hlearned, h⟩ := bind_eq_ok.mp h
  cases h
  have hrows : ∀ row ∈ stored, row ∈ store.rows := by
    unfold RuleStore.list at hstored
    cases refused with
    | some message => cases hstored
    | none =>
      cases hstored
      exact fun row hrow => (List.mem_insertionSort _).mp hrow
  refine ⟨rfl, hstore, List.forall_mem_append.mpr ⟨fun rule hrule id hid => ?_, fun rule hrule id hid => ?_⟩⟩
  · obtain ⟨entry, -, hactivate⟩ := mem_of_mapM_ok hrules rule hrule
    rw [(activate_ok hactivate).1] at hid
    cases hid
  · obtain ⟨row, hrow, hactivate⟩ := mem_of_mapM_ok hlearned rule hrule
    obtain ⟨hlearnedId, hprepared⟩ := activate_ok hactivate
    obtain ⟨compiled, hnormal⟩ := hstore.normal row (hrows row hrow)
    rw [hnormal home] at hprepared
    rw [hlearnedId] at hid
    have hentry : row.entry = rule.entry := congrArg Prod.fst (Except.ok.inj hprepared)
    rw [← hentry, ← Option.some.inj hid]
    exact hrows row hrow

theorem Sound.entry_unique (h : Sound store) {id : ℤ} {row : StoredRule} {entry : RuleEntry} (hrow : row ∈ store.rows)
    (hentry : ⟨id, entry⟩ ∈ store.rows) (hid : row.id = id) : row = ⟨id, entry⟩ := by
  have hnodup : (store.rows.map (·.id)).Nodup := List.pairwise_map.mpr (h.ascending.imp fun hlt => ne_of_lt hlt)
  exact List.inj_on_of_nodup_map hnodup hrow hentry hid

theorem find?_learned {m : RuleManager} {id : ℤ} {rule : ActiveRule}
    (h : m.rules.find? (fun rule => rule.learnedId == some id) = some rule) :
    rule ∈ m.rules ∧ rule.learnedId = some id :=
  ⟨List.mem_of_find?_eq_some h, by simpa using List.find?_some h⟩

section

variable {m : RuleManager} {refused : Option String}

theorem import_unchanged {entries : List RuleEntry}
    (h : ∀ entry ∈ entries, Prepares home entry fun prepared => m.holds prepared = true) :
    (m.importManagedRules home ids refused entries).2.ruleStore = m.ruleStore := by
  unfold RuleManager.importManagedRules
  cases hp : entries.mapM (prepareRuleEntry home) with
  | error e => rfl
  | ok prepared =>
    cases refused with
    | some message => rfl
    | none =>
      have hnone : (prepared.map (·.1)).filter (fun entry => ¬ m.holds entry) = [] := by
        refine List.filter_eq_nil_iff.mpr fun entry hentry => ?_
        obtain ⟨p, hmem, rfl⟩ := List.mem_map.mp hentry
        obtain ⟨source, hsource, hprepared⟩ := mem_of_mapM_ok hp p hmem
        simpa using (h source hsource).of_ok hprepared
      dsimp only
      rw [hnone]
      rfl

theorem edit_unchanged (hloaded : Loaded m) {id : ℤ} {action : Option RuleAction} {access : Option Access}
    {pin : RulePinUpdate} (h : ∀ rule ∈ m.rules, rule.learnedId = some id →
      Prepares home (applyRuleEdit rule.entry action access pin) (· = rule.entry)) :
    (m.editManagedRule home refused id action access pin).2.ruleStore = m.ruleStore := by
  unfold RuleManager.editManagedRule
  cases hfind : m.rules.find? (fun rule => rule.learnedId == some id) with
  | none => rfl
  | some rule =>
    obtain ⟨hrule, hid⟩ := find?_learned hfind
    dsimp only
    cases hp : prepareRuleEntry home (applyRuleEdit rule.entry action access pin) with
    | error e => rfl
    | ok prepared =>
      have hsame : prepared.1 = rule.entry := (h rule hrule hid).of_ok hp
      have hrow := hloaded.learned rule hrule id hid
      have hrows : m.ruleStore.rows.map (fun row => if row.id = id then (⟨id, prepared.1⟩ : StoredRule) else row) =
          m.ruleStore.rows := by
        refine (List.map_congr_left fun row hmem => ?_).trans (List.map_id _)
        split_ifs with heq
        · rw [hsame]
          exact (hloaded.sound.entry_unique hmem hrow heq).symm
        · rfl
      dsimp only
      split_ifs
      · rfl
      · unfold RuleStore.replace
        cases refused with
        | some message => rfl
        | none =>
          dsimp only
          split_ifs
          · rfl
          · rfl
          · rw [hrows]

/-- A command that has nothing left to do changes nothing. -/
theorem execute_unchanged (hloaded : Loaded m) {command : ControlCommand} (h : Stands home m command) :
    (execute ids home m refused command).2.ruleStore = m.ruleStore := by
  cases command with
  | listRules => rfl
  | addRule entry =>
    show (m.addManagedRule home ids refused entry).2.ruleStore = m.ruleStore
    unfold RuleManager.addManagedRule
    cases hp : prepareRuleEntry home entry with
    | error e => rfl
    | ok prepared =>
      have hstands : Prepares home entry fun prepared => m.holds prepared = true := h
      have hheld := hstands.of_ok hp
      dsimp only
      rw [if_pos hheld]
  | importRules entries => exact import_unchanged h
  | editRule id action access pin => exact edit_unchanged hloaded h
  | removeRule id =>
    show (m.removeManagedRule refused id).2.ruleStore = m.ruleStore
    unfold RuleManager.removeManagedRule
    cases hfind : m.rules.find? (fun rule => rule.learnedId == some id) with
    | none => rfl
    | some rule => exact absurd (find?_learned hfind).2 (h rule (find?_learned hfind).1)

end

/-! An accepted command stands afterwards, so that a retry beside which nothing happens is harmless. -/

theorem prepareRuleEntry_fields {entry prepared : RuleEntry} {compiled : Rule}
    (h : prepareRuleEntry home entry = .ok (prepared, compiled)) :
    prepared.action = entry.action ∧ prepared.access = entry.access ∧
      normalizeHash entry.sha256 "sha256" = .ok prepared.sha256 ∧
      normalizeHash entry.scriptSha256 "script_sha256" = .ok prepared.scriptSha256 := by
  unfold prepareRuleEntry at h
  obtain ⟨sha256, hsha, h⟩ := bind_eq_ok.mp h
  obtain ⟨scriptSha256, hscriptSha, h⟩ := bind_eq_ok.mp h
  obtain ⟨compiled, -, h⟩ := bind_eq_ok.mp h
  obtain ⟨file, -, h⟩ := bind_eq_ok.mp h
  cases h
  exact ⟨rfl, rfl, hsha, hscriptSha⟩

theorem prepareRuleEntry_congr (entry : RuleEntry) {sha256 sha256' : Option String}
    (h : normalizeHash sha256 "sha256" = normalizeHash sha256' "sha256") :
    prepareRuleEntry home { entry with sha256 := sha256 } = prepareRuleEntry home { entry with sha256 := sha256' } := by
  unfold prepareRuleEntry
  dsimp only
  rw [h]

theorem edit_stands {entry prepared : RuleEntry} {compiled : Rule} (action : Option RuleAction) (access : Option Access)
    (pin : RulePinUpdate) (h : prepareRuleEntry home (applyRuleEdit entry action access pin) = .ok (prepared, compiled)) :
    Prepares home (applyRuleEdit prepared action access pin) (· = prepared) := by
  have hagain := (prepareRuleEntry_prepared h).1
  obtain ⟨haction, haccess, hsha, hscriptSha⟩ := prepareRuleEntry_fields h
  have hkept : { prepared with action := action.getD prepared.action, access := access.getD prepared.access } = prepared := by
    have hsame : action.getD prepared.action = prepared.action ∧ access.getD prepared.access = prepared.access := by
      rw [haction, haccess]
      cases pin <;> cases action <;> cases access <;> exact ⟨rfl, rfl⟩
    rw [hsame.1, hsame.2]
  have hsame : prepareRuleEntry home (applyRuleEdit prepared action access pin) = .ok (prepared, compiled) := by
    cases pin with
    | keep =>
      have hedit : applyRuleEdit prepared action access .keep = prepared := hkept
      rw [hedit, hagain]
    | repin sha256 =>
      have hedit : applyRuleEdit prepared action access (.repin sha256) = { prepared with sha256 := some sha256 } := by
        unfold applyRuleEdit
        rw [hkept]
      have hnormal : normalizeHash (some sha256) "sha256" = normalizeHash prepared.sha256 "sha256" := by
        have hfirst : normalizeHash (some sha256) "sha256" = .ok prepared.sha256 := hsha
        rw [hfirst, normalizeHash_normal hfirst]
      rw [hedit, prepareRuleEntry_congr prepared hnormal, hagain]
    | unpin =>
      have hedit : applyRuleEdit prepared action access .unpin = prepared := by
        unfold applyRuleEdit
        rw [hkept]
        have hnone : prepared.sha256 = none := (Except.ok.inj hsha).symm
        have hscriptNone : prepared.scriptSha256 = none := (Except.ok.inj hscriptSha).symm
        dsimp only
        cases prepared
        cases hnone
        cases hscriptNone
        rfl
      rw [hedit, hagain]
  rw [Prepares, hsame]

section

variable {declared : List ManagedRule} {m : RuleManager} {refused : Option String}

theorem holds_of_mem {rule : ActiveRule} (h : rule ∈ m.rules) : m.holds rule.entry = true :=
  List.any_eq_true.mpr ⟨rule, h, beq_self_eq_true _⟩

theorem add_stands (h : RuleManager.Agrees home declared m) {entry : RuleEntry} {added : Bool}
    (hok : (m.addManagedRule home ids refused entry).1 = .ok added) :
    Prepares home entry fun prepared => (m.addManagedRule home ids refused entry).2.holds prepared = true := by
  unfold RuleManager.addManagedRule at hok ⊢
  rw [Prepares]
  cases hp : prepareRuleEntry home entry with
  | error e => trivial
  | ok prepared =>
    rw [hp] at hok
    dsimp only at hok ⊢
    cases hheld : m.holds prepared.1 with
    | true => rwa [if_pos rfl]
    | false =>
      rw [hheld, if_neg Bool.false_ne_true] at hok
      rw [if_neg Bool.false_ne_true]
      cases refused with
      | some message => cases hok
      | none =>
        rw [RuleManager.insert_fresh h hheld]
        exact @holds_of_mem _ ⟨prepared.1, prepared.2, _⟩ (List.mem_append_right _ (List.mem_singleton_self _))

theorem import_stands (h : RuleManager.Agrees home declared m) {entries : List RuleEntry} {count : ℕ}
    (hok : (m.importManagedRules home ids refused entries).1 = .ok count) :
    ∀ entry ∈ entries, Prepares home entry fun prepared =>
      (m.importManagedRules home ids refused entries).2.holds prepared = true := by
  have hagrees : RuleManager.Agrees home declared (m.importManagedRules home ids refused entries).2 :=
    (RuleManager.import_kept h entries).agrees
  unfold RuleManager.importManagedRules at hok hagrees ⊢
  intro entry hentry
  cases hprepared : entries.mapM (prepareRuleEntry home) with
  | error e =>
    rw [hprepared] at hok
    cases hok
  | ok prepared =>
    rw [hprepared] at hok hagrees
    cases refused with
    | some message => cases hok
    | none =>
      obtain ⟨p, hmem, hp⟩ := mapM_ok_of_mem hprepared entry hentry
      rw [Prepares, hp]
      have hrows := RuleStore.insertAll_rows ids m.ruleStore
        ((prepared.map (·.1)).filter fun entry => ¬ m.holds entry) p.1
      refine hagrees.holds_iff.mpr ?_
      cases hheld : m.holds p.1 with
      | true => exact (h.holds_iff.mp hheld).imp_right fun hrow => hrows.mpr (.inl hrow)
      | false =>
        refine .inr (hrows.mpr (.inr (List.mem_filter.mpr ⟨List.mem_map_of_mem hmem, ?_⟩)))
        rw [hheld]
        rfl

theorem edit_stands_after (h : RuleManager.Agrees home declared m) {id : ℤ} {action : Option RuleAction}
    {access : Option Access} {pin : RulePinUpdate} {entry : RuleEntry}
    (hok : (m.editManagedRule home refused id action access pin).1 = .ok entry) :
    ∀ rule ∈ (m.editManagedRule home refused id action access pin).2.rules, rule.learnedId = some id →
      Prepares home (applyRuleEdit rule.entry action access pin) (· = rule.entry) := by
  unfold RuleManager.editManagedRule at hok ⊢
  cases hfind : m.rules.find? (fun rule => rule.learnedId == some id) with
  | none =>
    rw [hfind] at hok
    cases hok
  | some found =>
    rw [hfind] at hok
    dsimp only at hok ⊢
    cases hp : prepareRuleEntry home (applyRuleEdit found.entry action access pin) with
    | error e =>
      rw [hp] at hok
      cases hok
    | ok prepared =>
      rw [hp] at hok
      dsimp only at hok ⊢
      split_ifs at hok ⊢
      cases hreplace : m.ruleStore.replace refused id prepared.1 with
      | error e =>
        rw [hreplace] at hok
        cases hok
      | ok store' =>
        dsimp only
        rw [RuleManager.set_findIdx (h.atMostOne id)]
        intro rule hrule hid
        obtain ⟨old, -, rfl⟩ := List.mem_map.mp hrule
        split_ifs at hid ⊢ with hold
        · exact edit_stands action access pin hp
        · exact absurd (beq_iff_eq.mpr hid) hold

theorem remove_stands (h : RuleManager.Agrees home declared m) {id : ℤ} {entry : RuleEntry}
    (hok : (m.removeManagedRule refused id).1 = .ok entry) :
    ∀ rule ∈ (m.removeManagedRule refused id).2.rules, rule.learnedId ≠ some id := by
  unfold RuleManager.removeManagedRule at hok ⊢
  cases hfind : m.rules.find? (fun rule => rule.learnedId == some id) with
  | none =>
    rw [hfind] at hok
    cases hok
  | some found =>
    rw [hfind] at hok
    dsimp only at hok ⊢
    cases hremove : m.ruleStore.remove refused id with
    | error e =>
      rw [hremove] at hok
      cases hok
    | ok store' =>
      dsimp only
      rw [RuleManager.eraseIdx_findIdx (h.atMostOne id)]
      intro rule hrule
      simpa using (List.mem_filter.mp hrule).2

theorem execute_stands (h : RuleManager.Agrees home declared m) {command : ControlCommand} {payload : ControlPayload}
    (hok : (execute ids home m refused command).1 = .ok payload) :
    Stands home (execute ids home m refused command).2 command := by
  have hmap {α : Type} {f : α → ControlPayload} {result : PolicyResult α} (hresult : result.map f = .ok payload) :
      ∃ a, result = .ok a := by
    cases result with
    | error e => cases hresult
    | ok a => exact ⟨a, rfl⟩
  cases command with
  | listRules => trivial
  | addRule entry =>
    obtain ⟨added, hadded⟩ := hmap hok
    exact add_stands h hadded
  | importRules entries =>
    obtain ⟨count, hcount⟩ := hmap hok
    exact import_stands h hcount
  | editRule id action access pin =>
    obtain ⟨entry, hentry⟩ := hmap hok
    exact edit_stands_after h hentry
  | removeRule id =>
    obtain ⟨entry, hentry⟩ := hmap hok
    exact remove_stands h hentry

theorem execute_agrees (h : RuleManager.Agrees home declared m) (command : ControlCommand) :
    RuleManager.Agrees home declared (execute ids home m refused command).2 := by
  cases command with
  | listRules => exact h
  | addRule entry => exact (RuleManager.add_kept h entry).agrees
  | importRules entries => exact (RuleManager.import_kept h entries).agrees
  | editRule id action access pin => exact (RuleManager.edit_kept h id action access pin).agrees
  | removeRule id => exact (RuleManager.remove_kept refused h id).1.agrees

/-- Whoever loads the repository as an accepted command left it, with the same declared rules, finds that the command
still stands. -/
theorem stands_reloaded {config : List RuleEntry} {start : RuleManager}
    (hconfig : config.mapM (RuleManager.activate home none) = .ok start.rules)
    (hstart : ∀ a ∈ start.rules, prepareRuleEntry home a.entry = .ok (a.entry, a.compiled))
    (h : RuleManager.Agrees home start.managedRules m) {command : ControlCommand} {payload : ControlPayload}
    (hok : (execute ids home m refused command).1 = .ok payload) :
    StandsIn ⟨home, .ok config, none⟩ (execute ids home m refused command).2.ruleStore command := by
  have hagrees : RuleManager.Agrees home start.managedRules (execute ids home m refused command).2 :=
    execute_agrees h command
  have hload : (Launch.mk home (.ok config) none).load (execute ids home m refused command).2.ruleStore =
      .ok (execute ids home m refused command).2 := (hagrees.faithful hconfig hstart).restart
  rw [StandsIn, hload]
  exact execute_stands h hok

end

theorem Sound.executeOffline (h : Sound store) (launch : Launch) (uid : ℕ) (refused : Option String)
    (command : ControlCommand) : Sound (executeOffline ids launch uid store refused command).2 := by
  unfold Control.executeOffline
  split_ifs
  · exact h
  · cases hload : launch.load store with
    | error e => exact h
    | ok m =>
      obtain ⟨config, -, hnew⟩ := bind_eq_ok.mp hload
      exact (loaded_new h hnew).2.sound.execute command

theorem executeOffline_unchanged (h : Sound store) {launch : Launch} {uid : ℕ} {refused : Option String}
    {command : ControlCommand} (hstands : StandsIn launch store command) :
    (Control.executeOffline ids launch uid store refused command).2 = store := by
  unfold Control.executeOffline
  split_ifs
  · rfl
  · cases hload : launch.load store with
    | error e => rfl
    | ok m =>
      obtain ⟨config, -, hnew⟩ := bind_eq_ok.mp hload
      obtain ⟨hstore, hloaded⟩ := loaded_new h hnew
      rw [StandsIn, hload] at hstands
      exact (execute_unchanged hloaded hstands).trans hstore

theorem Sound.handleConnection {m : RuleManager} (h : Sound m.ruleStore) (uids : Uids) (refused : Option String)
    (peerUid : ℕ) (request : ControlRequest) :
    Sound (handleConnection ids uids home m refused peerUid request).2.ruleStore := by
  unfold Control.handleConnection
  have hexecute : Sound (Control.execute ids home m refused request.command).2.ruleStore := h.execute request.command
  split_ifs
  · exact h
  · exact h
  · exact h
  · generalize Control.execute ids home m refused request.command = outcome at hexecute ⊢
    obtain ⟨result, m'⟩ := outcome
    cases result <;> exact hexecute

end FileGuard.Control
