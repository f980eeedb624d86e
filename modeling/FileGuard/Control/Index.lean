import FileGuard.Control.AtMostOnce

/-! `rules remove` and `rules edit` by an index in a listing, while others change the rules. -/

namespace FileGuard.Control

open Policy

variable {home : PolicyResult (Option Store.Path)} {ids : IdSource} {refused : Option String}

def learnedRuleAt (rules : List ManagedRule) (index : ℕ) : PolicyResult (ℤ × RuleEntry) :=
  match rules[index]? with
  | none => .error s!"rule index {index} out of range (have {rules.length} rule(s))"
  | some rule => match rule.learnedId with
    | none => .error s!"rule {index} is declarative and read-only; edit FILE_GUARD_CONFIG instead"
    | some id => .ok (id, rule.entry)

theorem learnedRuleAt_ok {rules : List ManagedRule} {index : ℕ} {id : ℤ} {entry : RuleEntry}
    (h : learnedRuleAt rules index = .ok (id, entry)) : ⟨entry, some id⟩ ∈ rules := by
  unfold learnedRuleAt at h
  cases hrule : rules[index]? with
  | none => rw [hrule] at h; cases h
  | some rule =>
    obtain ⟨ruleEntry, learnedId⟩ := rule
    rw [hrule] at h
    cases learnedId with
    | none => cases h
    | some id' => cases h; exact List.mem_of_getElem? hrule

/-- What a rule is about, which no edit touches. -/
def subject (entry : RuleEntry) : String × String := (entry.binary, entry.file)

theorem prepareRuleEntry_subject {entry prepared : RuleEntry} {compiled : Rule}
    (h : prepareRuleEntry home entry = .ok (prepared, compiled)) : prepared.binary = entry.binary ∧
      ∃ path file, expandPath home (Store.utf8 entry.file) = .ok path ∧ absoluteLexical path = .ok file ∧
        toStr file = some prepared.file := by
  unfold prepareRuleEntry at h
  obtain ⟨sha256, -, h⟩ := bind_eq_ok.mp h
  obtain ⟨scriptSha256, -, h⟩ := bind_eq_ok.mp h
  obtain ⟨rule, hrule, h⟩ := bind_eq_ok.mp h
  obtain ⟨file, hfile, h⟩ := bind_eq_ok.mp h
  cases h
  unfold ruleFromEntry at hrule
  obtain ⟨path, hpath, hrule⟩ := bind_eq_ok.mp hrule
  split_ifs at hrule
  obtain ⟨lexical, hlexical, hrule⟩ := bind_eq_ok.mp hrule
  simp only at hrule
  split_ifs at hrule
  obtain ⟨identity, -, hrule⟩ := bind_eq_ok.mp hrule
  obtain ⟨script, -, hrule⟩ := bind_eq_ok.mp hrule
  cases hrule
  exact ⟨rfl, path, lexical, hpath, hlexical, elim_eq_ok.mp hfile⟩

theorem applyRuleEdit_subject (entry : RuleEntry) (action : Option RuleAction) (access : Option Access)
    (pin : RulePinUpdate) : subject (applyRuleEdit entry action access pin) = subject entry := by
  cases pin <;> rfl

theorem edited_subject {entry prepared : RuleEntry} {compiled compiled' : Rule} {action : Option RuleAction}
    {access : Option Access} {pin : RulePinUpdate} (hnormal : prepareRuleEntry home entry = .ok (entry, compiled))
    (h : prepareRuleEntry home (applyRuleEdit entry action access pin) = .ok (prepared, compiled')) :
    subject prepared = subject entry := by
  obtain ⟨hbinary, hfile⟩ := Prod.mk.inj (applyRuleEdit_subject entry action access pin)
  obtain ⟨-, path, lexical, hpath, hlexical, hstr⟩ := prepareRuleEntry_subject hnormal
  obtain ⟨hkept, path', lexical', hpath', hlexical', hstr'⟩ := prepareRuleEntry_subject h
  rw [hfile, hpath] at hpath'
  cases hpath'
  rw [hlexical] at hlexical'
  cases hlexical'
  rw [hstr] at hstr'
  exact Prod.ext (hkept.trans hbinary) (Option.some.inj hstr').symm

/-- The ids that have been given out, and what their rules are about. -/
structure Named (names : ℤ → Option (String × String)) (store : RuleStore) : Prop where
  row : ∀ row ∈ store.rows, names row.id = some (subject row.entry)
  unused : ∀ id, store.highest < id → names id = none

/-- What the ids of a repository are about. -/
def naming (store : RuleStore) (id : ℤ) : Option (String × String) :=
  (store.rows.find? fun row => row.id == id).map fun row => subject row.entry

theorem named_naming {store : RuleStore} (h : Sound store) : Named (naming store) store where
  row row hrow := by
    have hsome : (store.rows.find? fun other => other.id == row.id).isSome := by
      rw [List.find?_isSome]
      exact ⟨row, hrow, beq_self_eq_true _⟩
    obtain ⟨found, hfound⟩ := Option.isSome_iff_exists.mp hsome
    have hid : found.id = row.id := by simpa using List.find?_some hfound
    have hsame : found = row := h.entry_unique (List.mem_of_find?_eq_some hfound) hrow hid
    rw [naming, hfound, hsame]
    rfl
  unused id hid := by
    have hnone : (store.rows.find? fun row => row.id == id) = none := by
      refine List.find?_eq_none.mpr fun row hrow heq => ?_
      have hbounded := h.bounded row hrow
      rw [eq_of_beq heq] at hbounded
      omega
    rw [naming, hnone]
    rfl

/-- Ids are given out, and none twice. -/
structure Renames (names names' : ℤ → Option (String × String)) (store store' : RuleStore) : Prop where
  kept : ∀ id about, names id = some about → names' id = some about
  named : Named names' store'
  gone : ∀ id, names id ≠ none → (∀ row ∈ store.rows, row.id ≠ id) → ∀ row ∈ store'.rows, row.id ≠ id

section naming

variable {names names' names'' : ℤ → Option (String × String)} {store store' store'' : RuleStore}

theorem Renames.refl (h : Named names store) : Renames names names store store := ⟨fun _ _ h => h, h, fun _ _ h => h⟩

theorem Renames.trans (h : Renames names names' store store') (h' : Renames names' names'' store' store'') :
    Renames names names'' store store'' := by
  refine ⟨fun id about hid => h'.kept id about (h.kept id about hid), h'.named, fun id hid hgone => ?_⟩
  obtain ⟨about, habout⟩ := Option.ne_none_iff_exists'.mp hid
  exact h'.gone id (by rw [h.kept id about habout]; nofun) (h.gone id hid hgone)

variable (ids) in
theorem renames_insertOne (h : Named names store) (entry : RuleEntry) :
    ∃ names', Renames names names' store (store.insertOne ids entry).2 ∧
      ∀ stored ∈ (store.insertOne ids entry).1, names' stored.id = some (subject stored.entry) := by
  have habove := ids.increasing store.highest
  have hnone : names (ids.next store.highest) = none := h.unused _ habove
  unfold RuleStore.insertOne
  split_ifs
  · exact ⟨names, .refl h, nofun⟩
  · refine ⟨Function.update names (ids.next store.highest) (some (subject entry)), ⟨fun id about hid => ?_, ⟨?_, ?_⟩, ?_⟩, ?_⟩
    · rw [Function.update_of_ne]
      · exact hid
      · rintro rfl
        rw [hnone] at hid
        cases hid
    · refine List.forall_mem_append.mpr ⟨fun row hrow => ?_, List.forall_mem_singleton.mpr (Function.update_self ..)⟩
      rw [Function.update_of_ne]
      · exact h.row row hrow
      · rintro heq
        have hrow := h.row row hrow
        rw [heq, hnone] at hrow
        cases hrow
    · intro id hid
      rw [Function.update_of_ne (ne_of_gt hid)]
      exact h.unused id (habove.trans hid)
    · intro id hid hgone
      refine List.forall_mem_append.mpr ⟨hgone, List.forall_mem_singleton.mpr ?_⟩
      rintro rfl
      exact hid hnone
    · rintro stored hstored
      cases hstored
      exact Function.update_self ..

variable (ids) in
theorem renames_insertAll (h : Named names store) (entries : List RuleEntry) :
    ∃ names', Renames names names' store (store.insertAll ids entries).2 ∧
      ∀ stored ∈ (store.insertAll ids entries).1, names' stored.id = some (subject stored.entry) := by
  induction entries generalizing names store with
  | nil => exact ⟨names, .refl h, nofun⟩
  | cons entry entries ih =>
    obtain ⟨names₁, h₁, hfirst⟩ := renames_insertOne ids h entry
    obtain ⟨names₂, h₂, hrest⟩ := ih h₁.named
    refine ⟨names₂, h₁.trans h₂, List.forall_mem_append.mpr ⟨fun stored hstored => ?_, hrest⟩⟩
    exact h₂.kept _ _ (hfirst stored (Option.mem_toList.mp hstored))

theorem Named.replace (h : Named names store) {id : ℤ} {entry : RuleEntry} (hid : names id = some (subject entry)) :
    Renames names names store
      { store with rows := store.rows.map fun row => if row.id = id then ⟨id, entry⟩ else row } := by
  refine ⟨fun _ _ h => h, ⟨List.forall_mem_map.mpr fun row hrow => ?_, h.unused⟩, fun id' _ hgone => ?_⟩
  · split_ifs
    · exact hid
    · exact h.row row hrow
  · refine List.forall_mem_map.mpr fun row hrow => ?_
    split_ifs with heq
    · exact heq ▸ hgone row hrow
    · exact hgone row hrow

theorem Named.filter (h : Named names store) (p : StoredRule → Bool) :
    Renames names names store { store with rows := store.rows.filter p } :=
  ⟨fun _ _ h => h, ⟨fun row hrow => h.row row (List.mem_of_mem_filter hrow), h.unused⟩,
    fun _ _ hgone row hrow => hgone row (List.mem_of_mem_filter hrow)⟩

end naming

/-- The active rules are about what their ids say. -/
structure Known (names : ℤ → Option (String × String)) (m : RuleManager) : Prop where
  store : Named names m.ruleStore
  rules : ∀ rule ∈ m.rules, ∀ id, rule.learnedId = some id → names id = some (subject rule.entry)
  prepared : m.Prepared

section

variable {names : ℤ → Option (String × String)} {m : RuleManager}

theorem Known.mono (h : Known names m) {names' : ℤ → Option (String × String)} {store : RuleStore}
    (hr : Renames names names' m.ruleStore store) :
    ∀ rule ∈ m.rules, ∀ id, rule.learnedId = some id → names' id = some (subject rule.entry) :=
  fun rule hrule id hid => hr.kept id _ (h.rules rule hrule id hid)

theorem renames_insert {store store' : RuleStore} (h : Named names store) {entry : RuleEntry}
    {inserted : Option StoredRule} (hinsert : store.insert ids refused entry = .ok (inserted, store')) :
    ∃ names', Renames names names' store store' ∧
      ∀ stored, inserted = some stored → names' stored.id = some (subject entry) := by
  obtain ⟨names', hr, hnamed⟩ := renames_insertOne ids h entry
  cases refused with
  | some message => cases hinsert
  | none =>
    have hone : store.insert ids none entry =
        .ok (((store.insertOne ids entry).1.toList ++ []).getLast?, (store.insertOne ids entry).2) := rfl
    rw [hone] at hinsert
    obtain ⟨hlast, rfl⟩ := Prod.mk.inj (Except.ok.inj hinsert)
    have hinserted : (store.insertOne ids entry).1 = inserted := by
      rw [← hlast]
      cases (store.insertOne ids entry).1 <;> rfl
    subst hinserted
    refine ⟨names', hr, fun stored hstored => ?_⟩
    have hentry : stored.entry = entry := by
      unfold RuleStore.insertOne at hstored
      split_ifs at hstored
      cases hstored
      rfl
    rw [hnamed stored hstored, hentry]

theorem Known.add (h : Known names m) (entry : RuleEntry) :
    ∃ names', Renames names names' m.ruleStore (m.addManagedRule home ids refused entry).2.ruleStore ∧
      Known names' (m.addManagedRule home ids refused entry).2 := by
  have hprepared : (m.addManagedRule home ids refused entry).2.Prepared := h.prepared.add entry
  unfold RuleManager.addManagedRule at *
  cases hp : prepareRuleEntry home entry with
  | error e => exact ⟨names, .refl h.store, h⟩
  | ok prepared =>
    obtain ⟨normal, compiled⟩ := prepared
    simp only [hp] at hprepared ⊢
    split_ifs at hprepared ⊢ with hheld
    · exact ⟨names, .refl h.store, h⟩
    · cases hinsert : m.ruleStore.insert ids refused normal with
      | error e => exact ⟨names, .refl h.store, h⟩
      | ok inserted =>
        obtain ⟨stored, store⟩ := inserted
        rw [hinsert] at hprepared
        obtain ⟨names', hr, hnamed⟩ := renames_insert h.store hinsert
        cases stored with
        | none => exact ⟨names', hr, hr.named, h.mono hr, hprepared⟩
        | some stored =>
          refine ⟨names', hr, hr.named, List.forall_mem_append.mpr ⟨h.mono hr, List.forall_mem_singleton.mpr ?_⟩,
            hprepared⟩
          rintro id ⟨⟩
          exact hnamed stored rfl

theorem pushInserted_known {prepared : List (RuleEntry × Rule)} {rules : List ActiveRule} {inserted : List StoredRule}
    (hrules : ∀ rule ∈ rules, ∀ id, rule.learnedId = some id → names id = some (subject rule.entry))
    (hinserted : ∀ stored ∈ inserted, names stored.id = some (subject stored.entry)) :
    ∀ rule ∈ (RuleManager.pushInserted prepared rules inserted).2, ∀ id, rule.learnedId = some id →
      names id = some (subject rule.entry) := by
  induction inserted generalizing rules with
  | nil => exact hrules
  | cons stored rest ih =>
    obtain ⟨hstored, hrest⟩ := List.forall_mem_cons.mp hinserted
    rw [RuleManager.pushInserted]
    cases prepared.find? (fun p => p.1 == stored.entry) with
    | none => exact hrules
    | some p =>
      refine ih (List.forall_mem_append.mpr ⟨hrules, List.forall_mem_singleton.mpr ?_⟩) hrest
      rintro id ⟨⟩
      exact hstored

theorem Known.import (h : Known names m) (entries : List RuleEntry) :
    ∃ names', Renames names names' m.ruleStore (m.importManagedRules home ids refused entries).2.ruleStore ∧
      Known names' (m.importManagedRules home ids refused entries).2 := by
  have hprepared : (m.importManagedRules home ids refused entries).2.Prepared := h.prepared.import entries
  unfold RuleManager.importManagedRules at *
  cases hp : entries.mapM (prepareRuleEntry home) with
  | error e => exact ⟨names, .refl h.store, h⟩
  | ok prepared =>
    cases refused with
    | some message => exact ⟨names, .refl h.store, h⟩
    | none =>
      rw [hp] at hprepared
      obtain ⟨names', hr, hnamed⟩ := renames_insertAll ids h.store
        ((prepared.map (·.1)).filter fun entry => ¬ m.holds entry)
      exact ⟨names', hr, hr.named, pushInserted_known (h.mono hr) hnamed, hprepared⟩

theorem Known.edit (h : Known names m) (id : ℤ) (action : Option RuleAction) (access : Option Access)
    (pin : RulePinUpdate) :
    Renames names names m.ruleStore (m.editManagedRule home refused id action access pin).2.ruleStore ∧
      Known names (m.editManagedRule home refused id action access pin).2 := by
  have hprepared : (m.editManagedRule home refused id action access pin).2.Prepared :=
    h.prepared.edit id action access pin
  unfold RuleManager.editManagedRule at *
  cases hfind : m.rules.find? (fun rule => rule.learnedId == some id) with
  | none => exact ⟨.refl h.store, h⟩
  | some rule =>
    obtain ⟨hmem, hid⟩ := find?_learned hfind
    simp only [hfind] at hprepared ⊢
    cases hp : prepareRuleEntry home (applyRuleEdit rule.entry action access pin) with
    | error e => exact ⟨.refl h.store, h⟩
    | ok prepared =>
      obtain ⟨entry, compiled⟩ := prepared
      have hsame : subject entry = subject rule.entry := edited_subject (h.prepared rule hmem home) hp
      have hnamed : names id = some (subject entry) := (h.rules rule hmem id hid).trans (congrArg some hsame.symm)
      simp only [hp] at hprepared ⊢
      split_ifs at hprepared ⊢
      · exact ⟨.refl h.store, h⟩
      · cases hreplace : m.ruleStore.replace refused id entry with
        | error e => exact ⟨.refl h.store, h⟩
        | ok store =>
          rw [hreplace] at hprepared
          have hr : Renames names names m.ruleStore store := by
            unfold RuleStore.replace at hreplace
            cases refused with
            | some message => cases hreplace
            | none =>
              simp only at hreplace
              split_ifs at hreplace
              cases hreplace
              exact h.store.replace hnamed
          refine ⟨hr, hr.named, fun rule' hrule' id' hid' => ?_, hprepared⟩
          rcases List.mem_or_eq_of_mem_set hrule' with hold | rfl
          · exact h.rules rule' hold id' hid'
          · have heq : id' = id := Option.some.inj (hid'.symm.trans hid)
            rw [heq]
            exact hnamed

theorem Known.remove (h : Known names m) (id : ℤ) :
    Renames names names m.ruleStore (m.removeManagedRule refused id).2.ruleStore ∧
      Known names (m.removeManagedRule refused id).2 ∧
        ∀ entry, (m.removeManagedRule refused id).1 = .ok entry → names id = some (subject entry) ∧
          ∀ row ∈ (m.removeManagedRule refused id).2.ruleStore.rows, row.id ≠ id := by
  have hprepared : (m.removeManagedRule refused id).2.Prepared := h.prepared.remove id
  unfold RuleManager.removeManagedRule at *
  cases hfind : m.rules.find? (fun rule => rule.learnedId == some id) with
  | none => exact ⟨.refl h.store, h, nofun⟩
  | some rule =>
    obtain ⟨hmem, hid⟩ := find?_learned hfind
    simp only [hfind] at hprepared ⊢
    cases hremove : m.ruleStore.remove refused id with
    | error e => exact ⟨.refl h.store, h, nofun⟩
    | ok store =>
      rw [hremove] at hprepared
      have hstore : store = { m.ruleStore with rows := m.ruleStore.rows.filter fun row => row.id ≠ id } := by
        unfold RuleStore.remove at hremove
        cases refused with
        | some message => cases hremove
        | none =>
          simp only at hremove
          split_ifs at hremove
          cases hremove
          rfl
      have hr : Renames names names m.ruleStore store := hstore ▸ h.store.filter _
      refine ⟨hr, ⟨hr.named, fun rule' hrule' => h.rules rule' (List.mem_of_mem_eraseIdx hrule'), hprepared⟩, ?_⟩
      rintro entry ⟨⟩
      refine ⟨h.rules rule hmem id hid, fun row hrow => ?_⟩
      rw [hstore] at hrow
      simpa using List.of_mem_filter hrow

theorem Known.addPersistent (h : Known names m) (rule : Rule) :
    ∃ names', Renames names names' m.ruleStore (m.addPersistentRule home ids refused rule).2.ruleStore ∧
      Known names' (m.addPersistentRule home ids refused rule).2 := by
  unfold RuleManager.addPersistentRule
  cases RuleManager.entryOf rule with
  | error e => exact ⟨names, .refl h.store, h⟩
  | ok entry => exact h.add entry

end

/-- What a response says of the ids holds. -/
def Told (names : ℤ → Option (String × String)) (store : RuleStore) (command : ControlCommand) : ControlPayload → Prop
  | .rules rules => ∀ rule ∈ rules, ∀ id, rule.learnedId = some id → names id = some (subject rule.entry)
  | .removed entry => ∃ id, command = .removeRule id ∧ names id = some (subject entry) ∧
      ∀ row ∈ store.rows, row.id ≠ id
  | _ => True

section

variable {names names' : ℤ → Option (String × String)} {store store' : RuleStore} {command : ControlCommand}
  {payload : ControlPayload} {m : RuleManager}

theorem Told.mono (h : Told names store command payload) (hr : Renames names names' store store') :
    Told names' store' command payload := by
  cases payload with
  | rules rules => exact fun rule hrule id hid => hr.kept id _ (h rule hrule id hid)
  | removed entry =>
    obtain ⟨id, hcommand, hname, hgone⟩ := h
    exact ⟨id, hcommand, hr.kept id _ hname, hr.gone id (by rw [hname]; nofun) hgone⟩
  | _ => trivial

theorem map_ok {α : Type} {f : α → ControlPayload} {result : PolicyResult α} (h : result.map f = .ok payload) :
    ∃ a, result = .ok a ∧ f a = payload := by
  cases result with
  | error e => cases h
  | ok a => exact ⟨a, rfl, Except.ok.inj h⟩

theorem Known.execute (h : Known names m) (command : ControlCommand) :
    ∃ names', Renames names names' m.ruleStore (Control.execute ids home m refused command).2.ruleStore ∧
      Known names' (Control.execute ids home m refused command).2 ∧
        ∀ payload, (Control.execute ids home m refused command).1 = .ok payload →
          Told names' (Control.execute ids home m refused command).2.ruleStore command payload := by
  cases command with
  | listRules =>
    refine ⟨names, .refl h.store, h, ?_⟩
    rintro payload ⟨⟩ rule hrule id hid
    obtain ⟨active, hactive, rfl⟩ := List.mem_map.mp hrule
    exact h.rules active hactive id hid
  | addRule entry =>
    obtain ⟨names', hr, hknown⟩ := h.add entry
    refine ⟨names', hr, hknown, fun payload hpayload => ?_⟩
    obtain ⟨added, -, rfl⟩ := map_ok hpayload
    trivial
  | importRules entries =>
    obtain ⟨names', hr, hknown⟩ := h.import entries
    refine ⟨names', hr, hknown, fun payload hpayload => ?_⟩
    obtain ⟨count, -, rfl⟩ := map_ok hpayload
    trivial
  | editRule id action access pin =>
    obtain ⟨hr, hknown⟩ := h.edit id action access pin
    refine ⟨names, hr, hknown, fun payload hpayload => ?_⟩
    obtain ⟨entry, -, rfl⟩ := map_ok hpayload
    trivial
  | removeRule id =>
    obtain ⟨hr, hknown, hremoved⟩ := h.remove id
    refine ⟨names, hr, hknown, fun payload hpayload => ?_⟩
    obtain ⟨entry, hentry, rfl⟩ := map_ok hpayload
    exact ⟨id, rfl, hremoved entry hentry⟩

variable (ids home refused) in
theorem Known.handleConnection (h : Known names m) (uids : Uids) (peerUid : ℕ) (request : ControlRequest) :
    ∃ names', Renames names names' m.ruleStore
        (Control.handleConnection ids uids home m refused peerUid request).2.ruleStore ∧
      Known names' (Control.handleConnection ids uids home m refused peerUid request).2 ∧
        ∀ payload, (Control.handleConnection ids uids home m refused peerUid request).1 = .ok payload →
          Told names' (Control.handleConnection ids uids home m refused peerUid request).2.ruleStore request.command
            payload := by
  unfold Control.handleConnection
  split_ifs
  · exact ⟨names, .refl h.store, h, nofun⟩
  · exact ⟨names, .refl h.store, h, nofun⟩
  · exact ⟨names, .refl h.store, h, nofun⟩
  · obtain ⟨names', hr, hknown, htold⟩ := h.execute request.command
    generalize Control.execute ids home m refused request.command = outcome at hr hknown htold ⊢
    obtain ⟨result, m'⟩ := outcome
    cases result with
    | error message => exact ⟨names', hr, hknown, nofun⟩
    | ok payload =>
      refine ⟨names', hr, hknown, ?_⟩
      rintro payload' ⟨⟩
      exact htold payload rfl

theorem Known.load {launch : Launch} (hsound : Sound store) (hnamed : Named names store)
    (h : launch.load store = .ok m) : m.ruleStore = store ∧ Known names m := by
  obtain ⟨config, -, hnew⟩ := bind_eq_ok.mp h
  obtain ⟨hstore, hloaded⟩ := loaded_new hsound hnew
  have hm : Named names m.ruleStore := hstore ▸ hnamed
  exact ⟨hstore, hm, fun rule hrule id hid => hm.row _ (hloaded.learned rule hrule id hid),
    RuleManager.prepared_new hnew⟩

variable (ids refused) in
theorem executeOffline_told (hsound : Sound store) (hnamed : Named names store) (launch : Launch) (uid : ℕ)
    (command : ControlCommand) :
    ∃ names', Renames names names' store (executeOffline ids launch uid store refused command).2 ∧
      ∀ payload, (executeOffline ids launch uid store refused command).1 = .ok payload →
        Told names' (executeOffline ids launch uid store refused command).2 command payload := by
  unfold executeOffline
  split_ifs
  · exact ⟨names, .refl hnamed, nofun⟩
  · cases hload : launch.load store with
    | error message => exact ⟨names, .refl hnamed, nofun⟩
    | ok m =>
      obtain ⟨rfl, hknown⟩ := Known.load hsound hnamed hload
      obtain ⟨names', hr, -, htold⟩ := hknown.execute command
      exact ⟨names', hr, htold⟩

end

/-- The payload that a client has got. -/
def Stage.payload : Stage → Option ControlPayload
  | .requesting _ (some (.ok payload)) => some payload
  | .done (.ok payload) => some payload
  | _ => none

/-- The turns that execute no command and load no rules. -/
def Turn.Silent {κ : Type} : Turn κ → Prop
  | .start _ | .prompt .. | .serve .. | .offline .. => False
  | _ => True

namespace System

variable {κ : Type} {s s' : System κ} {commands : κ → ControlCommand} {names names' : ℤ → Option (String × String)}

/-- The system as if no command had changed the repository. -/
def uncounted (s : System κ) : System κ := { s with changes := fun _ => 0 }

theorem Lawful.uncounted (h : s.Lawful) : s.uncounted.Lawful :=
  ⟨h.sound, h.lease, h.exclusive, fun c hc => ⟨(h.pending c hc).1, rfl, (h.pending c hc).2.2⟩, h.distinct,
    fun _ _ => rfl, fun _ => Nat.zero_le _⟩

/-- Every response holds, and the rules of the daemon are about what their ids say. -/
structure Honest (commands : κ → ControlCommand) (names : ℤ → Option (String × String)) (s : System κ) : Prop where
  lawful : s.uncounted.Lawful
  command : ∀ c, (s.clients c).command = commands c
  named : Named names s.store
  known : ∀ d, s.daemon = some d → Known names ⟨d.rules, s.store⟩
  told : ∀ c payload, (s.stage c).payload = some payload → Told names s.store (commands c) payload

/-- Nobody learns anything. -/
structure Quiet (s s' : System κ) : Prop where
  store : s'.store = s.store
  daemon : ∀ d', s'.daemon = some d' → ∃ d, s.daemon = some d ∧ d'.rules = d.rules
  command : ∀ c, (s'.clients c).command = (s.clients c).command
  payload : ∀ c payload, (s'.stage c).payload = some payload → (s.stage c).payload = some payload

theorem Quiet.refl (s : System κ) : s.Quiet s := ⟨rfl, fun d hd => ⟨d, hd, rfl⟩, fun _ => rfl, fun _ _ h => h⟩

theorem Honest.quiet (h : s.Honest commands names) (hs' : s.Quiet s') (hlawful : s'.uncounted.Lawful) : s'.Honest commands names where
  lawful := hlawful
  command c := (hs'.command c).trans (h.command c)
  named := hs'.store ▸ h.named
  known d' hd' := by
    obtain ⟨d, hd, hrules⟩ := hs'.daemon d' hd'
    rw [hrules, hs'.store]
    exact h.known d hd
  told c payload hpayload := by
    rw [hs'.store]
    exact h.told c payload (hs'.payload c payload hpayload)

theorem Honest.renames (h : s.Honest commands names) (hr : Renames names names' s.store s'.store)
    (hlawful : s'.uncounted.Lawful) (hknown : ∀ d, s'.daemon = some d → Known names' ⟨d.rules, s'.store⟩)
    (hcommand : ∀ c, (s'.clients c).command = (s.clients c).command)
    (htold : ∀ c payload, (s'.stage c).payload = some payload →
      (s.stage c).payload = some payload ∨ Told names' s'.store (commands c) payload) : s'.Honest commands names' where
  lawful := hlawful
  command c := (hcommand c).trans (h.command c)
  named := hr.named
  known := hknown
  told c payload hpayload :=
    (htold c payload hpayload).elim (fun hheld => (h.told c payload hheld).mono hr) id

theorem honest_launched {store : RuleStore} (hstore : Sound store) (parties : κ → ℕ × ControlCommand) :
    (launched store parties).Honest (fun c => (parties c).2) (naming store) :=
  ⟨(lawful_launched hstore parties).uncounted, fun _ => rfl, named_naming hstore, nofun, nofun⟩

variable [DecidableEq κ] {uids : Uids}

theorem command_setStage (s : System κ) (c c' : κ) (stage : Stage) :
    ((s.setStage c stage).clients c').command = (s.clients c').command := by
  rw [setStage]
  dsimp only
  by_cases h : c' = c
  · rw [h, Function.update_self]
  · rw [Function.update_of_ne h]

theorem Quiet.setStage (s : System κ) (c : κ) {stage : Stage}
    (h : ∀ payload, stage.payload = some payload → (s.stage c).payload = some payload) :
    s.Quiet (s.setStage c stage) where
  store := rfl
  daemon d hd := ⟨d, hd, rfl⟩
  command c' := command_setStage s c c' stage
  payload c' payload hpayload := by
    rw [stage_setStage] at hpayload
    split_ifs at hpayload with heq
    · rw [heq]
      exact h payload hpayload
    · exact hpayload

theorem Quiet.silence (s : System κ) (c : κ) {stage : Stage} (h : stage.payload = none) :
    s.Quiet (s.setStage c stage) :=
  .setStage s c fun payload hpayload => by rw [h] at hpayload; cases hpayload

theorem Quiet.requestFailed (s : System κ) (c : κ) (retries : Bool) (message : String) :
    s.Quiet (s.requestFailed c retries message) := by
  cases retries
  · exact .silence s c rfl
  · exact .silence s c rfl

theorem Quiet.own (s : System κ) (c : κ) : s.Quiet (s.own c) :=
  have h : s.Quiet (s.setStage c .owner) := .silence s c rfl
  ⟨h.store, h.daemon, h.command, h.payload⟩

theorem uncounted_answered (s : System κ) (c : κ) (response : ControlResponse) :
    (s.answered c response).uncounted = s.uncounted.answered c response := by
  have hstage : s.uncounted.stage c = s.stage c := rfl
  rw [answered, answered, hstage]
  split <;> rfl

theorem uncounted_step (s : System κ) (turn : Turn κ) :
    (s.uncounted.step ids uids turn).uncounted = (s.step ids uids turn).uncounted := by
  have hdaemon : s.uncounted.daemon = s.daemon := rfl
  have hfree : s.uncounted.leaseFree = s.leaseFree := rfl
  have hstage (c : κ) : s.uncounted.stage c = s.stage c := rfl
  cases turn with
  | start launch =>
    rw [step, step, hfree]
    split_ifs
    · have hstore : s.uncounted.store = s.store := rfl
      rw [hstore]
      cases launch.load s.store <;> rfl
    · rfl
  | publish =>
    rw [step, step, hdaemon]
    cases s.daemon <;> rfl
  | withdraw =>
    rw [step, step, hdaemon]
    cases s.daemon <;> rfl
  | stop => rfl
  | prompt rule refused =>
    rw [step, step, hdaemon]
    cases s.daemon <;> rfl
  | serve c refused fits =>
    rw [step, step, hdaemon]
    cases s.daemon with
    | none => rfl
    | some d =>
      have hrequests : s.uncounted.requests = s.requests := rfl
      dsimp only
      rw [hrequests]
      split_ifs
      · have hclients : s.uncounted.clients = s.clients := rfl
        have hstore : s.uncounted.store = s.store := rfl
        rw [hclients, hstore]
        generalize handleConnection ids uids d.home ⟨d.rules, s.store⟩ refused (s.clients c).uid
          (.new (s.clients c).command) = outcome
        obtain ⟨response, m⟩ := outcome
        dsimp only
        rw [answered_with, answered_with, uncounted_answered, uncounted_answered]
        rfl
      · rfl
  | drop c => rfl
  | dispatch c =>
    rw [step, step, hstage]
    cases s.stage c <;> rfl
  | send c =>
    have hclients : s.uncounted.clients = s.clients := rfl
    rw [step, step, hstage, hdaemon, hclients]
    split
    · split_ifs <;> rfl
    · rfl
  | receive c =>
    rw [step, step, hstage]
    split <;> rfl
  | fail c message =>
    rw [step, step, hstage]
    split <;> rfl
  | acquire c =>
    rw [step, step, hstage]
    split
    · rw [hfree]
      split_ifs <;> rfl
    · rfl
  | poll c =>
    rw [step, step, hstage]
    split
    · rw [hfree]
      have hsocket : s.uncounted.socket = s.socket := rfl
      rw [hsocket]
      split_ifs <;> rfl
    · rfl
  | offline c launch refused =>
    rw [step, step, hstage]
    split <;> rfl
  | abandon c message =>
    rw [step, step, hstage]
    split <;> rfl

theorem Honest.step_lawful (h : s.Honest commands names) (turn : Turn κ) : (s.step ids uids turn).uncounted.Lawful := by
  rw [← uncounted_step]
  refine (h.lawful.step turn ?_).uncounted
  cases turn with
  | offline c launch refused => exact fun hne => absurd rfl hne
  | _ => trivial

theorem Honest.start (h : s.Honest commands names) (launch : Launch) (d : Daemon)
    (hd : (s.step ids uids (.start launch)).daemon = some d) :
    Known names ⟨d.rules, (s.step ids uids (.start launch)).store⟩ := by
  rw [step] at hd ⊢
  split_ifs at hd ⊢
  · cases hload : launch.load s.store with
    | error message =>
      rw [hload] at hd
      exact h.known d hd
    | ok m =>
      rw [hload] at hd
      obtain ⟨hstore, hknown⟩ := Known.load h.lawful.sound h.named hload
      cases hd
      exact hstore ▸ hknown
  · exact h.known d hd

theorem store_answered (s : System κ) (c : κ) (response : ControlResponse) : (s.answered c response).store = s.store := by
  rw [answered]
  split <;> rfl

theorem command_answered (s : System κ) (c c' : κ) (response : ControlResponse) :
    ((s.answered c response).clients c').command = (s.clients c').command := by
  rw [answered]
  split
  · exact command_setStage s c c' _
  · rfl

theorem payload_answered {c c' : κ} {response : ControlResponse} {payload : ControlPayload}
    (h : ((s.answered c response).stage c').payload = some payload) :
    (s.stage c').payload = some payload ∨ c' = c ∧ response = .ok payload := by
  rw [answered] at h
  split at h
  · rw [stage_setStage] at h
    split_ifs at h with heq
    · cases response with
      | ok payload' =>
        cases h
        exact .inr ⟨heq, rfl⟩
      | error message => cases h
    · exact .inl h
  · exact .inl h

theorem encodeResponse_ok {fits : Bool} {response : ControlResponse} {payload : ControlPayload}
    (h : encodeResponse fits response = .ok payload) : response = .ok payload := by
  cases fits
  · cases h
  · exact h

theorem Honest.serve (h : s.Honest commands names) (c : κ) (refused : Option String) (fits : Bool) :
    ∃ names', Renames names names' s.store (s.step ids uids (.serve c refused fits)).store ∧
      (s.step ids uids (.serve c refused fits)).Honest commands names' := by
  have hlawful : (s.step ids uids (.serve c refused fits)).uncounted.Lawful := h.step_lawful _
  rw [step] at hlawful ⊢
  cases hd : s.daemon with
  | none => exact ⟨names, .refl h.named, h⟩
  | some d =>
    rw [hd] at hlawful
    dsimp only at hlawful ⊢
    by_cases hc : c ∈ s.requests
    · rw [if_pos hc] at hlawful ⊢
      obtain ⟨names', hr, hknown, htold⟩ := (h.known d hd).handleConnection d.home ids refused uids (s.clients c).uid
        (.new (s.clients c).command)
      generalize handleConnection ids uids d.home ⟨d.rules, s.store⟩ refused (s.clients c).uid
        (.new (s.clients c).command) = outcome at hlawful hr hknown htold ⊢
      obtain ⟨response, m⟩ := outcome
      dsimp only at hlawful hr hknown htold ⊢
      have hstore : ((s.commit c m.ruleStore).answered c (encodeResponse fits response)).store = m.ruleStore :=
        store_answered _ c _
      rw [hstore] at hlawful ⊢
      refine ⟨names', hr, h.renames hr hlawful ?_ (fun c' => command_answered (s.commit c m.ruleStore) c c' _) ?_⟩
      · rintro _ ⟨⟩
        exact hknown
      · intro c' payload hpayload
        rcases payload_answered hpayload with hheld | ⟨rfl, hresponse⟩
        · exact .inl hheld
        · rw [← h.command]
          exact .inr (htold payload (encodeResponse_ok hresponse))
    · rw [if_neg hc]
      exact ⟨names, .refl h.named, h⟩

theorem Honest.offline (h : s.Honest commands names) (c : κ) (launch : Launch) (refused : Option String) :
    ∃ names', Renames names names' s.store (s.step ids uids (.offline c launch refused)).store ∧
      (s.step ids uids (.offline c launch refused)).Honest commands names' := by
  have hlawful : (s.step ids uids (.offline c launch refused)).uncounted.Lawful := h.step_lawful _
  rw [step] at hlawful ⊢
  split
  · rename_i howner
    have hdaemon : s.daemon = none := h.lawful.exclusive fun hnone =>
      Option.some_ne_none c ((h.lawful.lease c howner).symm.trans hnone)
    rw [howner] at hlawful
    obtain ⟨names', hr, htold⟩ := executeOffline_told ids refused h.lawful.sound h.named launch (s.clients c).uid
      (s.clients c).command
    have huncounted : s.uncounted.store = s.store := rfl
    rw [huncounted] at hr htold
    generalize executeOffline ids launch (s.clients c).uid s.store refused (s.clients c).command = outcome
      at hlawful hr htold ⊢
    obtain ⟨result, store⟩ := outcome
    refine ⟨names', hr, h.renames hr hlawful ?_ (fun c' => command_setStage (s.commit c store) c c' _) ?_⟩
    · intro d hd
      cases hdaemon.symm.trans hd
    · intro c' payload hpayload
      have hstage : (((s.commit c store).setStage c (.done result)).stage c').payload = some payload := hpayload
      rw [stage_setStage] at hstage
      split_ifs at hstage with heq
      · cases result with
        | error message => cases hstage
        | ok payload' =>
          cases hstage
          rw [heq, ← h.command]
          exact .inr (htold payload rfl)
      · exact .inl hstage
  · exact ⟨names, .refl h.named, h⟩

theorem Honest.prompt (h : s.Honest commands names) (rule : Rule) (refused : Option String) :
    ∃ names', Renames names names' s.store (s.step ids uids (.prompt rule refused)).store ∧
      (s.step ids uids (.prompt rule refused)).Honest commands names' := by
  have hlawful : (s.step ids uids (.prompt rule refused)).uncounted.Lawful := h.step_lawful _
  rw [step] at hlawful ⊢
  cases hd : s.daemon with
  | none => exact ⟨names, .refl h.named, h⟩
  | some d =>
    obtain ⟨names', hr, hknown⟩ := (h.known d hd).addPersistent rule
    rw [hd] at hlawful
    refine ⟨names', hr, h.renames hr hlawful ?_ (fun _ => rfl) (fun _ _ => .inl)⟩
    rintro _ ⟨⟩
    exact hknown

theorem Quiet.receive (s : System κ) (c : κ) : s.Quiet (s.step ids uids (.receive c)) := by
  rw [step]
  split
  · rename_i hstage
    refine .setStage s c fun payload hpayload => ?_
    rw [hstage]
    exact hpayload
  · exact .requestFailed s c _ _
  · exact .refl s

theorem Quiet.step (s : System κ) {turn : Turn κ} (hturn : turn.Silent) : s.Quiet (s.step ids uids turn) := by
  cases turn with
  | start launch => exact hturn.elim
  | publish =>
    rw [System.step]
    cases hd : s.daemon with
    | none => exact .refl s
    | some d =>
      refine ⟨rfl, ?_, fun _ => rfl, fun _ _ h => h⟩
      rintro _ ⟨⟩
      exact ⟨d, hd, rfl⟩
  | withdraw =>
    rw [System.step]
    cases hd : s.daemon with
    | none => exact .refl s
    | some d =>
      refine ⟨rfl, ?_, fun _ => rfl, fun _ _ h => h⟩
      rintro _ ⟨⟩
      exact ⟨d, hd, rfl⟩
  | stop =>
    refine ⟨rfl, ?_, fun _ => rfl, fun _ _ h => h⟩
    rintro _ ⟨⟩
  | prompt rule refused => exact hturn.elim
  | serve c refused fits => exact hturn.elim
  | drop c => exact ⟨rfl, fun d hd => ⟨d, hd, rfl⟩, fun _ => rfl, fun _ _ h => h⟩
  | dispatch c =>
    rw [System.step]
    split
    · split_ifs
      · exact .silence s c rfl
      · exact .silence s c rfl
    · exact .refl s
  | send c =>
    rw [System.step]
    split
    · rename_i retries d hstage hdaemon
      split_ifs
      · have hset : s.Quiet (s.setStage c (.requesting retries none)) := .silence s c rfl
        exact ⟨hset.store, hset.daemon, hset.command, hset.payload⟩
      · exact .refl s
    · exact .refl s
  | receive c => exact .receive s c
  | fail c message =>
    rw [System.step]
    split
    · exact .requestFailed s c _ _
    · exact .requestFailed s c _ _
    · exact .refl s
  | acquire c =>
    rw [System.step]
    split
    · split_ifs
      · exact .own s c
      · exact .silence s c rfl
    · exact .refl s
  | poll c =>
    rw [System.step]
    split
    · split_ifs
      · exact .own s c
      · exact .silence s c rfl
      · exact .refl s
    · exact .refl s
  | offline c launch refused => exact hturn.elim
  | abandon c message =>
    rw [System.step]
    split
    · exact .silence s c rfl
    · exact .silence s c rfl
    · exact .silence s c rfl
    · have hset : s.Quiet (s.setStage c (.done (.error message))) := .silence s c rfl
      exact ⟨hset.store, hset.daemon, hset.command, hset.payload⟩
    · exact .refl s

theorem Honest.step (h : s.Honest commands names) (turn : Turn κ) :
    ∃ names', Renames names names' s.store (s.step ids uids turn).store ∧ (s.step ids uids turn).Honest commands names' := by
  have hlawful : (s.step ids uids turn).uncounted.Lawful := h.step_lawful turn
  have hquiet (hs : s.Quiet (s.step ids uids turn)) : ∃ names', Renames names names' s.store (s.step ids uids turn).store ∧
      (s.step ids uids turn).Honest commands names' := by
    refine ⟨names, ?_, h.quiet hs hlawful⟩
    rw [hs.store]
    exact .refl h.named
  cases turn with
  | start launch =>
    have hstore : (s.step ids uids (.start launch)).store = s.store ∧
        (s.step ids uids (.start launch)).clients = s.clients := by
      rw [System.step]
      split
      · split <;> exact ⟨rfl, rfl⟩
      · exact ⟨rfl, rfl⟩
    have hr : Renames names names s.store (s.step ids uids (.start launch)).store := by
      rw [hstore.1]
      exact .refl h.named
    refine ⟨names, hr, h.renames hr hlawful (h.start launch) (fun c => by rw [hstore.2]) fun c payload hpayload => ?_⟩
    rw [stage, hstore.2] at hpayload
    exact .inl hpayload
  | prompt rule refused => exact h.prompt rule refused
  | serve c refused fits => exact h.serve c refused fits
  | offline c launch refused => exact h.offline c launch refused
  | publish | withdraw | stop | drop | dispatch | send | receive | fail | acquire | poll | abandon =>
    exact hquiet (.step s trivial)

variable (ids uids) in
theorem Honest.run (h : s.Honest commands names) (turns : List (Turn κ)) :
    ∃ names', Renames names names' s.store (s.run ids uids turns).store ∧ (s.run ids uids turns).Honest commands names' := by
  induction turns generalizing s names with
  | nil => exact ⟨names, .refl h.named, h⟩
  | cons turn turns ih =>
    obtain ⟨names₁, h₁, hstep⟩ := h.step turn
    obtain ⟨names₂, h₂, hrun⟩ := ih hstep
    exact ⟨names₂, h₁.trans h₂, hrun⟩

end System

/-- Whatever others do to the rules between a listing and the command that picks a rule by its index in it: the id that
the command sends never comes to mean another rule, and what it removes is the rule that the listing showed, for good. -/
theorem index_names_its_rule {κ : Type} [DecidableEq κ] (ids : IdSource) (uids : Uids) {store : RuleStore} (hstore : Sound store)
    (parties : κ → ℕ × ControlCommand) (turns : List (Turn κ)) (lister : κ) (rules : List ManagedRule) (index : ℕ)
    (id : ℤ) (entry : RuleEntry)
    (hlisted : ((System.launched store parties).run ids uids turns).stage lister = .done (.ok (.rules rules)))
    (hindex : learnedRuleAt rules index = .ok (id, entry)) :
    (∀ row ∈ ((System.launched store parties).run ids uids turns).store.rows, row.id = id →
      row.entry.binary = entry.binary ∧ row.entry.file = entry.file) ∧
      ∀ c removed, (parties c).2 = .removeRule id →
        ((System.launched store parties).run ids uids turns).stage c = .done (.ok (.removed removed)) →
          removed.binary = entry.binary ∧ removed.file = entry.file ∧
            ∀ row ∈ ((System.launched store parties).run ids uids turns).store.rows, row.id ≠ id := by
  obtain ⟨names, -, h⟩ := (System.honest_launched hstore parties).run ids uids turns
  have hname : names id = some (subject entry) := by
    have hrules := h.told lister (.rules rules) (by rw [hlisted]; rfl)
    exact hrules ⟨entry, some id⟩ (learnedRuleAt_ok hindex) id rfl
  refine ⟨fun row hrow hid => ?_, fun c removed hcommand hremoved => ?_⟩
  · have hrow := h.named.row row hrow
    rw [hid, hname] at hrow
    exact (Prod.mk.inj (Option.some.inj hrow)).imp Eq.symm Eq.symm
  · obtain ⟨id', hid', hname', hgone⟩ := h.told c (.removed removed) (by rw [hremoved]; rfl)
    rw [hcommand] at hid'
    cases hid'
    rw [hname] at hname'
    obtain ⟨hbinary, hfile⟩ := Prod.mk.inj (Option.some.inj hname')
    exact ⟨hbinary.symm, hfile.symm, hgone⟩

/-- A rule is added, listed and removed by its index. -/
def exampleIndexed : Fin 3 → ℕ × ControlCommand
  | 0 => (0, .addRule exampleRule)
  | 1 => (0, .listRules)
  | 2 => (0, .removeRule 1)

def indexedTurns : List (Turn (Fin 3)) :=
  [0, 1, 2].flatMap fun c => [.dispatch c, .poll c, .offline c exampleLaunch none]

theorem index_names_its_rule_removed :
    learnedRuleAt [⟨exampleRule, some 1⟩] 0 = .ok (1, exampleRule) ∧
      ∀ row ∈ ((System.launched .empty exampleIndexed).run .autoincrement exampleUids indexedTurns).store.rows,
        row.id ≠ 1 :=
  ⟨rfl, ((index_names_its_rule .autoincrement exampleUids sound_empty exampleIndexed indexedTurns 1
    [⟨exampleRule, some 1⟩] 0 1 exampleRule (by decide +kernel) rfl).2 2 exampleRule rfl (by decide +kernel)).2.2⟩

end FileGuard.Control
