import FileGuard.Policy.RuleManager

namespace FileGuard.Policy

open Store

def StoredRule.managed (row : StoredRule) : ManagedRule := ⟨row.entry, some row.id⟩

namespace RuleManager

/-- The rules in memory are the declared ones and then the rows of the repository in the order of their
ids. -/
structure Agrees (home : PolicyResult (Option Path)) (declared : List ManagedRule) (m : RuleManager) :
    Prop where
  managed : m.managedRules = declared ++ m.ruleStore.rows.map StoredRule.managed
  declarative : ∀ d ∈ declared, d.learnedId = none
  compiled : ∀ a ∈ m.rules, prepareRuleEntry home a.entry = .ok (a.entry, a.compiled)
  ascending : m.ruleStore.rows.Pairwise fun a b => a.id < b.id
  bounded : ∀ row ∈ m.ruleStore.rows, row.id ≤ m.ruleStore.highest
  distinct : (m.ruleStore.rows.map (·.entry)).Nodup
  separate : ∀ row ∈ m.ruleStore.rows, ∀ d ∈ declared, row.entry ≠ d.entry

variable {home : PolicyResult (Option Path)} {ids : IdSource} {declared : List ManagedRule}
  {m m' : RuleManager} {refused : Option String}

theorem mem_managedRules {entry : RuleEntry} {learnedId : Option ℤ} :
    ⟨entry, learnedId⟩ ∈ m.managedRules ↔ ∃ a ∈ m.rules, a.entry = entry ∧ a.learnedId = learnedId := by
  simp [managedRules]

theorem Agrees.mem (h : Agrees home declared m) {entry : RuleEntry} {learnedId : Option ℤ} :
    (∃ a ∈ m.rules, a.entry = entry ∧ a.learnedId = learnedId) ↔
      ⟨entry, learnedId⟩ ∈ declared ∨ ∃ row ∈ m.ruleStore.rows, row.managed = ⟨entry, learnedId⟩ := by
  rw [← mem_managedRules, h.managed, List.mem_append, List.mem_map]

theorem Agrees.holds_iff (h : Agrees home declared m) {entry : RuleEntry} :
    m.holds entry = true ↔ (∃ d ∈ declared, d.entry = entry) ∨ ∃ row ∈ m.ruleStore.rows, row.entry = entry := by
  have hm : m.holds entry = true ↔ ∃ d ∈ m.managedRules, d.entry = entry := by
    simp [holds, managedRules]
  rw [hm, h.managed]
  simp [StoredRule.managed, or_and_right, exists_or]

theorem Agrees.fresh (h : Agrees home declared m) {entry : RuleEntry} (fresh : m.holds entry = false) :
    (∀ d ∈ declared, d.entry ≠ entry) ∧ ∀ row ∈ m.ruleStore.rows, row.entry ≠ entry := by
  have hnot : ¬ m.holds entry = true := by simp [fresh]
  rw [h.holds_iff] at hnot
  push Not at hnot
  exact hnot

theorem Agrees.push (h : Agrees home declared m) {entry : RuleEntry} {compiled : Rule}
    (prepared : prepareRuleEntry home entry = .ok (entry, compiled)) (fresh : m.holds entry = false)
    {id : ℤ} (above : m.ruleStore.highest < id) :
    Agrees home declared ⟨m.rules ++ [⟨entry, compiled, some id⟩],
      ⟨m.ruleStore.rows ++ [⟨id, entry⟩], id⟩⟩ := by
  have hfresh := h.fresh fresh
  refine ⟨?_, h.declarative, ?_, ?_, ?_, ?_, ?_⟩
  · have hm := h.managed
    simp only [managedRules, List.map_append] at hm ⊢
    rw [hm, List.append_assoc]
    rfl
  · exact List.forall_mem_append.mpr ⟨h.compiled, List.forall_mem_singleton.mpr prepared⟩
  · refine List.pairwise_append.mpr ⟨h.ascending, List.pairwise_singleton .., fun row hrow new hnew => ?_⟩
    cases List.mem_singleton.mp hnew
    exact lt_of_le_of_lt (h.bounded row hrow) above
  · refine List.forall_mem_append.mpr ⟨fun row hrow => ?_, List.forall_mem_singleton.mpr le_rfl⟩
    exact le_of_lt (lt_of_le_of_lt (h.bounded row hrow) above)
  · rw [List.map_append, List.nodup_append]
    refine ⟨h.distinct, List.nodup_singleton _, ?_⟩
    simpa using hfresh.2
  · refine List.forall_mem_append.mpr ⟨h.separate, List.forall_mem_singleton.mpr fun d hd => ?_⟩
    exact (hfresh.1 d hd).symm

theorem insertOne_fresh (h : Agrees home declared m) {entry : RuleEntry} (fresh : m.holds entry = false) :
    m.ruleStore.insertOne ids entry =
      (some ⟨ids.next m.ruleStore.highest, entry⟩,
        ⟨m.ruleStore.rows ++ [⟨ids.next m.ruleStore.highest, entry⟩], ids.next m.ruleStore.highest⟩) := by
  have hfresh := h.fresh fresh
  unfold RuleStore.insertOne
  rw [if_neg]
  rw [List.any_eq_true]
  rintro ⟨row, hrow, heq⟩
  exact hfresh.2 row hrow (RuleEntry.toJson_injective (eq_of_beq heq))

theorem insert_fresh (h : Agrees home declared m) {entry : RuleEntry} (fresh : m.holds entry = false) :
    m.ruleStore.insert ids none entry = .ok (some ⟨ids.next m.ruleStore.highest, entry⟩,
      ⟨m.ruleStore.rows ++ [⟨ids.next m.ruleStore.highest, entry⟩], ids.next m.ruleStore.highest⟩) := by
  simp [RuleStore.insert, RuleStore.insertMany, RuleStore.insertAll, insertOne_fresh h fresh, bind, Except.bind]

theorem insertOne_held {entry : RuleEntry}
    (held : ∃ row ∈ m.ruleStore.rows, row.entry = entry) :
    m.ruleStore.insertOne ids entry = (none, m.ruleStore) := by
  obtain ⟨row, hrow, rfl⟩ := held
  have hany : m.ruleStore.rows.any (fun r => r.entry.toJson == row.entry.toJson) = true :=
    List.any_eq_true.mpr ⟨row, hrow, beq_self_eq_true _⟩
  simp [RuleStore.insertOne, hany]

/-- What an accepted or refused call does: an error leaves everything as it was. -/
structure AgreementKept (home : PolicyResult (Option Path)) (declared : List ManagedRule) (m : RuleManager)
    (result : PolicyResult Unit) (m' : RuleManager) : Prop where
  agrees : Agrees home declared m'
  unchanged : ∀ message, result = .error message → m' = m
  /-- an id that is given out is new, and the others stay with their rows -/
  fresh : ∀ row' ∈ m'.ruleStore.rows, (∃ row ∈ m.ruleStore.rows, row.id = row'.id) ∨
    m.ruleStore.highest < row'.id
  highest : m.ruleStore.highest ≤ m'.ruleStore.highest

theorem Agrees.kept (h : Agrees home declared m) (result : PolicyResult Unit) :
    AgreementKept home declared m result m :=
  ⟨h, fun _ _ => rfl, fun row hrow => .inl ⟨row, hrow, rfl⟩, le_rfl⟩

theorem AgreementKept.trans {m₁ m₂ : RuleManager} (h₁ : AgreementKept home declared m (.ok ()) m₁)
    (h₂ : AgreementKept home declared m₁ (.ok ()) m₂) : AgreementKept home declared m (.ok ()) m₂ where
  agrees := h₂.agrees
  unchanged := nofun
  fresh := by
    intro row₂ hrow₂
    rcases h₂.fresh row₂ hrow₂ with ⟨row₁, hrow₁, hid⟩ | habove
    · rw [← hid]
      exact h₁.fresh row₁ hrow₁
    · exact .inr (lt_of_le_of_lt h₁.highest habove)
  highest := h₁.highest.trans h₂.highest

theorem Agrees.pushed (h : Agrees home declared m) {entry : RuleEntry} {compiled : Rule}
    (prepared : prepareRuleEntry home entry = .ok (entry, compiled)) (fresh : m.holds entry = false)
    {id : ℤ} (above : m.ruleStore.highest < id) :
    AgreementKept home declared m (.ok ()) ⟨m.rules ++ [⟨entry, compiled, some id⟩],
      ⟨m.ruleStore.rows ++ [⟨id, entry⟩], id⟩⟩ where
  agrees := h.push prepared fresh above
  unchanged := nofun
  fresh := List.forall_mem_append.mpr ⟨fun row hrow => .inl ⟨row, hrow, rfl⟩,
    List.forall_mem_singleton.mpr (.inr above)⟩
  highest := le_of_lt above

theorem AgreementKept.result {result : PolicyResult Unit} (h : AgreementKept home declared m (.ok ()) m')
    (hok : ∀ message, result ≠ .error message) : AgreementKept home declared m result m' :=
  ⟨h.agrees, fun message he => absurd he (hok message), h.fresh, h.highest⟩

theorem add_kept (h : Agrees home declared m) (entry : RuleEntry) :
    AgreementKept home declared m ((m.addManagedRule home ids refused entry).1.map fun _ => ())
      (m.addManagedRule home ids refused entry).2 := by
  unfold addManagedRule
  cases hp : prepareRuleEntry home entry with
  | error e => exact h.kept _
  | ok prepared =>
    obtain ⟨entry, compiled⟩ := prepared
    have hprepared := (prepareRuleEntry_prepared hp).1
    simp only
    cases hh : m.holds entry with
    | true => exact h.kept _
    | false =>
      simp only [Bool.false_eq_true, ↓reduceIte]
      cases refused with
      | some message => exact h.kept _
      | none =>
        rw [insert_fresh h hh]
        exact (h.pushed hprepared hh (ids.increasing m.ruleStore.highest)).result nofun

/-- The induction is on the entries: each is either the text of a row already or becomes the last row and
the last rule. -/
theorem pushInserted_insertAll (h : Agrees home declared m) {prepared : List (RuleEntry × Rule)}
    (hprepared : ∀ p ∈ prepared, prepareRuleEntry home p.1 = .ok p) (entries : List RuleEntry)
    (hentries : ∀ e ∈ entries, (∃ p ∈ prepared, p.1 = e) ∧ ∀ d ∈ declared, d.entry ≠ e) :
    ∃ rules, pushInserted prepared m.rules (m.ruleStore.insertAll ids entries).1 = (.ok (), rules) ∧
      AgreementKept home declared m (.ok ()) ⟨rules, (m.ruleStore.insertAll ids entries).2⟩ := by
  induction entries generalizing m with
  | nil => exact ⟨m.rules, rfl, h.kept _⟩
  | cons e entries ih =>
    obtain ⟨⟨p, hp, rfl⟩, hdeclared⟩ := hentries e List.mem_cons_self
    have hrest := fun e he => hentries e (List.mem_cons_of_mem _ he)
    by_cases held : ∃ row ∈ m.ruleStore.rows, row.entry = p.1
    · simp only [RuleStore.insertAll, insertOne_held held]
      exact ih h hrest
    · have fresh : m.holds p.1 = false := by
        rw [← Bool.not_eq_true, h.holds_iff]
        rintro (⟨d, hd, heq⟩ | hrow)
        · exact hdeclared d hd heq
        · exact held hrow
      have hstep := h.pushed (hprepared p hp) fresh (ids.increasing m.ruleStore.highest)
      obtain ⟨rules, hpush, hkept⟩ := ih hstep.agrees hrest
      refine ⟨rules, ?_, ?_⟩
      · obtain ⟨q, hq⟩ : ∃ q, prepared.find? (fun q => q.1 == p.1) = some q := by
          rw [← Option.isSome_iff_exists, List.find?_isSome]
          exact ⟨p, hp, beq_self_eq_true _⟩
        have hentry : q.1 = p.1 := by simpa using List.find?_some hq
        have hcompiled : q.2 = p.2 := by
          have hq' := hprepared q (List.mem_of_find?_eq_some hq)
          rw [hentry, hprepared p hp] at hq'
          exact (congrArg Prod.snd (Except.ok.inj hq')).symm
        simp only [RuleStore.insertAll, insertOne_fresh h fresh, Option.toList_some, List.cons_append,
          List.nil_append, pushInserted, hq]
        rw [hcompiled]
        exact hpush
      · simp only [RuleStore.insertAll, insertOne_fresh h fresh]
        exact hstep.trans hkept

theorem mapM_prepared {entries : List RuleEntry} {prepared : List (RuleEntry × Rule)}
    (h : entries.mapM (prepareRuleEntry home) = .ok prepared) :
    ∀ p ∈ prepared, prepareRuleEntry home p.1 = .ok p := by
  induction entries generalizing prepared with
  | nil =>
    cases h
    simp
  | cons e entries ih =>
    rw [List.mapM_cons] at h
    obtain ⟨p, hp, h⟩ := bind_eq_ok.mp h
    obtain ⟨rest, hrest, h⟩ := bind_eq_ok.mp h
    cases h
    exact List.forall_mem_cons.mpr ⟨(prepareRuleEntry_prepared hp).1, ih hrest⟩

theorem import_kept (h : Agrees home declared m) (entries : List RuleEntry) :
    AgreementKept home declared m ((m.importManagedRules home ids refused entries).1.map fun _ => ())
      (m.importManagedRules home ids refused entries).2 := by
  unfold importManagedRules
  cases hp : entries.mapM (prepareRuleEntry home) with
  | error e => exact h.kept _
  | ok prepared =>
    cases refused with
    | some message => exact h.kept _
    | none =>
      have hnew : ∀ e ∈ (prepared.map (·.1)).filter (fun entry => ¬ m.holds entry),
          (∃ p ∈ prepared, p.1 = e) ∧ ∀ d ∈ declared, d.entry ≠ e := by
        intro e he
        obtain ⟨hmem, hfresh⟩ := List.mem_filter.mp he
        exact ⟨List.mem_map.mp hmem, (h.fresh (by simpa using hfresh)).1⟩
      obtain ⟨rules, hpush, hkept⟩ := pushInserted_insertAll h (mapM_prepared hp) _ hnew
      simp only [RuleStore.insertMany]
      rw [hpush]
      exact hkept.result nofun

/-- At most one element satisfies `p`. -/
def AtMostOne {α : Type} (p : α → Bool) (l : List α) : Prop := l.Pairwise fun a b => ¬ (p a = true ∧ p b = true)

theorem set_findIdx {α : Type} {p : α → Bool} {l : List α} (h : AtMostOne p l) (x : α) :
    l.set (l.findIdx p) x = l.map fun a => if p a then x else a := by
  induction l with
  | nil => rfl
  | cons a l ih =>
    obtain ⟨ha, hl⟩ := List.pairwise_cons.mp h
    rw [List.findIdx_cons]
    cases hp : p a with
    | true =>
      have hrest : l.map (fun b => if p b then x else b) = l := by
        refine (List.map_congr_left fun b hb => ?_).trans (List.map_id l)
        simp [show p b = false by simpa [hp] using ha b hb]
      simp [hp, hrest]
    | false => simp [hp, ih hl]

theorem eraseIdx_findIdx {α : Type} {p : α → Bool} {l : List α} (h : AtMostOne p l) :
    l.eraseIdx (l.findIdx p) = l.filter fun a => !p a := by
  induction l with
  | nil => rfl
  | cons a l ih =>
    obtain ⟨ha, hl⟩ := List.pairwise_cons.mp h
    rw [List.findIdx_cons]
    cases hp : p a with
    | true =>
      have hrest : l.filter (fun b => !p b) = l :=
        List.filter_eq_self.mpr fun b hb => by simpa [hp] using ha b hb
      simp [hp, hrest]
    | false => simp [hp, ih hl]

theorem Agrees.atMostOne (h : Agrees home declared m) (id : ℤ) :
    AtMostOne (fun rule : ActiveRule => rule.learnedId == some id) m.rules := by
  have hmanaged : AtMostOne (fun rule : ManagedRule => rule.learnedId == some id) m.managedRules := by
    rw [h.managed]
    refine List.pairwise_append.mpr ⟨?_, List.pairwise_map.mpr ?_, ?_⟩
    · exact List.pairwise_of_forall_mem_list fun a ha b _ => by simp [h.declarative a ha]
    · refine h.ascending.imp fun {a b} hlt => ?_
      simp only [StoredRule.managed, beq_iff_eq, Option.some.injEq]
      omega
    · exact fun a ha b _ => by simp [h.declarative a ha]
  exact List.pairwise_map.mp hmanaged

theorem Agrees.find_learned (h : Agrees home declared m) {id : ℤ} {rule : ActiveRule}
    (hfind : m.rules.find? (fun rule => rule.learnedId == some id) = some rule) :
    rule ∈ m.rules ∧ rule.learnedId = some id ∧ ⟨id, rule.entry⟩ ∈ m.ruleStore.rows := by
  have hmem := List.mem_of_find?_eq_some hfind
  have hid : rule.learnedId = some id := by simpa using List.find?_some hfind
  refine ⟨hmem, hid, ?_⟩
  rcases h.mem.mp ⟨rule, hmem, rfl, hid⟩ with hd | ⟨row, hrow, heq⟩
  · exact absurd (h.declarative _ hd) nofun
  · simp only [StoredRule.managed, ManagedRule.mk.injEq, Option.some.injEq] at heq
    rw [← heq.1, ← heq.2]
    exact hrow

theorem replaced_id (id : ℤ) (entry : RuleEntry) (row : StoredRule) :
    (if row.id = id then (⟨id, entry⟩ : StoredRule) else row).id = row.id := by
  split_ifs with hr
  · exact hr.symm
  · rfl

theorem Agrees.replace (h : Agrees home declared m) {id : ℤ} {entry : RuleEntry} {compiled : Rule}
    (prepared : prepareRuleEntry home entry = .ok (entry, compiled))
    (fresh : ∀ a ∈ m.rules, a.learnedId ≠ some id → a.entry ≠ entry) :
    Agrees home declared ⟨m.rules.map fun a => if a.learnedId == some id then ⟨entry, compiled, some id⟩ else a,
      { m.ruleStore with rows := m.ruleStore.rows.map fun row => if row.id = id then ⟨id, entry⟩ else row }⟩ := by
  have hdeclared : ∀ d ∈ declared, d.entry ≠ entry := fun d hd => by
    have hmem : ⟨d.entry, d.learnedId⟩ ∈ declared := hd
    obtain ⟨a, ha, hentry, hid⟩ := h.mem.mpr (.inl hmem)
    rw [← hentry]
    exact fresh a ha (by simp [hid, h.declarative d hd])
  have hrows : ∀ row ∈ m.ruleStore.rows, row.id ≠ id → row.entry ≠ entry := fun row hrow hne => by
    obtain ⟨a, ha, hentry, hid⟩ := h.mem.mpr (.inr ⟨row, hrow, rfl⟩)
    rw [← hentry]
    exact fresh a ha (by simpa [hid] using hne)
  refine ⟨?_, h.declarative, ?_, ?_, ?_, ?_, ?_⟩
  · have hmap : (m.rules.map fun a => if a.learnedId == some id then (⟨entry, compiled, some id⟩ : ActiveRule)
        else a).map (fun a => (⟨a.entry, a.learnedId⟩ : ManagedRule)) =
        m.managedRules.map fun d => if d.learnedId == some id then ⟨entry, some id⟩ else d := by
      simp only [managedRules, List.map_map]
      refine List.map_congr_left fun a _ => ?_
      simp only [Function.comp_apply]
      split_ifs <;> rfl
    rw [managedRules, hmap, h.managed, List.map_append, List.map_map, List.map_map]
    congr 1
    · refine (List.map_congr_left fun d hd => ?_).trans (List.map_id _)
      simp [h.declarative d hd]
    · refine List.map_congr_left fun row _ => ?_
      simp only [Function.comp_apply, StoredRule.managed, beq_iff_eq, Option.some.injEq]
      split_ifs <;> rfl
  · intro a ha
    obtain ⟨b, hb, rfl⟩ := List.mem_map.mp ha
    split_ifs
    · exact prepared
    · exact h.compiled b hb
  · refine List.pairwise_map.mpr (h.ascending.imp fun {a b} hlt => ?_)
    rwa [replaced_id, replaced_id]
  · intro row hrow
    obtain ⟨old, hold, rfl⟩ := List.mem_map.mp hrow
    rw [replaced_id]
    exact h.bounded old hold
  · rw [List.map_map, List.Nodup, List.pairwise_map]
    refine (h.ascending.and (List.pairwise_map.mp h.distinct)).imp_of_mem fun {a b} ha hb hab => ?_
    simp only [Function.comp_apply]
    split_ifs with ha' hb' hb'
    · omega
    · exact (hrows b hb hb').symm
    · exact hrows a ha ha'
    · exact hab.2
  · intro row hrow d hd
    obtain ⟨old, hold, rfl⟩ := List.mem_map.mp hrow
    split_ifs
    · exact (hdeclared d hd).symm
    · exact h.separate old hold d hd

theorem edit_kept (h : Agrees home declared m) (id : ℤ) (action : Option RuleAction) (access : Option Access)
    (pin : RulePinUpdate) :
    AgreementKept home declared m ((m.editManagedRule home refused id action access pin).1.map fun _ => ())
      (m.editManagedRule home refused id action access pin).2 := by
  unfold editManagedRule
  cases hfind : m.rules.find? (fun rule => rule.learnedId == some id) with
  | none => exact h.kept _
  | some rule =>
    obtain ⟨hrule, hid, hrow⟩ := h.find_learned hfind
    simp only
    cases hp : prepareRuleEntry home (applyRuleEdit rule.entry action access pin) with
    | error e => exact h.kept _
    | ok prepared =>
      obtain ⟨entry, compiled⟩ := prepared
      simp only
      split_ifs with hany
      · exact h.kept _
      · have fresh : ∀ a ∈ m.rules, a.learnedId ≠ some id → a.entry ≠ entry := by
          simpa using hany
        cases hr : m.ruleStore.replace refused id entry with
        | error e => exact h.kept _
        | ok ruleStore =>
          have hstore : ruleStore = { m.ruleStore with
              rows := m.ruleStore.rows.map fun row => if row.id = id then ⟨id, entry⟩ else row } := by
            unfold RuleStore.replace at hr
            cases refused with
            | some message => cases hr
            | none =>
              simp only at hr
              split_ifs at hr
              cases hr
              rfl
          subst hstore
          have hset : { rule with entry := entry, compiled := compiled } =
              (⟨entry, compiled, some id⟩ : ActiveRule) := by rw [← hid]
          simp only [set_findIdx (h.atMostOne id), hset]
          refine ⟨h.replace (prepareRuleEntry_prepared hp).1 fresh, nofun, fun row hrow => ?_, le_rfl⟩
          obtain ⟨old, hold, rfl⟩ := List.mem_map.mp hrow
          refine .inl ⟨old, hold, ?_⟩
          split_ifs with ho
          · exact ho
          · rfl

theorem Agrees.filter (h : Agrees home declared m) (id : ℤ) :
    Agrees home declared ⟨m.rules.filter fun a => !(a.learnedId == some id),
      { m.ruleStore with rows := m.ruleStore.rows.filter fun row => row.id ≠ id }⟩ := by
  refine ⟨?_, h.declarative, fun a ha => h.compiled a (List.mem_of_mem_filter ha),
    h.ascending.sublist List.filter_sublist, fun row hrow => h.bounded row (List.mem_of_mem_filter hrow),
    h.distinct.sublist (List.filter_sublist.map _),
    fun row hrow => h.separate row (List.mem_of_mem_filter hrow)⟩
  have hmap : (m.rules.filter fun a => !(a.learnedId == some id)).map
      (fun a => (⟨a.entry, a.learnedId⟩ : ManagedRule)) =
      m.managedRules.filter fun d => !(d.learnedId == some id) := by
    rw [managedRules, List.filter_map]
    rfl
  rw [managedRules, hmap, h.managed, List.filter_append, List.filter_map]
  congr 1
  · exact List.filter_eq_self.mpr fun d hd => by simp [h.declarative d hd]
  · congr 1
    refine List.filter_congr fun row _ => ?_
    simp [StoredRule.managed, beq_eq_decide]

theorem remove_kept (refused : Option String) (h : Agrees home declared m) (id : ℤ) :
    AgreementKept home declared m ((m.removeManagedRule refused id).1.map fun _ => ())
        (m.removeManagedRule refused id).2 ∧
      ((∃ entry, (m.removeManagedRule refused id).1 = .ok entry) →
        (∀ row ∈ (m.removeManagedRule refused id).2.ruleStore.rows, row.id ≠ id) ∧
          id ≤ (m.removeManagedRule refused id).2.ruleStore.highest) := by
  unfold removeManagedRule
  cases hfind : m.rules.find? (fun rule => rule.learnedId == some id) with
  | none => exact ⟨h.kept _, fun ⟨_, he⟩ => nomatch he⟩
  | some rule =>
    obtain ⟨-, -, hrow⟩ := h.find_learned hfind
    simp only
    cases hr : m.ruleStore.remove refused id with
    | error e => exact ⟨h.kept _, fun ⟨_, he⟩ => nomatch he⟩
    | ok ruleStore =>
      have hstore : ruleStore =
          { m.ruleStore with rows := m.ruleStore.rows.filter fun row => row.id ≠ id } := by
        unfold RuleStore.remove at hr
        cases refused with
        | some message => cases hr
        | none =>
          simp only at hr
          split_ifs at hr
          cases hr
          rfl
      subst hstore
      simp only [eraseIdx_findIdx (h.atMostOne id)]
      refine ⟨⟨h.filter id, nofun, fun row hrow => ?_, le_rfl⟩, fun _ => ⟨fun row hrow => ?_, ?_⟩⟩
      · exact .inl ⟨row, List.mem_of_mem_filter hrow, rfl⟩
      · simpa using (List.mem_filter.mp hrow).2
      · exact h.bounded _ hrow

theorem step_kept (h : Agrees home declared m) (call : Call) :
    AgreementKept home declared m (m.step home ids refused call).1 (m.step home ids refused call).2 := by
  cases call with
  | add entry => exact add_kept h entry
  | «import» entries => exact import_kept h entries
  | edit id action access pin => exact edit_kept h id action access pin
  | remove id => exact (remove_kept refused h id).1
  | addPersistent rule =>
    simp only [step, addPersistentRule]
    cases entryOf rule with
    | error e => exact h.kept _
    | ok entry => exact add_kept h entry

theorem run_agrees (h : Agrees home declared m) (calls : List (Option String × Call)) :
    Agrees home declared (m.run home ids calls) := by
  induction calls generalizing m with
  | nil => exact h
  | cons call calls ih => exact ih (step_kept h call.2).agrees

theorem run_retired (h : Agrees home declared m) {id : ℤ} (hid : ∀ row ∈ m.ruleStore.rows, row.id ≠ id)
    (hbelow : id ≤ m.ruleStore.highest) (calls : List (Option String × Call)) :
    ∀ row ∈ (m.run home ids calls).ruleStore.rows, row.id ≠ id := by
  induction calls generalizing m with
  | nil => exact hid
  | cons call calls ih =>
    have hkept : AgreementKept home declared m _ (m.step home ids call.1 call.2).2 := step_kept h call.2
    refine ih hkept.agrees (fun row hrow heq => ?_) (hbelow.trans hkept.highest)
    rcases hkept.fresh row hrow with ⟨old, hold, hsame⟩ | habove
    · exact hid old hold (hsame.trans heq)
    · omega

theorem mapM_activate {α : Type} (l : List α) (learnedId : α → Option ℤ) (entry : α → RuleEntry)
    (rules : List ActiveRule)
    (h : l.mapM (fun x => activate home (learnedId x) (entry x)) = .ok rules) :
    rules.map (·.learnedId) = l.map learnedId ∧
      ∀ a ∈ rules, prepareRuleEntry home a.entry = .ok (a.entry, a.compiled) := by
  induction l generalizing rules with
  | nil => cases h; simp
  | cons x l ih =>
    rw [List.mapM_cons] at h
    obtain ⟨a, ha, h⟩ := bind_eq_ok.mp h
    obtain ⟨rest, hrest, h⟩ := bind_eq_ok.mp h
    cases h
    obtain ⟨hids, hcompiled⟩ := ih rest hrest
    unfold activate at ha
    obtain ⟨⟨e, compiled⟩, hp, ha⟩ := bind_eq_ok.mp ha
    cases ha
    exact ⟨by simp [hids], List.forall_mem_cons.mpr ⟨(prepareRuleEntry_prepared hp).1, hcompiled⟩⟩

theorem mapM_activate_eq {α : Type} (l : List α) (learnedId : α → Option ℤ) (entry : α → RuleEntry)
    (rules : List ActiveRule)
    (hrules : rules.map (fun a => (a.entry, a.learnedId)) = l.map fun x => (entry x, learnedId x))
    (hcompiled : ∀ a ∈ rules, prepareRuleEntry home a.entry = .ok (a.entry, a.compiled)) :
    l.mapM (fun x => activate home (learnedId x) (entry x)) = .ok rules := by
  induction l generalizing rules with
  | nil =>
    cases List.map_eq_nil_iff.mp hrules
    rfl
  | cons x l ih =>
    cases rules with
    | nil => cases hrules
    | cons a rules =>
      simp only [List.map_cons, List.cons.injEq, Prod.mk.injEq] at hrules
      obtain ⟨⟨hentry, hid⟩, hrest⟩ := hrules
      obtain ⟨ha, hrules'⟩ := List.forall_mem_cons.mp hcompiled
      have hactivate : activate home (learnedId x) (entry x) = .ok a := by
        rw [activate, ← hentry, ha, ← hid]
        rfl
      rw [List.mapM_cons]
      exact bind_eq_ok.mpr ⟨a, hactivate, bind_eq_ok.mpr ⟨rules, ih rules hrest hrules', rfl⟩⟩

theorem new_agrees {config : List RuleEntry} (hnew : new home config .empty none = .ok m) :
    Agrees home m.managedRules m ∧ m.ruleStore = .empty ∧ config.mapM (activate home none) = .ok m.rules := by
  unfold new at hnew
  obtain ⟨rules, hrules, hnew⟩ := bind_eq_ok.mp hnew
  obtain ⟨stored, hstored, hnew⟩ := bind_eq_ok.mp hnew
  cases hstored
  obtain ⟨learned, hlearned, hnew⟩ := bind_eq_ok.mp hnew
  cases hlearned
  cases hnew
  obtain ⟨hids, hcompiled⟩ := mapM_activate config (fun _ => none) id rules hrules
  rw [List.reverse_nil, List.append_nil]
  refine ⟨⟨?_, ?_, hcompiled, List.Pairwise.nil, nofun, List.nodup_nil, nofun⟩, rfl, hrules⟩
  · simp [RuleStore.empty]
  · intro d hd
    obtain ⟨a, ha, rfl⟩ := List.mem_map.mp hd
    have hmem : a.learnedId ∈ config.map fun _ => (none : Option ℤ) := hids ▸ List.mem_map_of_mem ha
    exact (List.mem_map.mp hmem).elim fun _ h => h.2.symm

theorem Agrees.list (h : Agrees home declared m) : m.ruleStore.list none = .ok m.ruleStore.rows := by
  rw [RuleStore.list]
  congr 1
  exact (h.ascending.imp fun {a b} hlt => le_of_lt hlt).insertionSort_eq

theorem rules_ext {rules rules' : List ActiveRule}
    (hmap : rules.map (fun a => (⟨a.entry, a.learnedId⟩ : ManagedRule)) =
      rules'.map fun a => ⟨a.entry, a.learnedId⟩)
    (h : ∀ a ∈ rules, prepareRuleEntry home a.entry = .ok (a.entry, a.compiled))
    (h' : ∀ a ∈ rules', prepareRuleEntry home a.entry = .ok (a.entry, a.compiled)) : rules = rules' := by
  induction rules generalizing rules' with
  | nil => exact (List.map_eq_nil_iff.mp hmap.symm).symm
  | cons a rules ih =>
    cases rules' with
    | nil => cases hmap
    | cons a' rules' =>
      simp only [List.map_cons, List.cons.injEq, ManagedRule.mk.injEq] at hmap
      obtain ⟨⟨hentry, hid⟩, hrest⟩ := hmap
      obtain ⟨ha, hrules⟩ := List.forall_mem_cons.mp h
      obtain ⟨ha', hrules'⟩ := List.forall_mem_cons.mp h'
      have hcompiled : a.compiled = a'.compiled := by
        rw [← hentry, ha] at ha'
        exact congrArg Prod.snd (Except.ok.inj ha')
      rw [ih hrest hrules hrules']
      congr 1
      cases a
      cases a'
      simp_all

/-- A manager that started from the configuration, beside its repository. -/
structure Faithful (home : PolicyResult (Option Path)) (config : List RuleEntry) (start m : RuleManager)
    (listing : List StoredRule) : Prop where
  listed : m.ruleStore.list none = .ok listing
  learned : m.managedRules = start.managedRules ++ listing.map StoredRule.managed
  declarative : ∀ d ∈ start.managedRules, d.learnedId = none
  compiled : ∀ a ∈ m.rules, ruleFromEntry home a.entry = .ok a.compiled
  ascending : listing.Pairwise fun a b => a.id < b.id
  distinct : (listing.map (·.entry)).Nodup
  separate : ∀ row ∈ listing, ∀ d ∈ start.managedRules, row.entry ≠ d.entry
  restart : new home config m.ruleStore none = .ok m

theorem Agrees.faithful {config : List RuleEntry} {start : RuleManager}
    (hconfig : config.mapM (activate home none) = .ok start.rules)
    (hstart : ∀ a ∈ start.rules, prepareRuleEntry home a.entry = .ok (a.entry, a.compiled))
    (h : Agrees home start.managedRules m) : Faithful home config start m m.ruleStore.rows := by
  refine ⟨h.list, h.managed, h.declarative, fun a ha => (prepareRuleEntry_prepared (h.compiled a ha)).2,
    h.ascending, h.distinct, h.separate, ?_⟩
  have hmanaged := h.managed
  rw [managedRules, managedRules, List.map_eq_append_iff] at hmanaged
  obtain ⟨rules, learned, hsplit, hrules, hlearned⟩ := hmanaged
  have hcompiled := List.forall_mem_append.mp (hsplit ▸ h.compiled)
  cases rules_ext hrules hcompiled.1 hstart
  have hrows : m.ruleStore.rows.mapM (fun row => activate home (some row.id) row.entry) = .ok learned := by
    refine mapM_activate_eq _ (fun row : StoredRule => some row.id) (·.entry) learned ?_ hcompiled.2
    have hpairs := congrArg (List.map fun d : ManagedRule => (d.entry, d.learnedId)) hlearned
    simpa only [List.map_map, Function.comp_def, StoredRule.managed] using hpairs
  refine bind_eq_ok.mpr ⟨start.rules, hconfig, bind_eq_ok.mpr ⟨_, h.list, ?_⟩⟩
  refine bind_eq_ok.mpr ⟨learned, hrows, ?_⟩
  rw [← hsplit]

/-- Memory, repository and restart agree on the learned rules after every run of calls, a call that fails
changes neither, and an id that was removed never comes back. -/
theorem rules_agree {config : List RuleEntry} {start : RuleManager}
    (hnew : new home config .empty none = .ok start) (calls : List (Option String × Call)) :
    (∃ listing, Faithful home config start (start.run home ids calls) listing) ∧
      (∀ refused call message, ((start.run home ids calls).step home ids refused call).1 = .error message →
        ((start.run home ids calls).step home ids refused call).2 = start.run home ids calls) ∧
      ∀ refused id later, (∃ entry, ((start.run home ids calls).removeManagedRule refused id).1 = .ok entry) →
        ∀ rule ∈ (((start.run home ids calls).removeManagedRule refused id).2.run home ids later).rules,
          rule.learnedId ≠ some id := by
  obtain ⟨hagrees, -, hconfig⟩ := new_agrees hnew
  have h : Agrees home start.managedRules (start.run home ids calls) := run_agrees hagrees calls
  refine ⟨⟨_, h.faithful hconfig hagrees.compiled⟩, fun refused call => (step_kept h call).unchanged,
    fun refused id later hok rule hrule hid => ?_⟩
  obtain ⟨hkept, hremoved⟩ := remove_kept refused h id
  obtain ⟨hgone, hbelow⟩ := hremoved hok
  have hlater : Agrees home start.managedRules (((start.run home ids calls).removeManagedRule refused id).2.run
    home ids later) := run_agrees hkept.agrees later
  rcases hlater.mem.mp ⟨rule, hrule, rfl, hid⟩ with hd | ⟨row, hrow, heq⟩
  · exact absurd (hlater.declarative _ hd) nofun
  · simp only [StoredRule.managed, ManagedRule.mk.injEq, Option.some.injEq] at heq
    exact run_retired hkept.agrees hgone hbelow later row hrow heq.2

/-- A learned rule for a second file survives the removal of a learned rule for a third. -/
theorem rules_agree_add_remove :
    let entry (file : String) : RuleEntry := ⟨file, "/bin/b", .allow, .read, none, none, none⟩
    let home : PolicyResult (Option Path) := .ok (some (utf8 "/home/u"))
    ∃ start listing, Faithful home [entry "/a"] start (start.run home .autoincrement
        [(none, .add (entry "~/x/../b")), (none, .add (entry "/c")), (none, .remove 2)]) listing ∧
      listing = [⟨1, entry "/home/u/b"⟩] := by
  intro entry home
  let rule : Rule := ⟨utf8 "/a", utf8 "/bin/b", .allow, .read, .unpinned, none⟩
  have hnew : new home [entry "/a"] .empty none = .ok ⟨[⟨entry "/a", rule, none⟩], .empty⟩ := by
    decide +kernel
  obtain ⟨⟨listing, h⟩, -⟩ := @rules_agree _ .autoincrement _ _ hnew
    [(none, .add (entry "~/x/../b")), (none, .add (entry "/c")), (none, .remove 2)]
  refine ⟨_, listing, h, ?_⟩
  have hlisted := h.listed
  have hrows : (run home .autoincrement ⟨[⟨entry "/a", rule, none⟩], .empty⟩
      [(none, .add (entry "~/x/../b")), (none, .add (entry "/c")), (none, .remove 2)]).ruleStore.list none =
      .ok [⟨1, entry "/home/u/b"⟩] := by decide +kernel
  exact (Except.ok.inj (hlisted.symm.trans hrows))

end RuleManager

end FileGuard.Policy
