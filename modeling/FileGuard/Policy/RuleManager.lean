import FileGuard.Policy.Prepare
import Mathlib.Data.List.Sort

namespace FileGuard.Policy

structure StoredRule where
  id : ℤ
  entry : RuleEntry
  deriving DecidableEq

/-- How the repository numbers its rows: each id is above every id it has ever given out. The ids of any run are those
of some source, for its highest id only grows. -/
structure IdSource where
  next : ℤ → ℤ
  increasing : ∀ highest, highest < next highest

/-- The ids of a run without duplicates. SQLite passes over an id for every duplicate that it ignores. -/
def IdSource.autoincrement : IdSource := ⟨(· + 1), fun highest => by omega⟩

/-- The table `learned_rules`; the entry of a row stands for the JSON text it is stored as. -/
structure RuleStore where
  rows : List StoredRule
  highest : ℤ
  deriving DecidableEq

namespace RuleStore

def empty : RuleStore := ⟨[], 0⟩

/-- Every call may fail as `refused` says, and then changes nothing. -/
def list (store : RuleStore) (refused : Option String) : PolicyResult (List StoredRule) :=
  match refused with
  | some message => .error message
  | none => .ok (store.rows.insertionSort fun a b => a.id ≤ b.id)

/-- `INSERT OR IGNORE`: a row with the same text stays the only one. -/
def insertOne (ids : IdSource) (store : RuleStore) (entry : RuleEntry) : Option StoredRule × RuleStore :=
  if store.rows.any (fun row => row.entry.toJson == entry.toJson) then (none, store)
  else
    let id := ids.next store.highest
    (some ⟨id, entry⟩, ⟨store.rows ++ [⟨id, entry⟩], id⟩)

def insertAll (ids : IdSource) (store : RuleStore) : List RuleEntry → List StoredRule × RuleStore
  | [] => ([], store)
  | entry :: entries =>
    let (stored, store) := store.insertOne ids entry
    let (rest, store) := insertAll ids store entries
    (stored.toList ++ rest, store)

def insertMany (ids : IdSource) (store : RuleStore) (refused : Option String) (entries : List RuleEntry) :
    PolicyResult (List StoredRule × RuleStore) :=
  match refused with
  | some message => .error message
  | none => .ok (store.insertAll ids entries)

def insert (ids : IdSource) (store : RuleStore) (refused : Option String) (entry : RuleEntry) :
    PolicyResult (Option StoredRule × RuleStore) := do
  let (inserted, store) ← store.insertMany ids refused [entry]
  .ok (inserted.getLast?, store)

def replace (store : RuleStore) (refused : Option String) (id : ℤ) (entry : RuleEntry) :
    PolicyResult RuleStore :=
  match refused with
  | some message => .error message
  | none =>
    if store.rows.any (·.id == id) = false then .error s!"learned rule {id} does not exist"
    else if store.rows.any (fun row => row.id ≠ id ∧ row.entry.toJson = entry.toJson) then
      .error "UNIQUE constraint failed: learned_rules.entry_json"
    else .ok { store with rows := store.rows.map fun row => if row.id = id then ⟨id, entry⟩ else row }

def remove (store : RuleStore) (refused : Option String) (id : ℤ) : PolicyResult RuleStore :=
  match refused with
  | some message => .error message
  | none =>
    if store.rows.any (·.id == id) = false then .error s!"learned rule {id} does not exist"
    else .ok { store with rows := store.rows.filter fun row => row.id ≠ id }

end RuleStore

structure ActiveRule where
  entry : RuleEntry
  compiled : Rule
  learnedId : Option ℤ
  deriving DecidableEq

structure ManagedRule where
  entry : RuleEntry
  learnedId : Option ℤ
  deriving DecidableEq

inductive RulePinUpdate where
  | keep
  | repin (sha256 : String)
  | unpin

def applyRuleEdit (entry : RuleEntry) (action : Option RuleAction) (access : Option Access)
    (pin : RulePinUpdate) : RuleEntry :=
  let entry := { entry with action := action.getD entry.action, access := access.getD entry.access }
  match pin with
  | .keep => entry
  | .repin sha256 => { entry with sha256 := some sha256 }
  | .unpin => { entry with sha256 := none, scriptSha256 := none }

/-- The active rules in memory and the repository behind them. -/
structure RuleManager where
  rules : List ActiveRule
  ruleStore : RuleStore
  deriving DecidableEq

def IdentityPin.hash : IdentityPin → Option String
  | .sha256 value => some value
  | .unpinned => none

def Action.entryAction : Action → RuleAction
  | .allow => .allow
  | .deny => .deny

namespace RuleManager

variable (home : PolicyResult (Option Store.Path)) (ids : IdSource)

def activate (learnedId : Option ℤ) (entry : RuleEntry) : PolicyResult ActiveRule := do
  let (entry, compiled) ← prepareRuleEntry home entry
  .ok ⟨entry, compiled, learnedId⟩

/-- `RuleManager::new`, for the rules of a configuration. -/
def new (config : List RuleEntry) (ruleStore : RuleStore) (refused : Option String) :
    PolicyResult RuleManager := do
  let rules ← config.mapM (activate home none)
  let stored ← ruleStore.list refused
  let learned ← stored.mapM fun stored => activate home (some stored.id) stored.entry
  .ok ⟨rules ++ learned, ruleStore⟩

def managedRules (m : RuleManager) : List ManagedRule :=
  m.rules.map fun rule => ⟨rule.entry, rule.learnedId⟩

def holds (m : RuleManager) (entry : RuleEntry) : Bool := m.rules.any fun active => active.entry == entry

def addManagedRule (m : RuleManager) (refused : Option String) (entry : RuleEntry) :
    PolicyResult Bool × RuleManager :=
  match prepareRuleEntry home entry with
  | .error e => (.error e, m)
  | .ok (entry, compiled) =>
    if m.holds entry then (.ok false, m)
    else match m.ruleStore.insert ids refused entry with
      | .error e => (.error e, m)
      | .ok (none, ruleStore) => (.ok false, { m with ruleStore := ruleStore })
      | .ok (some stored, ruleStore) =>
        (.ok true, ⟨m.rules ++ [⟨entry, compiled, some stored.id⟩], ruleStore⟩)

/-- The loop over the rows the repository has inserted. -/
def pushInserted (prepared : List (RuleEntry × Rule)) (rules : List ActiveRule) :
    List StoredRule → PolicyResult Unit × List ActiveRule
  | [] => (.ok (), rules)
  | stored :: rest => match prepared.find? (fun p => p.1 == stored.entry) with
    | none => (.error "rule repository returned an unknown rule", rules)
    | some (_, compiled) => pushInserted prepared (rules ++ [⟨stored.entry, compiled, some stored.id⟩]) rest

def importManagedRules (m : RuleManager) (refused : Option String) (entries : List RuleEntry) :
    PolicyResult ℕ × RuleManager :=
  match entries.mapM (prepareRuleEntry home) with
  | .error e => (.error e, m)
  | .ok prepared =>
    let newEntries := (prepared.map (·.1)).filter fun entry => ¬ m.holds entry
    match m.ruleStore.insertMany ids refused newEntries with
    | .error e => (.error e, m)
    | .ok (inserted, ruleStore) =>
      let (result, rules) := pushInserted prepared m.rules inserted
      (result.map fun () => inserted.length, ⟨rules, ruleStore⟩)

def editManagedRule (m : RuleManager) (refused : Option String) (id : ℤ) (action : Option RuleAction)
    (access : Option Access) (pin : RulePinUpdate) : PolicyResult RuleEntry × RuleManager :=
  match m.rules.find? (fun rule => rule.learnedId == some id) with
  | none => (.error s!"learned rule {id} is not active", m)
  | some rule => match prepareRuleEntry home (applyRuleEdit rule.entry action access pin) with
    | .error e => (.error e, m)
    | .ok (entry, compiled) =>
      if m.rules.any (fun active => active.learnedId ≠ some id ∧ active.entry = entry) then
        (.error "an identical rule already exists", m)
      else match m.ruleStore.replace refused id entry with
        | .error e => (.error e, m)
        | .ok ruleStore =>
          let index := m.rules.findIdx fun rule => rule.learnedId == some id
          (.ok entry, ⟨m.rules.set index { rule with entry := entry, compiled := compiled }, ruleStore⟩)

def removeManagedRule (m : RuleManager) (refused : Option String) (id : ℤ) :
    PolicyResult RuleEntry × RuleManager :=
  match m.rules.find? (fun rule => rule.learnedId == some id) with
  | none => (.error s!"learned rule {id} is not active", m)
  | some rule => match m.ruleStore.remove refused id with
    | .error e => (.error e, m)
    | .ok ruleStore =>
      let index := m.rules.findIdx fun rule => rule.learnedId == some id
      (.ok rule.entry, ⟨m.rules.eraseIdx index, ruleStore⟩)

/-- The entry under which a rule made by a prompt is stored. -/
def entryOf (rule : Rule) : PolicyResult RuleEntry := do
  let file ← (toStr rule.file).elim (.error "rule file path must be valid UTF-8") .ok
  let binary ← (toStr rule.binary).elim (.error "rule binary path must be valid UTF-8") .ok
  .ok {
    file := file
    binary := binary
    action := rule.action.entryAction
    access := rule.access
    sha256 := rule.identity.hash
    script := rule.script.map (·.path)
    scriptSha256 := rule.script.bind (·.pin.hash) }

def addPersistentRule (m : RuleManager) (refused : Option String) (rule : Rule) :
    PolicyResult Unit × RuleManager :=
  match entryOf rule with
  | .error e => (.error e, m)
  | .ok entry =>
    let (result, m) := m.addManagedRule home ids refused entry
    (result.map fun _ => (), m)

inductive Call where
  | add (entry : RuleEntry)
  | import (entries : List RuleEntry)
  | edit (id : ℤ) (action : Option RuleAction) (access : Option Access) (pin : RulePinUpdate)
  | remove (id : ℤ)
  | addPersistent (rule : Rule)

/-- One call; `refused` is the message of the repository where its part of the call fails. -/
def step (m : RuleManager) (refused : Option String) : Call → PolicyResult Unit × RuleManager
  | .add entry =>
    let (result, m) := m.addManagedRule home ids refused entry
    (result.map fun _ => (), m)
  | .import entries =>
    let (result, m) := m.importManagedRules home ids refused entries
    (result.map fun _ => (), m)
  | .edit id action access pin =>
    let (result, m) := m.editManagedRule home refused id action access pin
    (result.map fun _ => (), m)
  | .remove id =>
    let (result, m) := m.removeManagedRule refused id
    (result.map fun _ => (), m)
  | .addPersistent rule => m.addPersistentRule home ids refused rule

def run (m : RuleManager) (calls : List (Option String × Call)) : RuleManager :=
  calls.foldl (fun m call => (m.step home ids call.1 call.2).2) m

end RuleManager

end FileGuard.Policy
