import FileGuard.Store.Path
import FileGuard.Store.Sha256

/-! The hash of an open file behind the cache, while files change between any two steps of any call. -/

namespace FileGuard.Process

open Store

structure Stamp where
  device : UInt64
  inode : UInt64
  ctime : ℤ
  ctimeNsec : ℤ
  mtime : ℤ
  mtimeNsec : ℤ
  len : UInt64
  mode : UInt32
  uid : UInt32
  gid : UInt32
  links : UInt64
  deriving DecidableEq

def Stamp.cacheable (s : Stamp) : Bool := s.uid == 0 && s.mode &&& 0o022 == 0

def Stamp.isFile (s : Stamp) : Bool := s.mode &&& 0o170000 == 0o100000

def Stamp.sameObject (s t : Stamp) : Bool := s.device == t.device && s.inode == t.inode

inductive CacheKey where
  | path (path : Path)
  | object (device inode : UInt64)
  deriving DecidableEq

def CacheKey.same : CacheKey → CacheKey → Bool
  | .path p, .path q => Path.same p q
  | .object device inode, .object device' inode' => device == device' && inode == inode'
  | _, _ => false

/-- The entries of the map, no two under the same key. -/
abbrev Cache := List (CacheKey × Stamp × String)

def maxCacheEntries : ℕ := 1000

namespace Cache

def get (cache : Cache) (key : CacheKey) : Option (Stamp × String) :=
  (cache.find? fun entry => entry.1.same key).map (·.2)

def remove (cache : Cache) (key : CacheKey) : Cache := cache.filter fun entry => !entry.1.same key

def put (cache : Cache) (key : CacheKey) (value : Stamp × String) : Cache := (key, value) :: Cache.remove cache key

def keep (cache : Cache) (key : CacheKey) (after : Stamp) (hash : String) : Cache :=
  if after.cacheable then
    let cache : Cache := if maxCacheEntries ≤ cache.length then [] else cache
    cache.put key (after, hash)
  else Cache.remove cache key

end Cache

/-- The files at one moment; objects go by numbers, and a path leads to the object that `open` finds. -/
structure FileWorld where
  stamp : ℕ → Stamp
  contents : ℕ → Bytes
  resolve : Path → Option ℕ
  link : Path → Option Path
  startTime : UInt32 → Option UInt64

inductive Target where
  | file (path : Path)
  | executable (pid : UInt32) (startTime : UInt64)
  deriving DecidableEq

def Target.path : Target → Path
  | .file path => path
  | .executable pid _ => utf8 s!"/proc/{pid}/exe"

/-- The open file of a call, the moment it was opened, its first stat and, of an executable, where its link led. -/
structure Opened where
  object : ℕ
  since : ℕ
  stamp : Stamp
  link : Option Path
  deriving DecidableEq

def Opened.key (f : Opened) : Target → CacheKey
  | .file path => .path path
  | .executable _ _ => .object f.stamp.device f.stamp.inode

/-- Where a call of `hash_file` or `capture_process_executable` stands; `anew` remembers whether the call has read the
file itself. -/
inductive HashStage where
  | startTime
  | open
  | metadata (object since : ℕ)
  | readLink (f : Opened)
  | current (f : Opened)
  | before (f : Opened)
  | lookup (f : Opened) (seen : Stamp)
  | confirm (f : Opened) (seen : Stamp) (hash : String)
  | read (f : Opened) (seen : Stamp)
  | after (f : Opened) (seen : Stamp) (hash : String)
  | keep (f : Opened) (seen : Stamp) (hash : String)
  | hashed (f : Opened) (anew : Bool) (hash : String)
  | currentAgain (f : Opened) (anew : Bool) (hash : String)
  | readLinkAgain (f : Opened) (anew : Bool) (hash : String)
  | returned (f : Opened) (upto : ℕ) (anew : Bool) (hash : String)
  | failed
  deriving DecidableEq

def HashStage.start : Target → HashStage
  | .file _ => .open
  | .executable _ _ => .startTime

section

variable (world : FileWorld) (now : ℕ) (target : Target) (cache : Cache)

def reaches (f : Opened) : Bool :=
  match world.resolve target.path with
  | some object => f.stamp.sameObject (world.stamp object)
  | none => false

def sameLink (f : Opened) : Bool :=
  match world.link target.path, f.link with
  | some link, some first => Path.same link first
  | _, _ => false

def sameStart : Target → Bool
  | .file _ => true
  | .executable pid startTime => world.startTime pid == some startTime

namespace HashStage

def next : HashStage → HashStage
  | .startTime => if sameStart world target then .open else .failed
  | .open => (world.resolve target.path).elim .failed fun object => .metadata object now
  | .metadata object since =>
    let stamp := world.stamp object
    if stamp.isFile then match target with
      | .file _ => .current ⟨object, since, stamp, none⟩
      | .executable _ _ => .readLink ⟨object, since, stamp, none⟩
    else .failed
  | .readLink f => (world.link target.path).elim .failed fun link => .current { f with link := some link }
  | .current f => if reaches world target f then .before f else .failed
  | .before f =>
    let stamp := world.stamp f.object
    if stamp.isFile then .lookup f stamp else .failed
  | .lookup f seen =>
    if seen.cacheable then match cache.get (f.key target) with
      | some (cached, hash) => if cached = seen then .confirm f seen hash else .read f seen
      | none => .read f seen
    else .read f seen
  | .confirm f seen hash => if world.stamp f.object = seen then .hashed f false hash else .read f seen
  | .read f seen => .after f seen (sha256 (world.contents f.object))
  | .after f seen hash => if world.stamp f.object = seen then .keep f seen hash else .failed
  | .keep f _ hash => .hashed f true hash
  | .hashed f anew hash => match target with
    | .file _ => .returned f now anew hash
    | .executable _ _ => if sameStart world target then .currentAgain f anew hash else .failed
  | .currentAgain f anew hash => if reaches world target f then .readLinkAgain f anew hash else .failed
  | .readLinkAgain f anew hash => if sameLink world target f then .returned f now anew hash else .failed
  | .returned f upto anew hash => .returned f upto anew hash
  | .failed => .failed

def store : HashStage → Cache
  | .keep f seen hash => cache.keep (f.key target) seen hash
  | _ => cache

end HashStage

end

/-- What happens next: a new call, the next step of a running one, or nothing but the passing of time. -/
inductive HashTurn where
  | call (target : Target)
  | step (index : ℕ)
  | idle
  deriving DecidableEq

structure HashRun where
  now : ℕ
  cache : Cache
  calls : List (Target × HashStage)

namespace HashRun

def start : HashRun := ⟨0, [], []⟩

variable (world : ℕ → FileWorld)

def turn (s : HashRun) : HashTurn → HashRun
  | .call target => { s with now := s.now + 1, calls := s.calls ++ [(target, .start target)] }
  | .step index => match s.calls[index]? with
    | some (target, stage) =>
      { now := s.now + 1
        cache := HashStage.store target s.cache stage
        calls := s.calls.set index (target, HashStage.next (world s.now) s.now target s.cache stage) }
    | none => { s with now := s.now + 1 }
  | .idle => { s with now := s.now + 1 }

def run (s : HashRun) (turns : List HashTurn) : HashRun := turns.foldl (HashRun.turn world) s

end HashRun

/-- A stamp of a cacheable file tells its contents: wherever and whenever it is seen again they are the same, and in one
file they were the same all the time in between. -/
structure Telling (world : ℕ → FileWorld) : Prop where
  seen : ∀ t t' o o', (world t).stamp o = (world t').stamp o' → ((world t).stamp o).cacheable = true →
    (world t).contents o = (world t').contents o'
  between : ∀ t u t' o, t ≤ u → u ≤ t' → (world t).stamp o = (world t').stamp o → ((world t).stamp o).cacheable = true →
    (world u).contents o = (world t).contents o

section

variable {world : ℕ → FileWorld} {now : ℕ} {target : Target} {cache : Cache} {stage : HashStage}

/-- The hash of a file that had the stamp at some moment. -/
def Recorded (world : ℕ → FileWorld) (stamp : Stamp) (hash : String) : Prop :=
  ∃ t o, (world t).stamp o = stamp ∧ hash = sha256 ((world t).contents o)

/-- The hash is that of the contents at a moment, and was not read by the call itself only if the file was root's alone
to write then. -/
def HashOf (world : ℕ → FileWorld) (object m : ℕ) (anew : Bool) (hash : String) : Prop :=
  hash = sha256 ((world m).contents object) ∧ (anew = false → ((world m).stamp object).cacheable = true)

def CacheHolds (world : ℕ → FileWorld) (cache : Cache) : Prop :=
  ∀ entry ∈ cache, entry.2.1.cacheable = true ∧ Recorded world entry.2.1 entry.2.2

namespace Opened

def Holds (f : Opened) (world : ℕ → FileWorld) (now : ℕ) (target : Target) : Prop :=
  f.since < now ∧ (world f.since).resolve target.path = some f.object

def During (f : Opened) (now m : ℕ) : Prop := f.since ≤ m ∧ m < now

end Opened

def HashStage.Holds (world : ℕ → FileWorld) (now : ℕ) (target : Target) : HashStage → Prop
  | .startTime | .open | .failed => True
  | .metadata object since => since < now ∧ (world since).resolve target.path = some object
  | .readLink f | .current f | .before f => f.Holds world now target
  | .lookup f seen | .read f seen => f.Holds world now target ∧
    ∃ m, f.During now m ∧ (world m).stamp f.object = seen
  | .confirm f seen hash => f.Holds world now target ∧ seen.cacheable = true ∧ Recorded world seen hash ∧
    ∃ m, f.During now m ∧ (world m).stamp f.object = seen
  | .after f seen hash => f.Holds world now target ∧ ∃ m u, f.During now m ∧ f.During now u ∧ m ≤ u ∧
    (world m).stamp f.object = seen ∧ hash = sha256 ((world u).contents f.object)
  | .keep f seen hash => f.Holds world now target ∧ ∃ m u m', f.During now m ∧ f.During now u ∧ m ≤ u ∧ u ≤ m' ∧
    (world m).stamp f.object = seen ∧ (world m').stamp f.object = seen ∧ hash = sha256 ((world u).contents f.object)
  | .hashed f anew hash | .currentAgain f anew hash | .readLinkAgain f anew hash => f.Holds world now target ∧
    ∃ m, f.During now m ∧ HashOf world f.object m anew hash
  | .returned f upto anew hash => (world f.since).resolve target.path = some f.object ∧
    ∃ m, f.since ≤ m ∧ m ≤ upto ∧ HashOf world f.object m anew hash

theorem Opened.Holds.mono {f : Opened} (h : f.Holds world now target) : f.Holds world (now + 1) target :=
  ⟨Nat.lt_succ_of_lt h.1, h.2⟩

theorem Opened.During.mono {f : Opened} {m : ℕ} (h : f.During now m) : f.During (now + 1) m :=
  ⟨h.1, Nat.lt_succ_of_lt h.2⟩

theorem Opened.Holds.present {f : Opened} (h : f.Holds world now target) : f.During (now + 1) now :=
  ⟨le_of_lt h.1, Nat.lt_succ_self _⟩

theorem HashStage.Holds.mono (h : stage.Holds world now target) : stage.Holds world (now + 1) target := by
  cases stage with
  | startTime | «open» | failed => trivial
  | metadata object since => exact ⟨Nat.lt_succ_of_lt h.1, h.2⟩
  | readLink f | current f | before f => exact Opened.Holds.mono h
  | lookup f seen | read f seen =>
    obtain ⟨hf, m, hm, hseen⟩ := h
    exact ⟨hf.mono, m, hm.mono, hseen⟩
  | confirm f seen hash =>
    obtain ⟨hf, hcacheable, hrecorded, m, hm, hseen⟩ := h
    exact ⟨hf.mono, hcacheable, hrecorded, m, hm.mono, hseen⟩
  | after f seen hash =>
    obtain ⟨hf, m, u, hm, hu, hrest⟩ := h
    exact ⟨hf.mono, m, u, hm.mono, hu.mono, hrest⟩
  | keep f seen hash =>
    obtain ⟨hf, m, u, m', hm, hu, hrest⟩ := h
    exact ⟨hf.mono, m, u, m', hm.mono, hu.mono, hrest⟩
  | hashed f anew hash | currentAgain f anew hash | readLinkAgain f anew hash =>
    obtain ⟨hf, m, hm, hhash⟩ := h
    exact ⟨hf.mono, m, hm.mono, hhash⟩
  | returned f upto anew hash => exact h

theorem Cache.get_mem {key : CacheKey} {value : Stamp × String} (h : cache.get key = some value) :
    ∃ entry ∈ cache, entry.2 = value := by
  obtain ⟨entry, hfind, hvalue⟩ := Option.map_eq_some_iff.mp h
  exact ⟨entry, List.mem_of_find?_eq_some hfind, hvalue⟩

theorem CacheHolds.keep (h : CacheHolds world cache) (key : CacheKey) {seen : Stamp} {hash : String}
    (hrecorded : seen.cacheable = true → Recorded world seen hash) : CacheHolds world (cache.keep key seen hash) := by
  have hremove (cache : Cache) (hcache : CacheHolds world cache) : CacheHolds world (cache.remove key) :=
    fun entry hentry => hcache entry (List.mem_of_mem_filter hentry)
  unfold Cache.keep
  split_ifs with hcacheable hfull
  · refine List.forall_mem_cons.mpr ⟨⟨hcacheable, hrecorded hcacheable⟩, hremove [] nofun⟩
  · refine List.forall_mem_cons.mpr ⟨⟨hcacheable, hrecorded hcacheable⟩, hremove cache h⟩
  · exact hremove cache h

theorem CacheHolds.store (htelling : Telling world) (h : CacheHolds world cache)
    (hstage : stage.Holds world now target) : CacheHolds world (HashStage.store target cache stage) := by
  cases stage with
  | keep f seen hash =>
    obtain ⟨-, m, u, m', -, -, hmu, hum, hseen, hseen', rfl⟩ := hstage
    refine h.keep _ fun hcacheable => ⟨m, f.object, hseen, ?_⟩
    rw [htelling.between m u m' f.object hmu hum (hseen.trans hseen'.symm) (hseen ▸ hcacheable)]
  | _ => exact h

theorem HashStage.Holds.next (htelling : Telling world) (hcache : CacheHolds world cache)
    (h : stage.Holds world now target) :
    (HashStage.next (world now) now target cache stage).Holds world (now + 1) target := by
  cases stage with
  | startTime =>
    simp only [HashStage.next]
    split_ifs <;> trivial
  | «open» =>
    simp only [HashStage.next]
    cases hresolve : (world now).resolve target.path with
    | none => trivial
    | some object => exact ⟨Nat.lt_succ_self now, hresolve⟩
  | metadata object since =>
    obtain ⟨hsince, hresolve⟩ := h
    simp only [HashStage.next]
    split_ifs
    · cases target <;> exact ⟨Nat.lt_succ_of_lt hsince, hresolve⟩
    · trivial
  | readLink f =>
    simp only [HashStage.next]
    cases (world now).link target.path with
    | none => trivial
    | some link => exact Opened.Holds.mono h
  | current f =>
    simp only [HashStage.next]
    split_ifs
    · exact Opened.Holds.mono h
    · trivial
  | before f =>
    have hf : f.Holds world now target := h
    simp only [HashStage.next]
    split_ifs
    · exact ⟨hf.mono, now, hf.present, rfl⟩
    · trivial
  | lookup f seen =>
    obtain ⟨hf, m, hm, hseen⟩ := h
    have hread : (HashStage.read f seen).Holds world (now + 1) target := ⟨hf.mono, m, hm.mono, hseen⟩
    simp only [HashStage.next]
    split_ifs with hcacheable
    · cases hget : cache.get (f.key target) with
      | none => exact hread
      | some value =>
        obtain ⟨cached, hash⟩ := value
        obtain ⟨entry, hentry, hvalue⟩ := Cache.get_mem hget
        have hrecorded := (hcache entry hentry).2
        rw [hvalue] at hrecorded
        simp only
        split_ifs with hsame
        · exact ⟨hf.mono, hcacheable, hsame ▸ hrecorded, m, hm.mono, hseen⟩
        · exact hread
    · exact hread
  | confirm f seen hash =>
    obtain ⟨hf, hcacheable, ⟨t, o, hstamp, hhash⟩, m, hm, hseen⟩ := h
    simp only [HashStage.next]
    split_ifs
    · -- the stamp of the entry is the stamp seen by this call, so the contents were the same then
      refine ⟨hf.mono, m, hm.mono, hhash.trans (congrArg sha256 ?_), fun _ => hseen ▸ hcacheable⟩
      exact htelling.seen t m o f.object (hstamp.trans hseen.symm) (hstamp ▸ hcacheable)
    · exact ⟨hf.mono, m, hm.mono, hseen⟩
  | read f seen =>
    obtain ⟨hf, m, hm, hseen⟩ := h
    exact ⟨hf.mono, m, now, hm.mono, hf.present, le_of_lt hm.2, hseen, rfl⟩
  | after f seen hash =>
    obtain ⟨hf, m, u, hm, hu, hmu, hseen, hhash⟩ := h
    simp only [HashStage.next]
    split_ifs with hsame
    · exact ⟨hf.mono, m, u, now, hm.mono, hu.mono, hmu, le_of_lt hu.2, hseen, hsame, hhash⟩
    · trivial
  | keep f seen hash =>
    obtain ⟨hf, m, u, m', hm, hu, -, -, -, -, hhash⟩ := h
    exact ⟨hf.mono, u, hu.mono, hhash, fun hcached => (by cases hcached)⟩
  | hashed f anew hash =>
    obtain ⟨hf, m, hm, hhash⟩ := h
    cases target with
    | file path => exact ⟨hf.2, m, hm.1, le_of_lt hm.2, hhash⟩
    | executable pid startTime =>
      simp only [HashStage.next]
      split_ifs
      · exact ⟨hf.mono, m, hm.mono, hhash⟩
      · trivial
  | currentAgain f anew hash =>
    obtain ⟨hf, m, hm, hhash⟩ := h
    simp only [HashStage.next]
    split_ifs
    · exact ⟨hf.mono, m, hm.mono, hhash⟩
    · trivial
  | readLinkAgain f anew hash =>
    obtain ⟨hf, m, hm, hhash⟩ := h
    simp only [HashStage.next]
    split_ifs
    · exact ⟨hf.2, m, hm.1, le_of_lt hm.2, hhash⟩
    · trivial
  | returned f upto anew hash => exact h
  | failed => trivial

end

structure HashRun.Holds (world : ℕ → FileWorld) (s : HashRun) : Prop where
  cache : CacheHolds world s.cache
  calls : ∀ call ∈ s.calls, call.2.Holds world s.now call.1

theorem HashRun.Holds.turn {world : ℕ → FileWorld} (htelling : Telling world) {s : HashRun} (h : s.Holds world)
    (turn : HashTurn) : (s.turn world turn).Holds world := by
  have hpass : ∀ call ∈ s.calls, call.2.Holds world (s.now + 1) call.1 := fun call hcall => (h.calls call hcall).mono
  cases turn with
  | call target =>
    refine ⟨h.cache, List.forall_mem_append.mpr ⟨hpass, List.forall_mem_singleton.mpr ?_⟩⟩
    cases target <;> trivial
  | idle => exact ⟨h.cache, hpass⟩
  | step index =>
    simp only [HashRun.turn]
    cases hcall : s.calls[index]? with
    | none => exact ⟨h.cache, hpass⟩
    | some call =>
      obtain ⟨target, stage⟩ := call
      have hstage : stage.Holds world s.now target := h.calls _ (List.mem_of_getElem? hcall)
      refine ⟨h.cache.store htelling hstage, fun call hmem => ?_⟩
      rcases List.mem_or_eq_of_mem_set hmem with hmem | rfl
      · exact hpass call hmem
      · exact hstage.next htelling h.cache

theorem HashRun.Holds.run {world : ℕ → FileWorld} (htelling : Telling world) {s : HashRun} (h : s.Holds world)
    (turns : List HashTurn) : (s.run world turns).Holds world := by
  induction turns generalizing s with
  | nil => exact h
  | cons turn turns ih => exact ih (h.turn htelling turn)

theorem HashRun.holds_start (world : ℕ → FileWorld) : HashRun.start.Holds world where
  cache _ hentry := absurd hentry List.not_mem_nil
  calls _ hcall := absurd hcall List.not_mem_nil

/-- Where stamps tell the contents, every hash that a call returns is the hash of the file it opened, at some moment
between its opening and its return, and a file that was not root's alone to write has been read by the call. -/
theorem hash_current {world : ℕ → FileWorld} (htelling : Telling world) (turns : List HashTurn) :
    ∀ target f upto anew hash, (target, HashStage.returned f upto anew hash) ∈ (HashRun.start.run world turns).calls →
      (world f.since).resolve target.path = some f.object ∧
        (∃ m, f.since ≤ m ∧ m ≤ upto ∧ hash = sha256 ((world m).contents f.object)) ∧
        ((∀ m, f.since ≤ m → m ≤ upto → ((world m).stamp f.object).cacheable = false) → anew = true) := by
  intro target f upto anew hash hcall
  obtain ⟨hresolve, m, hsince, hupto, hhash, hcached⟩ := ((HashRun.holds_start world).run htelling turns).calls _ hcall
  refine ⟨hresolve, ⟨m, hsince, hupto, hhash⟩, fun hnever => ?_⟩
  by_contra hanew
  have hcacheable := hcached (by simpa using hanew)
  rw [hnever m hsince hupto] at hcacheable
  cases hcacheable

/-- What a stamp tells of one file only, and of no moment in between. -/
def TellingOfOne (world : ℕ → FileWorld) : Prop :=
  ∀ t t' o, (world t).stamp o = (world t').stamp o → ((world t).stamp o).cacheable = true →
    (world t).contents o = (world t').contents o

def rootStamp : Stamp := ⟨1, 1, 0, 0, 0, 0, 1, 0o100755, 0, 0, 1⟩

def fileWorld (stamp : Stamp) (contents : ℕ → Bytes) (object : ℕ) : FileWorld :=
  ⟨fun _ => stamp, contents, fun _ => some object, fun _ => none, fun _ => none⟩

/-- A file that is another one just while the first call reads it. -/
def flickering (t : ℕ) : FileWorld :=
  if t = 6 then fileWorld { rootStamp with ctime := 1 } (fun _ => [1]) 1 else fileWorld rootStamp (fun _ => [0]) 1

/-- A second file that takes the place and the stamp of the first one. -/
def reused (t : ℕ) : FileWorld := fileWorld rootStamp (fun object => if object = 1 then [0] else [1]) (if t < 10 then 1 else 2)

/-- One call after the other; the second one finds what the first one has kept. -/
def twice : List HashTurn :=
  .call (.file (utf8 "/a")) :: List.replicate 9 (.step 0) ++ .call (.file (utf8 "/a")) :: List.replicate 7 (.step 1)

theorem sha256_distinct : sha256 [0] ≠ sha256 [1] := by decide +kernel

theorem hash_stale :
    (TellingOfOne flickering ∧ ∃ f,
      (.file (utf8 "/a"), .returned f 17 false (sha256 [1])) ∈ (HashRun.start.run flickering twice).calls ∧
      ∀ m, f.since ≤ m → m ≤ 17 → sha256 [1] ≠ sha256 ((flickering m).contents f.object)) ∧
    TellingOfOne reused ∧ ∃ f,
      (.file (utf8 "/a"), .returned f 17 false (sha256 [0])) ∈ (HashRun.start.run reused twice).calls ∧
      ∀ m, f.since ≤ m → m ≤ 17 → sha256 [0] ≠ sha256 ((reused m).contents f.object) := by
  refine ⟨⟨fun t t' o hstamp _ => ?_, ⟨1, 11, rootStamp, none⟩, by decide +kernel, fun m hsince _ => ?_⟩,
    fun t t' o _ _ => rfl, ⟨2, 11, rootStamp, none⟩, by decide +kernel, fun m _ _ => sha256_distinct⟩
  · unfold flickering at hstamp ⊢
    split_ifs at hstamp ⊢ with ht ht' ht'
    · rfl
    · exact absurd hstamp (by simp [fileWorld, rootStamp])
    · exact absurd hstamp (by simp [fileWorld, rootStamp])
    · rfl
  · have hm : m ≠ 6 := by
      have : (11 : ℕ) ≤ m := hsince
      omega
    rw [flickering, if_neg hm]
    exact sha256_distinct.symm

/-- A file that is rewritten after the first call. -/
def rewritten (t : ℕ) : FileWorld :=
  if t < 10 then fileWorld rootStamp (fun _ => [0]) 1 else fileWorld { rootStamp with ctime := 1 } (fun _ => [1]) 1

theorem rewritten_telling : Telling rewritten := by
  have hctime (t o : ℕ) : ((rewritten t).stamp o).ctime = if t < 10 then 0 else 1 := by
    unfold rewritten
    split_ifs <;> rfl
  have hcontents (t o : ℕ) : (rewritten t).contents o = if t < 10 then [0] else [1] := by
    unfold rewritten
    split_ifs <;> rfl
  have hside (t t' o o' : ℕ) (hstamp : (rewritten t).stamp o = (rewritten t').stamp o') : t < 10 ↔ t' < 10 := by
    have h := congrArg Stamp.ctime hstamp
    rw [hctime, hctime] at h
    split_ifs at h with ht ht' <;> omega
  constructor
  · intro t t' o o' hstamp _
    rw [hcontents, hcontents, if_congr (hside t t' o o' hstamp) rfl rfl]
  · intro t u t' o htu hut hstamp _
    have h := hside t t' o o hstamp
    rw [hcontents, hcontents, if_congr (by omega : u < 10 ↔ t < 10) rfl rfl]

/-- The second call finds another stamp than the first one has kept, and the third what the second one has kept. -/
def thrice : List HashTurn :=
  .call (.file (utf8 "/a")) :: List.replicate 9 (.step 0) ++ .call (.file (utf8 "/a")) :: List.replicate 9 (.step 1) ++
    .call (.file (utf8 "/a")) :: List.replicate 7 (.step 2)

theorem hash_current_rewritten :
    let call (upto : ℕ) (since : ℕ) (anew : Bool) (hash : String) : Target × HashStage :=
      (.file (utf8 "/a"), .returned ⟨1, since, { rootStamp with ctime := 1 }, none⟩ upto anew hash)
    call 19 11 true (sha256 [1]) ∈ (HashRun.start.run rewritten thrice).calls ∧
      call 27 21 false (sha256 [1]) ∈ (HashRun.start.run rewritten thrice).calls ∧
      (∃ m, 11 ≤ m ∧ m ≤ 19 ∧ sha256 [1] = sha256 ((rewritten m).contents 1)) ∧
      ∃ m, 21 ≤ m ∧ m ≤ 27 ∧ sha256 [1] = sha256 ((rewritten m).contents 1) := by
  intro call
  have hsecond : call 19 11 true (sha256 [1]) ∈ (HashRun.start.run rewritten thrice).calls := by decide +kernel
  have hthird : call 27 21 false (sha256 [1]) ∈ (HashRun.start.run rewritten thrice).calls := by decide +kernel
  exact ⟨hsecond, hthird, (hash_current rewritten_telling thrice _ _ _ _ _ hsecond).2.1,
    (hash_current rewritten_telling thrice _ _ _ _ _ hthird).2.1⟩

end FileGuard.Process
