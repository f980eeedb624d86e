import FileGuard.Files.Settled

/-! What a settled world shows at one watched path and in the staging directories, and how each change of
a directory entry or of a file changes it. -/

namespace FileGuard.Recovery

open Store Files CrashLogic

variable {host : Host} {path : Path} {w : World} {c : Choice}

abbrev View := Slot → Option Inode

def Watched (path : Path) : Slot → Prop
  | .at other => other = path
  | .staged _ _ => True

instance (path : Path) : (slot : Slot) → Decidable (Watched path slot)
  | .at other => inferInstanceAs (Decidable (other = path))
  | .staged _ _ => inferInstanceAs (Decidable True)

def Stamp (t : Timestamp) : Prop := 0 ≤ t.nanoseconds ∧ t.nanoseconds < 1000000000

def Stamped (i : Inode) : Prop := Stamp i.atime ∧ Stamp i.mtime ∧ Stamp i.ctime

/-- No two entries are one inode, and all times are times. -/
structure Tidy (v : View) : Prop where
  distinct : ∀ {s t i j}, v s = some i → v t = some j → i.number = j.number → s = t
  stamped : ∀ {s i}, v s = some i → Stamped i

namespace Tidy

variable {v : View} {s t : Slot} {i j : Inode}

theorem erase (h : Tidy v) (s : Slot) : Tidy (Function.update v s none) where
  distinct {a b x y} ha hb hn := by
    rw [Function.update_apply] at ha hb
    split_ifs at ha hb
    exact h.distinct ha hb hn
  stamped {a x} ha := by
    rw [Function.update_apply] at ha
    split_ifs at ha
    exact h.stamped ha

theorem insert (h : Tidy v) (hi : Stamped i) (hnew : ∀ t j, v t = some j → t ≠ s → j.number ≠ i.number) :
    Tidy (Function.update v s (some i)) where
  distinct {a b x y} ha hb hn := by
    rw [Function.update_apply] at ha hb
    split_ifs at ha hb with has hbs hbs
    · exact has.trans hbs.symm
    · cases ha
      exact absurd hn.symm (hnew b y hb hbs)
    · cases hb
      exact absurd hn (hnew a x ha has)
    · exact h.distinct ha hb hn
  stamped {a x} ha := by
    rw [Function.update_apply] at ha
    split_ifs at ha
    · cases ha
      exact hi
    · exact h.stamped ha

theorem replace (h : Tidy v) (hs : v s = some i) (hj : Stamped j) (hn : j.number = i.number) :
    Tidy (Function.update v s (some j)) := by
  refine h.insert hj fun t k hk hne hkn => hne ?_
  exact h.distinct hk hs (hkn.trans hn)

theorem move (h : Tidy v) (hs : v s = some i) (hj : Stamped j) (hn : j.number = i.number) :
    Tidy (Function.update (Function.update v s none) t (some j)) := by
  refine (h.erase s).insert hj fun a k hk _ hkn => ?_
  rw [Function.update_apply] at hk
  split_ifs at hk with has
  exact has (h.distinct hk hs (hkn.trans hn))

theorem swap {i' j' : Inode} (h : Tidy v) (hs : v s = some i) (ht : v t = some j) (hi : Stamped i')
    (hj : Stamped j') (hni : i'.number = i.number) (hnj : j'.number = j.number) (hne : s ≠ t) :
    Tidy (Function.update (Function.update v s (some j')) t (some i')) := by
  have hij : i.number ≠ j.number := fun hn => hne (h.distinct hs ht hn)
  have hs' : Tidy (Function.update (Function.update v t none) s (some j')) := h.move ht hj hnj
  rw [Function.update_comm hne.symm] at hs'
  have := hs'.insert (s := t) hi fun a k hk hat hkn => ?_
  · rwa [Function.update_idem] at this
  · rw [Function.update_of_ne hat, Function.update_apply] at hk
    split_ifs at hk with has
    · cases hk
      exact hij (hni.symm.trans (hkn.symm.trans hnj))
    · exact has (h.distinct hk hs (hkn.trans hni))

end Tidy

def view (path : Path) (w : World) : View := fun slot => if Watched path slot then w.file slot else none

structure Sane (path : Path) (w : World) : Prop where
  settled : w.settled = w
  bound : ∀ {slot object}, w.lookup slot = some object → object < w.next
  tidy : Tidy (view path w)

/-- The clock shows a time, the number of a new inode is in no use, and the database obeys. -/
structure Fair (path : Path) (w : World) (c : Choice) : Prop where
  now : Stamp c.now
  number : ∀ {slot i}, view path w slot = some i → i.number ≠ c.number
  token : isToken c.token
  answer : c.answer = .acknowledged
  trusted : c.distrust = none

theorem Fair.settled (h : Fair path w c) : Fair path w.settled c :=
  ⟨h.now, h.number, h.token, h.answer, h.trusted⟩

theorem Fair.of_settled (h : Fair path w.settled c) : Fair path w c :=
  ⟨h.now, h.number, h.token, h.answer, h.trusted⟩

@[simp] theorem watched_at : Watched path (.at path) := rfl

@[simp] theorem watched_staged (directory : Path) (name : String) :
    Watched path (.staged directory name) := trivial

theorem view_of_watched {slot : Slot} (h : Watched path slot) : view path w slot = w.file slot := if_pos h

theorem view_lookup {slot : Slot} {i : Inode} (h : view path w slot = some i) :
    ∃ object, w.lookup slot = some object ∧ w.objects object = i ∧ Watched path slot := by
  unfold view at h
  split_ifs at h with hw
  obtain ⟨object, hl, ho⟩ := Option.map_eq_some_iff.mp h
  exact ⟨object, hl, ho, hw⟩

theorem view_of_lookup {slot : Slot} {object : ObjectId} (hw : Watched path slot)
    (h : w.lookup slot = some object) : view path w slot = some (w.objects object) := by
  rw [view_of_watched hw, World.file, h]
  rfl

theorem view_eq_none {slot : Slot} (hw : Watched path slot) :
    view path w slot = none ↔ w.lookup slot = none := by
  rw [view_of_watched hw, World.file, Option.map_eq_none_iff]

theorem view_settled (w : World) : view path w.settled = view path w := rfl

theorem lookup_assign (names : Names) (slot s : Slot) (object : Option ObjectId) :
    (assign names slot object).lookup s = if s = slot then object else names.lookup s := by
  cases object with
  | none =>
    by_cases hs : s = slot
    · subst hs
      simp [assign]
    · simp [assign, hs, AList.lookup_erase_ne hs]
  | some object =>
    by_cases hs : s = slot
    · subst hs
      simp [assign]
    · simp [assign, hs, AList.lookup_insert_ne hs]

theorem view_record_one (w : World) {slot : Slot} (hw : Watched path slot) (object : Option ObjectId) :
    view path (w.record [(slot, object)]) =
      Function.update (view path w) slot (object.map w.objects) := by
  have hl (s : Slot) : (w.record [(slot, object)]).lookup s = if s = slot then object else w.lookup s := by
    rw [World.lookup, World.record_names]
    exact lookup_assign _ _ _ _
  funext s
  rw [Function.update_apply]
  by_cases hws : Watched path s
  · rw [view_of_watched hws, view_of_watched hws, World.file, hl, World.file]
    split_ifs <;> rfl
  · have hs : s ≠ slot := fun he => hws (he ▸ hw)
    rw [if_neg hs, view, view, if_neg hws, if_neg hws]

theorem view_record_two (w : World) {s t : Slot} (hs : Watched path s) (ht : Watched path t)
    (x y : Option ObjectId) :
    view path (w.record [(s, x), (t, y)]) =
      Function.update (Function.update (view path w) s (x.map w.objects)) t (y.map w.objects) := by
  have hn : (w.record [(s, x), (t, y)]).names = ((w.record [(s, x)]).record [(t, y)]).names := by
    simp only [World.record_names, List.foldl_cons, List.foldl_nil]
  have hv : view path (w.record [(s, x), (t, y)]) = view path ((w.record [(s, x)]).record [(t, y)]) := by
    funext slot
    simp only [view, World.file, World.lookup, hn]
    rfl
  rw [hv, view_record_one _ ht, view_record_one _ hs]
  rfl

namespace Sane

theorem injective (h : Sane path w) {s t : Slot} {object : ObjectId} (hs : Watched path s)
    (ht : Watched path t) (hls : w.lookup s = some object) (hlt : w.lookup t = some object) : s = t :=
  h.tidy.distinct (view_of_lookup hs hls) (view_of_lookup ht hlt) rfl

theorem view_objects (h : Sane path w) {slot : Slot} {object : ObjectId} (hw : Watched path slot)
    (hl : w.lookup slot = some object) (i : Inode) (v : World) (hn : v.names = w.names)
    (ho : v.objects = Function.update w.objects object i) :
    view path v = Function.update (view path w) slot (some i) := by
  have hlv (s : Slot) : v.lookup s = w.lookup s := by rw [World.lookup, World.lookup, hn]
  funext s
  by_cases hs : s = slot
  · subst hs
    rw [Function.update_self, view_of_lookup hw ((hlv s).trans hl), ho, Function.update_self]
  · rw [Function.update_of_ne hs]
    by_cases hws : Watched path s
    · rw [view_of_watched hws, view_of_watched hws, World.file, World.file, hlv]
      cases hls : w.lookup s with
      | none => rfl
      | some other =>
        have hne : other ≠ object := fun he => hs (h.injective hws hw (he ▸ hls) hl)
        rw [Option.map_some, Option.map_some, ho, Function.update_of_ne hne]
    · rw [view, view, if_neg hws, if_neg hws]

theorem alter (h : Sane path w) {slot : Slot} {object : ObjectId} (hw : Watched path slot)
    (hl : w.lookup slot = some object) (f : Inode → Inode) (hf : Stamped (f (w.objects object)))
    (hn : (f (w.objects object)).number = (w.objects object).number) :
    Sane path (w.alter object f).settled ∧
      view path (w.alter object f).settled =
        Function.update (view path w) slot (some (f (w.objects object))) := by
  have hv := h.view_objects hw hl (f (w.objects object)) (w.alter object f) rfl rfl
  refine ⟨⟨rfl, fun hl' => h.bound hl', ?_⟩, hv⟩
  rw [view_settled, hv]
  exact h.tidy.replace (view_of_lookup hw hl) hf hn

theorem view_fresh (h : Sane path w) (i : Inode) (v : World) (hn : v.names = w.names)
    (ho : v.objects = Function.update w.objects w.next i) : view path v = view path w := by
  have hlv (s : Slot) : v.lookup s = w.lookup s := by rw [World.lookup, World.lookup, hn]
  funext s
  unfold view
  split_ifs with hws
  · rw [World.file, World.file, hlv]
    cases hls : w.lookup s with
    | none => rfl
    | some other => rw [Option.map_some, Option.map_some, ho, Function.update_of_ne (h.bound hls).ne]
  · rfl

theorem create (h : Sane path w) (hc : Fair path w c) {slot : Slot} (hw : Watched path slot) :
    Sane path (w.create host c slot).settled ∧
      view path (w.create host c slot).settled =
        Function.update (view path w) slot (some (World.newInode host c)) := by
  have hv : view path (w.create host c slot) =
      Function.update (view path w) slot (some (World.newInode host c)) := by
    rw [World.create, view_record_one _ hw]
    refine congrArg₂ (fun v i => Function.update v slot i)
      (h.view_fresh (World.newInode host c) _ ?_ ?_) ?_
    · rfl
    · rfl
    · simp
  refine ⟨⟨rfl, fun {s object} hl' => ?_, ?_⟩, hv⟩
  · have hl : (w.create host c slot).lookup s = some object := hl'
    rw [World.create, World.lookup, World.record_names] at hl
    simp only [List.foldl_cons, List.foldl_nil, lookup_assign] at hl
    change object < w.next + 1
    split_ifs at hl
    · cases hl
      exact Nat.lt_succ_self _
    · exact Nat.lt_succ_of_lt (h.bound hl)
  · rw [view_settled, hv]
    exact h.tidy.insert ⟨hc.now, hc.now, hc.now⟩ fun t j ht _ => hc.number ht

theorem removeName (h : Sane path w) {slot : Slot} {object : ObjectId} (hw : Watched path slot)
    (hl : w.lookup slot = some object) :
    Sane path (w.removeName c slot object).settled ∧
      view path (w.removeName c slot object).settled = Function.update (view path w) slot none := by
  have hv : view path (w.removeName c slot object) = Function.update (view path w) slot none := by
    rw [World.removeName, view_record_one _ hw, h.view_objects hw hl _ (World.alter _ _ _) rfl rfl,
      Function.update_idem]
    rfl
  refine ⟨⟨rfl, fun {s other} hl' => ?_, ?_⟩, hv⟩
  · have hl : (w.removeName c slot object).lookup s = some other := hl'
    rw [World.removeName, World.lookup, World.record_names] at hl
    simp only [List.foldl_cons, List.foldl_nil, lookup_assign] at hl
    split_ifs at hl
    exact h.bound hl
  · rw [view_settled, hv]
    exact h.tidy.erase slot

theorem moveName (h : Sane path w) (hc : Fair path w c) {old new : Slot} {object : ObjectId}
    (hold : Watched path old) (hnew : Watched path new) (hl : w.lookup old = some object) :
    Sane path (w.moveName c old new object).settled ∧
      view path (w.moveName c old new object).settled =
        Function.update (Function.update (view path w) old none) new
          (some { w.objects object with ctime := c.now }) := by
  have hexpose (v : World) (s : Slot) : view path (v.expose s object) = view path v := by cases s <;> rfl
  have hv : view path (w.moveName c old new object) = Function.update (Function.update (view path w) old none)
      new (some { w.objects object with ctime := c.now }) := by
    rw [World.moveName, hexpose, view_record_two _ hold hnew,
      h.view_objects hold hl _ (World.touch _ _ _) rfl rfl, Function.update_idem]
    simp [World.touch]
  have hs := h.tidy.stamped (view_of_lookup hold hl)
  refine ⟨⟨rfl, fun {s other} hl' => ?_, ?_⟩, hv⟩
  · have hl'' : (w.moveName c old new object).lookup s = some other := hl'
    have hx (v : World) (t : Slot) : (v.expose t object).names = v.names := by cases t <;> rfl
    have hnext : (w.moveName c old new object).next = w.next := by cases new <;> rfl
    rw [World.moveName, World.lookup, hx, World.record_names] at hl''
    simp only [List.foldl_cons, List.foldl_nil, lookup_assign] at hl''
    change other < (w.moveName c old new object).next
    rw [hnext]
    split_ifs at hl''
    · cases hl''
      exact h.bound hl
    · exact h.bound hl''
  · rw [view_settled, hv]
    exact h.tidy.move (view_of_lookup hold hl) ⟨hs.1, hs.2.1, hc.now⟩ rfl

theorem swapNames (h : Sane path w) (hc : Fair path w c) {old new : Slot} {moved displaced : ObjectId}
    (hold : Watched path old) (hnew : Watched path new) (hne : old ≠ new) (hlo : w.lookup old = some moved)
    (hln : w.lookup new = some displaced) :
    Sane path (w.swapNames c old new moved displaced).settled ∧
      view path (w.swapNames c old new moved displaced).settled =
        Function.update (Function.update (view path w) old
          (some { w.objects displaced with ctime := c.now })) new
          (some { w.objects moved with ctime := c.now }) := by
  have hexpose (v : World) (s : Slot) (o : ObjectId) : view path (v.expose s o) = view path v := by
    cases s <;> rfl
  have hobj : moved ≠ displaced := fun he => hne (h.injective hold hnew hlo (he ▸ hln))
  have hv : view path (w.swapNames c old new moved displaced) =
      Function.update (Function.update (view path w) old (some { w.objects displaced with ctime := c.now }))
        new (some { w.objects moved with ctime := c.now }) := by
    have ho : ((w.touch c moved).touch c displaced).objects = Function.update (Function.update w.objects moved
        { w.objects moved with ctime := c.now }) displaced { w.objects displaced with ctime := c.now } := by
      simp [World.touch, Function.update_of_ne hobj.symm]
    rw [World.swapNames, hexpose, hexpose, view_record_two _ hold hnew, Option.map_some, Option.map_some, ho,
      Function.update_self, Function.update_of_ne hobj, Function.update_self]
    funext s
    rw [Function.update_apply, Function.update_apply, Function.update_apply, Function.update_apply]
    split_ifs with hsn hso
    · rfl
    · rfl
    · by_cases hws : Watched path s
      · rw [view_of_watched hws, view_of_watched hws, World.file, World.file, ho]
        have hl : ((w.touch c moved).touch c displaced).lookup s = w.lookup s := rfl
        rw [hl]
        cases hls : w.lookup s with
        | none => rfl
        | some other =>
          have hm : other ≠ moved := fun he => hso (h.injective hws hold (he ▸ hls) hlo)
          have hd : other ≠ displaced := fun he => hsn (h.injective hws hnew (he ▸ hls) hln)
          rw [Option.map_some, Option.map_some, Function.update_of_ne hd, Function.update_of_ne hm]
      · rw [view, view, if_neg hws, if_neg hws]
  have hm := h.tidy.stamped (view_of_lookup hold hlo)
  have hd := h.tidy.stamped (view_of_lookup hnew hln)
  refine ⟨⟨rfl, fun {s other} hl' => ?_, ?_⟩, hv⟩
  · have hl'' : (w.swapNames c old new moved displaced).lookup s = some other := hl'
    have hx (v : World) (t : Slot) (o : ObjectId) : (v.expose t o).names = v.names := by cases t <;> rfl
    have hnext : (w.swapNames c old new moved displaced).next = w.next := by cases new <;> cases old <;> rfl
    rw [World.swapNames, World.lookup, hx, hx, World.record_names] at hl''
    simp only [List.foldl_cons, List.foldl_nil, lookup_assign] at hl''
    change other < (w.swapNames c old new moved displaced).next
    rw [hnext]
    split_ifs at hl''
    · cases hl''
      exact h.bound hlo
    · cases hl''
      exact h.bound hln
    · exact h.bound hl''
  · rw [view_settled, hv]
    exact h.tidy.swap (view_of_lookup hold hlo) (view_of_lookup hnew hln) ⟨hm.1, hm.2.1, hc.now⟩
      ⟨hd.1, hd.2.1, hc.now⟩ rfl rfl hne

end Sane

end FileGuard.Recovery
