import FileGuard.Recovery.Reading

/-! The operations that change files, and the construction of a new one. -/

namespace FileGuard.Recovery

open Store Files Transaction CrashLogic

variable {S : Site} {w w' : World} {slot old new : Slot} {object : ObjectId} {i : Inode} {E : Prop} {ε : Type}

/-- The world `w'` is `w` with the files `v`. -/
structure Moved (S : Site) (w w' : World) (v : View) : Prop where
  inv : Inv S w'
  entry : w'.store S.path = w.store S.path
  last : w'.ghost.last S.path = w.ghost.last S.path
  directories : w'.directories = w.directories
  view : view S.path w' = v

def Fits (S : Site) (w : World) (v : View) : Prop :=
  Consistent S (w.store S.path) (w.ghost.last S.path) w.directories v

theorem Moved.of_sane {v : View} (hs : Sane S.path w' ∧ Recovery.view S.path w' = v)
    (he : w'.store S.path = w.store S.path) (hl : w'.ghost.last S.path = w.ghost.last S.path)
    (hd : w'.directories = w.directories) (hf : Fits S w v) : Moved S w w' v := by
  refine ⟨⟨hs.1, ?_⟩, he, hl, hd, hs.2⟩
  rw [he, hl, hd, hs.2]
  exact hf

theorem Moved.refl (hi : Inv S w) : Moved S w w (Recovery.view S.path w) := ⟨hi, rfl, rfl, rfl, rfl⟩

theorem Moved.trans {w'' : World} {v v' : View} (h : Moved S w w' v) (h' : Moved S w' w'' v') :
    Moved S w w'' v' :=
  ⟨h'.inv, h'.entry.trans h.entry, h'.last.trans h.last, h'.directories.trans h.directories, h'.view⟩

theorem Moved.fits {v v' : View} (h : Moved S w w' v) (hf : Fits S w v') : Fits S w' v' := by
  unfold Fits
  rw [h.entry, h.last, h.directories]
  exact hf

theorem Runs.lift {α : Type} {p : FileProg (IoResult α)} {Q : α → World → Prop}
    (h : Runs S False p (fun r w' => ∃ a, r = .ok a ∧ Q a w') w) : Runs S E (lift p) Q w := by
  refine Runs.bind ((h.weaken False.elim).mono ?_)
  rintro _ w' ⟨a, rfl, hq⟩
  exact hq

theorem expose_last (v : World) (s : Slot) (o : ObjectId) :
    (v.expose s o).ghost.last = v.ghost.last ∧ (v.expose s o).store = v.store ∧
      (v.expose s o).directories = v.directories := by
  cases s <;> exact ⟨rfl, rfl, rfl⟩

theorem runs_renameNoreplace (hi : Inv S w) (ho : Watched S.path old) (hn : Watched S.path new)
    (hold : view S.path w old = some i) (hnew : view S.path w new = none)
    (hf : ∀ t, Stamp t → Fits S w (Function.update (Function.update (view S.path w) old none) new
      (some { i with ctime := t }))) :
    Runs S E (renameNoreplace old new) (fun _ w' => ∃ t, Stamp t ∧ Moved S w w'
      (Function.update (Function.update (view S.path w) old none) new (some { i with ctime := t }))) w := by
  obtain ⟨object, hl, rfl, -⟩ := view_lookup hold
  refine Runs.lift (Runs.perform fun c hc => ?_)
  have hnone : w.lookup new = none := (view_eq_none hn).mp hnew
  simp only [World.exec, hl, hnone, Option.isSome_none, Bool.false_eq_true, ↓reduceIte]
  have hm : Moved S w (w.moveName c old new object).settled _ :=
    .of_sane (hi.sane.moveName hc ho hn hl) (congrFun (expose_last _ _ _).2.1 S.path)
      (congrFun (expose_last _ _ _).1 S.path) (expose_last _ _ _).2.2 (hf c.now hc.now)
  exact ⟨hm.inv, (), trivial, c.now, hc.now, hm⟩

theorem runs_renameExchange {j : Inode} (hi : Inv S w) (ho : Watched S.path old) (hn : Watched S.path new)
    (hne : old ≠ new) (hold : view S.path w old = some i) (hnew : view S.path w new = some j)
    (hf : ∀ t, Stamp t → Fits S w (Function.update (Function.update (view S.path w) old
      (some { j with ctime := t })) new (some { i with ctime := t }))) :
    Runs S E (renameExchange old new) (fun _ w' => ∃ t, Stamp t ∧ Moved S w w'
      (Function.update (Function.update (view S.path w) old (some { j with ctime := t })) new
        (some { i with ctime := t }))) w := by
  obtain ⟨moved, hlo, rfl, -⟩ := view_lookup hold
  obtain ⟨displaced, hln, rfl, -⟩ := view_lookup hnew
  refine Runs.lift (Runs.perform fun c hc => ?_)
  simp only [World.exec, hlo, hln]
  have hm : Moved S w (w.swapNames c old new moved displaced).settled _ :=
    .of_sane (hi.sane.swapNames hc ho hn hne hlo hln)
      (congrFun ((expose_last _ _ _).2.1.trans (expose_last _ _ _).2.1) S.path)
      (congrFun ((expose_last _ _ _).1.trans (expose_last _ _ _).1) S.path)
      ((expose_last _ _ _).2.2.trans (expose_last _ _ _).2.2) (hf c.now hc.now)
  exact ⟨hm.inv, (), trivial, c.now, hc.now, hm⟩

theorem runs_unlink (hi : Inv S w) (hw : Watched S.path slot) (hv : view S.path w slot = some i)
    (hf : Fits S w (Function.update (view S.path w) slot none)) :
    Runs S E (unlink slot) (fun _ w' => Moved S w w' (Function.update (view S.path w) slot none)) w := by
  obtain ⟨object, hl, rfl, -⟩ := view_lookup hv
  refine Runs.lift (Runs.perform fun c hc => ?_)
  simp only [World.exec, hl]
  have hm : Moved S w (w.removeName c slot object).settled _ :=
    .of_sane (hi.sane.removeName hw hl) rfl rfl rfl hf
  exact ⟨hm.inv, (), trivial, hm⟩

theorem runs_unlinkVerified (hi : Inv S w) (hw : Watched S.path slot) (hv : view S.path w slot = some i)
    (hf : Fits S w (Function.update (view S.path w) slot none)) :
    Runs S E (unlinkVerified slot (i.identity S.host))
      (fun _ w' => Moved S w w' (Function.update (view S.path w) slot none)) w := by
  obtain ⟨object, hl, rfl, -⟩ := view_lookup hv
  refine Runs.lift (Runs.perform fun c hc => ?_)
  simp only [World.exec, hl, ↓reduceIte]
  have hm : Moved S w (w.removeName c slot object).settled _ :=
    .of_sane (hi.sane.removeName hw hl) rfl rfl rfl hf
  exact ⟨hm.inv, (), trivial, hm⟩

theorem runs_createExclusive (hi : Inv S w) (hw : Watched S.path slot) (hv : view S.path w slot = none)
    (hd : slot.directory ∈ w.directories)
    (hf : ∀ c, Fair S.path w c → Fits S w (Function.update (view S.path w) slot
      (some (World.newInode S.host c)))) :
    Runs S E (createExclusive slot) (fun object w' => ∃ c, Fair S.path w c ∧ w'.lookup slot = some object ∧
      w'.objects object = World.newInode S.host c ∧ Moved S w w' (Function.update (view S.path w) slot
        (some (World.newInode S.host c)))) w := by
  refine Runs.lift (Runs.perform fun c hc => ?_)
  have hnone : w.lookup slot = none := (view_eq_none hw).mp hv
  simp only [World.exec, hnone, hd, Option.isSome_none, Bool.false_eq_true, ↓reduceIte]
  have hm : Moved S w (w.create S.host c slot).settled _ :=
    .of_sane (hi.sane.create hc hw) rfl rfl rfl (hf c hc)
  refine ⟨hm.inv, w.next, rfl, c, hc, ?_, ?_, hm⟩
  · change (w.create S.host c slot).lookup slot = _
    rw [World.create, World.lookup, World.record_names]
    simp [lookup_assign]
  · exact Function.update_self ..

theorem runs_alter (hi : Inv S w) (hw : Watched S.path slot) (hl : w.lookup slot = some object)
    {a : Alteration} (hwrite : ∀ contents, a = .write contents → contents.length < 2 ^ 63)
    (ht : ∀ atime mtime, a = .times atime mtime → Stamp atime ∧ Stamp mtime)
    (hf : ∀ j, Fits S w (Function.update (view S.path w) slot (some j))) :
    Runs S E (alter object a) (fun _ w' => ∃ t, Stamp t ∧ w'.lookup slot = some object ∧
      w'.objects object = a.apply t (w.objects object) ∧ Moved S w w' (Function.update (view S.path w) slot
        (some (a.apply t (w.objects object))))) w := by
  refine Runs.lift (Runs.perform fun c hc => ?_)
  have hstamped := hi.sane.tidy.stamped (view_of_lookup hw hl)
  have hs : Stamped (a.apply c.now (w.objects object)) := by
    cases a with
    | write contents => exact ⟨hstamped.1, hc.now, hc.now⟩
    | owner uid gid => exact ⟨hstamped.1, hstamped.2.1, hc.now⟩
    | mode bits => exact ⟨hstamped.1, hstamped.2.1, hc.now⟩
    | xattr name value => exact ⟨hstamped.1, hstamped.2.1, hc.now⟩
    | times atime mtime => exact ⟨(ht atime mtime rfl).1, (ht atime mtime rfl).2, hc.now⟩
  have hn : (a.apply c.now (w.objects object)).number = (w.objects object).number := by cases a <;> rfl
  have hm : Moved S w (w.alter object (fun i => a.apply c.now i)).settled _ :=
    .of_sane (hi.sane.alter hw hl (fun i => a.apply c.now i) hs hn) rfl rfl rfl (hf _)
  have hexec : w.exec S.host c (.alter object a) = (.ok (), w.alter object (fun i => a.apply c.now i)) := by
    cases a with
    | write contents => simp only [World.exec, hwrite contents rfl, ↓reduceIte]
    | _ => rfl
  rw [hexec]
  exact ⟨hm.inv, (), rfl, c.now, hc.now, hl, Function.update_self .., hm⟩

theorem runs_syncFile (hi : Inv S w) (file : ObjectId) :
    Reads S (syncFile file : Prog signature ε Unit) (.ok ()) w := by
  refine .perform hi fun c _ => ⟨rfl, ?_⟩
  have h : (w.settled.exec S.host c (.syncFile file)).2.settled = w.settled := rfl
  exact (World.exec_settled w c _).2.symm.trans (h.trans hi.sane.settled)

theorem runs_discardEntry {s : StagingArea} {name : String} (hi : Inv S w)
    (hf : Fits S w (Function.update (view S.path w) (s.slot name) none)) :
    Runs S E (s.discardEntry name)
      (fun _ w' => Moved S w w' (Function.update (view S.path w) (s.slot name) none)) w := by
  refine (reads_observe hi (watched_slot s name)).runs_bind ?_
  cases hv : view S.path w (s.slot name) with
  | none =>
    simp only [ident, hv, Option.map_none]
    have hsame : Function.update (view S.path w) (s.slot name) none = view S.path w := by
      rw [← hv, Function.update_eq_self]
    refine Runs.pure ?_
    rw [hsame]
    exact .refl hi
  | some i =>
    simp only [ident, hv, Option.map_some]
    refine (runs_unlink hi (watched_staged _ _) hv hf).andThen fun _ w' hm => ?_
    exact (reads_sync hm.inv s.path).runs hm

end FileGuard.Recovery
