import FileGuard.Recovery.Writing
import Mathlib.Data.Set.List

/-! A new file is built under its construction name and then renamed to its own. -/

namespace FileGuard.Recovery

open Store Files Transaction CrashLogic

section metadata

theorem and_of_not (b m : UInt32) (h : b &&& ~~~m = 0) : b &&& m = b := by
  have h' := congrArg UInt32.toBitVec h
  apply UInt32.toBitVec_inj.1
  simp only [UInt32.toBitVec_and, UInt32.toBitVec_not] at *
  ext i hi
  have := congrArg (fun v => v[i]) h'
  simp at this ⊢
  grind

def encodeXattr (x : Bytes × Bytes) : ExtendedAttribute := ⟨hexEncode x.1, hexEncode x.2⟩

/-- Metadata that a new file can be given, from extended attributes as they stand in it. -/
structure Writable (m : RestoreMetadata) (xattrs : List (Bytes × Bytes)) : Prop where
  owner : ¬ (m.uid = 0xffffffff ∨ m.gid = 0xffffffff)
  mode : m.mode &&& ~~~0o7777 = 0
  atime : Stamp m.atime
  mtime : Stamp m.mtime
  encoded : m.xattrs = xattrs.map encodeXattr
  sorted : (xattrs.map encodeXattr).Pairwise fun a b => a.nameHex < b.nameHex
  terminated : ∀ x ∈ xattrs, 0 ∉ x.1

theorem validateXattrs_ok {previous : Option String} {xattrs : List (Bytes × Bytes)}
    (h : validateXattrs previous (xattrs.map encodeXattr) = .ok ()) :
    (∀ p, previous = some p → ∀ a ∈ xattrs.map encodeXattr, p < a.nameHex) ∧
      ((xattrs.map encodeXattr).Pairwise fun a b => a.nameHex < b.nameHex) ∧ ∀ x ∈ xattrs, 0 ∉ x.1 := by
  induction xattrs generalizing previous with
  | nil => simp
  | cons x rest ih =>
    rw [List.map_cons, validateXattrs] at h
    obtain ⟨name, hname, h⟩ := bind_eq_ok.mp h
    obtain ⟨hnul, h⟩ := check_eq_ok.mp h
    obtain ⟨value, -, h⟩ := bind_eq_ok.mp h
    obtain ⟨hsorted, h⟩ := check_eq_ok.mp h
    obtain ⟨hlater, hpair, hterm⟩ := ih h
    have hx : name = x.1 := by
      rw [decodeHex, encodeXattr, hexDecode_hexEncode] at hname
      exact (Except.ok.inj hname).symm
    rw [corruptIf_eq_ok] at hnul hsorted
    have hfirst (p : String) (hp : previous = some p) : p < (encodeXattr x).nameHex := by
      rw [hp, Option.any_some, decide_eq_true_eq] at hsorted
      exact String.not_le.mp hsorted
    refine ⟨fun p hp a ha => ?_, ?_, fun y hy => ?_⟩
    · rcases List.mem_cons.mp ha with rfl | ha
      · exact hfirst p hp
      · exact String.lt_trans (hfirst p hp) (hlater _ rfl a ha)
    · exact List.pairwise_cons.mpr ⟨hlater _ rfl, hpair⟩
    · rcases List.mem_cons.mp hy with rfl | hy
      · rwa [hx] at hnul
      · exact hterm y hy

theorem exists_encoded (xattrs : List (Bytes × Bytes)) :
    ∃ ys : List (Bytes × Bytes), readXattrs xattrs = ys.map encodeXattr := by
  have h : readXattrs xattrs ∈ Set.range (List.map encodeXattr) := by
    rw [Set.range_list_map]
    intro a ha
    rw [readXattrs, List.mem_insertionSort, List.mem_map] at ha
    obtain ⟨x, -, rfl⟩ := ha
    exact ⟨x, rfl⟩
  obtain ⟨ys, hys⟩ := h
  exact ⟨ys, hys.symm⟩

theorem writable_of_valid {m : RestoreMetadata} (h : validateMetadata m = .ok ())
    (hx : ∃ xattrs, m.xattrs = readXattrs xattrs) : ∃ xattrs, Writable m xattrs := by
  obtain ⟨xattrs, hx⟩ := hx
  obtain ⟨ys, hys⟩ := exists_encoded xattrs
  simp only [validateMetadata, check_eq_ok, corruptIf_eq_ok, not_not, validateTimestamp] at h
  obtain ⟨howner, hmode, hatime, hmtime, h⟩ := h
  have hencoded := hx.trans hys
  rw [hencoded] at h
  obtain ⟨-, hpair, hterm⟩ := validateXattrs_ok h
  exact ⟨ys, howner, hmode, hatime, hmtime, hencoded, hpair, hterm⟩

theorem Writable.readXattrs_eq {m : RestoreMetadata} {xattrs : List (Bytes × Bytes)}
    (h : Writable m xattrs) : readXattrs xattrs = m.xattrs := by
  rw [h.encoded]
  exact List.Pairwise.insertionSort_eq (h.sorted.imp fun hab => String.not_lt.mp (String.lt_asymm hab))

theorem Writable.distinct {m : RestoreMetadata} {xattrs : List (Bytes × Bytes)} (h : Writable m xattrs) :
    xattrs.Pairwise fun a b => a.1 ≠ b.1 := by
  refine (List.pairwise_map.mp h.sorted).imp fun hab he => ?_
  rw [encodeXattr, encodeXattr, he] at hab
  exact String.lt_irrefl _ hab

theorem setXattr_new {xattrs : List (Bytes × Bytes)} {name value : Bytes}
    (h : ∀ x ∈ xattrs, x.1 ≠ name) : setXattr xattrs name value = xattrs ++ [(name, value)] := by
  rw [setXattr, if_neg]
  rw [List.any_eq_true]
  rintro ⟨x, hx, he⟩
  exact h x hx (beq_iff_eq.mp he)

end metadata

variable {S : Site} {w w' : World} {E : Prop} {s : StagingArea} {name : String} {object : ObjectId}

/-- A regular file with the given contents and owner, and with the exact metadata if asked for. -/
structure Built (S : Site) (contents : Bytes) (m : RestoreMetadata) (exactly : Bool) (i : Inode) : Prop where
  plain : Plain i
  contents : i.contents = contents
  uid : i.uid = m.uid
  gid : i.gid = m.gid
  mode : i.mode &&& 0o7777 = m.mode
  metadata : exactly = true → inodeMetadata S.host i = m

/-- The world in which only the file under construction differs from `w`. -/
def Draft (S : Site) (w : World) (slot : Slot) (object : ObjectId) (P : Inode → Prop) (w' : World) : Prop :=
  ∃ i, Moved S w w' (Function.update (view S.path w) slot (some i)) ∧ w'.lookup slot = some object ∧
    w'.objects object = i ∧ P i

theorem Draft.alter {slot : Slot} {P Q : Inode → Prop} (h : Draft S w slot object P w')
    (hw : Watched S.path slot) {a : Alteration}
    (hwrite : ∀ contents, a = .write contents → contents.length < 2 ^ 63)
    (ht : ∀ atime mtime, a = .times atime mtime → Stamp atime ∧ Stamp mtime)
    (hf : ∀ j, Fits S w (Function.update (view S.path w) slot (some j)))
    (hp : ∀ t i, P i → Q (a.apply t i)) :
    Runs S E (alter object a) (fun _ w'' => Draft S w slot object Q w'') w' := by
  obtain ⟨i, hm, hl, rfl, hi⟩ := h
  have hf' (j : Inode) : Fits S w' (Function.update (view S.path w') slot (some j)) := by
    rw [hm.view, Function.update_idem]
    exact hm.fits (hf j)
  refine (runs_alter hm.inv hw hl hwrite ht hf').mono ?_
  rintro _ w'' ⟨t, -, hl', ho, hm'⟩
  rw [hm.view, Function.update_idem] at hm'
  exact ⟨_, hm.trans hm', hl', ho, hp t _ hi⟩

/-- What is fixed of the file once its owner and mode are set. -/
structure Sketch (contents : Bytes) (m : RestoreMetadata) (xattrs : List (Bytes × Bytes)) (i : Inode) :
    Prop where
  links : i.links = 1
  type : i.mode &&& fileTypeMask = regularType
  mode : i.mode &&& 0o7777 = m.mode
  uid : i.uid = m.uid
  gid : i.gid = m.gid
  contents : i.contents = contents
  xattrs : i.xattrs = xattrs

theorem runs_applyXattrs {slot : Slot} {contents : Bytes} {m : RestoreMetadata}
    {d rest : List (Bytes × Bytes)} (hw : Watched S.path slot)
    (hf : ∀ j, Fits S w (Function.update (view S.path w) slot (some j)))
    (hd : (d ++ rest).Pairwise fun a b => a.1 ≠ b.1) (hz : ∀ x ∈ rest, 0 ∉ x.1)
    (h : Draft S w slot object (Sketch contents m d) w') :
    Runs S E (StagingArea.applyXattrs object (rest.map encodeXattr))
      (fun _ w'' => Draft S w slot object (Sketch contents m (d ++ rest)) w'') w' := by
  induction rest generalizing d w' with
  | nil =>
    rw [List.append_nil]
    exact Runs.pure h
  | cons x rest ih =>
    rw [List.map_cons, StagingArea.applyXattrs]
    have hname : StagingArea.decodeXattrHex (encodeXattr x).nameHex = .ok x.1 := by
      rw [StagingArea.decodeXattrHex, encodeXattr, hexDecode_hexEncode]
      rfl
    have hvalue : StagingArea.decodeXattrHex (encodeXattr x).valueHex = .ok x.2 := by
      rw [StagingArea.decodeXattrHex, encodeXattr, hexDecode_hexEncode]
      rfl
    have hcstring : cstring x.1 = .ok x.1 := if_neg (hz x List.mem_cons_self)
    rw [hname, hvalue]
    simp only [Prog.ofExcept_ok, Prog.bind_eq, Prog.pure_bind, hcstring]
    have hnew : ∀ y ∈ d, y.1 ≠ x.1 := fun y hy =>
      (List.pairwise_append.mp hd).2.2 y hy x List.mem_cons_self
    refine (h.alter (Q := Sketch contents m (d ++ [x])) hw (by simp) (by simp) hf ?_).andThen ?_
    · intro t i hi
      refine ⟨hi.links, hi.type, hi.mode, hi.uid, hi.gid, hi.contents, ?_⟩
      simp only [Alteration.apply, hi.xattrs]
      exact setXattr_new hnew
    · intro _ w'' hw''
      have := ih (d := d ++ [x]) (by simpa using hd)
        (fun y hy => hz y (List.mem_cons_of_mem _ hy)) hw''
      simpa using this

theorem runs_fill {slot : Slot} {contents : Bytes} {m : RestoreMetadata} {xattrs : List (Bytes × Bytes)}
    {exactly : Bool} (hw : Watched S.path slot) (hm : Writable m xattrs)
    (hlen : contents.length ≤ maxCredentialSize)
    (hf : ∀ j, Fits S w (Function.update (view S.path w) slot (some j)))
    (h : Draft S w slot object (fun i => i.links = 1 ∧ i.mode &&& fileTypeMask = regularType ∧ i.xattrs = [])
      w') :
    Runs S E (StagingArea.fill object contents m exactly)
      (fun _ w'' => Draft S w slot object (Built S contents m exactly) w'') w' := by
  have hsize : maxCredentialSize < 2 ^ 63 := by decide
  unfold StagingArea.fill StagingArea.applyOwnershipAndMode
  refine (h.alter (Q := fun i => i.links = 1 ∧ i.mode &&& fileTypeMask = regularType ∧ i.xattrs = [] ∧
    i.contents = contents) hw (fun c hc => ?_) (by simp) hf ?_).andThen fun _ w₁ h₁ => ?_
  · cases hc
    omega
  · rintro t i ⟨hl, ht, hx⟩
    exact ⟨hl, ht, hx, rfl⟩
  refine Runs.bind ((reads_passes hm.owner).runs_bind ?_)
  refine (h₁.alter (Q := fun i => (i.links = 1 ∧ i.mode &&& fileTypeMask = regularType ∧ i.xattrs = [] ∧
    i.contents = contents) ∧ i.uid = m.uid ∧ i.gid = m.gid) hw (by simp) (by simp) hf ?_).andThen
    fun _ w₂ h₂ => ?_
  · rintro t i hi
    exact ⟨hi, rfl, rfl⟩
  refine (h₂.alter (Q := Sketch contents m []) hw (by simp) (by simp) hf ?_).mono fun _ w₃ h₃ => ?_
  · rintro t i ⟨⟨hl, ht, hx, hc⟩, hu, hg⟩
    have hbits := (chmod_permissions m.mode ht).trans (and_of_not m.mode _ hm.mode)
    exact ⟨hl, chmod_type m.mode ht, hbits, hu, hg, hc, hx⟩
  have hplain {xs : List (Bytes × Bytes)} {i : Inode} (hi : Sketch contents m xs i) : Plain i :=
    ⟨hi.type, hi.links, hi.contents ▸ hlen⟩
  cases exactly with
  | false =>
    refine Runs.bind (Runs.pure ?_)
    obtain ⟨i, hmoved, hl, ho, hi⟩ := h₃
    refine (runs_syncFile hmoved.inv object).runs ⟨i, hmoved, hl, ho, ?_⟩
    exact ⟨hplain hi, hi.contents, hi.uid, hi.gid, hi.mode, by simp⟩
  | true =>
    refine Runs.bind ?_
    rw [hm.encoded]
    refine (runs_applyXattrs (d := []) hw hf hm.distinct hm.terminated h₃).mono fun _ w₄ h₄ => ?_
    refine (h₄.alter (Q := Built S contents m true) hw (by simp) ?_ hf ?_).andThen fun _ w₅ h₅ => ?_
    · rintro atime mtime he
      cases he
      exact ⟨hm.atime, hm.mtime⟩
    · rintro t i hi
      refine ⟨⟨hi.type, hi.links, hi.contents ▸ hlen⟩, hi.contents, hi.uid, hi.gid, hi.mode, fun _ => ?_⟩
      have hx := hm.readXattrs_eq
      obtain ⟨uid, gid, mode, atime, mtime, xs⟩ := m
      simp only [inodeMetadata, metadataOf, Inode.identity, Alteration.apply, hi.uid, hi.gid, hi.mode,
        hi.xattrs, List.nil_append, hx]
    · obtain ⟨i, hmoved, hl, ho, hi⟩ := h₅
      exact (runs_syncFile hmoved.inv object).runs ⟨i, hmoved, hl, ho, hi⟩

theorem Built.renamed {contents : Bytes} {m : RestoreMetadata} {exactly : Bool} {i : Inode} (t : Timestamp)
    (h : Built S contents m exactly i) : Built S contents m exactly { i with ctime := t } :=
  ⟨h.plain, h.contents, h.uid, h.gid, h.mode, h.metadata⟩

theorem sameFileAfterRename_ctime (i : Inode) (t : Timestamp) :
    sameFileAfterRename (i.identity S.host) (Inode.identity S.host { i with ctime := t }) = true := by
  rw [sameFileAfterRename_eq]
  exact identitiesMatch_iff.mpr rfl

/-- The files with the construction name gone and the new file under its own name. -/
def published (s : StagingArea) (name : String) (v : View) (i : Inode) : View :=
  Function.update (Function.update v (s.slot (constructionEntryName name)) none) (s.slot name) (some i)

theorem constructionEntryName_ne (name : String) : constructionEntryName name ≠ name := by
  intro h
  have := congrArg String.length h
  rw [constructionEntryName, String.length_append] at this
  have h9 : (".building-" : String).length = 10 := by decide
  omega

theorem construction_slot_ne (s : StagingArea) (name : String) :
    s.slot (constructionEntryName name) ≠ s.slot name := by
  simp [StagingArea.slot, constructionEntryName_ne]

theorem runs_publish {contents : Bytes} {m : RestoreMetadata} {exactly : Bool}
    (hv : view S.path w (s.slot name) = none)
    (hf : ∀ v, (∀ t, t ≠ s.slot (constructionEntryName name) → t ≠ s.slot name →
      v t = view S.path w t) → Fits S w v)
    (h : Draft S w (s.slot (constructionEntryName name)) object (Built S contents m exactly) w') :
    Runs S E (s.publish object (constructionEntryName name) name)
      (fun identity w'' => ∃ i, Built S contents m exactly i ∧ identity = i.identity S.host ∧
        Moved S w w'' (published s name (view S.path w) i)) w' := by
  obtain ⟨i, hm, hl, ho, hi⟩ := h
  have hne := construction_slot_ne s name
  refine (reads_fstat hm.inv object).runs_bind ((reads_sync hm.inv s.path).runs_bind ?_)
  have hold : view S.path w' (s.slot (constructionEntryName name)) = some i := by
    rw [hm.view, Function.update_self]
  have hnew : view S.path w' (s.slot name) = none := by
    rw [hm.view, Function.update_of_ne hne.symm, hv]
  have hafter (t : Timestamp) : Function.update (Function.update (view S.path w')
      (s.slot (constructionEntryName name)) none) (s.slot name) (some { i with ctime := t }) =
      published s name (view S.path w) { i with ctime := t } := by
    rw [hm.view, Function.update_idem, published]
  have hfits (t : Timestamp) : Fits S w' (Function.update (Function.update (view S.path w')
      (s.slot (constructionEntryName name)) none) (s.slot name) (some { i with ctime := t })) := by
    rw [hafter]
    refine hm.fits (hf _ fun a ha hb => ?_)
    rw [published, Function.update_of_ne hb, Function.update_of_ne ha]
  refine Runs.andThen (P := fun r w'' => r = .ok () ∧ ∃ t, Moved S w w'' (published s name (view S.path w)
    { i with ctime := t })) (Runs.attempt ((runs_renameNoreplace hm.inv (watched_slot s _)
      (watched_slot s name) hold hnew
      fun t _ => hfits t).mono ?_)) ?_
  · rintro _ w'' ⟨t, -, hm'⟩
    rw [hafter] at hm'
    exact ⟨rfl, t, hm.trans hm'⟩
  · rintro _ w'' ⟨rfl, t, hm''⟩
    refine (reads_observe hm''.inv (watched_slot s _)).runs_bind
      ((reads_observe hm''.inv (watched_slot s name)).runs_bind ?_)
    have hgone : ident S (view S.path w'') (s.slot (constructionEntryName name)) = none := by
      rw [ident, hm''.view, published, Function.update_of_ne hne, Function.update_self]
      rfl
    have hthere : ident S (view S.path w'') (s.slot name) =
        some (Inode.identity S.host { i with ctime := t }) := by
      rw [ident, hm''.view, published, Function.update_self]
      rfl
    rw [hgone, hthere, ho]
    simp only [Option.isNone_none, Bool.true_and, Option.filter_some, sameFileAfterRename_ctime, ↓reduceIte]
    exact (reads_sync hm''.inv s.path).runs_bind (Runs.pure ⟨_, hi.renamed t, rfl, hm''⟩)

theorem newInode_regular (c : Choice) :
    (World.newInode S.host c).mode &&& fileTypeMask = regularType := by
  have h : (regularType ||| 0o600) &&& fileTypeMask = regularType := by decide
  exact h

theorem runs_createFile {contents : Bytes} {m : RestoreMetadata} {xattrs : List (Bytes × Bytes)}
    {exactly : Bool} (hi : Inv S w) (hdir : s.path ∈ w.directories) (hname : entryName name = .ok name)
    (hv : view S.path w (s.slot name) = none) (hm : Writable m xattrs)
    (hlen : contents.length ≤ maxCredentialSize)
    (hf : ∀ v, (∀ t, t ≠ s.slot (constructionEntryName name) → t ≠ s.slot name →
      v t = view S.path w t) → Fits S w v) :
    Runs S E (s.createFile name contents m exactly)
      (fun identity w' => ∃ i, Built S contents m exactly i ∧ identity = i.identity S.host ∧
        Moved S w w' (published s name (view S.path w) i)) w := by
  unfold StagingArea.createFile
  rw [hname]
  refine (reads_passes (not_lt.mpr hlen)).runs_bind ?_
  simp only [Prog.ofExcept_ok, Prog.bind_eq, Prog.pure_bind]
  have hone (x : Option Inode) : Fits S w (Function.update (view S.path w)
      (s.slot (constructionEntryName name)) x) :=
    hf _ fun t ht _ => Function.update_of_ne ht _ _
  refine (runs_discardEntry hi (hone none)).andThen fun _ w₁ h₁ => ?_
  have hidem (x : Option Inode) : Function.update (view S.path w₁) (s.slot (constructionEntryName name)) x =
      Function.update (view S.path w) (s.slot (constructionEntryName name)) x := by
    rw [h₁.view, Function.update_idem]
  refine (runs_createExclusive h₁.inv (watched_slot s _) ?_ ?_ fun c _ => ?_).andThen ?_
  · rw [h₁.view, Function.update_self]
  · rw [h₁.directories]
    exact hdir
  · rw [hidem]
    exact h₁.fits (hone _)
  rintro object w₂ ⟨c, -, hl, ho, hm₂⟩
  rw [hidem] at hm₂
  have hdraft : Draft S w (s.slot (constructionEntryName name)) object
      (fun i => i.links = 1 ∧ i.mode &&& fileTypeMask = regularType ∧ i.xattrs = []) w₂ :=
    ⟨_, h₁.trans hm₂, hl, ho, rfl, newInode_regular c, rfl⟩
  refine Runs.andThen (P := fun r w' => ∃ i, r = .ok (i.identity S.host) ∧ Built S contents m exactly i ∧
    Moved S w w' (published s name (view S.path w) i)) (Runs.attempt (Runs.andThen (runs_fill (watched_slot s _)
      hm hlen (fun j => hone _) hdraft) fun _ w₃ h₃ => (runs_publish hv hf h₃).mono ?_)) ?_
  · rintro _ w' ⟨i, hb, rfl, hmoved⟩
    exact ⟨i, rfl, hb, hmoved⟩
  · rintro _ w' ⟨i, rfl, hb, hmoved⟩
    exact Runs.pure ⟨i, hb, rfl, hmoved⟩

end FileGuard.Recovery
