import FileGuard.Recovery.Carrying
import FileGuard.Recovery.Completion

/-! A file whose extended attributes leave its generation no room after the capture. -/

namespace FileGuard.Recovery

open Store Files Transaction CrashLogic

section lengths

open Json

theorem byteLength_hex (b : Bytes) : byteLength (string (hexEncode b)) = 2 * b.length + 2 := by
  have hdigit : ∀ n < 16, escape (hexChar n) = [hexChar n] ∧ (hexChar n).utf8Size = 1 := by decide
  have hescaped : byteLength ((encodeChars b).flatMap escape) = 2 * b.length := by
    induction b with
    | nil => rfl
    | cons x xs ih =>
      have hx := x.toNat_lt
      obtain ⟨hhigh, hhigh'⟩ := hdigit (x.toNat / 16) (by omega)
      obtain ⟨hlow, hlow'⟩ := hdigit (x.toNat % 16) (by omega)
      have hcons : encodeChars (x :: xs) = hexChar (x.toNat / 16) :: hexChar (x.toNat % 16) :: encodeChars xs := rfl
      rw [hcons, List.flatMap_cons, List.flatMap_cons, hhigh, hlow, List.singleton_append, List.singleton_append,
        byteLength_cons, byteLength_cons, hhigh', hlow', ih, List.length_cons]
      omega
  have hquote : Char.utf8Size '"' = 1 := by decide
  have hend : byteLength ['"'] = 1 := by decide
  rw [string, hexEncode, String.toList_ofList, List.cons_append, byteLength_cons, byteLength_append, hquote, hend,
    hescaped]
  omega

theorem byteLength_encodeXattr (x : Bytes × Bytes) :
    byteLength (extendedAttribute (encodeXattr x)) = 2 * x.1.length + 2 * x.2.length + 30 := by
  have hname : byteLength "name_hex".toList = 8 := by decide
  have hvalue : byteLength "value_hex".toList = 9 := by decide
  simp only [extendedAttribute, encodeXattr, byteLength_object, byteLength_field, byteLength_hex, List.map_cons,
    List.map_nil, List.sum_cons, List.sum_nil, hname, hvalue]
  omega

theorem byteLength_xattrs (x : Bytes × Bytes) (xs : List (Bytes × Bytes)) :
    byteLength (array extendedAttribute ((x :: xs).map encodeXattr)) =
      ((x :: xs).map fun y => 2 * y.1.length + 2 * y.2.length + 31).sum + 1 := by
  have hopen : Char.utf8Size '[' = 1 := by decide
  have hclose : byteLength [']'] = 1 := by decide
  rw [array, List.cons_append, byteLength_cons, byteLength_append, hopen, hclose, List.map_cons, List.map_cons,
    byteLength_separated, byteLength_encodeXattr, List.map_map, List.map_map, List.map_cons, List.sum_cons]
  have hrest : ((fun t => byteLength t + 1) ∘ extendedAttribute) ∘ encodeXattr =
      fun y => 2 * y.1.length + 2 * y.2.length + 31 := by
    funext y
    simp only [Function.comp_apply, byteLength_encodeXattr]
  rw [hrest]
  omega

def bare (h : RecordHeader) : RecordHeader :=
  match h.original with
  | .present identity metadata => { h with original := .present identity { metadata with xattrs := [] } }
  | .absent metadata => { h with original := .absent { metadata with xattrs := [] } }

theorem headerLength_bare (h : RecordHeader) :
    headerLength h + 2 = headerLength (bare h) + byteLength (array extendedAttribute h.original.metadata.xattrs) := by
  have hnil : byteLength (array extendedAttribute []) = 2 := by decide
  cases ho : h.original <;>
  simp only [bare, ho, headerLength, encodeSnapshotHeader, recordHeader, originalState, OriginalState.metadata,
    Json.restoreMetadata, byteLength_object, byteLength_field, List.map_cons, List.map_nil, List.sum_cons, List.sum_nil,
    hnil] <;>
  omega

end lengths

theorem validateXattrs_sorted {previous : Option String} {xattrs : List (Bytes × Bytes)}
    (hfirst : ∀ name ∈ previous, ∀ x ∈ xattrs, name < hexEncode x.1)
    (hsorted : xattrs.Pairwise fun x y => hexEncode x.1 < hexEncode y.1) (hterminated : ∀ x ∈ xattrs, 0 ∉ x.1) :
    validateXattrs previous (xattrs.map encodeXattr) = .ok () := by
  induction xattrs generalizing previous with
  | nil => rfl
  | cons x rest ih =>
    obtain ⟨hx, hrest⟩ := List.pairwise_cons.mp hsorted
    rw [List.map_cons, validateXattrs]
    simp only [encodeXattr, decodeHex, hexDecode_hexEncode]
    refine check_eq_ok.mpr ⟨corruptIf_eq_ok.mpr (hterminated x List.mem_cons_self), check_eq_ok.mpr
      ⟨corruptIf_eq_ok.mpr ?_, ih ?_ hrest fun y hy => hterminated y (List.mem_cons_of_mem _ hy)⟩⟩
    · intro hle
      obtain ⟨name, hname, hle⟩ := (Option.any_eq_true _ _).mp hle
      exact String.not_le.mpr (hfirst name hname x List.mem_cons_self) (of_decide_eq_true hle)
    · intro name hname y hy
      cases hname
      exact hx y hy

section heavy

def sampleToken : String := "0123456789abcdef0123456789abcdef"

/-- Eight attributes, the last one shorter than the longest that Linux allows. -/
def heavyXattrs : List (Bytes × Bytes) := (List.range 8).map fun k =>
  (utf8 "user." ++ [UInt8.ofNat (97 + k)], List.replicate (if k < 7 then 65536 else 64890) 0)

def heavyInode : Inode := { World.newInode .sample ⟨⟨0, 0⟩, 7, "", .acknowledged, none⟩ with xattrs := heavyXattrs }

def World.heavy : World := { World.single with objects := fun _ => heavyInode }

/-- What the coordinator makes of it at time zero. -/
def heavyRecord : SnapshotRecord where
  header := {
    format := formatVersion
    pathHex := pathToHex Site.sample.path
    generation := sampleToken
    revision := 1
    lifecycle := .captured
    original := .present (heavyInode.identity .sample) (inodeMetadata .sample heavyInode)
    logicalPresent := true
    parent := { Host.sample.parent with ctime := ⟨0, 0⟩, mtime := ⟨0, 0⟩ }
    stagingPathHex := pathToHex (Path.join (utf8 "/staging") (utf8 sampleToken))
    swapName := "swap"
    storedName := "stored"
    placeholder := none
    mountToken := sampleToken
    contentSha256 := sha256 []
    blockedReason := none }
  contents := []

theorem heavy_sorted : heavyXattrs.Pairwise fun x y => hexEncode x.1 < hexEncode y.1 := by
  rw [heavyXattrs, List.pairwise_map]
  decide

theorem heavy_terminated : ∀ x ∈ heavyXattrs, 0 ∉ x.1 := by
  rw [heavyXattrs, List.forall_mem_map]
  decide

theorem readXattrs_heavy : readXattrs heavyXattrs = heavyXattrs.map encodeXattr :=
  Writable.readXattrs_eq (m := ⟨0, 0, 0, ⟨0, 0⟩, ⟨0, 0⟩, heavyXattrs.map encodeXattr⟩) ⟨by decide, by decide, ⟨by decide, by decide⟩,
    ⟨by decide, by decide⟩, rfl, List.pairwise_map.mpr heavy_sorted, heavy_terminated⟩

set_option maxRecDepth 20000 in
theorem headerLength_heavy : headerLength heavyRecord.header = 1048570 := by
  have hbare : headerLength (bare heavyRecord.header) = 943 := rfl
  have hxattrs : heavyRecord.header.original.metadata.xattrs = heavyXattrs.map encodeXattr := readXattrs_heavy
  have hsum : (heavyXattrs.map fun y => 2 * y.1.length + 2 * y.2.length + 31).sum = 1047628 := by
    simp only [heavyXattrs, List.map_map, Function.comp_def, List.length_append, List.length_replicate]
    decide
  have hlength := headerLength_bare heavyRecord.header
  have harray := byteLength_xattrs (heavyXattrs.head (by simp [heavyXattrs])) heavyXattrs.tail
  rw [List.cons_head_tail] at harray
  rw [hxattrs, harray, hsum, hbare] at hlength
  omega

theorem heavy_valid : validateSnapshot heavyRecord = .ok () := by
  have hmetadata : validateMetadata heavyRecord.header.original.metadata = .ok () := by
    refine check_eq_ok.mpr ⟨rfl, check_eq_ok.mpr ⟨rfl, check_eq_ok.mpr ⟨rfl,
      check_eq_ok.mpr ⟨rfl, ?_⟩⟩⟩⟩
    change validateXattrs none (readXattrs heavyXattrs) = .ok ()
    rw [readXattrs_heavy]
    exact validateXattrs_sorted (by simp) heavy_sorted heavy_terminated
  have hpaths : validatePaths heavyRecord.header.pathHex heavyRecord.header.stagingPathHex
      "snapshot paths must be absolute and normalized" = .ok () := rfl
  refine check_eq_ok.mpr ⟨rfl, check_eq_ok.mpr ⟨rfl, check_eq_ok.mpr ⟨rfl,
    check_eq_ok.mpr ⟨rfl, check_eq_ok.mpr ⟨rfl, check_eq_ok.mpr ⟨corruptIf_eq_ok.mpr (by simp [heavyRecord]),
    check_eq_ok.mpr ⟨rfl, check_eq_ok.mpr ⟨hpaths, check_eq_ok.mpr ⟨rfl,
    check_eq_ok.mpr ⟨rfl, check_eq_ok.mpr ⟨rfl, check_eq_ok.mpr ⟨rfl,
    check_eq_ok.mpr ⟨hmetadata, check_eq_ok.mpr ⟨rfl, check_eq_ok.mpr ⟨rfl,
    check_eq_ok.mpr ⟨rfl, rfl⟩⟩⟩⟩⟩⟩⟩⟩⟩⟩⟩⟩⟩⟩⟩⟩

end heavy

section run

theorem fresh_heavy : Fresh .sample World.heavy := by
  refine ⟨rfl, rfl, fresh_single.unstaged, fresh_single.bound, fun i hi => ?_⟩
  obtain ⟨object, -, rfl⟩ := Option.map_eq_some_iff.mp hi
  change Stamped heavyInode
  exact ⟨⟨by decide, by decide⟩, ⟨by decide, by decide⟩, by decide, by decide⟩

structure Still (w : World) (c : Choice) : Prop extends Fair Site.sample.path w c where
  clock : c.now = ⟨0, 0⟩
  same : c.token = sampleToken

abbrev stillMachine : Machine signature (World × List Op) := (alone Site.sample.host Still).logged

abbrev Leads {ε α : Type} (prog : Prog signature ε α) (Q : Except ε α → World × List Op → Prop) (s : World × List Op) : Prop :=
  wp stillMachine (fun _ s' => Inv .sample s'.1.settled) prog Q s

variable {s : World × List Op} {α ε : Type}

theorem Leads.of_wp {prog : Prog signature ε α} {Q : Except ε α → World → Prop}
    (h : wp Site.sample.machine (KeepsInv .sample) prog Q s.1.settled) :
    Leads prog (fun r s' => Q r s'.1.settled ∧ s.2 <:+ s'.2) s := by
  have hstill : wp (calm Site.sample.host Still) (KeepsInv .sample) prog Q s.1.settled := by
    apply wp_weaken h
    · rintro o w r w' ⟨c, hc, he⟩
      exact ⟨c, hc.toFair, he⟩
    · exact fun _ _ hr => hr
  exact wp_logged (wp_alone_of_calm (fun _ _ hc => ⟨hc.settled, hc.clock, hc.same⟩) hstill) s.2

theorem Leads.perform {o : Op} {Q : Except ε o.Resp → World × List Op → Prop}
    (h : ∀ c, Still s.1 c → Inv .sample (s.1.exec Site.sample.host c o).2.settled ∧
      Q (.ok (s.1.exec Site.sample.host c o).1) ((s.1.exec Site.sample.host c o).2, o :: s.2)) :
    Leads (Files.perform o) Q s := by
  rintro ⟨w, log⟩ ⟨rfl, rfl⟩ r ⟨w', log'⟩ ⟨⟨c, hc, he⟩, rfl⟩
  obtain ⟨hi, hq⟩ := h c hc
  rw [he] at hi hq
  exact ⟨hi, hq⟩

theorem heavy_fits : fitsRow heavyRecord.header := by
  refine ⟨by decide, ?_⟩
  rw [headerLength_heavy]
  decide

theorem heavy_commit : (World.heavy.store Site.sample.path).commit Site.sample.path none heavyRecord =
    .ok (.present heavyRecord) := by
  apply commit_eq_ok (S := .sample) _ heavy_fits
  exact check_eq_ok.mpr ⟨heavy_valid, rfl⟩

theorem planned_sample : StagingArea.plannedPath Site.sample.manager.cwd Site.sample.manager.stagingRoot sampleToken =
    .ok (Path.join (utf8 "/staging") (utf8 sampleToken)) := rfl

theorem heavy_unstaged : Unstaged (view Site.sample.path World.heavy.settled) := fresh_heavy.inv.consistent.1

theorem view_heavy : view Site.sample.path World.heavy.settled (targetSlot .sample) = some heavyInode := by
  rw [view_of_watched watched_target]
  have hlookup : World.heavy.settled.lookup (targetSlot .sample) = some 0 := rfl
  rw [World.file, hlookup]
  rfl

theorem heavy_plain : Plain heavyInode := ⟨by decide, by decide, by decide⟩

theorem consistent_heavy : Consistent .sample (.present heavyRecord) (some heavyRecord) []
    (view Site.sample.path World.heavy.settled) := by
  have hcaptured := (CaptureAnswer.present heavyInode view_heavy heavy_plain).captured
  exact consistent_captured heavy_unstaged hcaptured heavy_valid rfl rfl rfl rfl ⟨_, rfl⟩ rfl (plannedPath_ok planned_sample)
    rfl rfl rfl

/-- The row is there, and the log shows how it came. -/
structure Taken (s : World × List Op) : Prop where
  now : Now .sample s.1.settled heavyRecord
  unstaged : Unstaged (view Site.sample.path s.1.settled)
  logged : .commit Site.sample.path none heavyRecord ∈ s.2

theorem leads_ask {o : Op} {a : o.Resp} (hs : s.1.settled = World.heavy.settled)
    (h : ∀ c, Still s.1 c → s.1.exec Site.sample.host c o = (a, s.1)) :
    Leads (Files.perform o : Prog signature ε o.Resp) (fun r s' => r = .ok a ∧ s'.1.settled = World.heavy.settled) s := by
  apply Leads.perform
  intro c hc
  rw [h c hc]
  exact ⟨hs ▸ fresh_heavy.inv, rfl, hs⟩

theorem leads_token (hs : s.1.settled = World.heavy.settled) :
    Leads (randomToken : Prog signature ε String) (fun r s' => r = .ok sampleToken ∧ s'.1.settled = World.heavy.settled) s :=
  leads_ask hs fun c hc => by rw [World.exec, hc.same]

theorem leads_parentIdentity (hs : s.1.settled = World.heavy.settled) :
    Leads (ResolvedPath.parentIdentity : Prog signature ε ObjectIdentity)
      (fun r s' => r = .ok heavyRecord.header.parent ∧ s'.1.settled = World.heavy.settled) s := by
  have hask : Leads (Files.perform .parentStat : Prog signature ε Stat) _ s :=
    leads_ask (a := Stat.mk heavyRecord.header.parent ⟨0, 0⟩) hs fun c hc => by
      rw [World.exec, hc.clock]
      rfl
  refine wp_bind.mpr (wp_mono hask ?_)
  rintro _ s' ⟨rfl, hs'⟩
  exact ⟨rfl, hs'⟩

theorem leads_capture (hs : s.1.settled = World.heavy.settled) :
    Leads Site.sample.target.capture (fun r s' => s'.1.settled = World.heavy.settled ∧
      r = .ok ⟨[], heavyRecord.header.original⟩) s := by
  have hi : Inv .sample s.1.settled := hs ▸ fresh_heavy.inv
  refine wp_mono (Leads.of_wp (wp_capture hi)) ?_
  rintro answer s' ⟨⟨hs', hanswer⟩, -⟩
  rw [hs] at hs' hanswer
  refine ⟨hs', ?_⟩
  cases hanswer with
  | absent t time nothing =>
    rw [view_heavy] at nothing
    cases nothing
  | failed e i found odd =>
    rw [view_heavy] at found
    cases found
    exact absurd heavy_plain odd
  | present i found plain =>
    rw [view_heavy] at found
    cases found
    rfl

theorem leads_commit (hs : s.1.settled = World.heavy.settled) :
    Leads (storeCommit Site.sample.path none heavyRecord)
      (fun r s' => r = .ok (.ok heavyRecord.version) ∧ Taken s') s := by
  have hi : Inv .sample s.1.settled := hs ▸ fresh_heavy.inv
  have hstore : s.1.store = World.heavy.store := (World.settled_eq_iff.mp hs).1
  have hconsistent : Consistent .sample (.present heavyRecord) (some heavyRecord) s.1.settled.directories
      (view Site.sample.path s.1.settled) := by
    rw [hs]
    exact consistent_heavy
  have hcommitted := committed_putEntry hi hconsistent
  apply Leads.perform
  intro c hc
  have hexec : s.1.exec Site.sample.host c (.commit Site.sample.path none heavyRecord) =
      (.ok heavyRecord.version, s.1.putEntry Site.sample.path (.present heavyRecord)) := by
    rw [World.exec, World.commitEntry, hstore, heavy_commit, hc.answer]
    rfl
  rw [hexec]
  refine ⟨hcommitted.inv, rfl, hcommitted.now, ?_, List.mem_cons_self⟩
  change Unstaged (view Site.sample.path s.1.settled)
  rw [hs]
  exact heavy_unstaged

theorem leads_captureRecord (hs : s.1.settled = World.heavy.settled) :
    Leads (Site.sample.manager.captureRecord Site.sample.path true) (fun r s' => r = .ok heavyRecord ∧ Taken s') s := by
  unfold Manager.captureRecord
  refine wp_bind.mpr (wp_mono (Leads.of_wp reads_resolve) ?_)
  rintro _ s₁ ⟨⟨rfl, hs₁⟩, -⟩
  refine wp_bind.mpr (wp_mapError.mpr (wp_mono (leads_capture (hs₁.trans hs)) ?_))
  rintro _ s₂ ⟨hs₂, rfl⟩
  refine wp_bind.mpr (wp_mono (leads_parentIdentity hs₂) ?_)
  rintro _ s₃ ⟨rfl, hs₃⟩
  refine wp_bind.mpr (wp_mono (leads_token hs₃) ?_)
  rintro _ s₄ ⟨rfl, hs₄⟩
  rw [onOk_ok, planned_sample]
  refine wp_bind.mpr (wp_mapError.mpr (wp_ofExcept.mpr (wp_bind.mpr (wp_mono (leads_token hs₄) ?_))))
  rintro _ s₅ ⟨rfl, hs₅⟩
  refine wp_bind.mpr (wp_mono (leads_commit hs₅) ?_)
  rintro _ s₆ ⟨rfl, htaken⟩
  exact ⟨rfl, htaken⟩

theorem heavy_outgrown : headerLimit < headerLength (advance heavyRecord (.storeIntent "stored") none).header := by
  have hlength := @headerLength_storing heavyRecord none rfl rfl rfl rfl rfl
  rw [headerLength_heavy] at hlength
  change headerLength (advance heavyRecord (.storeIntent "stored") none).header = _ at hlength
  rw [hlength]
  decide

/-- The commit of the next row was tried, and refused. -/
structure Outgrown (s : World × List Op) : Prop where
  invariant : Inv .sample s.1.settled
  entry : s.1.store Site.sample.path = .present heavyRecord
  captured : .commit Site.sample.path none heavyRecord ∈ s.2
  outgrown : .commit Site.sample.path (some heavyRecord.version) (advance heavyRecord (.storeIntent "stored") none) ∈ s.2

theorem leads_storing (h : Taken s) :
    Leads (storeCommit Site.sample.path (some heavyRecord.version) (advance heavyRecord (.storeIntent "stored") none))
      (fun r s' => (∃ error, r = .ok (.error error)) ∧ Outgrown s') s := by
  apply Leads.perform
  intro c hc
  have hentry : s.1.store Site.sample.path = .present heavyRecord := h.now.entry
  cases hcommit : (s.1.store Site.sample.path).commit Site.sample.path (some heavyRecord.version)
      (advance heavyRecord (.storeIntent "stored") none) with
  | ok after =>
    obtain ⟨⟨-, -, hfits⟩, -⟩ := Entry.commit_evolves (Entry_commit_ok hcommit ▸ hcommit) .acknowledged
    exact absurd hfits.2 (not_le.mpr heavy_outgrown)
  | error error =>
    have hexec : s.1.exec Site.sample.host c (.commit Site.sample.path (some heavyRecord.version)
        (advance heavyRecord (.storeIntent "stored") none)) = (.error error, s.1) := by
      rw [World.exec, World.commitEntry, hcommit]
      rfl
    rw [hexec]
    exact ⟨h.now.inv, ⟨error, rfl⟩, h.now.inv, hentry, List.mem_cons_of_mem _ h.logged, List.mem_cons_self⟩

theorem leads_transition (h : Taken s) :
    Leads (transition heavyRecord (.storeIntent heavyRecord.header.storedName))
      (fun r s' => (∃ error, r = .error error) ∧ Outgrown s') s := by
  have hpath : recordPath heavyRecord = .pure Site.sample.path := recordPath_eq rfl
  have hsuccessor : heavyRecord.successor (.storeIntent heavyRecord.header.storedName) heavyRecord.contents =
      advance heavyRecord (.storeIntent "stored") none := rfl
  unfold transition commitSuccessor
  rw [hpath, hsuccessor, Prog.bind_eq, Prog.pure_bind]
  refine wp_bind.mpr (wp_mapError.mpr (wp_bind.mpr (wp_bind.mpr (wp_mono (leads_storing h) ?_))))
  rintro _ s' ⟨⟨error, rfl⟩, hs'⟩
  exact ⟨⟨_, rfl⟩, hs'⟩

theorem leads_prepareOfflineStaging (h : Taken s) :
    Leads (Site.sample.manager.prepareOfflineStaging heavyRecord) (fun r s' => r = .ok heavyRecord ∧ Taken s') s := by
  refine wp_mono (Leads.of_wp (runs_prepareOfflineStaging (E := False) h.now rfl h.unstaged)) ?_
  rintro (error | next) s' ⟨hend, hlog⟩
  · exact hend.elim
  · obtain ⟨rfl, hnow, hunstaged, -⟩ := hend
    exact ⟨rfl, hnow, hunstaged, hlog.subset h.logged⟩

theorem leads_loadOrCapture :
    Leads (Site.sample.manager.loadOrCapture Site.sample.path) (fun r s' => r = .ok heavyRecord ∧ Taken s')
      (World.heavy, []) := by
  unfold Manager.loadOrCapture
  refine wp_bind.mpr (wp_mono (Leads.of_wp (reads_load fresh_heavy.inv)) ?_)
  rintro _ s₁ ⟨⟨rfl, hs₁⟩, -⟩
  exact leads_captureRecord hs₁

theorem leads_storeOffline :
    Leads (Site.sample.manager.storeOffline Site.sample.path) (fun _ s' => Outgrown s') (World.heavy, []) := by
  unfold Manager.storeOffline
  rw [normalizePath_eq, Prog.bind_eq, Prog.pure_bind]
  refine wp_bind.mpr (wp_mono leads_loadOrCapture ?_)
  rintro _ s₁ ⟨rfl, htaken₁⟩
  have hunblocked : requireUnblocked Site.sample.path heavyRecord = .pure () := rfl
  rw [onOk_ok, hunblocked, Prog.bind_eq, Prog.pure_bind]
  refine wp_bind.mpr (wp_mono (leads_prepareOfflineStaging htaken₁) ?_)
  rintro _ s₂ ⟨rfl, htaken₂⟩
  refine wp_bind.mpr (wp_mono (leads_transition htaken₂) ?_)
  rintro _ s₃ ⟨⟨error, rfl⟩, houtgrown⟩
  exact houtgrown

theorem finishes_storeOffline : ∃ result s',
    Finishes stillMachine (Site.sample.manager.storeOffline Site.sample.path) (World.heavy, []) result s' := by
  apply exists_finishes (I := fun s => Inv .sample s.1.settled) _ (fun _ _ hk => hk) fresh_heavy.inv leads_storeOffline
  intro s hi o
  obtain ⟨c, hc⟩ := exists_fair hi
  have hnow : Stamp ⟨0, 0⟩ := ⟨by decide, by decide⟩
  have htoken : isToken sampleToken := by decide
  have hstill : Still s.1 ⟨⟨0, 0⟩, c.number, sampleToken, .acknowledged, none⟩ := ⟨⟨hnow, hc.number, htoken, rfl, rfl⟩, rfl, rfl⟩
  exact ⟨_, (_, o :: s.2), ⟨_, hstill, rfl⟩, rfl⟩

/-- The file is captured, and the next row of its generation is over the limit. -/
theorem outgrown : ∃ progs w log, Lives (daemonMachine .sample) progs (w, log) ∧
    w.store Site.sample.path = .present heavyRecord ∧ headerLength heavyRecord.header ≤ headerLimit ∧
      .commit Site.sample.path none heavyRecord ∈ log ∧
        ∃ next, .commit Site.sample.path (some heavyRecord.version) next ∈ log ∧
          next.header.generation = heavyRecord.header.generation ∧ headerLimit < headerLength next.header := by
  obtain ⟨result, ⟨w, log⟩, hfinishes⟩ := finishes_storeOffline
  have hend := wp_finishes leads_storeOffline hfinishes
  have hstart : Lives (daemonMachine .sample) [Operation.storeOffline.program Site.sample.manager Site.sample.path]
      (World.heavy, []) := .start (.init ⟨fun _ => rfl, rfl⟩) ⟨Site.sample.manager, Site.sample.path, .storeOffline, trivial, rfl⟩
  have hfollow {o : Op} {s s' : World × List Op} {r : o.Resp} (h : stillMachine.step o s r s') :
      (daemonMachine .sample).logged.step o s r s' := by
    obtain ⟨⟨c, hc, he⟩, hlog⟩ := h
    exact ⟨⟨c, hc.token, he⟩, hlog⟩
  have hquiet {s s' : World × List Op} (h : stillMachine.rely s s') : (daemonMachine .sample).logged.rely s s' :=
    ⟨congrArg World.store h.1.symm, h.2⟩
  obtain ⟨q, run⟩ := hstart.finishes (fun _ _ _ _ => hfollow) (fun _ _ => hquiet) hfinishes
  exact ⟨_, w, log, run, hend.entry, heavy_fits.2, hend.captured, _, hend.outgrown, rfl, heavy_outgrown⟩

end run

end FileGuard.Recovery
