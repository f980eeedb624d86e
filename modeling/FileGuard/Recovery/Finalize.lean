import FileGuard.Recovery.Cleanup

/-! From the final copy to the file at the watched path and an empty store. -/

namespace FileGuard.Recovery

open Store Files Transaction CrashLogic

variable {S : Site} {w w' : World} {r : SnapshotRecord} {E : Prop} {v v' : View}
  {final : Option ObjectIdentity}

section marker

theorem decodeHex_sha256 (contents : Bytes) (label : String) :
    decodeHex (sha256 contents) label = .ok (Sha256.digest contents) := by
  rw [decodeHex, hexDecode_sha256]

theorem validatePaths_message {pathHex stagingPathHex message other : String}
    (h : validatePaths pathHex stagingPathHex message = .ok ()) :
    validatePaths pathHex stagingPathHex other = .ok () := by
  unfold validatePaths at h ⊢
  obtain ⟨path, hpath, h⟩ := bind_eq_ok.mp h
  obtain ⟨staging, hstaging, h⟩ := bind_eq_ok.mp h
  obtain ⟨habsolute, h⟩ := check_eq_ok.mp h
  obtain ⟨normal, hnormal, h⟩ := bind_eq_ok.mp h
  obtain ⟨hsame, h⟩ := check_eq_ok.mp h
  obtain ⟨normalStaging, hnormalStaging, h⟩ := bind_eq_ok.mp h
  rw [corruptIf_eq_ok] at habsolute hsame h
  exact bind_eq_ok.mpr ⟨path, hpath, bind_eq_ok.mpr ⟨staging, hstaging, check_eq_ok.mpr
    ⟨corruptIf_eq_ok.mpr habsolute, bind_eq_ok.mpr ⟨normal, hnormal, check_eq_ok.mpr
      ⟨corruptIf_eq_ok.mpr hsame, bind_eq_ok.mpr ⟨normalStaging, hnormalStaging,
        corruptIf_eq_ok.mpr h⟩⟩⟩⟩⟩⟩

theorem valid_finalIdentity {i : Inode} (hi : Intact S r i) (hs : Stamped i)
    (hl : r.header.logicalPresent = true) :
    validateFinalIdentity (Manager.finalizationMarker r (some (i.identity S.host))) = .ok () := by
  unfold validateFinalIdentity
  simp only [Manager.finalizationMarker, hl]
  refine check_eq_ok.mpr ⟨valid_of_plain hi.plain hs, corruptIf_eq_ok.mpr ?_⟩
  obtain ⟨huid, hgid, hmode, hmtime, -⟩ := hi.metadata
  simp only [inodeMetadata, metadataOf] at huid hgid hmode hmtime
  rw [size_toNat hi.plain.2.2, hi.contents, ← huid, ← hgid, ← hmode, ← hmtime]
  simp only [ne_eq, not_true_eq_false, or_self, or_false, not_not]
  exact hi.plain.2.1

theorem valid_finalizationMarker (hi : Inv S w) (hs : Sound S r) (hf : FinalCopy S r (view S.path w) final) :
    validateFinalization (Manager.finalizationMarker r final) = .ok () := by
  have h := hs.valid
  simp only [validateSnapshot, check_eq_ok] at h
  obtain ⟨hformat, -, hgen, -, hlen, -, -, hpaths, -, -, hparent, -, hmeta, -, -, -, -⟩ := h
  unfold validateFinalization
  refine check_eq_ok.mpr ⟨?_, check_eq_ok.mpr ⟨hgen, check_eq_ok.mpr ⟨?_, check_eq_ok.mpr ⟨?_,
    check_eq_ok.mpr ⟨valid_label hparent, check_eq_ok.mpr ⟨hmeta, check_eq_ok.mpr ⟨?_, bind_eq_ok.mpr
      ⟨Sha256.digest r.contents, ?_, check_eq_ok.mpr ⟨?_, ?_⟩⟩⟩⟩⟩⟩⟩⟩⟩
  · rw [corruptIf_eq_ok]
    simp [Manager.finalizationMarker]
  · exact validatePaths_message hpaths
  · exact entryName_final.validate
  · rw [corruptIf_eq_ok] at hlen ⊢
    exact hlen
  · change decodeHex r.header.contentSha256 _ = _
    rw [hs.digest, decodeHex_sha256]
  · rw [corruptIf_eq_ok, not_not]
    exact Sha256.digest_length _
  · have hpresent := hf.present
    have hident := hf.identity
    cases final with
    | none =>
      have hempty := (validateSnapshot_facts hs.valid).emptyWhenAbsent hpresent.symm
      unfold validateFinalIdentity
      simp only [Manager.finalizationMarker, ← hpresent]
      refine corruptIf_eq_ok.mpr (not_not.mpr ⟨by rw [hempty]; rfl, ?_⟩)
      rw [hs.digest, hempty]
    | some identity =>
      obtain ⟨i, hv, rfl⟩ := ident_some hident
      exact valid_finalIdentity (hf.intact i hv) (hi.sane.tidy.stamped hv) hpresent.symm

end marker

/-- The marker has taken the row's place. -/
structure Finalizing (S : Site) (w : World) (r : SnapshotRecord) (final : Option ObjectIdentity) : Prop where
  inv : Inv S w
  entry : w.store S.path = .finalizing (Manager.finalizationMarker r final)
  sound : Sound S r
  last : w.ghost.last S.path = some r
  valid : validateFinalization (Manager.finalizationMarker r final) = .ok ()
  files : FinalizingFiles S r (view S.path w) final
  directory : stagingOf r ∈ w.directories

theorem finalizing_of_entry {marker : FinalizationRecord} (hi : Inv S w)
    (h : w.store S.path = .finalizing marker) :
    ∃ r final, marker = Manager.finalizationMarker r final ∧ Finalizing S w r final := by
  have hc := hi.consistent
  rw [h] at hc
  obtain ⟨r, final, hs, hlast, rfl, hvalid, hfiles, hdir⟩ := hc
  exact ⟨r, final, rfl, hi, h, hs, hlast, hvalid, hfiles, hdir⟩

namespace Finalizing

variable (h : Finalizing S w r final)
include h

theorem fits (hf : FinalizingFiles S r v final) : Fits S w v := by
  rw [Fits, h.entry, h.last]
  exact ⟨r, final, h.sound, rfl, rfl, h.valid, hf, h.directory⟩

theorem moved (hm : Moved S w w' v) (hf : FinalizingFiles S r v final) : Finalizing S w' r final :=
  ⟨hm.inv, hm.entry.trans h.entry, h.sound, hm.last.trans h.last, h.valid, hm.view ▸ hf,
    hm.directories ▸ h.directory⟩

theorem present : final.isSome = r.header.logicalPresent := by
  have hv := h.valid
  unfold validateFinalization at hv
  obtain ⟨-, hv⟩ := check_eq_ok.mp hv
  obtain ⟨-, hv⟩ := check_eq_ok.mp hv
  obtain ⟨-, hv⟩ := check_eq_ok.mp hv
  obtain ⟨-, hv⟩ := check_eq_ok.mp hv
  obtain ⟨-, hv⟩ := check_eq_ok.mp hv
  obtain ⟨-, hv⟩ := check_eq_ok.mp hv
  obtain ⟨-, hv⟩ := check_eq_ok.mp hv
  obtain ⟨_, -, hv⟩ := bind_eq_ok.mp hv
  obtain ⟨-, hv⟩ := check_eq_ok.mp hv
  unfold validateFinalIdentity at hv
  simp only [Manager.finalizationMarker] at hv
  cases hl : r.header.logicalPresent with
  | true =>
    cases final with
    | none => rw [hl] at hv; cases hv
    | some identity => rfl
  | false =>
    cases final with
    | none => rfl
    | some identity => rw [hl] at hv; cases hv

end Finalizing

theorem beginFinalization_eq {entry after : Entry} {expected : RecordVersion} {marker : FinalizationRecord}
    (h : entry.beginFinalization S.path expected marker = .ok after) : after = .finalizing marker := by
  unfold Entry.beginFinalization at h
  obtain ⟨-, h⟩ := check_eq_ok.mp h
  obtain ⟨-, h⟩ := check_eq_ok.mp h
  cases entry with
  | missing => cases h
  | finalizing other => cases h
  | present current =>
    obtain ⟨-, h⟩ := check_eq_ok.mp h
    obtain ⟨-, h⟩ := check_eq_ok.mp h
    obtain ⟨_, -, h⟩ := bind_eq_ok.mp h
    obtain ⟨-, h⟩ := check_eq_ok.mp h
    cases h
    rfl

theorem beginFinalization_ok (hs : Sound S r) (hd : isDeleteIntent r.header.lifecycle = true)
    (hv : validateFinalization (Manager.finalizationMarker r final) = .ok ())
    (hrev : r.header.revision + 1 < revisionLimit)
    (hlen : markerLength (Manager.finalizationMarker r final) ≤ headerLimit) :
    (Entry.present r).beginFinalization S.path r.version (Manager.finalizationMarker r final) =
      .ok (.finalizing (Manager.finalizationMarker r final)) := by
  unfold Entry.beginFinalization
  refine check_eq_ok.mpr ⟨hv, check_eq_ok.mpr ⟨conflictIf_eq_ok.mpr ?_, check_eq_ok.mpr ⟨conflictIf_eq_ok.mpr ?_,
    check_eq_ok.mpr ⟨conflictIf_eq_ok.mpr ?_, bind_eq_ok.mpr ⟨_, revisionToSql_eq_ok.mpr ⟨hrev, rfl⟩,
      check_eq_ok.mpr ⟨markerFits_eq_ok.mpr hlen, rfl⟩⟩⟩⟩⟩⟩
  · simp [Manager.finalizationMarker, SnapshotRecord.version, hs.bound]
  · simp
  · simp [hs.unblocked, hd]

variable {origin : RestoreOrigin} {restored displaced detached : Option ObjectIdentity}
  {displacedName detachedName : Option String}

/-- Nothing but the final copy is left. -/
structure Reduced (S : Site) (w : World) (r : SnapshotRecord) (origin : RestoreOrigin)
    (restored : Option ObjectIdentity) (displacedName : Option String) (displaced : Option ObjectIdentity)
    (detachedName : Option String) (detached : Option ObjectIdentity) (final : Option ObjectIdentity) :
    Prop where
  deleting : Deleting S w r origin restored displacedName displaced detachedName detached
  copy : FinalCopy S r (view S.path w) final
  only : Only (view S.path w) (stagingOf r) [finalName]
  target : view S.path w (targetSlot S) = none

namespace Reduced

variable (h : Reduced S w r origin restored displacedName displaced detachedName detached final)
include h

theorem layout : layoutOf S r (view S.path w) finalName = (none, final) := by
  refine Prod.ext ?_ h.copy.identity
  rw [layoutOf, ident, h.target]
  rfl

theorem files : FinalizingFiles S r (view S.path w) final :=
  ⟨h.only, .inl ⟨layoutMatches_exact.mpr h.layout, h.copy.intact⟩⟩

theorem reads_containsOnly :
    Reads S ((⟨stagingOf r⟩ : StagingArea).containsOnly (if final.isSome then [finalName] else []) :
      Prog signature TxError Bool) (.ok true) w := by
  have hentries : w.entriesOf (stagingOf r) = if final.isSome then [finalName] else [] := by
    have hident := h.copy.identity
    cases final with
    | none =>
      refine entriesOf_eq_nil (S := S) fun n => ?_
      by_contra hne
      obtain ⟨-, hmem⟩ := h.only _ _ hne
      obtain rfl : n = finalName := by simpa using hmem
      exact hne (Option.map_eq_none_iff.mp hident)
    | some identity =>
      refine entriesOf_eq_singleton (S := S) fun n => ⟨fun hne => ?_, ?_⟩
      · simpa using (h.only _ _ hne).2
      · rintro rfl
        obtain ⟨i, hv, -⟩ := ident_some hident
        rw [show view S.path w (.staged (stagingOf r) finalName) = some i from hv]
        simp
  apply (reads_entries h.deleting.now.inv _).bind
  rw [hentries]
  cases final <;> exact .pure _

theorem reads_confirmFinal : Reads S (Manager.confirmFinal ⟨stagingOf r⟩ r final) (.ok ()) w := by
  unfold Manager.confirmFinal
  have hident := h.copy.identity
  cases final with
  | none => exact .pure _
  | some expected =>
    obtain ⟨i, hv, rfl⟩ := ident_some hident
    rw [h.deleting.now.sound.digest]
    apply (reads_ofIo (reads_verifyFinalization (s := ⟨stagingOf r⟩) h.deleting.now.inv entryName_final hv
      (h.copy.intact i hv))).bind
    simp only [↓reduceIte]
    exact .pure _

theorem runs_storedFinalization (hroom : E ∨ Room 1 r) :
    Runs S E (Manager.storedFinalization S.path r (Manager.finalizationMarker r final))
      (fun marker w' => marker = Manager.finalizationMarker r final ∧ Finalizing S w' r final) w := by
  have hn := h.deleting.now
  have hs := hn.sound
  have hd : isDeleteIntent r.header.lifecycle = true := by rw [h.deleting.phase]; rfl
  have hvalid := valid_finalizationMarker hn.inv hs h.copy
  unfold Manager.storedFinalization
  apply Runs.andThen (P := fun answer w' => (∃ version, answer = .ok version ∧ Finalizing S w' r final) ∨
    ∃ error, answer = .error error ∧ E ∧ Now S w' r)
  · refine Runs.perform fun c hfair => ?_
    simp only [World.exec, World.commitEntry, hn.entry]
    cases hbegin : (Entry.present r).beginFinalization S.path r.version (Manager.finalizationMarker r final) with
    | error error =>
      simp only [Except.map, SqliteStore.settle, hn.inv.sane.settled]
      refine ⟨hn.inv, .inr ⟨error, rfl, ?_, hn⟩⟩
      rcases hroom with he | hroom
      · exact he
      · have hrev := hroom.revision
        rw [beginFinalization_ok hs hd hvalid hrev (hroom.marker hs final)] at hbegin
        cases hbegin
    | ok after =>
      rw [beginFinalization_eq hbegin]
      simp only [Except.map, SqliteStore.settle, hfair.answer]
      have hfinal : Finalizing S (w.putEntry S.path (.finalizing (Manager.finalizationMarker r final))).settled r
          final := by
        have hentry : (w.putEntry S.path (.finalizing (Manager.finalizationMarker r final))).settled.store S.path =
            .finalizing (Manager.finalizationMarker r final) := putEntry_store _
        refine ⟨⟨(putEntry_sane hn.inv.sane _).1, ?_⟩, hentry, hs, hn.last, hvalid, h.files, h.deleting.directory⟩
        rw [hentry]
        exact ⟨r, final, hs, hn.last, rfl, hvalid, h.files, h.deleting.directory⟩
      exact ⟨hfinal.inv, .inl ⟨_, rfl, hfinal⟩⟩
  · rintro answer w' (⟨version, rfl, hfinal⟩ | ⟨error, rfl, he, hnow⟩)
    · exact Runs.pure ⟨rfl, hfinal⟩
    · apply (reads_load hnow.inv).runs_bind
      rw [hnow.entry]
      simp only [↓reduceIte]
      exact Runs.fail he

end Reduced

/-- The final copy is at the path. -/
structure Arrived (S : Site) (r : SnapshotRecord) (v : View) (final : Option ObjectIdentity) : Prop where
  layout : layoutMatches (layoutOf S r v finalName) (final, none) true = true
  intact : AllIntact S r v (targetSlot S)

theorem Arrived.unstaged (h : Arrived S r v final) (ho : Only v (stagingOf r) [finalName]) : Unstaged v := by
  have hnone : v (stagedSlot r finalName) = none :=
    Option.map_eq_none_iff.mp (objectMatches_none_right (layoutMatches_iff.mp h.layout).2)
  intro d n
  by_contra hne
  obtain ⟨rfl, hmem⟩ := ho d n hne
  obtain rfl : n = finalName := by simpa using hmem
  exact hne hnone

theorem Arrived.delivered (h : Arrived S r v final) (hp : final.isSome = r.header.logicalPresent) :
    Delivered S r v := by
  have ht := (layoutMatches_iff.mp h.layout).1
  unfold Delivered
  rw [← hp]
  cases final with
  | none => exact Option.map_eq_none_iff.mp (objectMatches_none_right ht)
  | some expected =>
    cases hv : v (targetSlot S) with
    | none => simp only [layoutOf, ident, hv] at ht; cases ht
    | some i => exact ⟨i, rfl, h.intact i hv⟩

theorem finalInstalled_of_matches {layout : Layout} {expected : ObjectIdentity}
    (h : layoutMatches layout (some expected, none) true = true) :
    Manager.finalInstalled expected layout = true ∧ layout.1 ≠ none := by
  obtain ⟨target, staged⟩ := layout
  obtain ⟨ht, hs⟩ := layoutMatches_iff.mp h
  obtain rfl : staged = none := objectMatches_none_right hs
  cases target with
  | none => cases ht
  | some actual => exact ⟨ht, by simp⟩

theorem FinalizingFiles.swap {t : Timestamp} (h : FinalizingFiles S r v final)
    (hbefore : layoutOf S r v finalName = (none, final)) (ha : AllIntact S r v (stagedSlot r finalName)) :
    FinalizingFiles S r (swapped t (targetSlot S) (stagedSlot r finalName) v) final := by
  refine ⟨?_, .inr (AroundRename.after .back hbefore ha)⟩
  exact InstallFiles.loose h.1 fun z hz hz' => swapped_of_ne hz hz'

theorem runs_moveFinal {expected : ObjectIdentity} (h : Finalizing S w r (some expected)) :
    Runs S E (Manager.moveFinal S.target ⟨stagingOf r⟩ finalName expected
        (layoutOf S r (view S.path w) finalName))
      (fun layout w' => Finalizing S w' r (some expected) ∧ Arrived S r (view S.path w') (some expected) ∧
        layout = layoutOf S r (view S.path w') finalName) w := by
  unfold Manager.moveFinal
  rcases h.files.2 with ⟨hbefore, hintact⟩ | ⟨hafter, hintact⟩
  · rw [layoutMatches_exact] at hbefore
    rw [if_pos hbefore]
    have hbefore' := hbefore
    simp only [layoutOf, Prod.mk.injEq] at hbefore'
    obtain ⟨j, hj, -⟩ := ident_some hbefore'.2
    have hnone := Option.map_eq_none_iff.mp hbefore'.1
    have hswap (t : Timestamp) := h.files.swap (t := t) hbefore hintact
    refine Runs.andThen (P := fun answer w' => answer = .ok () ∧ ∃ t, Moved S w w'
      (swapped t (targetSlot S) (stagedSlot r finalName) (view S.path w))) (Runs.attempt (Runs.mapError
        ((runs_installAbsent h.inv entryName_final hnone hj fun t => h.fits (hswap t)).mono
          fun _ w' hm => ⟨rfl, hm⟩))) ?_
    rintro _ w' ⟨rfl, t, hm⟩
    have h' := h.moved hm (hswap t)
    obtain ⟨hlayout, htarget⟩ := AroundRename.after (t := t) .back hbefore hintact
    apply (reads_observeLayout h'.inv entryName_final).runs
    rw [← hm.view] at hlayout htarget
    exact ⟨h', ⟨hlayout, htarget⟩, rfl⟩
  · rw [if_neg fun he => (finalInstalled_of_matches hafter).2 (Prod.ext_iff.mp he).1]
    exact Runs.pure ⟨h, ⟨hafter, hintact⟩, rfl⟩

theorem reads_verifyDelivered {expected : ObjectIdentity} {changed : String} (h : Finalizing S w r (some expected))
    (ha : Arrived S r (view S.path w) (some expected)) :
    Reads S (Manager.verifyDelivered S.target (Manager.finalizationMarker r (some expected)) expected changed)
      (.ok ()) w := by
  have ht := (layoutMatches_iff.mp ha.layout).1
  unfold Manager.verifyDelivered
  cases hv : view S.path w (targetSlot S) with
  | none => simp only [layoutOf, ident, hv] at ht; cases ht
  | some i =>
    simp only [layoutOf, ident, hv, Option.map_some] at ht
    have hsame : sameFileAfterRename expected (i.identity S.host) = true := ht
    have hverify := reads_verifyFinalTarget h.inv hv (ha.intact i hv)
    rw [← h.sound.digest] at hverify
    apply (reads_ofIo hverify).bind
    simp only [hsame, ↓reduceIte]
    exact .pure _

theorem runs_deliverFinal (h : Finalizing S w r final) :
    Runs S E (Manager.deliverFinal S.path S.target ⟨stagingOf r⟩ (Manager.finalizationMarker r final))
      (fun _ w' => Finalizing S w' r final ∧ Arrived S r (view S.path w') final) w := by
  unfold Manager.deliverFinal
  cases final with
  | none =>
    have hlayout : layoutOf S r (view S.path w) finalName = (none, none) := by
      rcases h.files.2 with ⟨hm, -⟩ | ⟨hm, -⟩
      · exact layoutMatches_exact.mp hm
      · obtain ⟨ht, hs⟩ := layoutMatches_iff.mp hm
        exact Prod.ext (objectMatches_none_right ht) (objectMatches_none_right hs)
    apply (reads_observeLayout h.inv entryName_final).runs_bind
    rw [if_pos hlayout]
    refine Runs.pure ⟨h, ?_, fun i hi => ?_⟩
    · rw [hlayout]
      rfl
    · have hnone := Option.map_eq_none_iff.mp (Prod.ext_iff.mp hlayout).1
      rw [hnone] at hi
      cases hi
  | some expected =>
    apply (reads_observeLayout h.inv entryName_final).runs_bind
    apply (runs_moveFinal h).andThen
    rintro layout w' ⟨h', harrived, rfl⟩
    rw [if_pos (finalInstalled_of_matches harrived.layout).1]
    exact (reads_verifyDelivered h' harrived).runs ⟨h', harrived⟩

theorem reads_confirmDelivered (h : Finalizing S w r final) (ha : Arrived S r (view S.path w) final) :
    Reads S (Manager.confirmDelivered S.target (Manager.finalizationMarker r final)) (.ok ()) w := by
  unfold Manager.confirmDelivered
  cases final with
  | none =>
    have hnone := objectMatches_none_right (layoutMatches_iff.mp ha.layout).1
    simp only [layoutOf] at hnone
    apply (reads_targetObserve h.inv).bind
    rw [hnone]
    exact .pure _
  | some expected => exact reads_verifyDelivered h ha

/-- The generation of the row is over. -/
structure Ended (S : Site) (w : World) (r : SnapshotRecord) : Prop where
  inv : Inv S w
  entry : w.store S.path = .missing
  last : w.ghost.last S.path = some r

theorem Ended.delivered (h : Ended S w r) : Delivered S r (view S.path w) := by
  have hc := h.inv.consistent
  rw [h.entry] at hc
  exact hc.2 r h.last

theorem Ended.unstaged (h : Ended S w r) : Unstaged (view S.path w) := by
  have hc := h.inv.consistent
  rw [h.entry] at hc
  exact hc.1

theorem runs_deleteMarker (h : Finalizing S w r final) (ha : Arrived S r (view S.path w) final) :
    Runs S E (Manager.deleteMarker S.path (Manager.finalizationMarker r final))
      (fun _ w' => Ended S w' r) w := by
  have hfinish : (w.store S.path).finishFinalization (Manager.finalizationMarker r final).version =
      .ok .missing := by
    rw [h.entry]
    exact check_eq_ok.mpr ⟨conflictIf_eq_ok.mpr (not_not.mpr rfl), rfl⟩
  unfold Manager.deleteMarker
  apply Runs.andThen (P := fun answer w' => answer = .ok () ∧ Ended S w' r)
  · refine Runs.perform fun c hc => ?_
    simp only [World.exec, World.commitEntry, hfinish, Except.map, SqliteStore.settle, hc.answer]
    have hentry : (w.putEntry S.path .missing).settled.store S.path = .missing := Function.update_self ..
    have hended : Ended S (w.putEntry S.path .missing).settled r := by
      refine ⟨⟨(putEntry_sane h.inv.sane _).1, ?_⟩, hentry, h.last⟩
      rw [hentry]
      refine ⟨ha.unstaged h.files.1, fun r' hr' => ?_⟩
      obtain rfl : r = r' := Option.some.inj (h.last.symm.trans hr')
      exact ha.delivered h.present
    exact ⟨hended.inv, trivial, hended⟩
  · rintro _ w' ⟨rfl, hended⟩
    exact Runs.pure hended

theorem runs_removeIfEmpty (h : Ended S w r) (s : StagingArea) :
    Runs S E s.removeIfEmpty (fun _ w' => Ended S w' r) w := by
  have hempty : w.entriesOf s.path = [] := entriesOf_eq_nil (S := S) fun n => h.unstaged s.path n
  have hisEmpty : Reads S (s.isEmpty : Prog signature IoError Bool) (.ok true) w := by
    apply (reads_entries h.inv s.path).bind
    rw [hempty]
    exact .pure _
  unfold StagingArea.removeIfEmpty
  apply hisEmpty.runs_bind
  apply (reads_passes (by simp)).runs_bind
  refine Runs.lift (Runs.perform fun c _ => ?_)
  simp only [World.exec, hempty, ↓reduceIte]
  have hended : Ended S { w with directories := w.directories.filter (· ≠ s.path) }.settled r := by
    refine ⟨⟨⟨rfl, fun hl => h.inv.sane.bound hl, h.inv.sane.tidy⟩, ?_⟩, h.entry, h.last⟩
    have hc := h.inv.consistent
    rw [h.entry] at hc
    change Consistent S (w.store S.path) _ _ _
    rw [h.entry]
    exact hc
  exact ⟨hended.inv, (), trivial, hended⟩

theorem runs_finishFinalization (h : Finalizing S w r final) :
    Runs S E (S.manager.finishFinalization (Manager.finalizationMarker r final)) (fun _ w' => Ended S w' r) w := by
  have hs := h.sound
  have hpath : pathFromHex (Manager.finalizationMarker r final).pathHex = .ok S.path := by
    change pathFromHex r.header.pathHex = _
    rw [hs.bound, pathFromHex_pathToHex]
  have hstaging : pathFromHex (Manager.finalizationMarker r final).stagingPathHex = .ok (stagingOf r) :=
    hs.pathFromHex_staging
  have hdevice : (Manager.finalizationMarker r final).parent.device = S.host.device := hs.device
  have hopen : Reads S (StagingArea.openAt S.manager.cwd (stagingOf r) S.host.device) (.ok ⟨stagingOf r⟩) w := by
    unfold StagingArea.openAt
    rw [absoluteLexical_normal hs.normal]
    exact Reads.bind (.pure _) ((reads_openDirectory h.inv h.directory).bind (.pure _))
  unfold Manager.finishFinalization
  simp only [hpath, hstaging, hdevice, ofStore_ok, Prog.bind_eq, Prog.pure_bind]
  apply reads_resolve.runs_bind
  refine wp_bind.mpr (reads_parentIdentity h.inv fun t _ => ?_)
  obtain ⟨t', ht'⟩ := hs.parent
  have hsame : sameObject { S.host.parent with ctime := t, mtime := t }
      (Manager.finalizationMarker r final).parent = true := by
    simp [Manager.finalizationMarker, ht', sameObject]
  rw [onOk_ok, if_pos hsame]
  apply (reads_ofIo hopen).runs_bind
  apply (runs_deliverFinal h).andThen
  rintro _ w₁ ⟨h₁, harrived⟩
  apply (reads_syncWith h₁.inv _).runs_bind
  apply (reads_confirmDelivered h₁ harrived).runs_bind
  apply (runs_deleteMarker h₁ harrived).andThen
  intro _ w₂ h₂
  apply Runs.andThen (P := fun _ w' => Ended S w' r)
  · exact Runs.attempt (Runs.mapError (runs_removeIfEmpty h₂ _))
  · intro _ w₃ h₃
    exact Runs.pure h₃

theorem reduced_of_removed {v₁ v₂ : View}
    (h : Deleting S w r origin restored displacedName displaced detachedName detached)
    (hcopy : FinalCopy S r v₁ final) (hleft : Left S r v₁ v₂)
    (hv : view S.path w =
      without r (some retiredName) (without r detachedName (without r displacedName v₂))) :
    Reduced S w r origin restored displacedName displaced detachedName detached final := by
  have hhome := detached_home h.now.sound h.finished.detached
  have hkept (name : String) (hf : name = constructionEntryName finalName ∨ name = finalName) :
      view S.path w (stagedSlot r name) = v₁ (stagedSlot r name) := by
    have hretired : name ≠ retiredName := by rcases hf with rfl | rfl <;> decide
    rw [hv, without_of_ne, without_of_ne, without_of_ne, hleft.frame]
    · exact (target_ne_staged r name).symm
    · simpa [stagedSlot] using hretired
    · rintro n rfl he
      have hc := (h.files.2.1 n rfl).1
      have he : name = n := by simpa [stagedSlot] using he
      rcases hf with rfl | rfl
      · exact hc.ne_constructionFinal he.symm
      · exact hc.ne_final he.symm
    · rintro n rfl he
      have he : name = n := by simpa [stagedSlot] using he
      rcases hhome with ⟨hn, -⟩ | ⟨d, identity, metadata, hn, -⟩
      · cases hn
      · cases hn
        rcases hf with rfl | rfl
        · exact absurd he (by cases origin <;> decide)
        · exact absurd he (by cases origin <;> decide)
    · rintro n hn
      cases hn
      simpa [stagedSlot] using hretired
  refine ⟨h, hcopy.congr hkept, fun d n hne => ?_, ?_⟩
  · obtain ⟨rfl, hmem⟩ := h.files.1 d n hne
    refine ⟨rfl, ?_⟩
    have hthere := hne
    rw [hv] at hthere
    obtain ⟨hsame, hretired⟩ := without_mem hthere
    rw [hsame] at hthere
    obtain ⟨hsame, hdetached⟩ := without_mem hthere
    rw [hsame] at hthere
    obtain ⟨-, hdisplaced⟩ := without_mem hthere
    have hnot (m : String) (hm : Slot.staged (stagingOf r) n ≠ stagedSlot r m) : n ≠ m := by
      rintro rfl
      exact hm rfl
    rcases List.mem_append.mp hmem with hmem | hmem
    · rcases List.mem_cons.mp hmem with rfl | hmem
      · rcases hhome with ⟨-, rfl⟩ | ⟨d, identity, metadata, rfl, -⟩
        · have hnone : ident S (view S.path w) (stagedSlot r (homeName origin)) = none :=
            h.files.2.2.1.elim id id
          exact absurd (Option.map_eq_none_iff.mp hnone) hne
        · exact absurd rfl (hnot _ (hdetached _ rfl))
      · exact absurd rfl (hnot _ (hdisplaced n (by simpa using hmem)))
    · split_ifs at hmem
      · simp only [List.mem_cons, List.not_mem_nil, or_false] at hmem
        rcases hmem with rfl | rfl | rfl
        · have hgone := hkept (constructionEntryName finalName) (.inl rfl)
          rw [hcopy.construction] at hgone
          exact absurd hgone hne
        · exact List.mem_singleton.mpr rfl
        · exact absurd rfl (hnot _ (hretired _ rfl))
      · cases hmem
  · rw [hv, without_of_ne fun _ _ => target_ne_staged r _, without_of_ne fun _ _ => target_ne_staged r _,
      without_of_ne fun _ _ => target_ne_staged r _]
    exact hleft.target

theorem runs_cleanupStaging
    (h : Deleting S w r origin restored displacedName displaced detachedName detached) (hroom : E ∨ Room 1 r) :
    Runs S E (S.manager.cleanupStaging S.path S.target r restored displacedName displaced detachedName detached)
      (fun _ w' => Ended S w' r) w := by
  unfold Manager.cleanupStaging
  apply (reads_openStaging h.now.inv h.now.sound h.directory).runs_bind
  apply (runs_prepareFinal h).andThen
  rintro final w₁ ⟨h₁, hcopy⟩
  apply (runs_retireRestoredTarget h₁).andThen
  rintro _ w₂ ⟨h₂, hleft⟩
  apply (runs_removeDisplaced h₂).andThen
  rintro _ w₃ ⟨h₃, hv₃⟩
  apply (runs_removeDetached h₃).andThen
  rintro _ w₄ ⟨h₄, hv₄⟩
  have htarget : view S.path w₄ (targetSlot S) = none := by
    rw [hv₄, hv₃, without_of_ne fun _ _ => target_ne_staged r _, without_of_ne fun _ _ => target_ne_staged r _]
    exact hleft.target
  apply (runs_removeRetired h₄ htarget).andThen
  rintro _ w₅ ⟨h₅, hv₅⟩
  rw [hv₄, hv₃] at hv₅
  have hreduced := reduced_of_removed h₅ hcopy hleft hv₅
  apply (reads_sync h₅.now.inv _).runs_bind
  apply hreduced.reads_containsOnly.runs_bind
  simp only [↓reduceIte]
  apply hreduced.reads_confirmFinal.runs_bind
  apply (reads_targetObserve h₅.now.inv).runs_bind
  have hnone : ident S (view S.path w₅) (targetSlot S) = none := by
    rw [ident, hreduced.target]
    rfl
  rw [hnone]
  apply (reads_syncWith h₅.now.inv _).runs_bind
  apply (hreduced.runs_storedFinalization hroom).andThen
  rintro _ w₆ ⟨rfl, h₆⟩
  exact runs_finishFinalization h₆

theorem reads_validateRestoredTarget (h : Now S w r)
    (hc : r.header.lifecycle = .restored origin restored displacedName displaced detachedName detached)
    (hf : RestoredFiles S r (view S.path w) origin restored displacedName displaced detached)
    (hp : r.header.logicalPresent = restored.isSome) :
    Reads S (Manager.validateRestoredTarget r S.target) (.ok ()) w := by
  obtain ⟨-, -, hlayout, hintact⟩ := hf
  have htarget := (Prod.ext_iff.mp hlayout).1
  simp only [layoutOf] at htarget
  unfold Manager.validateRestoredTarget Manager.restoredIdentityOf
  simp only [hc, Prog.bind_eq, Prog.pure_bind, hp]
  cases restored with
  | none =>
    simp only [Option.isSome_none]
    apply (reads_targetObserve h.inv).bind
    rw [htarget]
    exact .pure _
  | some expected =>
    obtain ⟨i, hv, rfl⟩ := ident_some htarget
    simp only [Option.isSome_some]
    apply (reads_ofIo (reads_verifyTarget h.inv hv (hintact i hv))).bind
    simp only [↓reduceIte]
    exact .pure _

theorem RestoredFiles.deleting {lifecycle : Lifecycle} {placeholder : Option ObjectIdentity}
    (h : RestoredFiles S r v origin restored displacedName displaced detached) :
    DeletingFiles S (advance r lifecycle placeholder) v origin restored displacedName displaced detached := by
  obtain ⟨honly, hdisplaced, hlayout, hintact⟩ := h
  have hretired : v (stagedSlot r retiredName) = none := by
    by_contra hne
    obtain ⟨-, hmem⟩ := honly _ _ hne
    rcases List.mem_cons.mp hmem with he | hmem
    · exact absurd he (by cases origin <;> decide)
    · exact (hdisplaced retiredName (by simpa using hmem)).1.ne_retired rfl
  refine ⟨honly.mono fun n hn => ?_, fun name hname => ?_, .inr (Prod.ext_iff.mp hlayout).2, .inr (.inl ⟨?_, ?_⟩)⟩
  · exact List.mem_append_left _ hn
  · exact ⟨(hdisplaced name hname).1, .inr (hdisplaced name hname).2⟩
  · rw [layoutMatches_exact]
    refine Prod.ext (Prod.ext_iff.mp hlayout).1 ?_
    exact Option.map_eq_none_iff.mpr hretired
  · exact AllIntact.advance hintact

theorem runs_beginDelete {k : ℕ} (h : Now S w r) (hc : Manager.isRestored r.header.lifecycle = true)
    (hroom : E ∨ Room (k + 1) r) :
    Runs S E (Manager.beginDelete r S.target) (fun next w' => Later 1 r next ∧ Now S w' next ∧
      ∃ origin restored displacedName displaced detachedName detached, next.header.lifecycle =
        .deleteIntent origin restored displacedName displaced detachedName detached) w := by
  have hs := h.sound
  unfold Manager.beginDelete
  cases hl : r.header.lifecycle with
  | restored origin restored displacedName displaced detachedName detached =>
    have hstructural := hs.structural
    rw [hl] at hstructural
    have hfinished := finished_of_valid hstructural
    have hfiles : RestoredFiles S r (view S.path w) origin restored displacedName displaced detached := by
      have := h.files
      rwa [hl] at this
    have hnext : PhaseValid (advance r (.deleteIntent origin restored displacedName displaced detachedName
        detached) r.header.placeholder) := by
      refine ⟨?_, rfl, hstructural⟩
      have := (validateSnapshot_facts hs.valid).placeholder
      rw [validatePlaceholder, hl] at this
      exact this
    have hnames : ∀ n ∈ lifecycleNames (.deleteIntent origin restored displacedName displaced detachedName
        detached), n = "swap" ∨ n = "stored" ∨ CandidateName n := by
      intro n hmem
      rcases List.mem_append.mp hmem with hmem | hmem
      · exact .inr (.inr (hfiles.2.1 n (by simpa using hmem)).1)
      · exact detachedName_known hs hfinished.detached n hmem
    apply (reads_validateRestoredTarget h hl hfiles hfinished.present).attempt.runs_bind
    apply (runs_transition h.inv hs h.entry hnext (by simp [lifecycleTransitionIsValid, hl]) hnames hroom
      hfiles.deleting (h.directory (by simp [hl]))).mono
    rintro _ w' ⟨rfl, hcommitted⟩
    exact ⟨.advance hs hnames, hcommitted.now, _, _, _, _, _, _, rfl⟩
  | deleteIntent origin restored displacedName displaced detachedName detached =>
    exact Runs.pure ⟨(Later.refl r).le (by omega), h, _, _, _, _, _, _, hl⟩
  | _ => rw [hl] at hc; cases hc

/-- A restored row ends its generation and leaves the path as its last row says. -/
theorem runs_cleanupRestored (h : Now S w r) (hc : Manager.isRestored r.header.lifecycle = true)
    (hroom : E ∨ Room 2 r) :
    Runs S E (S.manager.cleanupRestored r) (fun _ w' => ∃ next, Later 1 r next ∧ Ended S w' next) w := by
  have hs := h.sound
  unfold Manager.cleanupRestored
  simp only [recordPath_eq hs.bound, Prog.bind_eq, Prog.pure_bind]
  apply (reads_resolveBoundPath h.inv hs).attempt.runs_bind
  apply (runs_beginDelete (k := 1) h hc hroom).andThen
  rintro next w₁ ⟨hlater, h₁, origin, restored, displacedName, displaced, detachedName, detached, hl⟩
  simp only [hl]
  apply (runs_cleanupStaging (Deleting.of_now h₁ hl) (hroom.imp_right (hlater.room 1))).mono
  intro _ w₂ h₂
  exact ⟨next, hlater, h₂⟩

end FileGuard.Recovery
