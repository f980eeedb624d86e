import FileGuard.Recovery.Runs

/-! What the reading operations answer about a file that stands still. -/

namespace FileGuard.Recovery

open Store Files Transaction CrashLogic

variable {S : Site} {w : World} {slot : Slot} {object : ObjectId} {i : Inode} {ε : Type}

def fileOf (S : Site) (i : Inode) : Bytes × ObjectIdentity × RestoreMetadata :=
  (i.contents, i.identity S.host, inodeMetadata S.host i)

theorem reads_lift {α : Type} {p : FileProg (IoResult α)} {r : IoResult α} (h : Reads S p (.ok r) w) :
    Reads S (lift p) r w :=
  h.bind (.ofExcept r)

theorem reads_passes {c : Prop} [Decidable c] {e : ε} (h : ¬ c) : Reads S (failIf c e) (.ok ()) w := by
  rw [failIf, if_neg h]
  exact .pure ()

theorem reads_stops {c : Prop} [Decidable c] {e : ε} (h : c) : Reads S (failIf c e) (.error e) w := by
  rw [failIf, if_pos h]
  exact .fail e

theorem reads_openFile (hi : Inv S w) (hl : w.lookup slot = some object) :
    Reads S (openFile slot) (.ok object) w := by
  refine reads_lift (.perform hi fun c _ => ?_)
  simp only [World.exec, hl, true_and]
  exact hi.sane.settled

theorem reads_openFile_none (hi : Inv S w) (hl : w.lookup slot = none) :
    Reads S (openFile slot) (.error (.os .noEntry)) w := by
  refine reads_lift (.perform hi fun c _ => ?_)
  simp only [World.exec, hl, true_and]
  exact hi.sane.settled

theorem reads_fstat (hi : Inv S w) (file : ObjectId) :
    Reads S (fstat file : Prog signature ε Stat)
      (.ok ⟨(w.objects file).identity S.host, (w.objects file).atime⟩) w :=
  .perform hi fun _ _ => ⟨rfl, hi.sane.settled⟩

theorem reads_readToEnd (hi : Inv S w) (file : ObjectId) :
    Reads S (readToEnd file : Prog signature ε Bytes) (.ok (w.objects file).contents) w :=
  .perform hi fun _ _ => ⟨rfl, hi.sane.settled⟩

theorem reads_restoreMetadata (hi : Inv S w) (file : ObjectId) (stat : Stat) :
    Reads S (restoreMetadata file stat) (.ok (metadataOf stat (w.objects file).xattrs)) w := by
  have h : Reads S (listXattrs file : Prog signature IoError _) (.ok (w.objects file).xattrs) w :=
    .perform hi fun _ _ => ⟨rfl, hi.sane.settled⟩
  exact h.bind (.pure _)

theorem size_toNat (h : i.contents.length ≤ maxCredentialSize) :
    (i.identity S.host).size.toNat = i.contents.length := by
  have hm : maxCredentialSize < 2 ^ 64 := by decide
  simp only [Inode.identity, UInt64.toNat_ofNat']
  exact Nat.mod_eq_of_lt (by omega)

theorem reads_validateRegular (hp : Plain i) :
    Reads S (validateRegular (i.identity S.host)) (.ok ()) w :=
  (reads_passes (not_not.mpr hp.1)).bind (reads_passes (not_not.mpr hp.2.1))

theorem reads_validateRegular_not (h : ¬ (i.mode &&& fileTypeMask = regularType ∧ i.links = 1)) :
    ∃ e, Reads S (validateRegular (i.identity S.host)) (.error e) w := by
  by_cases hm : i.mode &&& fileTypeMask = regularType
  · have hl : i.links ≠ 1 := fun hl => h ⟨hm, hl⟩
    exact ⟨_, (reads_passes (not_not.mpr hm)).bind (reads_stops hl)⟩
  · exact ⟨_, (reads_stops hm).bind_error⟩

theorem reads_readFileAt (hi : Inv S w) (hv : view S.path w slot = some i) (hp : Plain i) :
    Reads S (readFileAt slot) (.ok (fileOf S i)) w := by
  obtain ⟨object, hl, rfl, -⟩ := view_lookup hv
  have hsize := size_toNat (S := S) hp.2.2
  refine (reads_openFile hi hl).bind ((reads_fstat hi object).bind ((reads_validateRegular hp).bind
    ((reads_passes ?_).bind ((reads_readToEnd hi object).bind ((reads_fstat hi object).bind
      ((reads_passes ?_).bind ((reads_restoreMetadata hi object _).bind (.pure _))))))))
  · rw [hsize]
    exact not_lt.mpr hp.2.2
  · rw [hsize]
    simp

theorem reads_readFileAt_not (hi : Inv S w) (hv : view S.path w slot = some i) (hp : ¬ Plain i) :
    ∃ e, Reads S (readFileAt slot) (.error e) w := by
  obtain ⟨object, hl, rfl, -⟩ := view_lookup hv
  by_cases hr : (w.objects object).mode &&& fileTypeMask = regularType ∧ (w.objects object).links = 1
  · have hregular : Reads S (validateRegular ((w.objects object).identity S.host)) (.ok ()) w :=
      (reads_passes (not_not.mpr hr.1)).bind (reads_passes (not_not.mpr hr.2))
    have hlong : maxCredentialSize < (w.objects object).contents.length :=
      not_le.mp fun hle => hp ⟨hr.1, hr.2, hle⟩
    by_cases hs : maxCredentialSize < ((w.objects object).identity S.host).size.toNat
    · exact ⟨_, (reads_openFile hi hl).bind ((reads_fstat hi object).bind (hregular.bind
        (reads_stops hs).bind_error))⟩
    · have hne : (w.objects object).contents.length ≠
          ((w.objects object).identity S.host).size.toNat := by omega
      exact ⟨_, (reads_openFile hi hl).bind ((reads_fstat hi object).bind (hregular.bind
        ((reads_passes hs).bind ((reads_readToEnd hi object).bind ((reads_fstat hi object).bind
          (reads_stops (.inr hne)).bind_error)))))⟩
  · obtain ⟨e, he⟩ := reads_validateRegular_not (S := S) (w := w) hr
    exact ⟨e, (reads_openFile hi hl).bind ((reads_fstat hi object).bind he.bind_error)⟩

/-- What `capture` answers, for what it finds at the path. -/
inductive CaptureAnswer (S : Site) (v : View) : IoResult CapturedSource → Prop where
  | absent (t : Timestamp) (time : Stamp t) (nothing : v (targetSlot S) = none) :
      CaptureAnswer S v (.ok (ResolvedPath.captureAbsent ⟨{ S.host.parent with ctime := t, mtime := t }, t⟩))
  | present (i : Inode) (found : v (targetSlot S) = some i) (plain : Plain i) :
      CaptureAnswer S v (.ok ⟨i.contents, .present (i.identity S.host) (inodeMetadata S.host i)⟩)
  | failed (e : IoError) (i : Inode) (found : v (targetSlot S) = some i) (odd : ¬ Plain i) :
      CaptureAnswer S v (.error e)

theorem target_slot : S.target.slot = targetSlot S := by rw [ResolvedPath.slot, S.bound, targetSlot]

theorem reads_parentIdentity {Q : Except ε ObjectIdentity → World → Prop} (hi : Inv S w)
    (h : ∀ t, Stamp t → Q (.ok { S.host.parent with ctime := t, mtime := t }) w) :
    wp S.machine (KeepsInv S) (ResolvedPath.parentIdentity : Prog signature ε ObjectIdentity) Q w := by
  refine wp_bind.mpr (wp_perform_calm.mpr fun c hc => ?_)
  have hs : (w.exec S.host c .parentStat).2.settled = w := hi.sane.settled
  rw [hs]
  exact ⟨hi, h c.now hc.now⟩

theorem wp_capture (hi : Inv S w) :
    wp S.machine (KeepsInv S) S.target.capture
      (fun r w' => w' = w ∧ CaptureAnswer S (view S.path w) r) w := by
  refine wp_bind.mpr (wp_perform_calm.mpr fun c hc => ?_)
  have hs : (w.exec S.host c .parentStat).2.settled = w := hi.sane.settled
  rw [hs, target_slot]
  refine ⟨hi, ?_⟩
  simp only [onOk_ok, World.exec]
  cases hv : view S.path w (targetSlot S) with
  | none =>
    have hl := (view_eq_none watched_target).mp hv
    exact wp_bind.mpr ((reads_openFile_none hi hl).attempt.wp_of ⟨rfl, .absent c.now hc.now hv⟩)
  | some i =>
    obtain ⟨object, hl, rfl, -⟩ := view_lookup hv
    refine wp_bind.mpr ((reads_openFile hi hl).attempt.wp_of ?_)
    simp only [onOk_ok]
    by_cases hp : Plain (w.objects object)
    · have hsize := size_toNat (S := S) hp.2.2
      refine Reads.wp_of ((reads_fstat hi object).bind ((reads_validateRegular hp).bind
        ((reads_passes ?_).bind ((reads_restoreMetadata hi object _).bind
          ((reads_readToEnd hi object).bind ((reads_fstat hi object).bind ((reads_passes ?_).bind
            (.pure _)))))))) ⟨rfl, .present _ hv hp⟩
      · rw [hsize]
        exact not_lt.mpr hp.2.2
      · rw [hsize]
        simp
    · by_cases hr : (w.objects object).mode &&& fileTypeMask = regularType ∧ (w.objects object).links = 1
      · have hregular : Reads S (validateRegular ((w.objects object).identity S.host)) (.ok ()) w :=
          (reads_passes (not_not.mpr hr.1)).bind (reads_passes (not_not.mpr hr.2))
        have hlong : maxCredentialSize < (w.objects object).contents.length :=
          not_le.mp fun hle => hp ⟨hr.1, hr.2, hle⟩
        by_cases hs : maxCredentialSize < ((w.objects object).identity S.host).size.toNat
        · exact Reads.wp_of ((reads_fstat hi object).bind (hregular.bind (reads_stops hs).bind_error))
            ⟨rfl, .failed _ _ hv hp⟩
        · have hne : (w.objects object).contents.length ≠
              ((w.objects object).identity S.host).size.toNat := by omega
          exact Reads.wp_of ((reads_fstat hi object).bind (hregular.bind ((reads_passes hs).bind
            ((reads_restoreMetadata hi object _).bind ((reads_readToEnd hi object).bind
              ((reads_fstat hi object).bind (reads_stops (.inr hne)).bind_error))))))
            ⟨rfl, .failed _ _ hv hp⟩
      · obtain ⟨e, he⟩ := reads_validateRegular_not (S := S) (w := w) hr
        exact Reads.wp_of ((reads_fstat hi object).bind he.bind_error) ⟨rfl, .failed _ _ hv hp⟩

end FileGuard.Recovery
