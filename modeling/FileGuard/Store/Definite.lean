import FileGuard.Store.EntryModel

namespace FileGuard.Store

/-- A verdict that is not "it may or may not have happened". -/
def Definite {α : Type} (x : StoreResult α) : Prop := ∀ message, x ≠ .error (.indeterminate message)

namespace Definite

variable {α β : Type}

@[simp] theorem ok (a : α) : Definite (.ok a) := by intro m h; cases h

@[simp] theorem corrupt (message : String) : Definite (Store.corrupt message : StoreResult α) := by
  intro m h; cases h

@[simp] theorem conflict (message : String) : Definite (.error (.conflict message) : StoreResult α) := by
  intro m h; cases h

@[simp] theorem corruptIf (c : Prop) [Decidable c] (message : String) :
    Definite (Store.corruptIf c message) := by
  unfold Store.corruptIf
  split_ifs <;> simp

@[simp] theorem conflictIf (c : Prop) [Decidable c] (message : String) :
    Definite (Store.conflictIf c message) := by
  unfold Store.conflictIf
  split_ifs <;> simp

theorem bind {x : StoreResult α} {f : α → StoreResult β} (hx : Definite x)
    (hf : ∀ a, Definite (f a)) : Definite (x >>= f) := by
  cases x with
  | error error => exact fun m h => hx m (by cases h; rfl)
  | ok a => exact hf a

@[simp] theorem elim {γ : Type} {x : Option γ} {f : γ → StoreResult α} {y : StoreResult α}
    (hy : Definite y) (hf : ∀ a, Definite (f a)) : Definite (x.elim y f) := by
  cases x <;> simp [*]

end Definite

@[simp] theorem definite_validateTimestamp (t : Timestamp) : Definite (validateTimestamp t) := by
  simp [validateTimestamp]

@[simp] theorem definite_decodeHex (value label : String) : Definite (decodeHex value label) := by
  unfold decodeHex
  split <;> simp

@[simp] theorem definite_requireSome {α : Type} (value : Option α) (message : String) :
    Definite (requireSome value message) := by
  simp [requireSome]

@[simp] theorem definite_absoluteLexical (cwd p : Path) : Definite (absoluteLexical cwd p) := by
  unfold absoluteLexical
  split
  · simp
  · intro m h; cases h

@[simp] theorem definite_pathFromHex (value : String) : Definite (pathFromHex value) := by
  unfold pathFromHex
  split
  · simp
  · intro m h; cases h

@[simp] theorem definite_validateIdentity (i : ObjectIdentity) (kind : UInt32) (label : String) :
    Definite (validateIdentity i kind label) := by
  unfold validateIdentity
  repeat' with_reducible refine .bind ?_ fun _ => ?_
  all_goals simp

@[simp] theorem definite_validateXattrs (previous : Option String) (xattrs : List ExtendedAttribute) :
    Definite (validateXattrs previous xattrs) := by
  induction xattrs generalizing previous with
  | nil => simp [validateXattrs]
  | cons x rest ih =>
    unfold validateXattrs
    repeat' with_reducible refine .bind ?_ fun _ => ?_
    all_goals simp [ih]

@[simp] theorem definite_validateMetadata (m : RestoreMetadata) : Definite (validateMetadata m) := by
  unfold validateMetadata
  repeat' with_reducible refine .bind ?_ fun _ => ?_
  all_goals simp

@[simp] theorem definite_validateToken (value label : String) : Definite (validateToken value label) := by
  simp [validateToken]

@[simp] theorem definite_validateEntryName (value : String) : Definite (validateEntryName value) := by
  unfold validateEntryName
  repeat' with_reducible refine .bind ?_ fun _ => ?_
  all_goals simp

@[simp] theorem definite_validatePaths (p q m : String) : Definite (validatePaths p q m) := by
  unfold validatePaths
  repeat' with_reducible refine .bind ?_ fun _ => ?_
  all_goals simp

@[simp] theorem definite_validateDetachedIdentity (h : RecordHeader) (d : ObjectIdentity) (l : String) :
    Definite (validateDetachedIdentity h d l) := by
  refine .bind (by simp) fun _ => ?_
  split <;> simp

@[simp] theorem definite_validateRestoreDetached (h : RecordHeader) (o : RestoreOrigin)
    (n : Option String) (i : Option ObjectIdentity) : Definite (validateRestoreDetached h o n i) := by
  unfold validateRestoreDetached requirePresentOriginal
  split
  all_goals repeat' with_reducible refine .bind ?_ fun _ => ?_
  all_goals simp

@[simp] theorem definite_validateFinished (h : RecordHeader) (o : RestoreOrigin)
    (r : Option ObjectIdentity) (n : Option String) (i : Option ObjectIdentity) (n' : Option String)
    (i' : Option ObjectIdentity) : Definite (validateFinished h o r n i n' i') := by
  unfold validateFinished
  cases o
  all_goals repeat' with_reducible refine .bind ?_ fun _ => ?_
  all_goals simp

@[simp] theorem definite_validateLifecycleStructure (h : RecordHeader) (l : Lifecycle) :
    Definite (validateLifecycleStructure h l) := by
  unfold validateLifecycleStructure validateDetachedOriginal requirePresentOriginal
  split
  any_goals split
  all_goals repeat' with_reducible refine .bind ?_ fun _ => ?_
  all_goals simp

@[simp] theorem definite_validateSnapshot (r : SnapshotRecord) : Definite (validateSnapshot r) := by
  have hp : Definite (validatePlaceholder r.header) := by unfold validatePlaceholder; split <;> simp
  have ho : Definite (validateOriginal r.header) := by
    unfold validateOriginal
    split
    · simp
    · exact .bind (by simp) fun _ => by simp
  have hc : Definite (validateCapturedLength r) := by unfold validateCapturedLength; split <;> simp
  unfold validateSnapshot
  repeat' with_reducible refine .bind ?_ fun _ => ?_
  all_goals simp [hp, ho, hc]

theorem definite_validateSuccessor (fileId : Path) (expected : Option RecordVersion) (current : Entry)
    (next : SnapshotRecord) : Definite (validateSuccessor fileId expected current next) := by
  have hf (c : SnapshotRecord) : Definite (validateSuccessorFields c next) := by
    unfold validateSuccessorFields
    refine .bind (by simp) fun _ => .bind (by simp) fun _ => .bind (by simp) fun _ => ?_
    split_ifs
    · simp
    · repeat' with_reducible refine .bind ?_ fun _ => ?_
      all_goals simp
  unfold validateSuccessor
  refine .bind (by simp) fun _ => .bind (by simp) fun _ => ?_
  split
  any_goals simp
  exact .bind (by simp) fun _ => .bind (by simp) fun _ => hf _

theorem definite_commit (fileId : Path) (entry : Entry) (expected : Option RecordVersion)
    (next : SnapshotRecord) : Definite (entry.commit fileId expected next) := by
  unfold Entry.commit
  refine .bind (definite_validateSuccessor fileId expected entry next) fun _ => .bind ?_ fun _ =>
    .bind ?_ fun _ => by simp
  · unfold revisionToSql
    split_ifs <;> simp
  · unfold headerFits
    split_ifs
    · simp
    · intro m h
      cases h

end FileGuard.Store
