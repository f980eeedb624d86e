import Mathlib.Data.List.Infix
import Mathlib.Logic.Function.Basic

/-! A directory whose changes reach the disk in time, and what a loss of power may leave of it. -/

namespace Durable

/-- One atomic change of directory entries. -/
abbrev Rewrite (N O : Type) := List (N × Option O)

variable {N O : Type} [DecidableEq N]

def Rewrite.apply (entries : N → Option O) (change : Rewrite N O) : N → Option O :=
  change.foldl (fun entries a => Function.update entries a.1 a.2) entries

/-- The entries on the disk, and the changes that were made since. -/
structure Directory (N O : Type) where
  durable : N → Option O
  pending : List (Rewrite N O)

namespace Directory

variable {d : Directory N O} {change : Rewrite N O} {left : N → Option O}

def entries (d : Directory N O) : N → Option O := d.pending.foldl Rewrite.apply d.durable

/-- A loss of power may drop any of the pending changes. -/
def Leaves (d : Directory N O) (left : N → Option O) : Prop :=
  ∃ kept, List.Sublist kept d.pending ∧ left = kept.foldl Rewrite.apply d.durable

def record (d : Directory N O) (change : Rewrite N O) : Directory N O := { d with pending := d.pending ++ [change] }

def sync (d : Directory N O) : Directory N O := ⟨d.entries, []⟩

@[simp] theorem entries_record : (d.record change).entries = change.apply d.entries := List.foldl_concat ..

@[simp] theorem entries_sync : d.sync.entries = d.entries := rfl

theorem leaves_entries (d : Directory N O) : d.Leaves d.entries := ⟨d.pending, List.Sublist.refl _, rfl⟩

theorem leaves_sync : d.sync.Leaves left ↔ left = d.entries := by
  constructor
  · rintro ⟨kept, hkept, rfl⟩
    cases List.sublist_nil.mp hkept
    rfl
  · rintro rfl
    exact ⟨[], List.Sublist.slnil, rfl⟩

theorem leaves_record : (d.record change).Leaves left ↔ ∃ before, d.Leaves before ∧ (left = before ∨ left = change.apply before) := by
  constructor
  · rintro ⟨kept, hkept, rfl⟩
    obtain ⟨first, last, rfl, hfirst, hlast⟩ := List.sublist_append_iff.mp hkept
    refine ⟨_, ⟨first, hfirst, rfl⟩, ?_⟩
    rcases List.sublist_singleton.mp hlast with rfl | rfl
    · exact Or.inl (by rw [List.append_nil]; rfl)
    · exact Or.inr (List.foldl_concat ..)
  · rintro ⟨before, ⟨kept, hkept, rfl⟩, rfl | rfl⟩
    · exact ⟨kept, hkept.trans (List.sublist_append_left _ _), rfl⟩
    · exact ⟨kept ++ [change], hkept.append (List.Sublist.refl _), (List.foldl_concat ..).symm⟩

end Directory

end Durable
