import FileGuard.Recovery.Layout
import FileGuard.Transaction.StoreSteps

/-! Runs of the coordinator alone: every world on the way keeps the invariant, and an error means `E`. -/

namespace FileGuard.Recovery

open Store Files Transaction CrashLogic

variable (S : Site)

abbrev Site.machine : Machine signature World := calm S.host (Fair S.path)

abbrev KeepsInv : World → World → Prop := fun _ w => Inv S w

def ending {ε α : Type} (E : Prop) (Q : α → World → Prop) : Except ε α → World → Prop
  | .ok a, w => Q a w
  | .error _, _ => E

def Runs {ε α : Type} (E : Prop) (p : Prog signature ε α) (Q : α → World → Prop) (w : World) : Prop :=
  wp S.machine (KeepsInv S) p (ending E Q) w

/-- The program answers `r` and leaves the world as it is. -/
def Reads {ε α : Type} (p : Prog signature ε α) (r : Except ε α) (w : World) : Prop :=
  wp S.machine (KeepsInv S) p (fun r' w' => r' = r ∧ w' = w) w

variable {S} {E : Prop} {ε α β : Type} {w : World} {p : Prog signature ε α}

namespace Runs

variable {Q Q' : α → World → Prop}

theorem pure {a : α} (h : Q a w) : Runs S E (.pure a : Prog signature ε α) Q w := h

theorem fail {e : ε} (h : E) : Runs S E (.fail e : Prog signature ε α) Q w := h

theorem mono (h : Runs S E p Q w) (hq : ∀ a w', Q a w' → Q' a w') : Runs S E p Q' w := by
  refine wp_mono h ?_
  rintro (e | a) w' hr
  · exact hr
  · exact hq a w' hr

theorem weaken {E' : Prop} (h : Runs S E p Q w) (he : E → E') : Runs S E' p Q w := by
  refine wp_mono h ?_
  rintro (e | a) w' hr
  · exact he hr
  · exact hr

theorem bind {f : α → Prog signature ε β} {Q : β → World → Prop}
    (h : Runs S E p (fun a w' => Runs S E (f a) Q w') w) : Runs S E (p.bind f) Q w := by
  refine wp_bind.mpr (wp_mono h ?_)
  rintro (e | a) w' hr <;> exact hr

theorem andThen {f : α → Prog signature ε β} {P : α → World → Prop} {Q : β → World → Prop}
    (h : Runs S E p P w) (hf : ∀ a w', P a w' → Runs S E (f a) Q w') : Runs S E (p.bind f) Q w :=
  bind (h.mono hf)

theorem attempt {Q : Except ε α → World → Prop} (h : Runs S False p (fun a w' => Q (.ok a) w') w) :
    Runs S E p.attempt Q w := by
  refine wp_attempt.mpr (wp_mono h ?_)
  rintro (e | a) w' hr
  · exact hr.elim
  · exact hr

theorem mapError {δ : Type} {f : ε → δ} (h : Runs S E p Q w) : Runs S E (p.mapError f) Q w := by
  refine wp_mapError.mpr (wp_mono h ?_)
  rintro (e | a) w' hr <;> exact hr

theorem perform {o : Op} {Q : o.Resp → World → Prop}
    (h : ∀ c, Fair S.path w c →
      Inv S (w.exec S.host c o).2.settled ∧ Q (w.exec S.host c o).1 (w.exec S.host c o).2.settled) :
    Runs S E (Files.perform o : Prog signature ε o.Resp) Q w :=
  wp_perform_calm.mpr h

end Runs

namespace Reads

variable {r : Except ε α}

theorem wp_of {Q : Except ε α → World → Prop} (h : Reads S p r w) (hq : Q r w) :
    wp S.machine (KeepsInv S) p Q w := by
  refine wp_mono h ?_
  rintro _ _ ⟨rfl, rfl⟩
  exact hq

theorem runs {Q : α → World → Prop} {a : α} (h : Reads S p (.ok a) w) (hq : Q a w) : Runs S E p Q w :=
  h.wp_of hq

theorem pure (a : α) : Reads S (.pure a : Prog signature ε α) (.ok a) w := ⟨rfl, rfl⟩

theorem fail (e : ε) : Reads S (.fail e : Prog signature ε α) (.error e) w := ⟨rfl, rfl⟩

theorem bind {f : α → Prog signature ε β} {a : α} {r : Except ε β} (h : Reads S p (.ok a) w)
    (hf : Reads S (f a) r w) : Reads S (p.bind f) r w :=
  wp_bind.mpr (h.wp_of hf)

theorem bind_error {f : α → Prog signature ε β} {e : ε} (h : Reads S p (.error e) w) :
    Reads S (p.bind f) (.error e) w :=
  wp_bind.mpr (h.wp_of ⟨rfl, rfl⟩)

theorem runs_bind {f : α → Prog signature ε β} {a : α} {Q : β → World → Prop} (h : Reads S p (.ok a) w)
    (hf : Runs S E (f a) Q w) : Runs S E (p.bind f) Q w :=
  wp_bind.mpr (h.wp_of hf)

theorem attempt (h : Reads S p r w) : Reads S p.attempt (.ok r) w :=
  wp_attempt.mpr (h.wp_of ⟨rfl, rfl⟩)

theorem mapError {δ : Type} {f : ε → δ} (h : Reads S p r w) : Reads S (p.mapError f) (r.mapError f) w :=
  wp_mapError.mpr (h.wp_of ⟨rfl, rfl⟩)

theorem ofExcept (r : Except ε α) : Reads S (Prog.ofExcept r) r w := by
  cases r <;> exact ⟨rfl, rfl⟩

theorem perform {o : Op} {a : o.Resp} (hi : Inv S w)
    (h : ∀ c, Fair S.path w c → (w.exec S.host c o).1 = a ∧ (w.exec S.host c o).2.settled = w) :
    Reads S (Files.perform o : Prog signature ε o.Resp) (.ok a) w := by
  refine wp_perform_calm.mpr fun c hc => ?_
  obtain ⟨ha, hw⟩ := h c hc
  rw [hw, ha]
  exact ⟨hi, rfl, rfl⟩

end Reads

/-! The calls that only look. -/

theorem watched_target : Watched S.path (targetSlot S) := rfl

theorem watched_slot (s : StagingArea) (name : String) : Watched S.path (s.slot name) := trivial

theorem reads_observe (hi : Inv S w) {slot : Slot} (hw : Watched S.path slot) :
    Reads S (Files.observe slot : Prog signature ε _) (.ok (ident S (view S.path w) slot)) w := by
  refine .perform hi fun c _ => ⟨?_, hi.sane.settled⟩
  rw [ident, view_of_watched hw]
  rfl

theorem reads_load (hi : Inv S w) :
    Reads S (Transaction.load S.path) (.ok (w.store S.path)) w := by
  have ha : Reads S (storeLoad S.path) (.ok (.ok (w.store S.path))) w := by
    refine .perform hi fun c hc => ?_
    simp only [World.exec, hc.answer, true_and]
    exact hi.sane.settled
  exact ha.bind (.pure _)

theorem reads_sync (hi : Inv S w) (directory : Path) :
    Reads S (syncDirectory directory : Prog signature ε Unit) (.ok ()) w := by
  refine .perform hi fun c _ => ⟨rfl, ?_⟩
  have h : (w.settled.exec S.host c (.syncDirectory directory)).2.settled = w.settled := rfl
  exact (World.exec_settled w c _).2.symm.trans (h.trans hi.sane.settled)

end FileGuard.Recovery
