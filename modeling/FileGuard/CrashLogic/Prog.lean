import Mathlib.Logic.Relation

/-! Programs over atomic calls, and the assertions that hold of them call by call. -/

namespace CrashLogic

structure Signature where
  Op : Type
  Resp : Op → Type

inductive Prog (σ : Signature) (ε α : Type) : Type where
  | pure (a : α) : Prog σ ε α
  | fail (e : ε) : Prog σ ε α
  | call (o : σ.Op) (k : σ.Resp o → Prog σ ε α) : Prog σ ε α

variable {σ : Signature} {ε α β W : Type}

namespace Prog

def bind : Prog σ ε α → (α → Prog σ ε β) → Prog σ ε β
  | .pure a, f => f a
  | .fail e, _ => .fail e
  | .call o k, f => .call o fun r => (k r).bind f

instance : Monad (Prog σ ε) where
  pure := .pure
  bind := .bind

/-- The program with its error handed back as a value. -/
def attempt : Prog σ ε α → Prog σ ε (Except ε α)
  | .pure a => .pure (.ok a)
  | .fail e => .pure (.error e)
  | .call o k => .call o fun r => (k r).attempt

def mapError {δ : Type} (f : ε → δ) : Prog σ ε α → Prog σ δ α
  | .pure a => .pure a
  | .fail e => .fail (f e)
  | .call o k => .call o fun r => (k r).mapError f

def perform (o : σ.Op) : Prog σ ε (σ.Resp o) := .call o .pure

def ofExcept : Except ε α → Prog σ ε α
  | .ok a => .pure a
  | .error e => .fail e

def void (p : Prog σ ε α) : Prog σ ε Unit := p.bind fun _ => .pure ()

@[simp] theorem pure_eq (a : α) : (Pure.pure a : Prog σ ε α) = .pure a := rfl

@[simp] theorem bind_eq (p : Prog σ ε α) (f : α → Prog σ ε β) : p >>= f = p.bind f := rfl

@[simp] theorem pure_bind (a : α) (f : α → Prog σ ε β) : (Prog.pure a).bind f = f a := rfl

@[simp] theorem fail_bind (e : ε) (f : α → Prog σ ε β) : (Prog.fail e).bind f = .fail e := rfl

theorem bind_assoc {γ : Type} (p : Prog σ ε α) (f : α → Prog σ ε β) (g : β → Prog σ ε γ) :
    (p.bind f).bind g = p.bind fun a => (f a).bind g := by
  induction p with
  | pure a => rfl
  | fail e => rfl
  | call o k ih => exact congrArg (call o) (funext ih)

@[simp] theorem attempt_pure (a : α) : (Prog.pure a : Prog σ ε α).attempt = .pure (.ok a) := rfl

@[simp] theorem attempt_fail (e : ε) : (Prog.fail e : Prog σ ε α).attempt = .pure (.error e) := rfl

@[simp] theorem mapError_pure {δ : Type} (f : ε → δ) (a : α) :
    (Prog.pure a : Prog σ ε α).mapError f = .pure a := rfl

@[simp] theorem mapError_fail {δ : Type} (f : ε → δ) (e : ε) :
    (Prog.fail e : Prog σ ε α).mapError f = .fail (f e) := rfl

@[simp] theorem ofExcept_ok (a : α) : (Prog.ofExcept (.ok a) : Prog σ ε α) = .pure a := rfl

@[simp] theorem ofExcept_error (e : ε) : (Prog.ofExcept (.error e) : Prog σ ε α) = .fail e := rfl

end Prog

/-- What a call may answer and do to the world, and what others may do to it between two calls. -/
structure Machine (σ : Signature) (W : Type) where
  step : (o : σ.Op) → W → σ.Resp o → W → Prop
  rely : W → W → Prop
  rely_refl : ∀ w, rely w w

variable (M : Machine σ W) (G : W → W → Prop)

/-- Every call moves the world as `G` allows, and the program ends in `Q` if it is left to finish. -/
def wp : Prog σ ε α → (Except ε α → W → Prop) → W → Prop
  | .pure a, Q, w => Q (.ok a) w
  | .fail e, Q, w => Q (.error e) w
  | .call o k, Q, w => ∀ w₁, M.rely w w₁ → ∀ r w₂, M.step o w₁ r w₂ → G w₁ w₂ ∧ wp (k r) Q w₂

variable {M G} {Q Q' : Except ε α → W → Prop} {w : W}

@[simp] theorem wp_pure {a : α} : wp M G (.pure a : Prog σ ε α) Q w ↔ Q (.ok a) w := Iff.rfl

@[simp] theorem wp_fail {e : ε} : wp M G (.fail e : Prog σ ε α) Q w ↔ Q (.error e) w := Iff.rfl

theorem wp_mono {p : Prog σ ε α} (h : wp M G p Q w) (hq : ∀ r w', Q r w' → Q' r w') :
    wp M G p Q' w := by
  induction p generalizing w with
  | pure a => exact hq _ _ h
  | fail e => exact hq _ _ h
  | call o k ih =>
    intro w₁ hr r w₂ hs
    obtain ⟨hi, hk⟩ := h w₁ hr r w₂ hs
    exact ⟨hi, ih r hk⟩

/-- The continuation runs on a value and is skipped on an error. -/
def onOk (Q : Except ε β → W → Prop) (f : α → W → Prop) : Except ε α → W → Prop
  | .ok a, w => f a w
  | .error e, w => Q (.error e) w

@[simp] theorem onOk_ok {Q : Except ε β → W → Prop} {f : α → W → Prop} {a : α} :
    onOk Q f (.ok a) w ↔ f a w := Iff.rfl

@[simp] theorem onOk_error {Q : Except ε β → W → Prop} {f : α → W → Prop} {e : ε} :
    onOk Q f (.error e) w ↔ Q (.error e) w := Iff.rfl

theorem wp_bind {p : Prog σ ε α} {f : α → Prog σ ε β} {Q : Except ε β → W → Prop} :
    wp M G (p.bind f) Q w ↔ wp M G p (onOk Q fun a => wp M G (f a) Q) w := by
  induction p generalizing w with
  | pure a => exact Iff.rfl
  | fail e => exact Iff.rfl
  | call o k ih =>
    refine forall_congr' fun w₁ => imp_congr_right fun _ => forall_congr' fun r =>
      forall_congr' fun w₂ => imp_congr_right fun _ => and_congr_right fun _ => ?_
    exact ih r

/-- The answer of an attempted program, error or not, is a value. -/
def onAttempt (Q : Except ε (Except ε α) → W → Prop) : Except ε α → W → Prop := fun r => Q (.ok r)

theorem wp_attempt {p : Prog σ ε α} {Q : Except ε (Except ε α) → W → Prop} :
    wp M G p.attempt Q w ↔ wp M G p (onAttempt Q) w := by
  induction p generalizing w with
  | pure a => exact Iff.rfl
  | fail e => exact Iff.rfl
  | call o k ih =>
    refine forall_congr' fun w₁ => imp_congr_right fun _ => forall_congr' fun r =>
      forall_congr' fun w₂ => imp_congr_right fun _ => and_congr_right fun _ => ?_
    exact ih r

theorem wp_mapError {δ : Type} {f : ε → δ} {p : Prog σ ε α} {Q : Except δ α → W → Prop} :
    wp M G (p.mapError f) Q w ↔ wp M G p (fun r => Q (r.mapError f)) w := by
  induction p generalizing w with
  | pure a => exact Iff.rfl
  | fail e => exact Iff.rfl
  | call o k ih =>
    refine forall_congr' fun w₁ => imp_congr_right fun _ => forall_congr' fun r =>
      forall_congr' fun w₂ => imp_congr_right fun _ => and_congr_right fun _ => ?_
    exact ih r

theorem wp_ofExcept {x : Except ε α} : wp M G (Prog.ofExcept x) Q w ↔ Q x w := by
  cases x <;> exact Iff.rfl

theorem wp_trivial (p : Prog σ ε α) (w : W) : wp M (fun _ _ => True) p (fun _ _ => True) w := by
  induction p generalizing w with
  | pure a => trivial
  | fail e => trivial
  | call o k ih => exact fun w₁ _ r w₂ _ => ⟨trivial, ih r w₂⟩

theorem wp_weaken {M' : Machine σ W} {p : Prog σ ε α} (h : wp M G p Q w)
    (hstep : ∀ o w r w', M'.step o w r w' → M.step o w r w') (hrely : ∀ w w', M'.rely w w' → M.rely w w') :
    wp M' G p Q w := by
  induction p generalizing w with
  | pure a => exact h
  | fail e => exact h
  | call o k ih =>
    intro w₁ hr r w₂ hs
    obtain ⟨hg, hk⟩ := h w₁ (hrely w w₁ hr) r w₂ (hstep o w₁ r w₂ hs)
    exact ⟨hg, ih r hk⟩

theorem wp_guarantee {G' : W → W → Prop} {p : Prog σ ε α} (h : wp M G p Q w) (hg : ∀ w w', G w w' → G' w w') :
    wp M G' p Q w := by
  induction p generalizing w with
  | pure a => exact h
  | fail e => exact h
  | call o k ih =>
    intro w₁ hr r w₂ hs
    obtain ⟨hmade, hk⟩ := h w₁ hr r w₂ hs
    exact ⟨hg w₁ w₂ hmade, ih r hk⟩

/-- What each call keeps, whatever others do in between, every program keeps. -/
theorem wp_invariant {I : W → Prop} (others : ∀ w w', M.rely w w' → I w → I w')
    (made : ∀ o w r w', M.step o w r w' → I w → G w w' ∧ I w') (p : Prog σ ε α) (hi : I w) :
    wp M G p (fun _ w' => I w') w := by
  induction p generalizing w with
  | pure a => exact hi
  | fail e => exact hi
  | call o k ih =>
    intro w₁ hr r w₂ hs
    obtain ⟨hg, h₂⟩ := made o w₁ r w₂ hs (others w w₁ hr hi)
    exact ⟨hg, ih r h₂⟩

variable (M) in
/-- A run of the program to its end. -/
inductive Finishes : Prog σ ε α → W → Except ε α → W → Prop where
  | pure (a : α) (w : W) : Finishes (.pure a) w (.ok a) w
  | fail (e : ε) (w : W) : Finishes (.fail e) w (.error e) w
  | call {o : σ.Op} {k : σ.Resp o → Prog σ ε α} {w w₁ w₂ w' : W} {r : σ.Resp o} {result : Except ε α}
      (others : M.rely w w₁) (made : M.step o w₁ r w₂) (rest : Finishes (k r) w₂ result w') :
      Finishes (.call o k) w result w'

theorem wp_finishes {p : Prog σ ε α} {w' : W} {result : Except ε α} (h : wp M G p Q w)
    (hf : Finishes M p w result w') : Q result w' := by
  induction hf with
  | pure a w => exact h
  | fail e w => exact h
  | call others made rest ih => exact ih (h _ others _ _ made).2

theorem finishes_pure {a : α} {w' : W} {result : Except ε α}
    (h : Finishes M (.pure a : Prog σ ε α) w result w') : result = .ok a ∧ w' = w := by
  cases h
  exact ⟨rfl, rfl⟩

theorem finishes_weaken {M' : Machine σ W} {p : Prog σ ε α} {w' : W} {result : Except ε α}
    (step : ∀ o w r w', M'.step o w r w' → M.step o w r w') (rely : ∀ w w', M'.rely w w' → M.rely w w')
    (h : Finishes M' p w result w') : Finishes M p w result w' := by
  induction h with
  | pure a w => exact .pure a w
  | fail e w => exact .fail e w
  | call others made rest ih => exact .call (rely _ _ others) (step _ _ _ _ made) ih

theorem exists_finishes {I : W → Prop} {p : Prog σ ε α}
    (enabled : ∀ w, I w → ∀ o, ∃ r w', M.step o w r w') (kept : ∀ w w', G w w' → I w')
    (hi : I w) (h : wp M G p Q w) : ∃ result w', Finishes M p w result w' := by
  induction p generalizing w with
  | pure a => exact ⟨_, _, .pure a w⟩
  | fail e => exact ⟨_, _, .fail e w⟩
  | call o k ih =>
    obtain ⟨r, w₂, hs⟩ := enabled w hi o
    obtain ⟨hg, hk⟩ := h w (M.rely_refl w) r w₂ hs
    obtain ⟨result, w', hf⟩ := ih r (kept w w₂ hg) hk
    exact ⟨result, w', .call (M.rely_refl w) hs hf⟩

end CrashLogic
