import FileGuard.CrashLogic.Prog

/-! Programs cut short at any call, and programs whose calls stand for those of another machine. -/

namespace CrashLogic

variable {σ τ : Signature} {ε α β W : Type}

section reaches

variable {M : Machine σ W} {G : W → W → Prop}

variable (M) in
/-- The worlds that a program leaves when it is cut short after any number of its calls. -/
inductive Reaches : Prog σ ε α → W → W → Prop where
  | cut (p : Prog σ ε α) (w : W) : Reaches p w w
  | call {o : σ.Op} {k : σ.Resp o → Prog σ ε α} {w w₁ w₂ w' : W} {r : σ.Resp o}
      (others : M.rely w w₁) (made : M.step o w₁ r w₂) (rest : Reaches (k r) w₂ w') : Reaches (.call o k) w w'

theorem wp_reaches {I : W → Prop} {p : Prog σ ε α} {Q : Except ε α → W → Prop} {w w' : W}
    (h : wp M (fun _ w' => I w') p Q w) (hi : I w) (hr : Reaches M p w w') : I w' := by
  induction hr with
  | cut p w => exact hi
  | call others made rest ih =>
    obtain ⟨hmade, hrest⟩ := h _ others _ _ made
    exact ih hrest hmade

theorem Finishes.reaches {p : Prog σ ε α} {w w' : W} {result : Except ε α} (h : Finishes M p w result w') :
    Reaches M p w w' := by
  induction h with
  | pure a w => exact .cut _ w
  | fail e w => exact .cut _ w
  | call others made rest ih => exact .call others made ih

end reaches

namespace Prog

variable (op : σ.Op → τ.Op) (answer : ∀ o, τ.Resp (op o) → σ.Resp o)

/-- The program on the machine whose calls stand for its own. -/
def translate : Prog σ ε α → Prog τ ε α
  | .pure a => .pure a
  | .fail e => .fail e
  | .call o k => .call (op o) fun r => (k (answer o r)).translate

variable {op answer}

theorem translate_bind (p : Prog σ ε α) (f : α → Prog σ ε β) :
    (p.bind f).translate op answer = (p.translate op answer).bind fun a => (f a).translate op answer := by
  induction p with
  | pure a => rfl
  | fail e => rfl
  | call o k ih => exact congrArg (call (op o)) (funext fun r => ih (answer o r))

theorem translate_attempt (p : Prog σ ε α) :
    p.attempt.translate op answer = (p.translate op answer).attempt := by
  induction p with
  | pure a => rfl
  | fail e => rfl
  | call o k ih => exact congrArg (call (op o)) (funext fun r => ih (answer o r))

theorem translate_ofExcept (x : Except ε α) : (ofExcept x : Prog σ ε α).translate op answer = ofExcept x := by
  cases x <;> rfl

end Prog

end CrashLogic
