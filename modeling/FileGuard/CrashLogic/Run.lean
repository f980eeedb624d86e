import FileGuard.CrashLogic.Prog

/-! Runs of a machine: programs started one after the other, each cut short at any call by a crash. -/

namespace CrashLogic

variable {σ : Signature} {ε W : Type}

structure System (σ : Signature) (ε W : Type) where
  machine : Machine σ W
  start : W → Prog σ ε Unit → Prop
  crash : W → W → Prop

namespace System

variable (S : System σ ε W) (init : W → Prop)

/-- The worlds of all runs, each with what is left of the running program. -/
inductive Reachable : Option (Prog σ ε Unit) → W → Prop where
  | init {w : W} (h : init w) : Reachable none w
  | others {p : Option (Prog σ ε Unit)} {w w' : W} (before : Reachable p w)
      (h : S.machine.rely w w') : Reachable p w'
  | start {p : Prog σ ε Unit} {w : W} (before : Reachable none w) (h : S.start w p) :
      Reachable (some p) w
  | call {o : σ.Op} {k : σ.Resp o → Prog σ ε Unit} {r : σ.Resp o} {w w' : W}
      (before : Reachable (some (.call o k)) w) (h : S.machine.step o w r w') :
      Reachable (some (k r)) w'
  | done {w : W} (before : Reachable (some (.pure ())) w) : Reachable none w
  | failed {e : ε} {w : W} (before : Reachable (some (.fail e)) w) : Reachable none w
  | crash {p : Option (Prog σ ε Unit)} {w w' : W} (before : Reachable p w) (h : S.crash w w') :
      Reachable none w'

variable {S init} {I : W → Prop} {G : W → W → Prop}

/-- An invariant of the worlds that every call keeps while it moves the world as `G` allows. -/
structure Invariant (S : System σ ε W) (init I : W → Prop) (G : W → W → Prop) : Prop where
  initial : ∀ w, init w → I w
  kept : ∀ w w', G w w' → I w'
  others : ∀ w w', I w → S.machine.rely w w' → I w'
  trans : ∀ w w' w'', S.machine.rely w w' → S.machine.rely w' w'' → S.machine.rely w w''
  crash : ∀ w w', I w → S.crash w w' → I w'
  program : ∀ w p, I w → S.start w p → wp S.machine G p (fun _ _ => True) w

theorem wp_others {p : Prog σ ε Unit} {w w' : W}
    (htrans : ∀ w w' w'', S.machine.rely w w' → S.machine.rely w' w'' → S.machine.rely w w'')
    (h : wp S.machine G p (fun _ _ => True) w) (hr : S.machine.rely w w') :
    wp S.machine G p (fun _ _ => True) w' := by
  cases p with
  | pure a => trivial
  | fail e => trivial
  | call o k => exact fun w₁ hr₁ r w₂ hs => h w₁ (htrans w w' w₁ hr hr₁) r w₂ hs

theorem Invariant.reachable (h : Invariant S init I G) {p : Option (Prog σ ε Unit)} {w : W}
    (hreach : Reachable S init p w) :
    I w ∧ ∀ q, p = some q → wp S.machine G q (fun _ _ => True) w := by
  induction hreach with
  | init hinit => exact ⟨h.initial _ hinit, by simp⟩
  | others before hrely ih =>
    exact ⟨h.others _ _ ih.1 hrely, fun q hq => wp_others h.trans (ih.2 q hq) hrely⟩
  | start before hstart ih =>
    refine ⟨ih.1, fun q hq => ?_⟩
    cases hq
    exact h.program _ _ ih.1 hstart
  | call before hstep ih =>
    obtain ⟨hg, hk⟩ := ih.2 _ rfl _ (S.machine.rely_refl _) _ _ hstep
    refine ⟨h.kept _ _ hg, fun q hq => ?_⟩
    cases hq
    exact hk
  | done before ih => exact ⟨ih.1, by simp⟩
  | failed before ih => exact ⟨ih.1, by simp⟩
  | crash before hcrash ih => exact ⟨h.crash _ _ ih.1 hcrash, by simp⟩

/-- A program that runs to its end is a run of the system. -/
theorem Reachable.finishes {p : Prog σ ε Unit} {result : Except ε Unit} {w w' : W}
    (before : Reachable S init (some p) w) (h : Finishes S.machine p w result w') : Reachable S init none w' := by
  induction h with
  | pure a w => exact .done before
  | fail e w => exact .failed before
  | call others made rest ih => exact ih (.call (.others before others) made)

end System

end CrashLogic
