import FileGuard.CrashLogic.Prog

/-! Programs that keep an invariant among others who keep it too, and runs of any number of them at once. -/

namespace CrashLogic

variable {σ : Signature} {ε δ α β W : Type}

/-- Every call keeps the invariant, whatever is done between two calls that keeps it as well; a value of the
program satisfies `P` and an error of it satisfies `B`. -/
def Within (M : Machine σ W) (I : W → Prop) (B : ε → Prop) : Prog σ ε α → (α → Prop) → Prop
  | .pure a, P => P a
  | .fail e, _ => B e
  | .call o k, P => ∀ w r w', I w → M.step o w r w' → I w' ∧ Within M I B (k r) P

namespace Within

variable {M : Machine σ W} {I : W → Prop} {B : ε → Prop} {p : Prog σ ε α} {P P' : α → Prop}

theorem perform {o : σ.Op} {P : σ.Resp o → Prop} (h : ∀ w r w', I w → M.step o w r w' → I w' ∧ P r) :
    Within M I B (Prog.perform o) P := h

theorem mono {B' : ε → Prop} (h : Within M I B p P) (hp : ∀ a, P a → P' a) (hb : ∀ e, B e → B' e) :
    Within M I B' p P' := by
  induction p with
  | pure a => exact hp a h
  | fail e => exact hb e h
  | call o k ih =>
    intro w r w' hi hs
    obtain ⟨hi', hk⟩ := h w r w' hi hs
    exact ⟨hi', ih r hk⟩

theorem bind {f : α → Prog σ ε β} {Q : β → Prop} (h : Within M I B p P) (hf : ∀ a, P a → Within M I B (f a) Q) :
    Within M I B (p.bind f) Q := by
  induction p with
  | pure a => exact hf a h
  | fail e => exact h
  | call o k ih =>
    intro w r w' hi hs
    obtain ⟨hi', hk⟩ := h w r w' hi hs
    exact ⟨hi', ih r hk⟩

def tried (P : α → Prop) (B : ε → Prop) : Except ε α → Prop
  | .ok a => P a
  | .error e => B e

theorem attempt {B' : ε → Prop} (h : Within M I B p P) : Within M I B' p.attempt (tried P B) := by
  induction p with
  | pure a => exact h
  | fail e => exact h
  | call o k ih =>
    intro w r w' hi hs
    obtain ⟨hi', hk⟩ := h w r w' hi hs
    exact ⟨hi', ih r hk⟩

theorem mapError {B' : δ → Prop} {f : ε → δ} (h : Within M I B p P) (hf : ∀ e, B e → B' (f e)) :
    Within M I B' (p.mapError f) P := by
  induction p with
  | pure a => exact h
  | fail e => exact hf e h
  | call o k ih =>
    intro w r w' hi hs
    obtain ⟨hi', hk⟩ := h w r w' hi hs
    exact ⟨hi', ih r hk⟩

end Within

section interference

variable {M : Machine σ W} {G : W → W → Prop} {p : Prog σ ε α} {Q : Except ε α → W → Prop} {w w' : W}

/-- What holds of a program holds after others have acted, unless they disturb what it ends in. -/
theorem wp_after (trans : ∀ w w' w'', M.rely w w' → M.rely w' w'' → M.rely w w'')
    (stable : ∀ r w w', M.rely w w' → Q r w → Q r w') (h : wp M G p Q w) (others : M.rely w w') : wp M G p Q w' := by
  cases p with
  | pure a => exact stable _ _ _ others h
  | fail e => exact stable _ _ _ others h
  | call o k => exact fun w₁ hr r w₂ hs => h w₁ (trans _ _ _ others hr) r w₂ hs

theorem wp_call {o : σ.Op} {k : σ.Resp o → Prog σ ε α} {r : σ.Resp o} (h : wp M G (.call o k) Q w)
    (made : M.step o w r w') : G w w' ∧ wp M G (k r) Q w' := h w (M.rely_refl w) r w' made

end interference

def Machine.logged (M : Machine σ W) : Machine σ (W × List σ.Op) where
  step o s r s' := M.step o s.1 r s'.1 ∧ s'.2 = o :: s.2
  rely s s' := M.rely s.1 s'.1 ∧ s'.2 = s.2
  rely_refl s := ⟨M.rely_refl s.1, rfl⟩

theorem wp_logged {M : Machine σ W} {G : W → W → Prop} {p : Prog σ ε α} {Q : Except ε α → W → Prop} {w : W}
    (h : wp M G p Q w) (log : List σ.Op) :
    wp M.logged (fun s s' => G s.1 s'.1) p (fun r s' => Q r s'.1 ∧ log <:+ s'.2) (w, log) := by
  have hlog {p : Prog σ ε α} {w : W} {log' : List σ.Op} (h : wp M G p Q w) (hl : log <:+ log') :
      wp M.logged (fun s s' => G s.1 s'.1) p (fun r s' => Q r s'.1 ∧ log <:+ s'.2) (w, log') := by
    induction p generalizing w log' with
    | pure a => exact ⟨h, hl⟩
    | fail e => exact ⟨h, hl⟩
    | call o k ih =>
      rintro ⟨w₁, log₁⟩ ⟨hr, rfl⟩ r ⟨w₂, log₂⟩ ⟨hs, rfl⟩
      obtain ⟨hg, hk⟩ := h w₁ hr r w₂ hs
      exact ⟨hg, ih r hk (hl.trans (List.suffix_cons o _))⟩
  exact hlog h (List.suffix_refl log)

/-- Programs that run at the same time: each call is made by one of them, others may come between any two calls,
and a crash ends them all. -/
inductive Concurrent (M : Machine σ W) (start : W → Prog σ ε Unit → Prop) (crash : W → W → Prop)
    (init : W → Prop) : List (Prog σ ε Unit) → W → Prop where
  | init {w : W} (h : init w) : Concurrent M start crash init [] w
  | others {ps : List (Prog σ ε Unit)} {w w' : W} (before : Concurrent M start crash init ps w)
      (h : M.rely w w') : Concurrent M start crash init ps w'
  | start {ps : List (Prog σ ε Unit)} {p : Prog σ ε Unit} {w : W} (before : Concurrent M start crash init ps w)
      (h : start w p) : Concurrent M start crash init (p :: ps) w
  | call {ps qs : List (Prog σ ε Unit)} {o : σ.Op} {k : σ.Resp o → Prog σ ε Unit} {r : σ.Resp o} {w w' : W}
      (before : Concurrent M start crash init (ps ++ .call o k :: qs) w) (h : M.step o w r w') :
      Concurrent M start crash init (ps ++ k r :: qs) w'
  | crash {ps : List (Prog σ ε Unit)} {w w' : W} (before : Concurrent M start crash init ps w)
      (h : crash w w') : Concurrent M start crash init [] w'

variable {M : Machine σ W} {start : W → Prog σ ε Unit → Prop} {crash : W → W → Prop} {init I : W → Prop}

/-- What every program keeps holds whatever programs run, and however their calls interleave. -/
theorem Concurrent.invariant (initial : ∀ w, init w → I w) (others : ∀ w w', I w → M.rely w w' → I w')
    (started : ∀ w p, I w → start w p → Within M I (fun _ => True) p (fun _ => True))
    (crashed : ∀ w w', I w → crash w w' → I w') {ps : List (Prog σ ε Unit)} {w : W}
    (run : Concurrent M start crash init ps w) :
    I w ∧ ∀ p ∈ ps, Within M I (fun _ => True) p (fun _ => True) := by
  induction run with
  | init h => exact ⟨initial _ h, by simp⟩
  | others _ h ih => exact ⟨others _ _ ih.1 h, ih.2⟩
  | start _ h ih => exact ⟨ih.1, List.forall_mem_cons.mpr ⟨started _ _ ih.1 h, ih.2⟩⟩
  | call _ h ih =>
    obtain ⟨hi, hps⟩ := ih
    rw [List.forall_mem_append, List.forall_mem_cons] at hps
    obtain ⟨hi', hk⟩ := hps.2.1 _ _ _ hi h
    exact ⟨hi', List.forall_mem_append.mpr ⟨hps.1, List.forall_mem_cons.mpr ⟨hk, hps.2.2⟩⟩⟩
  | crash _ h ih => exact ⟨crashed _ _ ih.1 h, by simp⟩

theorem Concurrent.finishes {M' : Machine σ W} (hstep : ∀ o w r w', M'.step o w r w' → M.step o w r w')
    (hrely : ∀ w w', M'.rely w w' → M.rely w w') {p : Prog σ ε Unit} {ps : List (Prog σ ε Unit)} {w w' : W}
    {result : Except ε Unit} (before : Concurrent M start crash init (p :: ps) w) (h : Finishes M' p w result w') :
    ∃ q, Concurrent M start crash init (q :: ps) w' := by
  induction h with
  | pure a w => exact ⟨_, before⟩
  | fail e w => exact ⟨_, before⟩
  | @call o k w w₁ w₂ w' r result others made rest ih =>
    have hcalled : Concurrent M start crash init ([] ++ .call o k :: ps) w₁ := .others before (hrely w w₁ others)
    exact ih (.call hcalled (hstep o w₁ r w₂ made))

end CrashLogic
