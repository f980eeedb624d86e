import FileGuard.Windows.Sliding
import Mathlib.Algebra.Order.Ring.Int
import Mathlib.Tactic.NormNum

namespace FileGuard.Prompt

/-- A reading of the monotonic clock, in nanoseconds. -/
abbrev Instant := ℤ

/-- The earliest instant there is: the clock counts seconds in a signed 64-bit word. -/
def Instant.least : Instant := -(2 ^ 63 * 10 ^ 9)

/-- `Duration::MAX`, in nanoseconds. -/
def Duration.longest : ℕ := 2 ^ 64 * 10 ^ 9 - 1

/-- `Instant - Duration`; `none` is the panic on a difference that no instant names. -/
def Instant.sub (now : Instant) (window : ℕ) : Option Instant :=
  if Instant.least ≤ now - window then some (now - window) else none

structure RateLimiter where
  maxPerWindow : ℕ
  window : ℕ
  timestamps : List Instant
  deriving DecidableEq

namespace RateLimiter

def new (maxPerWindow window : ℕ) : RateLimiter := ⟨maxPerWindow, window, []⟩

/-- What is left of the queue once its front has been popped up to the cutoff. -/
def trim (cutoff : Instant) (timestamps : List Instant) : List Instant := timestamps.dropWhile (· ≤ cutoff)

/-- `allow` under its lock, at one reading of the clock; no answer is a panic. -/
def allow (limiter : RateLimiter) (now : Instant) : Option Bool × RateLimiter :=
  match now.sub limiter.window with
  | none => (none, limiter)
  | some cutoff =>
    if limiter.maxPerWindow ≤ (trim cutoff limiter.timestamps).length then
      (some false, { limiter with timestamps := trim cutoff limiter.timestamps })
    else (some true, { limiter with timestamps := trim cutoff limiter.timestamps ++ [now] })

/-- The limiter once `allow` has run at each of these instants. -/
def after (limiter : RateLimiter) (calls : List Instant) : RateLimiter :=
  calls.foldl (fun limiter now => (limiter.allow now).2) limiter

def answers (limiter : RateLimiter) : List Instant → List (Option Bool)
  | [] => []
  | now :: later => (limiter.allow now).1 :: answers (limiter.allow now).2 later

/-- The instants of the calls that were allowed. -/
def allowed (limiter : RateLimiter) : List Instant → List Instant
  | [] => []
  | now :: later =>
    if (limiter.allow now).1 = some true then now :: allowed (limiter.allow now).2 later
    else allowed (limiter.allow now).2 later

variable {limiter : RateLimiter} {maxPerWindow window : ℕ} {now : Instant} {calls : List Instant}

@[simp] theorem after_nil : limiter.after [] = limiter := rfl

theorem after_append (before later : List Instant) :
    limiter.after (before ++ later) = (limiter.after before).after later := List.foldl_append

theorem after_concat (before : List Instant) :
    limiter.after (before ++ [now]) = ((limiter.after before).allow now).2 := after_append before [now]

theorem allowed_append (before later : List Instant) :
    limiter.allowed (before ++ later) = limiter.allowed before ++ (limiter.after before).allowed later := by
  induction before generalizing limiter with
  | nil => rfl
  | cons first before ih =>
    have hrest := @ih (limiter.allow first).2
    by_cases hfirst : (limiter.allow first).1 = some true
    · simp only [List.cons_append, allowed, if_pos hfirst, hrest]
      rfl
    · simp only [List.cons_append, allowed, if_neg hfirst, hrest]
      rfl

/-- The three things a call can do. -/
theorem allow_cases (limiter : RateLimiter) (now : Instant) :
    (now - limiter.window < Instant.least ∧ limiter.allow now = (none, limiter)) ∨
    (Instant.least ≤ now - limiter.window ∧
      limiter.maxPerWindow ≤ (trim (now - limiter.window) limiter.timestamps).length ∧
      limiter.allow now = (some false, { limiter with timestamps := trim (now - limiter.window) limiter.timestamps })) ∨
    (Instant.least ≤ now - limiter.window ∧
      (trim (now - limiter.window) limiter.timestamps).length < limiter.maxPerWindow ∧
      limiter.allow now =
        (some true, { limiter with timestamps := trim (now - limiter.window) limiter.timestamps ++ [now] })) := by
  by_cases hleast : Instant.least ≤ now - limiter.window
  · have hsome : now.sub limiter.window = some (now - limiter.window) := if_pos hleast
    by_cases hfull : limiter.maxPerWindow ≤ (trim (now - limiter.window) limiter.timestamps).length
    · refine Or.inr (Or.inl ⟨hleast, hfull, ?_⟩)
      simp only [allow, hsome, if_pos hfull]
    · refine Or.inr (Or.inr ⟨hleast, not_le.mp hfull, ?_⟩)
      simp only [allow, hsome, if_neg hfull]
  · have hnone : now.sub limiter.window = none := if_neg hleast
    refine Or.inl ⟨not_le.mp hleast, ?_⟩
    simp only [allow, hnone]

@[simp] theorem allow_maxPerWindow : (limiter.allow now).2.maxPerWindow = limiter.maxPerWindow := by
  rcases allow_cases limiter now with ⟨-, h⟩ | ⟨-, -, h⟩ | ⟨-, -, h⟩ <;> rw [h]

@[simp] theorem allow_window : (limiter.allow now).2.window = limiter.window := by
  rcases allow_cases limiter now with ⟨-, h⟩ | ⟨-, -, h⟩ | ⟨-, -, h⟩ <;> rw [h]

@[simp] theorem after_maxPerWindow : (limiter.after calls).maxPerWindow = limiter.maxPerWindow := by
  induction calls generalizing limiter with
  | nil => rfl
  | cons now calls ih => exact ih.trans allow_maxPerWindow

@[simp] theorem after_window : (limiter.after calls).window = limiter.window := by
  induction calls generalizing limiter with
  | nil => rfl
  | cons now calls ih => exact ih.trans allow_window

/-- What a limiter holds after calls of which these were allowed. -/
structure Tracks (limiter : RateLimiter) (calls admitted : List Instant) : Prop where
  queue_sublist : limiter.timestamps.Sublist calls
  admitted_sublist : admitted.Sublist calls
  /-- Past every cutoff the next call can have, the queue is the history. -/
  queue_eq : ∀ cutoff : Instant, (∀ s ∈ calls, s - limiter.window ≤ cutoff) →
    limiter.timestamps.filter (cutoff < ·) = admitted.filter (cutoff < ·)
  length_le : limiter.timestamps.length ≤ limiter.maxPerWindow
  spaced : Windows.Spaced limiter.maxPerWindow (limiter.window : ℤ) admitted

theorem tracks_new : Tracks (new maxPerWindow window) [] [] where
  queue_sublist := List.Sublist.slnil
  admitted_sublist := List.Sublist.slnil
  queue_eq _ _ := rfl
  length_le := Nat.zero_le _
  spaced := Windows.spaced_nil

namespace Tracks

variable {admitted : List Instant}

theorem trim_eq (h : Tracks limiter calls admitted) (sorted : calls.Pairwise (· ≤ ·)) {cutoff : Instant}
    (hcalls : ∀ s ∈ calls, s - limiter.window ≤ cutoff) :
    trim cutoff limiter.timestamps = admitted.filter (cutoff < ·) :=
  (Windows.dropWhile_eq_filter (sorted.sublist h.queue_sublist)).trans (h.queue_eq cutoff hcalls)

/-- A call that is turned away, having trimmed the queue or not. -/
theorem denied (h : Tracks limiter calls admitted) {timestamps : List Instant}
    (hsub : timestamps.Sublist limiter.timestamps)
    (hkept : ∀ cutoff : Instant, now - limiter.window ≤ cutoff →
      timestamps.filter (cutoff < ·) = limiter.timestamps.filter (cutoff < ·)) :
    Tracks { limiter with timestamps } (calls ++ [now]) admitted where
  queue_sublist := (hsub.trans h.queue_sublist).trans (List.sublist_append_left _ _)
  admitted_sublist := h.admitted_sublist.trans (List.sublist_append_left _ _)
  queue_eq cutoff hcalls := by
    rw [hkept cutoff (hcalls now (by simp))]
    apply h.queue_eq
    intro s hs
    exact hcalls s (List.mem_append_left _ hs)
  length_le := hsub.length_le.trans h.length_le
  spaced := h.spaced

theorem concat (h : Tracks limiter calls admitted) {timestamps : List Instant}
    (hsub : timestamps.Sublist limiter.timestamps)
    (hkept : ∀ cutoff : Instant, now - limiter.window ≤ cutoff →
      timestamps.filter (cutoff < ·) = limiter.timestamps.filter (cutoff < ·))
    (hlen : timestamps.length < limiter.maxPerWindow)
    (hroom : (admitted.filter (now - limiter.window < ·)).length < limiter.maxPerWindow) :
    Tracks { limiter with timestamps := timestamps ++ [now] } (calls ++ [now]) (admitted ++ [now]) where
  queue_sublist := (hsub.trans h.queue_sublist).append (List.Sublist.refl _)
  admitted_sublist := h.admitted_sublist.append (List.Sublist.refl _)
  queue_eq cutoff hcalls := by
    have hdenied : Tracks { limiter with timestamps } (calls ++ [now]) admitted := h.denied hsub hkept
    have hold := hdenied.queue_eq cutoff hcalls
    rw [List.filter_append, List.filter_append]
    exact congrArg (· ++ [now].filter (cutoff < ·)) hold
  length_le := by simpa using Nat.succ_le_of_lt hlen
  spaced := h.spaced.concat hroom

end Tracks

/-- One call, at an instant no earlier than those before it. -/
theorem Tracks.allow {admitted : List Instant} (h : Tracks limiter calls admitted)
    (sorted : (calls ++ [now]).Pairwise (· ≤ ·)) :
    Tracks (limiter.allow now).2 (calls ++ [now])
      (admitted ++ if (limiter.allow now).1 = some true then [now] else []) := by
  obtain ⟨hsorted, -, hlast⟩ := List.pairwise_append.mp sorted
  have hcalls : ∀ s ∈ calls, s - (limiter.window : ℤ) ≤ now - limiter.window := by
    intro s hs
    have hle := hlast s hs now (List.mem_singleton_self now)
    exact sub_le_sub_right hle _
  have htrim := h.trim_eq hsorted hcalls
  have hsub : (trim (now - limiter.window) limiter.timestamps).Sublist limiter.timestamps := List.dropWhile_sublist _
  have hkept : ∀ cutoff : Instant, now - limiter.window ≤ cutoff →
      (trim (now - limiter.window) limiter.timestamps).filter (cutoff < ·) =
        limiter.timestamps.filter (cutoff < ·) := by
    intro cutoff hcutoff
    rw [trim, Windows.dropWhile_eq_filter (hsorted.sublist h.queue_sublist), Windows.filter_filter_lt hcutoff]
  rcases allow_cases limiter now with ⟨-, hallow⟩ | ⟨-, -, hallow⟩ | ⟨-, hroom, hallow⟩
  · rw [hallow]
    simpa using h.denied (List.Sublist.refl limiter.timestamps) (fun _ _ => rfl)
  · rw [hallow]
    simpa using h.denied hsub hkept
  · rw [hallow, if_pos rfl]
    exact h.concat hsub hkept hroom (htrim ▸ hroom)

theorem tracks_after (maxPerWindow window : ℕ) (sorted : calls.Pairwise (· ≤ ·)) :
    Tracks ((new maxPerWindow window).after calls) calls ((new maxPerWindow window).allowed calls) := by
  induction calls using List.reverseRecOn with
  | nil => exact tracks_new
  | append_singleton calls now ih =>
    obtain ⟨hsorted, -, -⟩ := List.pairwise_append.mp sorted
    have hstep := (ih hsorted).allow sorted
    rw [after_concat, allowed_append]
    simpa only [allowed] using hstep

/-- A call that was turned away changes nothing for those that come no earlier. -/
theorem allow_after_denied {later : Instant} (hle : now ≤ later) (h : (limiter.allow now).1 ≠ some true) :
    (limiter.allow now).2.allow later = limiter.allow later := by
  have hwindow : now - (limiter.window : ℤ) ≤ later - limiter.window := sub_le_sub_right hle _
  rcases allow_cases limiter now with ⟨-, hallow⟩ | ⟨hleast, -, hallow⟩ | ⟨-, -, hallow⟩
  · rw [hallow]
  · have hsome : later.sub limiter.window = some (later - limiter.window) := if_pos (hleast.trans hwindow)
    have htrim : trim (later - limiter.window) (trim (now - limiter.window) limiter.timestamps) =
        trim (later - limiter.window) limiter.timestamps := Windows.dropWhile_dropWhile hwindow _
    rw [hallow]
    simp only [allow, hsome, htrim]
  · rw [hallow] at h
    exact absurd rfl h

theorem answers_after_denied {later : List Instant} (sorted : (now :: later).Pairwise (· ≤ ·))
    (h : (limiter.allow now).1 ≠ some true) : (limiter.allow now).2.answers later = limiter.answers later := by
  cases later with
  | nil => rfl
  | cons next later =>
    have hle : now ≤ next := List.rel_of_pairwise_cons sorted List.mem_cons_self
    simp only [answers, allow_after_denied hle h]

/-- The answer to a call depends on the history through the calls allowed in its window alone. -/
theorem Tracks.answer {admitted : List Instant} (h : Tracks limiter calls admitted)
    (sorted : (calls ++ [now]).Pairwise (· ≤ ·)) :
    (limiter.allow now).1 = if now - limiter.window < Instant.least then none
      else some (decide ((admitted.countP fun s => now - limiter.window < s ∧ s ≤ now) < limiter.maxPerWindow)) := by
  obtain ⟨hsorted, -, hlast⟩ := List.pairwise_append.mp sorted
  have hcalls : ∀ s ∈ calls, s ≤ now := by
    intro s hs
    exact hlast s hs now (List.mem_singleton_self now)
  have hcount : (admitted.countP fun s => now - limiter.window < s ∧ s ≤ now) =
      (trim (now - limiter.window) limiter.timestamps).length := by
    rw [h.trim_eq hsorted fun s hs => sub_le_sub_right (hcalls s hs) _, ← List.countP_eq_length_filter]
    apply List.countP_congr
    intro s hs
    have hle := hcalls s (h.admitted_sublist.subset hs)
    simp [hle]
  rw [hcount]
  rcases allow_cases limiter now with ⟨hleast, hallow⟩ | ⟨hleast, hfull, hallow⟩ | ⟨hleast, hroom, hallow⟩
  · rw [hallow, if_pos hleast]
  · rw [hallow, if_neg (not_lt.mpr hleast), decide_eq_false (not_lt.mpr hfull)]
  · rw [hallow, if_neg (not_lt.mpr hleast), decide_eq_true hroom]

/-- No half-open interval as long as the window has more than `maxPerWindow` of the allowed calls. -/
theorem allowed_window_le (maxPerWindow window : ℕ) (sorted : calls.Pairwise (· ≤ ·)) (a : Instant) :
    ((new maxPerWindow window).allowed calls).countP (fun t => a ≤ t ∧ t < a + window) ≤ maxPerWindow ∧
    ((new maxPerWindow window).allowed calls).countP (fun t => a < t ∧ t ≤ a + window) ≤ maxPerWindow := by
  have htracks := tracks_after maxPerWindow window sorted
  have hspaced := htracks.spaced
  have hsorted := sorted.sublist htracks.admitted_sublist
  rw [after_maxPerWindow, after_window] at hspaced
  rw [List.countP_eq_length_filter, List.countP_eq_length_filter]
  exact ⟨hspaced.length_Ico_le hsorted a, hspaced.length_Ioc_le hsorted a⟩

/-- No instant is so early that the longest window before it has a name. -/
theorem overlong_window :
    ¬∀ (maxPerWindow window : ℕ), 0 < window → window ≤ Duration.longest →
      ∀ before : List Instant, ∀ now : Instant, Instant.least ≤ now → (before ++ [now]).Pairwise (· ≤ ·) →
        ((((new maxPerWindow window).after before).allow now).1 = some true ↔
          ((new maxPerWindow window).allowed before).countP (fun s => now - window < s ∧ s ≤ now) < maxPerWindow) := by
  intro claimed
  have hallowed := (claimed 1 Duration.longest (by decide) le_rfl [] 0 (by decide) (by simp)).mpr (by decide)
  exact absurd hallowed (by decide)

/-- The limiter is an exact sliding window over the calls that do not panic. -/
theorem sliding_window (maxPerWindow window : ℕ) {calls : List Instant} (sorted : calls.Pairwise (· ≤ ·)) :
    (∀ before now later, calls = before ++ now :: later →
      (((new maxPerWindow window).after before).allow now).1 =
        if now - window < Instant.least then none
        else some (decide (((new maxPerWindow window).allowed before).countP
          (fun s => now - window < s ∧ s ≤ now) < maxPerWindow))) ∧
    (∀ a : Instant,
      ((new maxPerWindow window).allowed calls).countP (fun t => a ≤ t ∧ t < a + window) ≤ maxPerWindow ∧
      ((new maxPerWindow window).allowed calls).countP (fun t => a < t ∧ t ≤ a + window) ≤ maxPerWindow) ∧
    (∀ before now later, calls = before ++ now :: later →
      (((new maxPerWindow window).after before).allow now).1 ≠ some true →
      ((new maxPerWindow window).after (before ++ [now])).answers later =
        ((new maxPerWindow window).after before).answers later) ∧
    ∀ before later, calls = before ++ later →
      ((new maxPerWindow window).after before).timestamps.length ≤ maxPerWindow ∧
      ((new maxPerWindow window).after before).timestamps.Pairwise (· ≤ ·) := by
  refine ⟨?_, ?_, ?_, ?_⟩
  · rintro before now later rfl
    have hcalls : (before ++ [now]).Pairwise (· ≤ ·) :=
      sorted.sublist (List.Sublist.append_left (by simp) before)
    have hanswer := (tracks_after maxPerWindow window
      (hcalls.sublist (List.sublist_append_left _ _))).answer hcalls
    rw [after_maxPerWindow, after_window] at hanswer
    exact hanswer
  · intro a
    exact allowed_window_le maxPerWindow window sorted a
  · rintro before now later rfl hdenied
    rw [after_concat]
    exact answers_after_denied (List.pairwise_append.mp sorted).2.1 hdenied
  · rintro before later rfl
    have hbefore := (List.pairwise_append.mp sorted).1
    have htracks := tracks_after maxPerWindow window hbefore
    have hlen := htracks.length_le
    rw [after_maxPerWindow] at hlen
    exact ⟨hlen, hbefore.sublist htracks.queue_sublist⟩

theorem sliding_window_twice :
    [0, 0].Pairwise (fun a b : Instant => a ≤ b) ∧ ((((new 1 60).after [0]).allow 0).1 = some false) := by
  have sorted : [0, 0].Pairwise (fun a b : Instant => a ≤ b) := by decide
  exact ⟨sorted, (sliding_window 1 60 sorted).1 [0] 0 [] rfl⟩

end RateLimiter

end FileGuard.Prompt
