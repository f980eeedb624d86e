import FileGuard.Store.Path
import FileGuard.Store.Sha256

/-! The capture of a running executable, while the process may replace its image between any two steps. -/

namespace FileGuard.Process

open Store

structure Image where
  path : Path
  device : ℕ
  inode : ℕ
  bytes : Bytes
  deriving DecidableEq

def Image.sameFile (a b : Image) : Bool := a.device == b.device && a.inode == b.inode

/-- Where `capture_process_executable` stands, with the image it has opened, the path it has read and the hash. -/
inductive CaptureStage where
  | startTime
  | open
  | metadata (opened : Image)
  | readLink (opened : Image)
  | current (opened : Image) (binaryPath : Path)
  | hash (opened : Image) (binaryPath : Path)
  | startTimeAgain (opened : Image) (binaryPath : Path) (sha256 : String)
  | after (opened : Image) (binaryPath : Path) (sha256 : String)
  | readLinkAgain (binaryPath : Path) (sha256 : String)
  | captured (binaryPath : Path) (sha256 : String)
  | changed
  deriving DecidableEq

/-- The next step, while the process runs the image; its start time stays the same, and the file behind the descriptor
is a regular one that is not written. -/
def CaptureStage.step (image : Image) : CaptureStage → CaptureStage
  | .startTime => .open
  | .open => .metadata image
  | .metadata opened => .readLink opened
  | .readLink opened => .current opened image.path
  | .current opened binaryPath => if opened.sameFile image then .hash opened binaryPath else .changed
  | .hash opened binaryPath => .startTimeAgain opened binaryPath (Store.sha256 opened.bytes)
  | .startTimeAgain opened binaryPath sha256 => .after opened binaryPath sha256
  | .after opened binaryPath sha256 =>
    if opened.sameFile image then .readLinkAgain binaryPath sha256 else .changed
  | .readLinkAgain binaryPath sha256 =>
    if Path.same image.path binaryPath then .captured binaryPath sha256 else .changed
  | .captured binaryPath sha256 => .captured binaryPath sha256
  | .changed => .changed

/-- What the process and the capture do in turn; images go by numbers. -/
inductive CaptureTurn where
  | exec (image : ℕ)
  | step
  deriving DecidableEq

/-- The image that runs, those that ran during the call, and the one that each step of the call has met. -/
structure Schedule where
  running : ℕ
  ran : List ℕ
  met : List ℕ
  deriving DecidableEq

namespace Schedule

def begin (image : ℕ) : Schedule := ⟨image, [image], []⟩

def captureSteps : ℕ := 9

def turn (s : Schedule) : CaptureTurn → Schedule
  | .exec image => { s with running := image, ran := if s.met.length < captureSteps then image :: s.ran else s.ran }
  | .step => if s.met.length < captureSteps then { s with met := s.met ++ [s.running] } else s

def run (s : Schedule) (turns : List CaptureTurn) : Schedule := turns.foldl turn s

end Schedule

def capture (image : ℕ → Image) (met : List ℕ) : CaptureStage :=
  met.foldl (fun stage i => stage.step (image i)) .startTime

/-- No file is written, and none is renamed. -/
structure Unmodified (image : ℕ → Image) : Prop where
  written : ∀ i j, (image i).sameFile (image j) = true → (image i).bytes = (image j).bytes
  renamed : ∀ i j, Path.same (image i).path (image j).path = true → (image i).sameFile (image j) = true

/-- One of the two paths was read while an image ran that was also opened or compared with the opened one. -/
def Anchored : List ℕ → Prop
  | [_, opened, _, link, current, _, _, after, linkAgain] =>
    link ∈ [opened, current, after] ∨ linkAgain ∈ [opened, current, after]
  | _ => True

structure Schedule.Watched (s : Schedule) : Prop where
  length : s.met.length ≤ captureSteps
  met : ∀ i ∈ s.met, i ∈ s.ran
  running : s.met.length < captureSteps → s.running ∈ s.ran

theorem Schedule.Watched.turn {s : Schedule} (h : s.Watched) (turn : CaptureTurn) : (s.turn turn).Watched := by
  cases turn with
  | exec image =>
    simp only [Schedule.turn]
    split_ifs with hlength
    · exact ⟨h.length, fun i hi => List.mem_cons_of_mem _ (h.met i hi), fun _ => List.mem_cons_self⟩
    · exact ⟨h.length, h.met, fun hless => absurd hless hlength⟩
  | step =>
    simp only [Schedule.turn]
    split_ifs with hlength
    · refine ⟨by simpa using hlength, fun i hi => ?_, fun _ => h.running hlength⟩
      rcases List.mem_append.mp hi with hi | hi
      · exact h.met i hi
      · exact List.mem_singleton.mp hi ▸ h.running hlength
    · exact h

theorem Schedule.watched (first : ℕ) (turns : List CaptureTurn) : ((Schedule.begin first).run turns).Watched := by
  have hbegin : (Schedule.begin first).Watched := ⟨Nat.zero_le _, nofun, fun _ => List.mem_cons_self⟩
  revert hbegin
  generalize Schedule.begin first = s
  intro h
  induction turns generalizing s with
  | nil => exact h
  | cons turn turns ih => exact ih _ (h.turn turn)

def CaptureStage.steps : CaptureStage → ℕ
  | .startTime | .changed => 0
  | .open => 1
  | .metadata _ => 2
  | .readLink _ => 3
  | .current _ _ => 4
  | .hash _ _ => 5
  | .startTimeAgain _ _ _ => 6
  | .after _ _ _ => 7
  | .readLinkAgain _ _ => 8
  | .captured _ _ => 9

theorem CaptureStage.steps_step (image : Image) (stage : CaptureStage) : (stage.step image).steps ≤ stage.steps + 1 := by
  cases stage <;> simp only [step] <;> try split_ifs
  all_goals simp [steps]

theorem steps_capture (image : ℕ → Image) (met : List ℕ) : (capture image met).steps ≤ met.length := by
  induction met using List.reverseRecOn with
  | nil => exact le_rfl
  | append_singleton met i ih =>
    rw [capture, List.foldl_append, List.length_append]
    exact (CaptureStage.steps_step _ _).trans (Nat.succ_le_succ ih)

theorem captured_iff {image : ℕ → Image} {start opened metadata link current hash startAgain after linkAgain : ℕ}
    {binaryPath : Path} {sha256 : String} :
    capture image [start, opened, metadata, link, current, hash, startAgain, after, linkAgain] =
        .captured binaryPath sha256 ↔
      (image opened).sameFile (image current) = true ∧ (image opened).sameFile (image after) = true ∧
        Path.same (image linkAgain).path (image link).path = true ∧ binaryPath = (image link).path ∧
        sha256 = Store.sha256 (image opened).bytes := by
  simp only [capture, List.foldl_cons, List.foldl_nil, CaptureStage.step]
  cases hcurrent : (image opened).sameFile (image current) with
  | false => simp
  | true =>
    simp only [if_true]
    cases hafter : (image opened).sameFile (image after) with
    | false => simp
    | true =>
      simp only [if_true]
      split_ifs with hlink
      · simp [hlink, eq_comm]
      · simp [hlink]

theorem met_of_captured {image : ℕ → Image} {met : List ℕ} (hlength : met.length ≤ Schedule.captureSteps)
    {binaryPath : Path} {sha256 : String} (h : capture image met = .captured binaryPath sha256) :
    ∃ start opened metadata link current hash startAgain after linkAgain,
      met = [start, opened, metadata, link, current, hash, startAgain, after, linkAgain] := by
  have hsteps := steps_capture image met
  rw [h, CaptureStage.steps] at hsteps
  have hnine : met.length = 9 := le_antisymm hlength hsteps
  match met, hnine with
  | [_, _, _, _, _, _, _, _, _], _ => exact ⟨_, _, _, _, _, _, _, _, _, rfl⟩

/-- What a capture promises: some image that ran during the call had the path and the bytes. -/
def OneImage (image : ℕ → Image) (s : Schedule) : Prop :=
  ∀ binaryPath sha256, capture image s.met = .captured binaryPath sha256 →
    ∃ i ∈ s.ran, Path.same (image i).path binaryPath = true ∧ Store.sha256 (image i).bytes = sha256

theorem Anchored.oneImage {image : ℕ → Image} (hunmodified : Unmodified image) {s : Schedule} (hs : s.Watched)
    (h : Anchored s.met) : OneImage image s := by
  intro binaryPath sha256 hcaptured
  obtain ⟨start, opened, metadata, link, current, hash, startAgain, after, linkAgain, hmet⟩ :=
    met_of_captured hs.length hcaptured
  rw [hmet] at h hcaptured
  obtain ⟨hcurrent, hafter, hlink, rfl, rfl⟩ := captured_iff.mp hcaptured
  have hran : ∀ i ∈ [link, linkAgain], i ∈ s.ran := by
    intro i hi
    refine hs.met i ?_
    rw [hmet]
    simp only [List.mem_cons, List.not_mem_nil, or_false] at hi ⊢
    tauto
  have hopened : ∀ i ∈ [opened, current, after], Store.sha256 (image i).bytes = Store.sha256 (image opened).bytes := by
    intro i hi
    simp only [List.mem_cons, List.not_mem_nil, or_false] at hi
    rcases hi with rfl | rfl | rfl
    · rfl
    · rw [hunmodified.written opened i hcurrent]
    · rw [hunmodified.written opened i hafter]
  rcases h with h | h
  · exact ⟨link, hran link (by simp), by simp [Path.same], hopened link h⟩
  · exact ⟨linkAgain, hran linkAgain (by simp), hlink, hopened linkAgain h⟩

/-- Two executables that take turns: the one is opened and compared, the other's path is read. -/
def takingTurns (opened : List ℕ) (i : ℕ) : Image :=
  if i ∈ opened then ⟨utf8 "/bin/a", 1, 1, []⟩ else ⟨utf8 "/bin/b", 1, 2, [0]⟩

theorem sha256_differs : Store.sha256 [] ≠ Store.sha256 [0] := by decide +kernel

theorem takingTurns_unmodified (opened : List ℕ) : Unmodified (takingTurns opened) := by
  constructor
  · intro i j
    unfold takingTurns
    split_ifs <;> simp [Image.sameFile]
  · intro i j
    unfold takingTurns
    split_ifs <;> decide

/-- A capture returns the path and the hash of one image, whatever the images are, exactly under the schedules that
anchor one of its two paths. -/
theorem capture_one_image (first : ℕ) (turns : List CaptureTurn) :
    let s := (Schedule.begin first).run turns
    (∀ image, Unmodified image → OneImage image s) ↔ Anchored s.met := by
  intro s
  have hs : s.Watched := Schedule.watched first turns
  constructor
  · intro h
    unfold Anchored
    split
    · rename_i start opened metadata link current hash startAgain after linkAgain hmet
      by_contra hnot
      push Not at hnot
      obtain ⟨hlink, hlinkAgain⟩ := hnot
      have hopened : ∀ i ∈ [opened, current, after], takingTurns [opened, current, after] i =
          ⟨utf8 "/bin/a", 1, 1, []⟩ := fun i hi => if_pos hi
      have hother : ∀ i ∉ [opened, current, after], takingTurns [opened, current, after] i =
          ⟨utf8 "/bin/b", 1, 2, [0]⟩ := fun i hi => if_neg hi
      have hcaptured : capture (takingTurns [opened, current, after]) s.met =
          .captured (utf8 "/bin/b") (Store.sha256 []) := by
        rw [hmet, captured_iff, hopened opened (by simp), hopened current (by simp), hopened after (by simp),
          hother link hlink, hother linkAgain hlinkAgain]
        exact ⟨rfl, rfl, by simp [Path.same], rfl, rfl⟩
      obtain ⟨i, -, hpath, hbytes⟩ := h _ (takingTurns_unmodified _) _ _ hcaptured
      by_cases hi : i ∈ [opened, current, after]
      · rw [hopened i hi] at hpath
        exact absurd hpath (by decide +kernel)
      · rw [hother i hi] at hbytes
        exact sha256_differs hbytes.symm
    · trivial
  · intro h image hunmodified
    exact h.oneImage hunmodified hs

/-- The process runs the second executable at both reads of the link and the first one otherwise. -/
theorem capture_swapped :
    let image := takingTurns [0]
    let s := (Schedule.begin 0).run [.step, .step, .step, .exec 1, .step, .exec 0, .step, .step, .step, .step, .exec 1, .step]
    Unmodified image ∧ capture image s.met = .captured (utf8 "/bin/b") (Store.sha256 []) ∧
      ∀ i ∈ s.ran, ¬ (Path.same (image i).path (utf8 "/bin/b") = true ∧ Store.sha256 (image i).bytes = Store.sha256 []) := by
  refine ⟨takingTurns_unmodified _, by decide +kernel, by decide +kernel⟩

end FileGuard.Process
