import FileGuard.Policy.Engine
import FileGuard.Framing.Words

/-! The script of an interpreter, read from the arguments the kernel shows. -/

namespace FileGuard.Process

open Store Policy

/-- The arguments as `/proc/<pid>/cmdline` shows them. -/
def kernelCmdline (argv : List String) : Bytes := argv.flatMap fun arg => utf8 arg ++ [0]

def cmdline (raw : Bytes) : Option (List String) := (Framing.fields (· == 0) raw).mapM toStr

structure FileSystem where
  isFile : Path → Bool
  canonicalize : Path → Option Path

def startsWith (text value : String) : Bool := text.toList.isPrefixOf value.toList

def pythonFlags : List String := ["-B", "-E", "-I", "-P", "-s", "-S", "-u", "-O", "-OO"]

/-- What the scan makes of an argument, in the order of its match arms. -/
inductive Argument where
  | separator
  | option
  | valued
  | unknown
  | program
  deriving DecidableEq

def Argument.of (python : Bool) (arg : String) : Argument :=
  if arg = "--" then .separator
  else if python ∧ arg ∈ pythonFlags then .option
  else if python ∧ (arg = "-W" ∨ arg = "-X") then .valued
  else if python ∧ (startsWith "-W" arg ∨ startsWith "-X" arg) then .option
  else if startsWith "-" arg then .unknown
  else .program

section

variable (fs : FileSystem)

def canonicalFile (path : String) : Option Path :=
  if Path.isAbsolute (utf8 path) && fs.isFile (utf8 path) then fs.canonicalize (utf8 path) else none

def scan (python : Bool) : List String → Option Path
  | [] => none
  | arg :: rest => match Argument.of python arg with
    | .separator => rest.head?.bind (canonicalFile fs)
    | .option => scan python rest
    | .valued => match rest with
      | [] => none
      | _ :: rest => scan python rest
    | .unknown => none
    | .program => canonicalFile fs arg

def isPython (binaryName : String) : Bool := startsWith "python" binaryName || startsWith "pypy" binaryName

def isJava (binaryName : String) : Bool := trimVersion binaryName == "java"

def extractScript (args : List String) (binaryName : String) : Option Path :=
  let rest := args.drop 1
  if isJava binaryName then
    if rest.head? = some "-jar" then (rest.drop 1).head?.bind (canonicalFile fs) else none
  else scan fs (isPython binaryName) rest

/-- `raw` is what reading `/proc/<pid>/cmdline` gave, if it gave anything. -/
def interpreterScript (raw : Option Bytes) (binaryName : String) : Option Path :=
  if isInterpreter binaryName then
    raw.bind fun raw => (cmdline raw).bind fun args => extractScript fs args binaryName
  else none

end

def scanned (python : Bool) : List String → List String
  | [] => []
  | arg :: rest => match Argument.of python arg with
    | .separator => arg :: rest.take 1
    | .option => arg :: scanned python rest
    | .valued => match rest with
      | [] => [arg]
      | value :: rest => arg :: value :: scanned python rest
    | .unknown => [arg]
    | .program => [arg]

def reads (argv : List String) (binaryName : String) : List String :=
  argv.take 1 ++
    let rest := argv.drop 1
    if isJava binaryName then if rest.head? = some "-jar" then rest.take 2 else rest.take 1
    else scanned (isPython binaryName) rest

/-- The program that the arguments of a Python interpreter name, behind its own options. -/
inductive Names : List String → String → Prop where
  | program (arg : String) (rest : List String) (h : startsWith "-" arg = false) : Names (arg :: rest) arg
  | separator (arg : String) (rest : List String) : Names ("--" :: arg :: rest) arg
  | flag {option arg : String} {rest : List String} (h : option ∈ pythonFlags) (hrest : Names rest arg) :
      Names (option :: rest) arg
  | valued {option arg : String} {rest : List String} (value : String) (h : option = "-W" ∨ option = "-X")
      (hrest : Names rest arg) : Names (option :: value :: rest) arg
  | joined {option arg : String} {rest : List String} (h : startsWith "-W" option = true ∨ startsWith "-X" option = true)
      (hvalue : option ≠ "-W" ∧ option ≠ "-X") (hrest : Names rest arg) : Names (option :: rest) arg

theorem utf8_inj {s t : String} (h : utf8 s = utf8 t) : s = t := by
  have heq := toStr_utf8 s
  rw [h, toStr_utf8] at heq
  exact (Option.some.inj heq).symm

theorem fields_kernelCmdline {argv : List String} (h : ∀ arg ∈ argv, 0 ∉ utf8 arg) :
    Framing.fields (· == 0) (kernelCmdline argv) = (argv.filter (· ≠ "")).map utf8 := by
  induction argv with
  | nil => exact Framing.fields_nil
  | cons arg argv ih =>
    obtain ⟨harg, hargv⟩ := List.forall_mem_cons.mp h
    have hcons : kernelCmdline (arg :: argv) = utf8 arg ++ 0 :: kernelCmdline argv := by
      simp [kernelCmdline]
    have hsplit : Framing.fields (· == 0) (utf8 arg ++ 0 :: kernelCmdline argv) = _ :=
      Framing.fields_append_sep rfl (utf8 arg) (kernelCmdline argv)
    rw [hcons, hsplit, ih hargv]
    by_cases hempty : arg = ""
    · rw [hempty]
      rfl
    · have hne : utf8 arg ≠ [] := fun hnil => hempty (utf8_inj hnil)
      rw [Framing.fields_word hne fun b hb => ?_, List.filter_cons_of_pos (by simpa using hempty)]
      · rfl
      · exact beq_eq_false_iff_ne.mpr fun hzero => harg (hzero ▸ hb)

theorem cmdline_kernelCmdline {argv : List String} (h : ∀ arg ∈ argv, 0 ∉ utf8 arg) :
    cmdline (kernelCmdline argv) = some (argv.filter (· ≠ "")) := by
  rw [cmdline, fields_kernelCmdline h]
  induction argv.filter (· ≠ "") with
  | nil => rfl
  | cons arg args ih => rw [List.map_cons, List.mapM_cons, toStr_utf8, ih]; rfl

/-! While the scan meets no empty argument, dropping the empty ones does not shift it. -/

theorem filter_read {arg : String} (h : arg ≠ "") (rest : List String) :
    (arg :: rest).filter (· ≠ "") = arg :: rest.filter (· ≠ "") := by
  rw [List.filter_cons_of_pos]
  simpa using h

theorem head_filter {rest : List String} (h : ∀ arg ∈ rest.take 1, arg ≠ "") :
    (rest.filter (· ≠ "")).head? = rest.head? := by
  cases rest with
  | nil => rfl
  | cons arg rest => rw [filter_read (h arg (by simp))]; rfl

section

variable {fs : FileSystem} {python : Bool} {arg : String}

theorem scan_separator (h : Argument.of python arg = .separator) (rest : List String) :
    scan fs python (arg :: rest) = rest.head?.bind (canonicalFile fs) := by
  rw [scan.eq_def]
  simp only [h]

theorem scan_option (h : Argument.of python arg = .option) (rest : List String) :
    scan fs python (arg :: rest) = scan fs python rest := by
  rw [scan.eq_def]
  simp only [h]

theorem scan_valued (h : Argument.of python arg = .valued) (value : String) (rest : List String) :
    scan fs python (arg :: value :: rest) = scan fs python rest := by
  rw [scan.eq_def]
  simp only [h]

theorem scan_unknown (h : Argument.of python arg = .unknown) (rest : List String) :
    scan fs python (arg :: rest) = none := by
  rw [scan.eq_def]
  simp only [h]

theorem scan_program (h : Argument.of python arg = .program) (rest : List String) :
    scan fs python (arg :: rest) = canonicalFile fs arg := by
  rw [scan.eq_def]
  simp only [h]

theorem scan_filter (args : List String) (h : ∀ arg ∈ scanned python args, arg ≠ "") :
    scan fs python (args.filter (· ≠ "")) = scan fs python args := by
  fun_induction scanned python args with
  | case1 => rfl
  | case2 arg rest hkind =>
    obtain ⟨harg, hrest⟩ := List.forall_mem_cons.mp h
    rw [filter_read harg, scan_separator hkind, scan_separator hkind, head_filter hrest]
  | case3 arg rest hkind ih =>
    obtain ⟨harg, hrest⟩ := List.forall_mem_cons.mp h
    rw [filter_read harg, scan_option hkind, scan_option hkind, ih hrest]
  | case4 arg hkind =>
    rw [filter_read (h arg List.mem_cons_self)]
    rfl
  | case5 arg hkind value rest ih =>
    obtain ⟨harg, hmore⟩ := List.forall_mem_cons.mp h
    obtain ⟨hvalue, hrest⟩ := List.forall_mem_cons.mp hmore
    rw [filter_read harg, filter_read hvalue, scan_valued hkind, scan_valued hkind, ih hrest]
  | case6 arg rest hkind =>
    rw [filter_read (h arg List.mem_cons_self), scan_unknown hkind, scan_unknown hkind]
  | case7 arg rest hkind =>
    rw [filter_read (h arg List.mem_cons_self), scan_program hkind, scan_program hkind]

end

theorem extractScript_filter (fs : FileSystem) (binaryName : String) (argv : List String)
    (h : ∀ arg ∈ reads argv binaryName, arg ≠ "") :
    extractScript fs (argv.filter (· ≠ "")) binaryName = extractScript fs argv binaryName := by
  cases argv with
  | nil => rfl
  | cons first rest =>
    obtain ⟨hfirst, hrest⟩ := List.forall_mem_append.mp h
    rw [filter_read (hfirst first (by simp))]
    simp only [extractScript, List.drop_succ_cons, List.drop_zero] at hrest ⊢
    cases hjava : isJava binaryName with
    | false =>
      simp only [hjava, Bool.false_eq_true, if_false] at hrest ⊢
      exact scan_filter rest hrest
    | true =>
      simp only [hjava, if_true] at hrest ⊢
      cases rest with
      | nil => rfl
      | cons jar rest =>
        by_cases hjar : jar = "-jar"
        · rw [List.head?_cons, if_pos (congrArg some hjar)] at hrest
          have hnext : ∀ arg ∈ rest.take 1, arg ≠ "" := fun arg harg => hrest arg (by simp [harg])
          rw [hjar, filter_read (by decide)]
          simp only [List.head?_cons, List.drop_succ_cons, List.drop_zero, head_filter hnext]
        · have hread : jar ≠ "" := hrest jar (by split_ifs <;> simp)
          rw [filter_read hread]
          simp [hjar]

/-! An empty argument that is met shifts the scan, as soon as the right arguments follow. -/

def everyFile : FileSystem := ⟨fun _ => true, some⟩

/-- The arguments up to some empty one, and others behind it, are read differently without the empty one. -/
def Shifts (read : List String → Option Path) (args : List String) : Prop :=
  ∃ n more, "" ∈ args.take n ∧ (∀ arg ∈ more, 0 ∉ utf8 arg) ∧
    read ((args.take n ++ more).filter (· ≠ "")) ≠ read (args.take n ++ more)

theorem Shifts.cons {python : Bool} {arg : String} {rest : List String} (harg : arg ≠ "")
    (hstep : ∀ args, scan everyFile python (arg :: args) = scan everyFile python args)
    (h : Shifts (scan everyFile python) rest) : Shifts (scan everyFile python) (arg :: rest) := by
  obtain ⟨n, more, hempty, hmore, hne⟩ := h
  refine ⟨n + 1, more, List.mem_cons_of_mem _ hempty, hmore, ?_⟩
  rw [List.take_succ_cons, List.cons_append, filter_read harg, hstep, hstep]
  exact hne

theorem Argument.of_path (python : Bool) (path : String) (h : path ∈ ["", "/a", "/b"]) :
    Argument.of python path = .program := by
  revert path
  cases python <;> decide

theorem shifts_empty (python : Bool) (rest : List String) : Shifts (scan everyFile python) ("" :: rest) := by
  refine ⟨1, ["/a"], by simp, by decide, ?_⟩
  have hfilter : ((("" :: rest).take 1 ++ ["/a"]).filter (· ≠ "")) = ["/a"] := rfl
  have htake : ("" :: rest).take 1 ++ ["/a"] = ["", "/a"] := rfl
  rw [hfilter, htake, scan_program (Argument.of_path python "/a" (by simp)),
    scan_program (Argument.of_path python "" (by simp))]
  decide

theorem scan_shifts (python : Bool) (args : List String) (h : "" ∈ scanned python args) :
    Shifts (scan everyFile python) args := by
  fun_induction scanned python args with
  | case1 => cases h
  | case2 arg rest hkind =>
    by_cases harg : arg = ""
    · rw [harg]
      exact shifts_empty python rest
    · have hnext : "" ∈ rest.take 1 := (List.mem_cons.mp h).resolve_left (Ne.symm harg)
      cases rest with
      | nil => cases hnext
      | cons next rest =>
        obtain rfl : "" = next := List.mem_singleton.mp hnext
        refine ⟨2, ["/a"], by simp, by decide, ?_⟩
        rw [show (arg :: "" :: rest).take 2 ++ ["/a"] = [arg, "", "/a"] from rfl, filter_read harg,
          scan_separator hkind, scan_separator hkind]
        decide
  | case3 arg rest hkind ih =>
    by_cases harg : arg = ""
    · rw [harg]
      exact shifts_empty python rest
    · exact .cons harg (fun args => scan_option hkind args) (ih ((List.mem_cons.mp h).resolve_left (Ne.symm harg)))
  | case4 arg hkind =>
    rw [← List.mem_singleton.mp h]
    exact shifts_empty python []
  | case5 arg hkind value rest ih =>
    by_cases harg : arg = ""
    · rw [harg]
      exact shifts_empty python _
    · have hmore := (List.mem_cons.mp h).resolve_left (Ne.symm harg)
      by_cases hvalue : value = ""
      · -- the next argument becomes the value, and the one behind it the program
        refine ⟨2, ["/a", "/b"], by simp [hvalue], by decide, ?_⟩
        have htake : (arg :: value :: rest).take 2 ++ ["/a", "/b"] = [arg, "", "/a", "/b"] := by rw [hvalue]; rfl
        rw [htake, filter_read harg, show ["", "/a", "/b"].filter (· ≠ "") = ["/a", "/b"] from rfl,
          scan_valued hkind, scan_valued hkind, scan_program (Argument.of_path python "/b" (by simp)),
          scan_program (Argument.of_path python "/a" (by simp))]
        decide
      · obtain ⟨n, more, hempty, hplain, hne⟩ := ih ((List.mem_cons.mp hmore).resolve_left (Ne.symm hvalue))
        refine ⟨n + 2, more, List.mem_cons_of_mem _ (List.mem_cons_of_mem _ hempty), hplain, ?_⟩
        rw [List.take_succ_cons, List.take_succ_cons, List.cons_append, List.cons_append, filter_read harg,
          filter_read hvalue, scan_valued hkind, scan_valued hkind]
        exact hne
  | case6 arg rest hkind =>
    rw [← List.mem_singleton.mp h]
    exact shifts_empty python rest
  | case7 arg rest hkind =>
    rw [← List.mem_singleton.mp h]
    exact shifts_empty python rest

theorem isPython_not_java {binaryName : String} (h : isPython binaryName = true) : isJava binaryName = false := by
  have hhead : binaryName.toList.head? = some 'p' := by
    simp only [isPython, startsWith, Bool.or_eq_true, List.isPrefixOf_iff_prefix] at h
    rcases h with ⟨rest, hrest⟩ | ⟨rest, hrest⟩ <;> rw [← hrest] <;> rfl
  refine beq_eq_false_iff_ne.mpr fun hjava => ?_
  have hstem : (trimVersion binaryName).toList <+: binaryName.toList := by
    rw [trimVersion, String.toList_ofList, ← List.reverse_suffix, List.reverse_reverse]
    exact List.dropWhile_suffix _
  obtain ⟨rest, hrest⟩ := hjava ▸ hstem
  rw [← hrest] at hhead
  have hj : ("java".toList ++ rest).head? = some 'j' := rfl
  exact absurd (hj.symm.trans hhead) (by decide)

theorem extractScript_scan {fs : FileSystem} {binaryName : String} (hjava : isJava binaryName = false) (first : String)
    (rest : List String) : extractScript fs (first :: rest) binaryName = scan fs (isPython binaryName) rest := by
  simp [extractScript, hjava]

theorem extractScript_jar {fs : FileSystem} {binaryName : String} (hjava : isJava binaryName = true) (first : String)
    (rest : List String) : extractScript fs (first :: rest) binaryName =
      if rest.head? = some "-jar" then (rest.drop 1).head?.bind (canonicalFile fs) else none := by
  simp [extractScript, hjava]

theorem shifts_scan {binaryName : String} (hjava : isJava binaryName = false) (argv : List String)
    (h : "" ∈ reads argv binaryName) : Shifts (extractScript everyFile · binaryName) argv := by
  cases argv with
  | nil => simp [reads, hjava, scanned] at h
  | cons first rest =>
    have hreads : "" ∈ first :: scanned (isPython binaryName) rest := by simpa [reads, hjava] using h
    by_cases hfirst : first = ""
    · -- the name of the program is gone, and the first argument stands in its place
      refine ⟨1, ["/a", "/b"], by simp [hfirst], by decide, ?_⟩
      rw [hfirst]
      show extractScript everyFile ["/a", "/b"] binaryName ≠ extractScript everyFile ["", "/a", "/b"] binaryName
      rw [extractScript_scan hjava, extractScript_scan hjava, scan_program (Argument.of_path _ "/b" (by simp)),
        scan_program (Argument.of_path _ "/a" (by simp))]
      decide
    · obtain ⟨n, more, hempty, hplain, hne⟩ :=
        scan_shifts (isPython binaryName) rest ((List.mem_cons.mp hreads).resolve_left (Ne.symm hfirst))
      refine ⟨n + 1, more, List.mem_cons_of_mem _ hempty, hplain, ?_⟩
      rw [List.take_succ_cons, List.cons_append, filter_read hfirst]
      dsimp only
      rw [extractScript_scan hjava, extractScript_scan hjava]
      exact hne

theorem shifts_jar {binaryName : String} (hjava : isJava binaryName = true) (argv : List String)
    (h : "" ∈ reads argv binaryName) : Shifts (extractScript everyFile · binaryName) argv := by
  cases argv with
  | nil => simp [reads, hjava] at h
  | cons first rest =>
    by_cases hfirst : first = ""
    · refine ⟨1, ["-jar", "/a"], by simp [hfirst], by decide, ?_⟩
      rw [hfirst]
      show extractScript everyFile ["-jar", "/a"] binaryName ≠ extractScript everyFile ["", "-jar", "/a"] binaryName
      rw [extractScript_jar hjava, extractScript_jar hjava]
      decide
    · have hrest : "" ∈ if rest.head? = some "-jar" then rest.take 2 else rest.take 1 := by
        have hne : ¬ "" = first := Ne.symm hfirst
        simpa [reads, hjava, hne] using h
      cases rest with
      | nil => simp at hrest
      | cons jar rest =>
        by_cases hjar : jar = "-jar"
        · rw [hjar, List.head?_cons, if_pos rfl] at hrest
          cases rest with
          | nil => exact absurd hrest (by decide)
          | cons program rest =>
            obtain rfl : "" = program := by simpa using hrest
            refine ⟨3, ["/a"], by simp, by decide, ?_⟩
            have htake : ("-jar" :: "" :: rest).take 2 ++ ["/a"] = ["-jar", "", "/a"] := rfl
            rw [hjar, List.take_succ_cons, List.cons_append, filter_read hfirst, htake]
            dsimp only
            rw [extractScript_jar hjava, extractScript_jar hjava]
            decide
        · have hempty : "" = jar := by simpa [hjar] using hrest
          refine ⟨2, ["-jar", "/a"], by simp [hempty], by decide, ?_⟩
          have htake : ("" :: rest).take 1 ++ ["-jar", "/a"] = ["", "-jar", "/a"] := rfl
          rw [← hempty, List.take_succ_cons, List.cons_append, filter_read hfirst, htake]
          dsimp only
          rw [extractScript_jar hjava, extractScript_jar hjava]
          decide

theorem startsWith_dash {text arg : String} (htext : startsWith "-" text = true) (h : startsWith text arg = true) :
    startsWith "-" arg = true :=
  List.isPrefixOf_iff_prefix.mpr ((List.isPrefixOf_iff_prefix.mp htext).trans (List.isPrefixOf_iff_prefix.mp h))

theorem Argument.of_joined {arg : String} (h : startsWith "-W" arg = true ∨ startsWith "-X" arg = true)
    (hvalue : arg ≠ "-W" ∧ arg ≠ "-X") : Argument.of true arg = .option := by
  have hne : arg ≠ "--" := by
    rintro rfl
    revert h
    decide
  rw [Argument.of, if_neg hne]
  split_ifs with hflag hvalued hjoined hdash
  · rfl
  · exact absurd hvalued.2 (by simpa using hvalue)
  · rfl
  · exact absurd ⟨rfl, h⟩ hjoined
  · exact absurd ⟨rfl, h⟩ hjoined

theorem Argument.of_plain {arg : String} (python : Bool) (h : startsWith "-" arg = false) :
    Argument.of python arg = .program := by
  have hnot : ∀ option ∈ "--" :: "-W" :: "-X" :: pythonFlags, arg ≠ option := by
    rintro option hoption rfl
    revert h
    revert arg
    decide
  have hjoined (text : String) (htext : startsWith "-" text = true) : ¬ startsWith text arg = true :=
    fun hstart => absurd (startsWith_dash htext hstart) (by simp [h])
  rw [Argument.of, if_neg (hnot _ (by simp)), if_neg, if_neg, if_neg, if_neg (by simp [h])]
  · rintro ⟨-, hw | hx⟩
    · exact hjoined "-W" (by decide) hw
    · exact hjoined "-X" (by decide) hx
  · rintro ⟨-, hw | hx⟩
    · exact hnot "-W" (by simp) hw
    · exact hnot "-X" (by simp) hx
  · exact fun hflag => hnot arg (by simp [hflag.2]) rfl

/-- What the match arms say of an argument of a Python interpreter. -/
def Argument.Means : Argument → String → Prop
  | .separator, arg => arg = "--"
  | .option, arg =>
    arg ∈ pythonFlags ∨ (startsWith "-W" arg = true ∨ startsWith "-X" arg = true) ∧ arg ≠ "-W" ∧ arg ≠ "-X"
  | .valued, arg => arg = "-W" ∨ arg = "-X"
  | .unknown, arg => startsWith "-" arg = true
  | .program, arg => startsWith "-" arg = false

theorem Argument.of_python (arg : String) : (Argument.of true arg).Means arg := by
  unfold Argument.of
  split_ifs with hseparator hflag hvalued hjoined hdash
  · exact hseparator
  · exact .inl hflag.2
  · exact hvalued.2
  · exact .inr ⟨hjoined.2, by simpa using hvalued⟩
  · exact hdash
  · exact eq_false_of_ne_true hdash

section

variable {fs : FileSystem} {args : List String} {arg : String}

theorem Names.scan (h : Names args arg) : scan fs true args = canonicalFile fs arg := by
  induction h with
  | program arg rest h => exact scan_program (Argument.of_plain true h) rest
  | separator arg rest => exact scan_separator (by decide) (arg :: rest)
  | @flag option arg rest h hrest ih =>
    have hkind : ∀ option ∈ pythonFlags, Argument.of true option = .option := by decide
    rw [scan_option (hkind option h), ih]
  | @valued option arg rest value h hrest ih =>
    have hkind : Argument.of true option = .valued := by rcases h with rfl | rfl <;> decide
    rw [scan_valued hkind, ih]
  | joined h hvalue hrest ih => rw [scan_option (Argument.of_joined h hvalue), ih]

theorem scan_names {script : Path} (h : Process.scan fs true args = some script) :
    ∃ arg, Names args arg ∧ canonicalFile fs arg = some script := by
  fun_induction Process.scan fs true args with
  | case1 => cases h
  | case2 arg rest hkind =>
    obtain ⟨next, hnext, hscript⟩ := Option.bind_eq_some_iff.mp h
    obtain ⟨more, rfl⟩ := List.head?_eq_some_iff.mp hnext
    have harg : arg = "--" := (hkind ▸ Argument.of_python arg :)
    exact ⟨next, harg ▸ .separator next more, hscript⟩
  | case3 arg rest hkind ih =>
    obtain ⟨program, hnames, hscript⟩ := ih h
    have harg := Argument.of_python arg
    rw [hkind] at harg
    rcases harg with hflag | ⟨hjoined, hvalue⟩
    · exact ⟨program, .flag hflag hnames, hscript⟩
    · exact ⟨program, .joined hjoined hvalue hnames, hscript⟩
  | case4 arg hkind => cases h
  | case5 arg hkind value rest ih =>
    obtain ⟨program, hnames, hscript⟩ := ih h
    have harg := Argument.of_python arg
    rw [hkind] at harg
    exact ⟨program, .valued value harg hnames, hscript⟩
  | case6 arg rest hkind => cases h
  | case7 arg rest hkind =>
    have harg := Argument.of_python arg
    rw [hkind] at harg
    exact ⟨arg, .program arg rest harg, h⟩

end

/-- The script is read from the arguments the kernel shows as from the arguments themselves while the scan meets no
empty one, and then it is the program they name; an empty one that it meets goes wrong before the right arguments. -/
theorem script_named (fs : FileSystem) (binaryName : String) {argv : List String}
    (hargv : ∀ arg ∈ argv, 0 ∉ utf8 arg) :
    let attributed (fs : FileSystem) (argv : List String) :=
      (cmdline (kernelCmdline argv)).bind fun args => extractScript fs args binaryName
    ("" ∉ reads argv binaryName → attributed fs argv = extractScript fs argv binaryName ∧
      (isPython binaryName = true → ∀ script, attributed fs argv = some script ↔
        ∃ arg, Names (argv.drop 1) arg ∧ canonicalFile fs arg = some script)) ∧
      ("" ∈ reads argv binaryName → ∃ n more, "" ∈ argv.take n ∧ (∀ arg ∈ more, 0 ∉ utf8 arg) ∧
        attributed everyFile (argv.take n ++ more) ≠ extractScript everyFile (argv.take n ++ more) binaryName) := by
  intro attributed
  have hattributed (fs : FileSystem) {argv : List String} (hargv : ∀ arg ∈ argv, 0 ∉ utf8 arg) :
      attributed fs argv = extractScript fs (argv.filter (· ≠ "")) binaryName := by
    simp only [attributed, cmdline_kernelCmdline hargv, Option.bind_some]
  constructor
  · intro hreads
    have hsame : attributed fs argv = extractScript fs argv binaryName := by
      rw [hattributed fs hargv]
      exact extractScript_filter fs binaryName argv fun arg harg hempty => hreads (hempty ▸ harg)
    refine ⟨hsame, fun hpython script => ?_⟩
    have hscan : extractScript fs argv binaryName = scan fs true (argv.drop 1) := by
      simp [extractScript, isPython_not_java hpython, hpython]
    rw [hsame, hscan]
    refine ⟨scan_names, ?_⟩
    rintro ⟨arg, hnames, hscript⟩
    rw [hnames.scan, hscript]
  · intro hreads
    have hshifts : Shifts (extractScript everyFile · binaryName) argv := by
      cases hjava : isJava binaryName with
      | false => exact shifts_scan hjava argv hreads
      | true => exact shifts_jar hjava argv hreads
    obtain ⟨n, more, hempty, hmore, hne⟩ := hshifts
    refine ⟨n, more, hempty, hmore, ?_⟩
    rw [hattributed everyFile]
    · exact hne
    · exact List.forall_mem_append.mpr ⟨fun arg harg => hargv arg (List.mem_of_mem_take harg), hmore⟩

/-- An empty name of the program: the second script is taken for the first. -/
theorem script_shifted :
    let argv := ["", "/a", "/b"]
    (cmdline (kernelCmdline argv)).bind (fun args => extractScript everyFile args "python3") = some (utf8 "/b") ∧
      extractScript everyFile argv "python3" = some (utf8 "/a") ∧ Names (argv.drop 1) "/a" := by
  refine ⟨by decide +kernel, by decide +kernel, .program "/a" ["/b"] (by decide)⟩

theorem script_named_valued :
    (cmdline (kernelCmdline ["python3", "-W", "ignore", "/a", "/b"])).bind
        (fun args => extractScript everyFile args "python3") =
      extractScript everyFile ["python3", "-W", "ignore", "/a", "/b"] "python3" := by
  have hargv : ∀ arg ∈ ["python3", "-W", "ignore", "/a", "/b"], 0 ∉ utf8 arg := by decide +kernel
  exact ((script_named everyFile "python3" hargv).1 (by decide +kernel)).1

end FileGuard.Process
