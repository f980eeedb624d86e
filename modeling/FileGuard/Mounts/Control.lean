import FileGuard.Mounts.Mountinfo

/-! The command line's reading of the same table, and where the two agree. -/

namespace FileGuard.Mounts

open Store Framing

/-- `std::fs::read_to_string`; a `str` is its bytes. -/
def readToString (contents : Bytes) : Option Bytes := (fromUtf8 contents).map utf8

def stripReturn (line : Bytes) : Bytes := if line.getLast? = some 0x0d then line.dropLast else line

/-- `str::lines`. -/
def lines (s : Bytes) : List Bytes :=
  (s.splitOn newline).dropLast.map stripReturn ++
    ((s.splitOn newline).getLast?.toList.filter fun line => !line.isEmpty)

/-- `str::replace`. -/
def replace (pattern into : Bytes) : Bytes → Bytes
  | [] => []
  | b :: s =>
    if pattern ≠ [] ∧ pattern <+: b :: s then into ++ replace pattern into ((b :: s).drop pattern.length)
    else b :: replace pattern into s
termination_by s => s.length
decreasing_by
  · rename_i h
    have := List.length_pos_of_ne_nil h.1
    simp only [List.length_drop, List.length_cons]
    omega
  · simp

def unescapeMountinfo (s : Bytes) : Bytes :=
  replace (utf8 "\\134") (utf8 "\\") (replace (utf8 "\\012") (utf8 "\n")
    (replace (utf8 "\\011") (utf8 "\t") (replace (utf8 "\\040") (utf8 " ") s)))

def isHexdigit (b : UInt8) : Bool :=
  (0x30 ≤ b && b ≤ 0x39) || (0x61 ≤ b && b ≤ 0x66) || (0x41 ≤ b && b ≤ 0x46)

def isFuse (fsType : Bytes) : Bool := (utf8 "fuse").isPrefixOf fsType

def fileGuardSource (source : Bytes) : Bool :=
  source == utf8 "file-guard" ||
    ((utf8 "file-guard:").isPrefixOf? source).any fun token => token.length == 32 && token.all isHexdigit

def parseMountinfoLine (line : Bytes) : Option Path := do
  let (left, right) ← splitOnce separator line
  let leftFields := left.splitOn space
  let mountpoint ← leftFields[4]?
  let rightFields := right.splitOn space
  let fstype ← rightFields[0]?
  let source ← rightFields[1]?
  if isFuse fstype && fileGuardSource source then some (unescapeMountinfo mountpoint) else none

def fuseMounts (contents : Bytes) : List Path :=
  match readToString contents with
  | none => []
  | some contents => (lines contents).filterMap parseMountinfoLine

def isFuseMount (contents : Bytes) (path : Path) : Bool := (fuseMounts contents).any fun m => Path.same m path

/-- The mount serves the path for `file-guard`. -/
def Mount.Serves (m : Mount) (path : Path) : Prop :=
  isFuse (utf8 m.fsType) = true ∧ fileGuardSource m.source = true ∧ Path.same m.mountpoint path = true

def MountInfo.isGuard (info : MountInfo) : Bool := isFuse (utf8 info.fsType) && fileGuardSource info.source

theorem replace_append_plain {pattern into : Bytes} {x : Bytes} (h : ∀ b ∈ x, pattern.head? ≠ some b) (s : Bytes) :
    replace pattern into (x ++ s) = x ++ replace pattern into s := by
  induction x with
  | nil => rfl
  | cons b x ih =>
    have hb : ¬(pattern ≠ [] ∧ pattern <+: b :: (x ++ s)) := by
      rintro ⟨hne, hstart⟩
      obtain ⟨a, pattern, rfl⟩ := List.exists_cons_of_ne_nil hne
      exact h b List.mem_cons_self (congrArg some (List.cons_prefix_cons.mp hstart).1)
    rw [List.cons_append, replace, if_neg hb, ih fun c hc => h c (List.mem_cons_of_mem _ hc)]
    rfl

theorem code_injective {b c : UInt8} (h : code b = code c) : b = c := by
  obtain ⟨-, -, -, hb⟩ := octal_digits b
  obtain ⟨-, -, -, hc⟩ := octal_digits c
  rw [code, code, List.cons.injEq, List.cons.injEq, List.cons.injEq, List.cons.injEq] at h
  rw [h.2.1, h.2.2.1, h.2.2.2.1] at hb
  exact UInt8.toNat_inj.mp (hb.symm.trans hc)

theorem replace_escape {special : List UInt8} (hbackslash : backslash ∈ special) (c : UInt8) (s : Bytes) :
    replace (code c) [c] (escape special s) = escape (special.filter (· ≠ c)) s := by
  set rest := special.filter (· ≠ c) with hdef
  have hrest : ∀ b, b ∈ rest ↔ b ∈ special ∧ b ≠ c := by simp [hdef]
  induction s with
  | nil => simp [escape, replace]
  | cons b s ih =>
    rw [escape_cons, escape_cons, ← ih]
    by_cases hb : b ∈ special
    · have hcode : escapeByte special b = code b := by rw [escapeByte, if_pos (List.contains_iff_mem.mpr hb)]
      have hshift : code b ++ escape special s =
          backslash :: ([48 + b / 64, 48 + b / 8 % 8, 48 + b % 8] ++ escape special s) := rfl
      rw [hcode, hshift, replace]
      by_cases hsame : b = c
      · have hplain : escapeByte rest b = [b] := by
          rw [escapeByte, if_neg fun h => ((hrest b).mp (List.contains_iff_mem.mp h)).2 hsame]
        rw [← hshift, hplain, ← hsame, if_pos ⟨List.cons_ne_nil _ _, List.prefix_append _ _⟩, List.drop_left]
      · have hescaped : escapeByte rest b = code b := by
          rw [escapeByte, if_pos (List.contains_iff_mem.mpr ((hrest b).mpr ⟨hb, hsame⟩))]
        have hother : ¬(code c ≠ [] ∧ code c <+: code b ++ escape special s) := by
          rintro ⟨-, hstart⟩
          have hstart' := List.prefix_of_prefix_length_le hstart (List.prefix_append (code b) _) le_rfl
          exact hsame (code_injective (hstart'.eq_of_length rfl)).symm
        rw [← hshift, if_neg hother, hescaped, replace_append_plain]
        · rfl
        · obtain ⟨hx, hy, hz, -⟩ := octal_digits b
          have hoctal {d : UInt8} (hd : isOctal d = true) : (code c).head? ≠ some d := by
            rintro hhead
            rw [← Option.some_inj.mp hhead] at hd
            exact absurd hd (by decide)
          simp only [List.forall_mem_cons]
          exact ⟨hoctal hx, hoctal hy, hoctal hz, by simp⟩
    · have hplain : escapeByte special b = [b] := by rw [escapeByte, if_neg fun h => hb (List.contains_iff_mem.mp h)]
      have hplain' : escapeByte rest b = [b] := by
        rw [escapeByte, if_neg fun h => hb ((hrest b).mp (List.contains_iff_mem.mp h)).1]
      rw [hplain, hplain', replace_append_plain]
      intro d hd hhead
      rw [List.mem_singleton.mp hd] at hhead
      exact hb (Option.some_inj.mp hhead ▸ hbackslash)

theorem escape_nil (s : Bytes) : escape [] s = s := by
  induction s with
  | nil => rfl
  | cons b s ih => rw [escape_cons, ih]; rfl

theorem unescapeMountinfo_escape (s : Bytes) : unescapeMountinfo (escape pathSpecial s) = s := by
  have hcodes : utf8 "\\040" = code 0x20 ∧ utf8 "\\011" = code 0x09 ∧ utf8 "\\012" = code 0x0a ∧
      utf8 "\\134" = code 0x5c := by decide
  have hbytes : utf8 " " = [0x20] ∧ utf8 "\t" = [0x09] ∧ utf8 "\n" = [0x0a] ∧ utf8 "\\" = [0x5c] := by decide
  obtain ⟨hspace, htab, hline, hbackslash⟩ := hcodes
  obtain ⟨hspace', htab', hline', hbackslash'⟩ := hbytes
  rw [unescapeMountinfo, hspace, htab, hline, hbackslash, hspace', htab', hline', hbackslash',
    replace_escape (by decide), replace_escape (by decide), replace_escape (by decide), replace_escape (by decide)]
  exact escape_nil s

theorem plain_fileGuardSource {source : Bytes} (h : fileGuardSource source = true) :
    ∀ b ∈ source, sourceSpecial.contains b = false := by
  rw [fileGuardSource, Bool.or_eq_true, beq_iff_eq, Option.any_eq_true] at h
  rcases h with rfl | ⟨token, htoken, hhex⟩
  · decide +kernel
  · rw [List.isPrefixOf?_eq_some_iff_append_eq] at htoken
    rw [Bool.and_eq_true, List.all_eq_true] at hhex
    intro b hb
    rw [← htoken] at hb
    rcases List.mem_append.mp hb with hstart | hdigit
    · have hall : ∀ b ∈ utf8 "file-guard:", sourceSpecial.contains b = false := by decide +kernel
      exact hall b hstart
    · have hhexdigit := hhex.2 b hdigit
      rw [Bool.eq_false_iff]
      intro hspecial
      rw [List.contains_iff_mem] at hspecial
      fin_cases hspecial <;> exact absurd hhexdigit (by decide)

theorem escape_of_plain {special : List UInt8} {s : Bytes} (h : ∀ b ∈ s, special.contains b = false) :
    escape special s = s := by
  induction s with
  | nil => rfl
  | cons b s ih =>
    rw [escape_cons, ih fun c hc => h c (List.mem_cons_of_mem _ hc), escapeByte,
      if_neg (by rw [h b List.mem_cons_self]; exact Bool.false_ne_true)]
    rfl

theorem unescape_of_plain {s : Bytes} (h : backslash ∉ s) : unescapeMountField s = s := by
  induction s with
  | nil => rfl
  | cons b s ih =>
    rw [List.mem_cons, not_or] at h
    rw [unescapeMountField_cons (Ne.symm h.1), ih h.2]

theorem fileGuardSource_escape (source : Bytes) :
    fileGuardSource (escape sourceSpecial source) = fileGuardSource source := by
  rw [Bool.eq_iff_iff]
  constructor
  · intro h
    have hplain : backslash ∉ escape sourceSpecial source := fun hmem =>
      absurd (plain_fileGuardSource h backslash hmem) (by decide)
    rwa [← unescape_of_plain hplain, unescape_escape (by decide)] at h
  · intro h
    rwa [escape_of_plain (plain_fileGuardSource h)]

theorem parseMountinfoLine_spaced {before : List Bytes} {fstype source : Bytes} {after : List Bytes} (hbefore : before ≠ [])
    (hwords : ∀ w ∈ before, space ∉ w ∧ w ≠ dash) (hafter : ∀ w ∈ fstype :: source :: after, space ∉ w) :
    parseMountinfoLine (spaced space (before ++ dash :: fstype :: source :: after)) =
      before[4]?.bind fun mountpoint =>
        if isFuse fstype && fileGuardSource source then some (unescapeMountinfo mountpoint) else none := by
  have hleft : (spaced space before).splitOn space = before :=
    List.splitOn_intercalate space (fun w hw => (hwords w hw).1) hbefore
  have hright : (spaced space (fstype :: source :: after)).splitOn space = fstype :: source :: after :=
    List.splitOn_intercalate space hafter (List.cons_ne_nil _ _)
  rw [parseMountinfoLine, separator, splitOnce_spaced (by decide) hbefore (List.cons_ne_nil _ _) hwords]
  simp only [Option.bind_eq_bind, Option.bind_some, hleft, hright, List.getElem?_cons_zero, List.getElem?_cons_succ]

theorem parseMountinfoLine_short {before after : List Bytes} (hbefore : before ≠ []) (hafter : after ≠ [])
    (hwords : ∀ w ∈ before, space ∉ w ∧ w ≠ dash) (hshort : before[4]? = none) :
    parseMountinfoLine (spaced space (before ++ dash :: after)) = none := by
  have hleft : (spaced space before).splitOn space = before :=
    List.splitOn_intercalate space (fun w hw => (hwords w hw).1) hbefore
  rw [parseMountinfoLine, separator, splitOnce_spaced (by decide) hbefore hafter hwords]
  simp only [Option.bind_eq_bind, Option.bind_some, hleft, hshort, Option.bind_none]

namespace Mount

variable (m : Mount)

theorem noSpace_filesystemWords : ∀ w ∈ m.filesystemWords, space ∉ w := by
  have hsource : ∀ s, space ∉ escape sourceSpecial s := not_mem_escape (by decide) (by decide)
  simp [filesystemWords, m.fsType_word.ne_space, m.word_superWord.ne_space, hsource]

theorem parseMountinfoLine_line (hroot : m.root ≠ dash) (hmountpoint : m.mountpoint ≠ dash) :
    parseMountinfoLine m.line =
      if isFuse (utf8 m.fsType) && fileGuardSource m.source then some m.mountpoint else none := by
  rw [line, filesystemWords, parseMountinfoLine_spaced (by simp [mountWords])
    (fun w hw => ⟨m.noSpace_mountWords w hw, m.ne_dash_mountWords hroot hmountpoint w hw⟩) m.noSpace_filesystemWords,
    fileGuardSource_escape]
  simp only [mountWords, List.cons_append, List.getElem?_cons_succ, List.getElem?_cons_zero, Option.bind_some,
    unescapeMountinfo_escape]

theorem parseMountinfoLine_dash (h : m.root = dash ∨ m.mountpoint = dash) : parseMountinfoLine m.line = none := by
  by_cases hroot : m.root = dash
  · rw [line, m.mountWords_of_root hroot]
    exact parseMountinfoLine_short (List.cons_ne_nil _ _) (List.cons_ne_nil _ _) m.numberWords rfl
  · rw [line, m.mountWords_of_mountpoint (h.resolve_left hroot)]
    exact parseMountinfoLine_short (List.cons_ne_nil _ _) (List.cons_ne_nil _ _) (m.rootWords hroot) rfl

theorem isFuse_of_parseLine {info : MountInfo} (hinfo : parseLine m.line = some info)
    (hfuse : isFuse (utf8 info.fsType) = true) : isFuse (utf8 m.fsType) = true := by
  have hroot : m.root ≠ dash := fun h => by rw [m.parseLine_root h] at hinfo; cases hinfo
  have hmountpoint : m.mountpoint ≠ dash := fun h => by
    rw [m.utf8_fsType_of_mountpoint hroot h hinfo, isFuse, List.isPrefixOf_iff_prefix] at hfuse
    have hhead := head_flags m.readOnly m.options
    obtain ⟨rest, hrest⟩ := hfuse
    rw [← flagWord, ← hrest] at hhead
    have hfuse : (utf8 "fuse").head? = some 0x66 := by decide
    rw [List.head?_append, hfuse, Option.some_or] at hhead
    exact absurd hhead (by decide)
  rw [m.parseLine_line hroot hmountpoint] at hinfo
  rwa [← utf8_fsType_of_parseFields hinfo]

end Mount

theorem lines_mountinfo (mounts : List Mount) : lines (mountinfo mounts) = mounts.map Mount.line := by
  have hreturn (m : Mount) : stripReturn m.line = m.line := by
    have hwords : m.mountWords ++ dash :: m.filesystemWords =
        (m.mountWords ++ [dash, utf8 m.fsType, escape sourceSpecial m.source]) ++ [m.superWord] := by
      simp [Mount.filesystemWords]
    have hne := m.word_superWord.1
    rw [Mount.line, hwords, spaced_append (by simp) (by simp), spaced_singleton, stripReturn, if_neg]
    rw [List.getLast?_append_of_ne_nil _ (List.cons_ne_nil _ _), List.getLast?_cons_of_ne_nil hne]
    intro hlast
    exact Bool.noConfusion (m.word_superWord.2 0x0d (List.mem_of_getLast? hlast))
  rw [lines, splitOn_mountinfo, List.dropLast_concat, List.getLast?_concat, List.map_map]
  simp [Function.comp_def, hreturn]

theorem serves_iff (m : Mount) (path : Path) :
    (∃ target, parseMountinfoLine m.line = some target ∧ Path.same target path = true) ↔
      m.Serves path ∧ m.root ≠ dash ∧ m.mountpoint ≠ dash := by
  by_cases hdash : m.root = dash ∨ m.mountpoint = dash
  · rw [m.parseMountinfoLine_dash hdash]
    refine ⟨fun ⟨target, htarget, _⟩ => (by cases htarget), fun h => ?_⟩
    exact (hdash.elim h.2.1 h.2.2).elim
  · rw [not_or] at hdash
    rw [m.parseMountinfoLine_line hdash.1 hdash.2, and_iff_left hdash, Mount.Serves]
    by_cases hguard : isFuse (utf8 m.fsType) = true ∧ fileGuardSource m.source = true
    · simp [hguard]
    · rw [if_neg (by rwa [Bool.and_eq_true])]
      exact ⟨fun ⟨_, hnone, _⟩ => (by cases hnone), fun h => (hguard ⟨h.1, h.2.1⟩).elim⟩

/-- What the command line answers: nothing where the table is no text, and otherwise whether a mount whose line it can
split serves the path. -/
theorem isFuseMount_iff (mounts : List Mount) (path : Path) : isFuseMount (mountinfo mounts) path = true ↔
    (fromUtf8 (mountinfo mounts)).isSome = true ∧
      ∃ m ∈ mounts, m.Serves path ∧ m.root ≠ dash ∧ m.mountpoint ≠ dash := by
  rw [isFuseMount, fuseMounts, readToString]
  cases htext : fromUtf8 (mountinfo mounts) with
  | none => simp
  | some text =>
    rw [Option.map_some, utf8_of_fromUtf8 htext]
    dsimp only
    rw [lines_mountinfo, List.filterMap_map, List.any_eq_true]
    simp only [List.mem_filterMap, Function.comp_apply, ← serves_iff, Option.isSome_some, true_and]
    constructor
    · rintro ⟨target, ⟨m, hm, htarget⟩, hsame⟩
      exact ⟨m, hm, target, htarget, hsame⟩
    · rintro ⟨m, hm, target, htarget, hsame⟩
      exact ⟨target, ⟨m, hm, htarget⟩, hsame⟩

/-- The daemon finds the mount of a path where it can tell the FUSE mounts of the table apart. -/
theorem mountsAt_iff {mounts : List Mount} (h : ∀ m ∈ mounts, isFuse (utf8 m.fsType) = true → m.Readable) (path : Path) :
    (∃ info ∈ mountsAt (mountinfo mounts) path, info.isGuard = true) ↔ ∃ m ∈ mounts, m.Serves path := by
  rw [mountsAt, parseMountinfo_eq]
  simp only [List.mem_filter, List.mem_filterMap, MountInfo.isGuard, Bool.and_eq_true, Mount.Serves]
  constructor
  · rintro ⟨info, ⟨⟨m, hm, hinfo⟩, hsame⟩, hfuse, hsource⟩
    have hfuseMount := m.isFuse_of_parseLine hinfo hfuse
    rw [m.parseLine_eq_info_iff.mpr (h m hm hfuseMount), Option.some_inj] at hinfo
    subst hinfo
    exact ⟨m, hm, hfuse, hsource, hsame⟩
  · rintro ⟨m, hm, hfuse, hsource, hsame⟩
    exact ⟨m.info, ⟨⟨m, hm, m.parseLine_eq_info_iff.mpr (h m hm hfuse)⟩, hsame⟩, hfuse, hsource⟩

/-- The command line finds what is mounted exactly if, whenever a mount serves the path, the table is UTF-8 and such a
mount has a line that can be split; the daemon agrees with both where it can tell the FUSE mounts apart. -/
theorem isFuseMount_agrees_iff (mounts : List Mount) (path : Path) :
    ((isFuseMount (mountinfo mounts) path = true ↔ ∃ m ∈ mounts, m.Serves path) ↔
        ((∃ m ∈ mounts, m.Serves path) → (fromUtf8 (mountinfo mounts)).isSome = true ∧
          ∃ m ∈ mounts, m.Serves path ∧ m.root ≠ dash ∧ m.mountpoint ≠ dash)) ∧
      ((∀ m ∈ mounts, isFuse (utf8 m.fsType) = true → m.Readable) →
        ((∃ info ∈ mountsAt (mountinfo mounts) path, info.isGuard = true) ↔ ∃ m ∈ mounts, m.Serves path)) := by
  refine ⟨?_, fun h => mountsAt_iff h path⟩
  rw [isFuseMount_iff]
  constructor
  · exact fun h => h.mpr
  · intro h
    exact ⟨fun ⟨_, m, hm, hserves, _⟩ => ⟨m, hm, hserves⟩, h⟩

def guardMount : Mount where
  id := 40
  parent := 35
  major := 0
  minor := 44
  root := utf8 "/"
  mountpoint := utf8 "/home/a/.aws/credentials"
  readOnly := false
  options := [utf8 "nosuid"]
  optional := [utf8 "shared:1"]
  fsType := "fuse"
  source := utf8 "file-guard"
  superReadOnly := false
  superOptions := [.userId 0]
  id_lt := by decide
  options_word := nosuid_word
  optional_word := by decide +kernel
  fsType_word := by decide +kernel
  fsType_ne := by decide
  superOptions_valid := userId_valid

/-- Another user's mount, at a path that is no UTF-8. -/
def otherMount : Mount :=
  { guardMount with
    id := 41
    mountpoint := utf8 "/home/b/" ++ [0xff]
    source := utf8 "sshfs"
    id_lt := by decide }

/-- One byte of another mount's path hides the mount from the command line. -/
theorem otherMount_hides :
    let path := utf8 "/home/a/.aws/credentials"
    isFuseMount (mountinfo [guardMount]) path = true ∧ isFuseMount (mountinfo [guardMount, otherMount]) path = false ∧
      mountsAt (mountinfo [guardMount, otherMount]) path = [guardMount.info] ∧ guardMount.info.isGuard = true := by
  decide +kernel

end FileGuard.Mounts
