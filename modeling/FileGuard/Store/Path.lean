import FileGuard.Store.Hex

namespace FileGuard.Store

abbrev Path := Bytes

inductive Component where
  | rootDir
  | curDir
  | parentDir
  | normal (part : Bytes)
  deriving DecidableEq, Repr

namespace Path

def slash : UInt8 := 47
def dot : Bytes := [46]
def dotDot : Bytes := [46, 46]

def isAbsolute (p : Path) : Bool := p.head? == some slash

def splitSlash : Bytes → List Bytes
  | [] => [[]]
  | b :: rest =>
    if b = slash then [] :: splitSlash rest
    else match splitSlash rest with
      | [] => [[b]]
      | part :: parts => (b :: part) :: parts

def component (part : Bytes) : Component := if part = dotDot then .parentDir else .normal part

def body (p : Path) : List Component :=
  ((splitSlash p).filter (fun part => part ≠ [] ∧ part ≠ dot)).map component

/-- `Path::components`: repeated slashes and inner `.` parts disappear. -/
def components (p : Path) : List Component :=
  if isAbsolute p then .rootDir :: body p
  else if (splitSlash p).head? = some dot then .curDir :: body p
  else body p

/-- `PathBuf` equality compares components, not bytes. -/
def same (p q : Path) : Bool := components p == components q

def join (base p : Path) : Path :=
  if isAbsolute p then p
  else if base = [] then p
  else if base.getLast? = some slash then base ++ p
  else base ++ slash :: p

def slashed (parts : List Bytes) : Path := parts.flatMap (fun part => slash :: part)

def render (parts : List Bytes) : Path := if parts = [] then [slash] else slashed parts

/-- The output path of the loop is kept as the stack of its parts, innermost first. -/
def lexicalStep (stack : List Bytes) : Component → Option (List Bytes)
  | .rootDir | .curDir => some stack
  | .normal part => some (part :: stack)
  | .parentDir => match stack with
    | [] => none
    | _ :: rest => some rest

def lexical (cwd p : Path) : Option Path :=
  let input := if isAbsolute p then p else join cwd p
  ((components input).foldlM lexicalStep []).map (fun stack => render stack.reverse)

def normals (p : Path) : List Bytes :=
  (components p).filterMap (fun c => match c with | .normal part => some part | _ => none)

def parent (p : Path) : Option Path :=
  match (components p).getLast? with
  | none | some .rootDir => none
  | some _ => some (render (normals p).dropLast)

def fileName (p : Path) : Option Bytes :=
  match (components p).getLast? with
  | some (.normal part) => some part
  | _ => none

/-- `Path::display`; the source shows replacement characters where the bytes are not UTF-8. -/
def display (p : Path) : String := (String.fromUTF8? ⟨p.toArray⟩).getD (hexEncode p)

def Proper (part : Bytes) : Prop := part ≠ [] ∧ part ≠ dot ∧ part ≠ dotDot ∧ slash ∉ part

instance (part : Bytes) : Decidable (Proper part) := inferInstanceAs (Decidable (_ ∧ _))

def Normal (p : Path) : Prop := ∃ parts : List Bytes, (∀ part ∈ parts, Proper part) ∧ p = render parts

theorem splitSlash_append (p q : Bytes) (hp : slash ∉ p) :
    splitSlash (p ++ q) = (p ++ (splitSlash q).headD []) :: (splitSlash q).tail := by
  induction p with
  | nil =>
    cases hq : splitSlash q with
    | nil =>
      cases q with
      | nil => simp [splitSlash] at hq
      | cons b rest =>
        simp only [splitSlash] at hq
        split_ifs at hq
        split at hq <;> simp at hq
    | cons part parts => simp [hq]
  | cons b p ih =>
    have hb : b ≠ slash := fun h => hp (by simp [h])
    have hp' : slash ∉ p := fun h => hp (List.mem_cons_of_mem _ h)
    simp only [List.cons_append, splitSlash, hb, ↓reduceIte, ih hp']

theorem splitSlash_slashed (parts : List Bytes) (h : ∀ part ∈ parts, slash ∉ part) :
    splitSlash (slashed parts) = [] :: parts := by
  induction parts with
  | nil => rfl
  | cons part parts ih =>
    have ht := ih (fun q hq => h q (List.mem_cons_of_mem _ hq))
    have hs : slashed (part :: parts) = slash :: (part ++ slashed parts) := by
      simp [slashed]
    simp only [hs, splitSlash, ↓reduceIte]
    rw [splitSlash_append part _ (h part (by simp)), ht]
    simp

theorem noSlash_of_mem_splitSlash (p part : Bytes) (h : part ∈ splitSlash p) : slash ∉ part := by
  induction p generalizing part with
  | nil => simp only [splitSlash, List.mem_singleton] at h; simp [h]
  | cons b rest ih =>
    simp only [splitSlash] at h
    split_ifs at h with hb
    · rcases List.mem_cons.mp h with rfl | h
      · simp
      · exact ih part h
    · cases hr : splitSlash rest with
      | nil =>
        simp only [hr, List.mem_singleton] at h
        subst h
        simpa [eq_comm] using hb
      | cons q qs =>
        simp only [hr, List.mem_cons] at h
        rcases h with rfl | h
        · have := ih q (by simp [hr])
          simpa [eq_comm, not_or] using ⟨hb, this⟩
        · exact ih part (by simp [hr, h])

theorem isAbsolute_render (parts : List Bytes) : isAbsolute (render parts) = true := by
  cases parts <;> rfl

theorem components_render (parts : List Bytes) (h : ∀ part ∈ parts, Proper part) :
    components (render parts) = .rootDir :: parts.map .normal := by
  rw [components, if_pos (isAbsolute_render parts), body]
  congr 1
  cases hparts : parts with
  | nil => rfl
  | cons part rest =>
    rw [← hparts]
    have hr : render parts = slashed parts := by simp [render, hparts]
    rw [hr, splitSlash_slashed parts (fun q hq => (h q hq).2.2.2)]
    have hf : ([] :: parts).filter (fun q => q ≠ [] ∧ q ≠ dot) = parts := by
      simp only [List.filter_cons, ne_eq, not_true_eq_false, false_and, decide_false,
        Bool.false_eq_true, ↓reduceIte]
      exact List.filter_eq_self.mpr (fun q hq => by simp [(h q hq).1, (h q hq).2.1])
    rw [hf]
    exact List.map_congr_left (fun q hq => by simp [component, (h q hq).2.2.1])

theorem proper_of_mem_body (p : Path) (part : Bytes) (h : Component.normal part ∈ body p) :
    Proper part := by
  obtain ⟨q, hq, he⟩ := List.mem_map.mp h
  obtain ⟨hmem, hfilter⟩ := List.mem_filter.mp hq
  simp only [decide_eq_true_eq] at hfilter
  by_cases hd : q = dotDot
  · simp [component, hd] at he
  · simp only [component, hd, ↓reduceIte, Component.normal.injEq] at he
    subst he
    exact ⟨hfilter.1, hfilter.2, hd, noSlash_of_mem_splitSlash p q hmem⟩

theorem proper_of_mem_components (p : Path) (part : Bytes) (h : Component.normal part ∈ components p) :
    Proper part := by
  unfold components at h
  split_ifs at h
  · exact proper_of_mem_body p part (by simpa using h)
  · exact proper_of_mem_body p part (by simpa using h)
  · exact proper_of_mem_body p part h

theorem lexicalStep_proper (stack next : List Bytes) (c : Component)
    (hs : ∀ part ∈ stack, Proper part) (hc : ∀ part, c = .normal part → Proper part)
    (h : lexicalStep stack c = some next) : ∀ part ∈ next, Proper part := by
  cases c with
  | rootDir | curDir => cases h; exact hs
  | normal part =>
    cases h
    intro q hq
    rcases List.mem_cons.mp hq with rfl | hq
    · exact hc _ rfl
    · exact hs q hq
  | parentDir =>
    cases stack with
    | nil => cases h
    | cons top rest => cases h; exact fun q hq => hs q (List.mem_cons_of_mem _ hq)

theorem foldlM_lexicalStep_proper (cs : List Component) (stack out : List Bytes)
    (hs : ∀ part ∈ stack, Proper part) (hc : ∀ part, Component.normal part ∈ cs → Proper part)
    (h : cs.foldlM lexicalStep stack = some out) : ∀ part ∈ out, Proper part := by
  induction cs generalizing stack with
  | nil => cases h; exact hs
  | cons c cs ih =>
    simp only [List.foldlM_cons, Option.bind_eq_bind, Option.bind_eq_some_iff] at h
    obtain ⟨next, hn, h⟩ := h
    have hnext := lexicalStep_proper stack next c hs (fun q hq => hc q (by simp [hq])) hn
    exact ih next hnext (fun q hq => hc q (List.mem_cons_of_mem _ hq)) h

theorem lexical_normal {cwd p q : Path} (h : lexical cwd p = some q) : Normal q := by
  simp only [lexical, Option.map_eq_some_iff] at h
  obtain ⟨stack, hs, rfl⟩ := h
  refine ⟨stack.reverse, fun part hp => ?_, rfl⟩
  exact foldlM_lexicalStep_proper _ [] stack (by simp)
    (fun part h => proper_of_mem_components _ part h) hs part (List.mem_reverse.mp hp)

theorem foldlM_lexicalStep_normals (parts stack : List Bytes) :
    (parts.map Component.normal).foldlM lexicalStep stack = some (parts.reverse ++ stack) := by
  induction parts generalizing stack with
  | nil => rfl
  | cons part parts ih => simp [lexicalStep, ih]

theorem Normal.isAbsolute {p : Path} (h : Normal p) : isAbsolute p = true := by
  obtain ⟨parts, _, rfl⟩ := h
  exact isAbsolute_render parts

theorem Normal.lexical (cwd : Path) {p : Path} (h : Normal p) : lexical cwd p = some p := by
  obtain ⟨parts, hp, rfl⟩ := h
  simp only [Path.lexical, isAbsolute_render, ↓reduceIte, components_render parts hp]
  have hroot : (Component.rootDir :: parts.map .normal).foldlM lexicalStep [] =
      (parts.map Component.normal).foldlM lexicalStep [] := rfl
  rw [hroot, foldlM_lexicalStep_normals]
  simp

theorem normals_render (parts : List Bytes) (h : ∀ part ∈ parts, Proper part) :
    normals (render parts) = parts := by
  simp only [normals, components_render parts h, List.filterMap_cons, List.filterMap_map]
  exact List.filterMap_some

theorem Normal.ancestor_length {p : Path} (h : Normal p) {depth : ℕ} (hdepth : depth < (normals p).length) :
    (render ((normals p).take depth)).length ≤ p.length := by
  obtain ⟨parts, hparts, rfl⟩ := h
  rw [normals_render parts hparts] at hdepth ⊢
  have hne : parts ≠ [] := List.ne_nil_of_length_pos (Nat.zero_lt_of_lt hdepth)
  have hslashed : render parts = slashed parts := by simp [render, hne]
  have hsplit : slashed parts = slashed (parts.take depth) ++ slashed (parts.drop depth) := by
    rw [slashed, slashed, slashed, ← List.flatMap_append, List.take_append_drop]
  rw [hslashed]
  by_cases htop : parts.take depth = []
  · obtain ⟨part, rest, rfl⟩ := List.exists_cons_of_ne_nil hne
    rw [htop]
    exact Nat.succ_le_succ (Nat.zero_le _)
  · rw [render, if_neg htop, hsplit, List.length_append]
    exact Nat.le_add_right _ _

theorem join_render (parts : List Bytes) (part : Bytes) (h : ∀ q ∈ parts, Proper q) (hp : Proper part) :
    join (render parts) part = render (parts ++ [part]) := by
  have hrel : Path.isAbsolute part = false := by
    cases hpart : part with
    | nil => rfl
    | cons b rest =>
      have : b ≠ slash := fun hb => hp.2.2.2 (by simp [hpart, hb])
      simp [Path.isAbsolute, this]
  cases hparts : parts with
  | nil => simp [join, hrel, render, slashed]
  | cons q qs =>
    rw [← hparts]
    have hr : render parts = slashed parts := by simp [render, hparts]
    have hlast : (slashed parts).getLast? ≠ some slash := by
      obtain ⟨init, last, hl⟩ := List.eq_nil_or_concat' parts |>.resolve_left (by simp [hparts])
      have hlp := h last (by simp [hl])
      obtain ⟨init', b, hb⟩ := List.eq_nil_or_concat' last |>.resolve_left hlp.1
      have hbs : b ≠ slash := fun he => hlp.2.2.2 (by simp [hb, he])
      have : slashed parts = slashed init ++ slash :: init' ++ [b] := by simp [slashed, hl, hb]
      rw [this, List.getLast?_concat]
      simpa using hbs
    have hne : slashed parts ≠ [] := by simp [slashed, hparts]
    rw [join, hrel, hr]
    simp only [Bool.false_eq_true, ↓reduceIte, hne, hlast]
    simp [render, slashed]

theorem parent_join_render (parts : List Bytes) (part : Bytes) (h : ∀ q ∈ parts, Proper q)
    (hp : Proper part) : parent (join (render parts) part) = some (render parts) := by
  have hall : ∀ q ∈ parts ++ [part], Proper q := by
    intro q hq
    rcases List.mem_append.mp hq with hq | hq
    · exact h q hq
    · rw [List.mem_singleton.mp hq]; exact hp
  rw [join_render parts part h hp, parent, components_render _ hall, normals_render _ hall]
  simp only [List.map_append, List.map_cons, List.map_nil, ← List.cons_append,
    List.getLast?_concat, List.dropLast_concat]

end Path

end FileGuard.Store
