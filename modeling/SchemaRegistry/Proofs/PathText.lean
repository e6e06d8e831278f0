import Mathlib.Data.List.DropRight
import SchemaRegistry.Proofs.Spellings

/-!
# The text of a path

A normal path can be read off its text again, in whatever directory the text is read
(`absolute_text`). So two of these paths are the same if their texts are (`text_injective`). The
text of the directory that holds a path is what stands in front of the last slash
(`directoryText_text`).
-/

namespace SchemaRegistry.Path

/-! ## Components and their text -/

theorem splitSlashes_eq_splitOn (cs : List Char) : splitSlashes cs = cs.splitOn '/' := by
  fun_induction splitSlashes cs with
  | case1 => rfl
  | case2 cs ih => simp [List.splitOn_cons_eq_if_modifyHead, ih]
  | case3 c cs hc hsplit ih => exact absurd (ih.symm.trans hsplit) (List.splitOn_ne_nil _ _)
  | case4 c cs hc first more hsplit ih =>
    rw [List.splitOn_cons_eq_if_modifyHead, ← ih, hsplit, if_neg (by simpa using hc),
      List.modifyHead_cons]

theorem components_slash (rest : String) : components ("/" ++ rest) = "" :: components rest := by
  unfold components
  rw [String.toList_append]
  rfl

variable {names : List String}

/-- Names without slashes can be read off the text that joins them. -/
theorem components_intercalate (hne : names ≠ []) (hnames : ∀ n ∈ names, '/' ∉ n.toList) :
    components ("/".intercalate names) = names := by
  have hparts : ∀ part ∈ names.map String.toList, '/' ∉ part := List.forall_mem_map.mpr hnames
  unfold components
  rw [String.toList_intercalate, splitSlashes_eq_splitOn,
    show "/".toList = ['/'] from rfl,
    List.splitOn_intercalate '/' hparts (by simpa using hne), List.map_map]
  exact List.map_id'' (fun n => String.ofList_toList) names

theorem normalise_cons_empty (cs : List String) : normalise ("" :: cs) = normalise cs :=
  Simplifies.normalise_eq (.empty [] cs)

/-- Joining the names of a normal path and splitting them again loses nothing. -/
theorem normalise_components_intercalate (hnames : AllNames names) :
    normalise (components ("/".intercalate names)) = names := by
  by_cases hne : names = []
  · subst hne
    rfl
  · rw [components_intercalate hne fun n hn => (hnames n hn).2,
      normalise_names fun n hn => (hnames n hn).1]

/-- The names are not set off by one more slash. -/
theorem head?_intercalate (hnames : AllNames names) :
    ("/".intercalate names).toList.head? ≠ some '/' := by
  cases names with
  | nil => simp
  | cons n names =>
    obtain ⟨hname, hslash⟩ := hnames n List.mem_cons_self
    rw [String.toList_intercalate, List.map_cons]
    -- The first name is not empty, and its first character is no slash.
    cases hn : n.toList with
    | nil => exact absurd hn hname.toList_ne_nil
    | cons c cs =>
      have hc : c ≠ '/' := fun hc => hslash (hn ▸ hc ▸ List.mem_cons_self)
      cases names with
      | nil => simpa using hc
      | cons m names => simpa using hc

/-! ## Reading a path off its text -/

namespace Absolute

variable {p q : Absolute}

theorem text_eq (p : Absolute) : p.text
    = (if p.doubleRoot then "/" ++ "/" else "/") ++ "/".intercalate p.components := rfl

theorem isAbsolute_text (p : Absolute) : isAbsolute p.text = true := by
  unfold isAbsolute
  rw [text_eq, String.toList_append]
  cases p.doubleRoot <;> rfl

/-- The text starts with exactly two slashes if and only if the path says so. -/
theorem twoSlashes_text (hp : p.Normal) : TwoSlashes p.text ↔ p.doubleRoot = true := by
  have hhead := head?_intercalate hp
  unfold TwoSlashes
  rw [text_eq, String.toList_append]
  cases p.doubleRoot with
  | false =>
    refine iff_of_false ?_ Bool.false_ne_true
    rintro ⟨rest, htext, -⟩
    exact hhead (congrArg List.head? (List.cons.inj htext).2)
  | true => exact iff_of_true ⟨_, rfl, hhead⟩ rfl

/-- The text of a normal path names its components. -/
theorem normalise_components_text (hp : p.Normal) :
    normalise (Path.components p.text) = p.components := by
  rw [text_eq]
  split
  · rw [String.append_assoc, components_slash, components_slash, normalise_cons_empty,
      normalise_cons_empty, normalise_components_intercalate hp]
  · rw [components_slash, normalise_cons_empty, normalise_components_intercalate hp]

end Absolute

variable {p q : Absolute}

/-- **In every directory, the text of a path leads to this path again.** -/
theorem absolute_text (base : String) (hp : p.Normal) : absolute base p.text = p := by
  refine means_iff.mp ⟨?_, ?_, hp⟩
  · rw [if_pos p.isAbsolute_text, Absolute.twoSlashes_text hp]
  · rw [spelling, if_pos p.isAbsolute_text]
    exact (normalise_eq_iff.mp (Absolute.normalise_components_text hp)).1

/-- Normal paths with the same text are the same. -/
theorem text_injective (hp : p.Normal) (hq : q.Normal) (h : p.text = q.text) : p = q := by
  rw [← absolute_text "" hp, h, absolute_text "" hq]

/-! ## The directory of a path -/

/-- What stands in front of the last component of a path. The slashes between the two are left out,
unless there is nothing in front of them. -/
def directoryText (path : String) : String :=
  let front := path.toList.rdropWhile (· ≠ '/')
  let stripped := front.rdropWhile (· = '/')
  String.ofList (if stripped = [] then front else stripped)

theorem rdropWhile_append_of_forall {α : Type} {f : α → Bool} {xs ys : List α}
    (h : ∀ y ∈ ys, f y = true) : (xs ++ ys).rdropWhile f = xs.rdropWhile f := by
  unfold List.rdropWhile
  rw [List.reverse_append, List.dropWhile_append_of_pos fun y hy => h y (List.mem_reverse.mp hy)]

theorem Absolute.toList_text_singleton (r : Bool) (n : String) :
    (⟨r, [n]⟩ : Absolute).text.toList = (if r then ['/'] else []) ++ '/' :: n.toList := by
  rw [text_eq, String.intercalate_singleton, String.toList_append]
  cases r <;> simp

theorem Absolute.toList_text_concat (r : Bool) (hne : names ≠ []) (n : String) :
    (⟨r, names ++ [n]⟩ : Absolute).text.toList
      = (⟨r, names⟩ : Absolute).text.toList ++ '/' :: n.toList := by
  rw [text_eq, text_eq, String.intercalate_append_of_ne_nil hne (List.cons_ne_nil n []),
    String.intercalate_singleton, ← String.append_assoc, ← String.append_assoc,
    String.toList_append, String.toList_append, List.append_assoc]
  rfl

/-- Below the root, no path ends with a slash. -/
theorem Absolute.Normal.exists_last (hp : p.Normal) (hne : p.components ≠ []) :
    ∃ front c, p.text.toList = front ++ [c] ∧ c ≠ '/' := by
  obtain ⟨r, components⟩ := p
  obtain ⟨names, n, rfl⟩ := (List.eq_nil_or_concat' components).resolve_left hne
  obtain ⟨hname, hslash⟩ := hp n (List.mem_append_right _ List.mem_cons_self)
  obtain ⟨cs, c, hn⟩ := (List.eq_nil_or_concat' n.toList).resolve_left hname.toList_ne_nil
  -- The last name is behind a slash, and is not empty.
  obtain ⟨front, hfront⟩ : ∃ front,
      (⟨r, names ++ [n]⟩ : Absolute).text.toList = front ++ '/' :: n.toList := by
    by_cases hnames : names = []
    · subst hnames
      exact ⟨_, toList_text_singleton r n⟩
    · exact ⟨_, toList_text_concat r hnames n⟩
  refine ⟨front ++ '/' :: cs, c, ?_, fun hc => hslash ?_⟩
  · rw [hfront, hn, List.append_assoc, List.cons_append]
  · rw [hn, ← hc]
    exact List.mem_append_right _ List.mem_cons_self

/-- Dropping the last name leaves the slash in front of it. -/
theorem rdropWhile_name {front name : List Char} (hname : '/' ∉ name) :
    (front ++ '/' :: name).rdropWhile (· ≠ '/') = front ++ ['/'] := by
  have hsplit : front ++ '/' :: name = (front ++ ['/']) ++ name := by simp
  have hfree : ∀ c ∈ name, decide (c ≠ '/') = true :=
    fun c hc => decide_eq_true fun h => hname (h ▸ hc)
  rw [hsplit, rdropWhile_append_of_forall hfree, List.rdropWhile_concat_neg _ _ _ (by decide)]

/-- The directory of a text that is cut at its last slash: slashes at the end go, unless there is
nothing else. -/
theorem directoryText_of_split {path : String} {front name : List Char} (hname : '/' ∉ name)
    (hpath : path.toList = front ++ '/' :: name) :
    directoryText path = String.ofList (
      if front.rdropWhile (· = '/') = [] then front ++ ['/'] else front.rdropWhile (· = '/')) := by
  unfold directoryText
  rw [hpath, rdropWhile_name hname]
  dsimp only
  rw [List.rdropWhile_concat_pos _ _ _ (by decide)]

/-- **The directory that holds a path is what stands in front of its last slash.** -/
theorem directoryText_text (hp : p.Normal) : directoryText p.text = p.parent.text := by
  obtain ⟨r, components⟩ := p
  rcases List.eq_nil_or_concat' components with rfl | ⟨names, n, rfl⟩
  · cases r <;> rfl
  have hslash : '/' ∉ n.toList := (hp n (List.mem_append_right _ List.mem_cons_self)).2
  have hparent : (⟨r, names ++ [n]⟩ : Absolute).parent = ⟨r, names⟩ := by
    simp [Absolute.parent]
  have hnames := hparent ▸ hp.parent
  rw [hparent]
  by_cases hne : names = []
  · -- Right below the root, there are only slashes in front.
    subst hne
    rw [List.nil_append, directoryText_of_split hslash (Absolute.toList_text_singleton r n)]
    cases r <;> rfl
  -- The directory has names of its own, so it ends without a slash.
  · obtain ⟨front, c, hfront, hc⟩ := hnames.exists_last hne
    rw [directoryText_of_split hslash (Absolute.toList_text_concat r hne n), hfront,
      List.rdropWhile_concat_neg _ _ _ (by simpa using hc), if_neg (by simp), ← hfront,
      String.ofList_toList]

/-- One slash or two, and names behind it with a slash between each two of them. -/
def IsNormalText (text : String) : Prop :=
  ∃ root names, (root = "/" ∨ root = "//") ∧ AllNames names
    ∧ text = root ++ "/".intercalate names

theorem IsNormalText.ne_empty {text : String} (h : IsNormalText text) : text ≠ "" := by
  obtain ⟨root, names, hroot, -, rfl⟩ := h
  rcases hroot with rfl | rfl <;> simp

/-- A normal path has the text of a normal path. -/
theorem Absolute.Normal.isNormalText (hp : p.Normal) : IsNormalText p.text := by
  refine ⟨if p.doubleRoot then "//" else "/", p.components, ?_, hp, rfl⟩
  cases p.doubleRoot with
  | false => exact .inl rfl
  | true => exact .inr rfl

end SchemaRegistry.Path
