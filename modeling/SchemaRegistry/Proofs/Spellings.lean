import Mathlib.Logic.Relation
import SchemaRegistry.Path

/-!
# Spellings of a path

Paths are simplified step by step: an empty component and a `.` are left out, and a name goes away
together with the `..` behind it. Above the root there is nothing, so a `..` there is left out too.
The steps can be taken in many orders, but all of them end at the same names, those of `normalise`
(`normalise_eq_iff`). So a path means one thing in a directory (`means_iff`), however it is spelled.
-/

namespace SchemaRegistry.Path

/-- The component leads further down, into what has this name. -/
def IsName (c : String) : Prop := c ≠ "" ∧ c ≠ "." ∧ c ≠ ".."

instance (c : String) : Decidable (IsName c) := inferInstanceAs (Decidable (_ ∧ _))

theorem IsName.toList_ne_nil {c : String} (hc : IsName c) : c.toList ≠ [] :=
  fun h => hc.1 (String.toList_injective (h.trans String.toList_empty.symm))

/-- One step of simplification, in components that are followed from the root. -/
inductive Simplifies : List String → List String → Prop where
  | empty (cs ds : List String) : Simplifies (cs ++ "" :: ds) (cs ++ ds)
  | dot (cs ds : List String) : Simplifies (cs ++ "." :: ds) (cs ++ ds)
  | back {c : String} (cs ds : List String) (hc : IsName c) :
      Simplifies (cs ++ c :: ".." :: ds) (cs ++ ds)
  | atRoot (ds : List String) : Simplifies (".." :: ds) ds

/-! ## Going one component further -/

/-- A component is empty, one of the two that are not names, or a name. -/
theorem component_cases (c : String) : c = "" ∨ c = "." ∨ c = ".." ∨ IsName c := by
  by_cases hempty : c = ""
  · exact .inl hempty
  by_cases hdot : c = "."
  · exact .inr (.inl hdot)
  by_cases hback : c = ".."
  · exact .inr (.inr (.inl hback))
  · exact .inr (.inr (.inr ⟨hempty, hdot, hback⟩))

@[simp] theorem step_empty (done : List String) : step done "" = done := by simp [step]

@[simp] theorem step_dot (done : List String) : step done "." = done := by simp [step]

@[simp] theorem step_back (done : List String) : step done ".." = done.tail := by simp [step]

theorem step_name {c : String} (hc : IsName c) (done : List String) :
    step done c = c :: done := by
  obtain ⟨hempty, hdot, hback⟩ := hc
  simp [step, hempty, hdot, hback]

/-! ## Names are what is left -/

variable {cs ds done names : List String}

/-- A step adds no component but a name. -/
theorem mem_step {c d : String} (h : d ∈ step done c) : d ∈ done ∨ d = c ∧ IsName c := by
  rcases component_cases c with rfl | rfl | rfl | hc
  · rw [step_empty] at h
    exact .inl h
  · rw [step_dot] at h
    exact .inl h
  · rw [step_back] at h
    exact .inl (List.mem_of_mem_tail h)
  · rw [step_name hc] at h
    exact (List.mem_cons.mp h).symm.imp_right fun hd => ⟨hd, hc⟩

theorem mem_foldl_step {d : String} (h : d ∈ cs.foldl step done) :
    d ∈ done ∨ d ∈ cs ∧ IsName d := by
  induction cs generalizing done with
  | nil => exact .inl h
  | cons c cs ih =>
    rcases ih h with hd | ⟨hd, hname⟩
    · rcases mem_step hd with hd | ⟨rfl, hname⟩
      · exact .inl hd
      · exact .inr ⟨List.mem_cons_self, hname⟩
    · exact .inr ⟨List.mem_cons_of_mem c hd, hname⟩

/-- What is left are names from among the components. -/
theorem mem_normalise {d : String} (h : d ∈ normalise cs) : d ∈ cs ∧ IsName d :=
  (mem_foldl_step (List.mem_reverse.mp h)).resolve_left List.not_mem_nil

/-- Names pile up, the last one on top. -/
theorem foldl_step_names (hnames : ∀ n ∈ names, IsName n) (done : List String) :
    names.foldl step done = names.reverse ++ done := by
  induction names generalizing done with
  | nil => rfl
  | cons n names ih =>
    obtain ⟨hn, hrest⟩ := List.forall_mem_cons.mp hnames
    rw [List.foldl_cons, step_name hn, ih hrest, List.reverse_cons, List.append_assoc,
      List.singleton_append]

/-- Nothing can be simplified in names. -/
theorem normalise_names (hnames : ∀ n ∈ names, IsName n) : normalise names = names := by
  rw [normalise, foldl_step_names hnames, List.append_nil, List.reverse_reverse]

/-! ## Every simplification ends there -/

theorem Simplifies.normalise_eq (h : Simplifies cs ds) : normalise cs = normalise ds := by
  unfold normalise
  cases h with
  | empty cs ds => rw [List.foldl_append, List.foldl_cons, step_empty, ← List.foldl_append]
  | dot cs ds => rw [List.foldl_append, List.foldl_cons, step_dot, ← List.foldl_append]
  | back cs ds hc =>
    rw [List.foldl_append, List.foldl_cons, List.foldl_cons, step_name hc, step_back,
      List.tail_cons, ← List.foldl_append]
  | atRoot ds => rw [List.foldl_cons, step_back, List.tail_nil]

/-- No simplification changes the normal form. -/
theorem normalise_eq_of_simplifies (h : Relation.ReflTransGen Simplifies cs ds) :
    normalise cs = normalise ds := by
  induction h with
  | refl => rfl
  | tail _ hstep ih => exact ih.trans hstep.normalise_eq

/-- The names passed so far stand in front of the components that are still to come, and each step
simplifies the two together. -/
theorem simplifies_foldl (hdone : ∀ c ∈ done, IsName c) :
    Relation.ReflTransGen Simplifies (done.reverse ++ cs) (cs.foldl step done).reverse := by
  induction cs generalizing done with
  | nil => rw [List.append_nil, List.foldl_nil]
  | cons c cs ih =>
    rw [List.foldl_cons]
    -- The component vanishes, removes the name in front of it, or is a name and stays.
    rcases component_cases c with rfl | rfl | rfl | hc
    · rw [step_empty]
      exact .head (.empty done.reverse cs) (ih hdone)
    · rw [step_dot]
      exact .head (.dot done.reverse cs) (ih hdone)
    · rw [step_back]
      cases done with
      | nil => exact .head (.atRoot cs) (ih hdone)
      | cons d done =>
        obtain ⟨hd, hrest⟩ := List.forall_mem_cons.mp hdone
        rw [List.reverse_cons, List.append_assoc, List.singleton_append]
        exact .head (.back done.reverse cs hd) (ih hrest)
    · have hmoved := ih (List.forall_mem_cons.mpr ⟨hc, hdone⟩)
      rw [List.reverse_cons, List.append_assoc, List.singleton_append] at hmoved
      rw [step_name hc]
      exact hmoved

/-- **Simplification ends at names, and at the same ones whatever is done first.** -/
theorem normalise_eq_iff : normalise cs = names
    ↔ Relation.ReflTransGen Simplifies cs names ∧ ∀ n ∈ names, IsName n := by
  constructor
  · rintro rfl
    exact ⟨simplifies_foldl (List.forall_mem_nil _), fun n hn => (mem_normalise hn).2⟩
  · rintro ⟨hsimplifies, hnames⟩
    rw [normalise_eq_of_simplifies hsimplifies, normalise_names hnames]

/-! ## What a path means -/

theorem slash_notMem_splitSlashes (cs : List Char) : ∀ part ∈ splitSlashes cs, '/' ∉ part := by
  fun_induction splitSlashes cs with
  | case1 => simp
  | case2 cs ih => simpa using ih
  | case3 c cs hc hsplit => simpa [eq_comm] using hc
  | case4 c cs hc first more hsplit ih =>
    -- The character goes in front of the first part, and it is no slash.
    rw [hsplit] at ih
    obtain ⟨hfirst, hmore⟩ := List.forall_mem_cons.mp ih
    refine List.forall_mem_cons.mpr ⟨fun hslash => ?_, hmore⟩
    rcases List.mem_cons.mp hslash with heq | hslash
    · exact hc heq.symm
    · exact hfirst hslash

/-- No component has a slash in it. -/
theorem slash_notMem_components {path c : String} (h : c ∈ components path) : '/' ∉ c.toList := by
  obtain ⟨part, hpart, rfl⟩ := List.mem_map.mp h
  rw [String.toList_ofList]
  exact slash_notMem_splitSlashes _ part hpart

/-- Names as they stand between the slashes of a path. -/
def AllNames (names : List String) : Prop := ∀ n ∈ names, IsName n ∧ '/' ∉ n.toList

/-- There is nothing left to simplify in the path. -/
def Absolute.Normal (p : Absolute) : Prop := AllNames p.components

/-- The directory of a normal path is normal. -/
theorem Absolute.Normal.parent {p : Absolute} (hp : p.Normal) : p.parent.Normal :=
  fun n hn => hp n (List.dropLast_subset _ hn)

/-- The components on the way from the root to `path`, which may start in the directory `base`. -/
def spelling (base path : String) : List String :=
  if isAbsolute path then components path else components base ++ components path

/-- There are two slashes in front of the path, and no third one. -/
def TwoSlashes (path : String) : Prop :=
  ∃ rest : List Char, path.toList = '/' :: '/' :: rest ∧ rest.head? ≠ some '/'

/-- The test for two slashes is right. -/
theorem hasDoubleRoot_iff {path : String} : hasDoubleRoot path = true ↔ TwoSlashes path := by
  unfold hasDoubleRoot TwoSlashes
  split
  -- Three slashes, two, and anything else.
  · rename_i rest hpath
    rw [hpath]
    simp
  · rename_i rest hthird hpath
    refine iff_of_true rfl ⟨rest, hpath, fun hhead => ?_⟩
    obtain ⟨more, rfl⟩ := List.head?_eq_some_iff.mp hhead
    exact hthird more rfl
  · rename_i hsecond
    refine iff_of_false Bool.false_ne_true ?_
    rintro ⟨rest, hpath, -⟩
    exact hsecond rest hpath

/-- In the directory `base`, the path leads to `p`: its spelling can be simplified to the components
of `p`, and there are two slashes in front of `p` if the spelling starts with exactly two. -/
structure Means (base path : String) (p : Absolute) : Prop where
  root : p.doubleRoot = true ↔ TwoSlashes (if isAbsolute path then path else base)
  simplifies : Relation.ReflTransGen Simplifies (spelling base path) p.components
  normal : p.Normal

theorem absolute_doubleRoot (base path : String) :
    (absolute base path).doubleRoot = hasDoubleRoot (if isAbsolute path then path else base) := by
  unfold absolute
  split <;> rfl

/-- The components of an absolute path are the normal form of how it is spelled. -/
theorem absolute_components (base path : String) :
    (absolute base path).components = normalise (spelling base path) := by
  unfold absolute spelling
  split <;> rfl

theorem slash_notMem_spelling {base path c : String} (h : c ∈ spelling base path) :
    '/' ∉ c.toList := by
  unfold spelling at h
  split at h
  · exact slash_notMem_components h
  · exact (List.mem_append.mp h).elim slash_notMem_components slash_notMem_components

/-- **In a directory, every path means exactly one thing.** -/
theorem means_iff {base path : String} {p : Absolute} :
    Means base path p ↔ absolute base path = p := by
  constructor
  -- Both parts of an absolute path are determined by the text.
  · rintro ⟨hroot, hsimplifies, hnormal⟩
    have hcomponents : normalise (spelling base path) = p.components :=
      normalise_eq_iff.mpr ⟨hsimplifies, fun n hn => (hnormal n hn).1⟩
    rw [← hasDoubleRoot_iff, ← absolute_doubleRoot, ← Bool.eq_iff_iff] at hroot
    rw [← absolute_components] at hcomponents
    cases p
    cases hroot
    cases hcomponents
    rfl
  · rintro rfl
    refine ⟨by rw [absolute_doubleRoot, hasDoubleRoot_iff], ?_, fun n hn => ?_⟩
    · rw [absolute_components]
      exact (normalise_eq_iff.mp rfl).1
    · rw [absolute_components] at hn
      obtain ⟨hmem, hname⟩ := mem_normalise hn
      exact ⟨hname, slash_notMem_spelling hmem⟩

/-- Every absolute path that is computed is normal. -/
theorem normal_absolute (base path : String) : (absolute base path).Normal :=
  (means_iff.mpr rfl).normal

end SchemaRegistry.Path
