import Mathlib.Data.List.Basic
import Mathlib.Data.List.Induction
import Mathlib.Data.List.Nodup
import Mathlib.Tactic.ByContra
import SchemaRegistry.Registry.Basic

/-!
# What the index of a catalog says

A name may be registered again and again, and the index keeps one position for it. `Indexed` says
which: the index and the list of registrations never drift apart, because for each name the index
holds the position of the *last* registration under it, and nothing for a name that was never
registered. In particular no position points past the end of the list.
-/

namespace SchemaRegistry

/-- `i` is the last position of `a` in the list. -/
def IsLast {α : Type} (l : List α) (a : α) (i : Nat) : Prop :=
  l[i]? = some a ∧ ∀ j, i < j → l[j]? ≠ some a

namespace IsLast

variable {α : Type} {l : List α} {a b : α} {i : Nat}

theorem lt_length (h : IsLast l a i) : i < l.length :=
  (List.getElem?_eq_some_iff.mp h.1).choose

/-- A new element is the last of its kind, and leaves the others where they are. -/
theorem append_singleton_iff :
    IsLast (l ++ [b]) a i ↔ (b = a ∧ i = l.length) ∨ (b ≠ a ∧ IsLast l a i) := by
  have hget : ∀ j, (l ++ [b])[j]? = some a ↔ l[j]? = some a ∨ (j = l.length ∧ b = a) := by
    intro j
    rw [List.getElem?_append]
    split
    · simp; omega
    · grind
  have hlt : ∀ j, l[j]? = some a → j < l.length := fun j hj =>
    (List.getElem?_eq_some_iff.mp hj).choose
  unfold IsLast
  by_cases hb : b = a
  · -- Whatever position `a` had before, there is a later one now.
    constructor
    · rintro ⟨hi, hlast⟩
      refine Or.inl ⟨hb, ?_⟩
      rcases (hget i).mp hi with h | h
      · exact absurd ((hget l.length).mpr (Or.inr ⟨rfl, hb⟩)) (hlast _ (hlt i h))
      · exact h.1
    · rintro (⟨_, rfl⟩ | ⟨hne, _⟩)
      · refine ⟨(hget _).mpr (Or.inr ⟨rfl, hb⟩), fun j hj hja => ?_⟩
        rcases (hget j).mp hja with h | h
        · have := hlt j h; omega
        · omega
      · exact absurd hb hne
  · simp [hget, hb]

/-- Without repetitions the only position is the last one. -/
theorem of_nodup (hl : l.Nodup) (h : l[i]? = some a) : IsLast l a i := by
  refine ⟨h, fun j hj hja => ?_⟩
  have hi : i < l.length := (List.getElem?_eq_some_iff.mp h).choose
  have := (List.getElem?_inj hi hl).mp (h.trans hja.symm)
  omega

end IsLast

/-- What is in a list is last somewhere. -/
theorem exists_isLast_of_mem {α : Type} {l : List α} {a : α} (h : a ∈ l) : ∃ i, IsLast l a i := by
  induction l using List.reverseRecOn with
  | nil => simp at h
  | append_singleton l b ih =>
    by_cases hb : b = a
    -- The last occurrence is at the end, or where it was before.
    · exact ⟨l.length, IsLast.append_singleton_iff.mpr (Or.inl ⟨hb, rfl⟩)⟩
    · have hl : a ∈ l := by
        rcases List.mem_append.mp h with h | h
        · exact h
        · exact absurd (List.mem_singleton.mp h).symm hb
      obtain ⟨i, hi⟩ := ih hl
      exact ⟨i, IsLast.append_singleton_iff.mpr (Or.inr ⟨hb, hi⟩)⟩

/-- Searching from the end finds what stands at the last position. -/
theorem find?_reverse_of_isLast {α β : Type} [DecidableEq β] {f : α → β} {l : List α} {b : β}
    {i : Nat} (h : IsLast (l.map f) b i) : l.reverse.find? (fun a => f a = b) = l[i]? := by
  induction l using List.reverseRecOn with
  | nil => simp
  | append_singleton l a ih =>
    rw [List.map_append, List.map_singleton, IsLast.append_singleton_iff, List.length_map] at h
    rw [List.reverse_append, List.reverse_singleton, List.singleton_append, List.find?_cons]
    -- The search from the back starts with `a`.
    rcases h with ⟨ha, rfl⟩ | ⟨ha, h⟩
    · simp [ha]
    · have hi := h.lt_length
      rw [List.length_map] at hi
      rw [List.getElem?_append_left hi, ← ih h]
      simp [ha]

/-- Where no name comes twice, everything is the last of its name. -/
theorem find?_reverse_eq_some_iff {α : Type} {name : α → String} {l : List α}
    (h : (l.map name).Nodup) {n : String} {a : α} :
    l.reverse.find? (fun b => name b = n) = some a ↔ a ∈ l ∧ name a = n := by
  constructor
  · intro hfind
    refine ⟨List.mem_reverse.mp (List.mem_of_find?_eq_some hfind), ?_⟩
    simpa using List.find?_some hfind
  -- With unique names the last one of the name is the only one.
  · rintro ⟨ha, rfl⟩
    cases hfind : l.reverse.find? fun b => name b = name a with
    | none =>
      have hne := List.find?_eq_none.mp hfind a (List.mem_reverse.mpr ha)
      exact absurd (decide_eq_true rfl) hne
    | some b =>
      have hb := List.mem_reverse.mp (List.mem_of_find?_eq_some hfind)
      have hname : name b = name a := by simpa using List.find?_some hfind
      rw [List.inj_on_of_nodup_map h hb ha hname]

/-! ## Catalogs -/

namespace Catalog

/-- Every reference of the catalog has a name, and the index gives the last registration under each
name. -/
structure Indexed (nameOf : Nat → Option String) (c : Catalog) : Prop where
  named : ∀ ref ∈ c.toList, ∃ n, nameOf ref = some n
  position : ∀ n i, c.position? n = some i ↔ IsLast (c.toList.map nameOf) (some n) i

variable {nameOf nameOf' : Nat → Option String} {c : Catalog}

/-- A catalog that has grown has the same references at the same positions. -/
theorem getElem?_of_prefix {c c' : Catalog} (h : c.toList <+: c'.toList) {i ref : Nat}
    (hi : c.refs[i]? = some ref) : c'.refs[i]? = some ref := by
  obtain ⟨rest, hrest⟩ := h
  have hlt : i < c.toList.length := (Array.getElem?_eq_some_iff.mp hi).choose
  calc c'.refs[i]? = c'.toList[i]? := (Array.getElem?_toList).symm
    _ = (c.toList ++ rest)[i]? := by rw [hrest]
    _ = c.toList[i]? := List.getElem?_append_left hlt
    _ = some ref := Array.getElem?_toList.trans hi

/-- What stands at a position is registered. -/
theorem mem_of_getElem? {c : Catalog} {i ref : Nat} (h : c.refs[i]? = some ref) :
    ref ∈ c.toList :=
  List.mem_of_getElem? (Array.getElem?_toList.trans h)

/-- A name is found by the position that the index has for it. -/
theorem find?_of_position? {c : Catalog} {n : String} {i ref : Nat} (hi : c.position? n = some i)
    (h : c.refs[i]? = some ref) : c.find? n = some ref :=
  Option.bind_eq_some_iff.mpr ⟨i, hi, h⟩

theorem indexed_empty (nameOf : Nat → Option String) : Indexed nameOf empty where
  named := by intro ref h; simp at h
  position := by
    intro n i
    simp [position?, empty, IsLast, toList]

/-- A registration under the name of its descriptor keeps the index right. -/
theorem Indexed.add (h : Indexed nameOf c) {name : String} {ref : Nat}
    (href : nameOf ref = some name) : Indexed nameOf (c.add name ref) where
  named := by
    intro r hr
    rw [toList_add] at hr
    -- The new reference has the name that it is added under.
    rcases List.mem_append.mp hr with hr | hr
    · exact h.named r hr
    · rw [List.mem_singleton.mp hr]; exact ⟨name, href⟩
  position := by
    intro n i
    have hlen : (c.toList.map nameOf).length = c.size := by simp [toList, size]
    rw [position?_add, toList_add, List.map_append, List.map_singleton, href,
      IsLast.append_singleton_iff, hlen, Option.some.injEq]
    by_cases hn : name = n
    · -- The new reference is at the end, and the index has been given this position.
      simp [hn, eq_comm]
    · simp [hn, h.position n i]

/-- Names that are kept keep the index right. -/
theorem Indexed.mono (h : Indexed nameOf c)
    (hkeep : ∀ ref n, nameOf ref = some n → nameOf' ref = some n) : Indexed nameOf' c := by
  have hmap : c.toList.map nameOf' = c.toList.map nameOf := by
    refine List.map_congr_left fun ref href => ?_
    obtain ⟨n, hn⟩ := h.named ref href
    rw [hn, hkeep ref n hn]
  refine ⟨fun ref href => ?_, fun n i => by rw [hmap]; exact h.position n i⟩
  obtain ⟨n, hn⟩ := h.named ref href
  exact ⟨n, hkeep ref n hn⟩

/-- A position in the index is that of a registration under its name. -/
theorem Indexed.ref_at (h : Indexed nameOf c) {n : String} {i : Nat}
    (hi : c.position? n = some i) :
    ∃ ref, c.refs[i]? = some ref ∧ nameOf ref = some n := by
  have hlast := ((h.position n i).mp hi).1
  rw [List.getElem?_map, toList, Array.getElem?_toList] at hlast
  exact Option.map_eq_some_iff.mp hlast

/-- The position in the index, taken as a signed one, leads to a descriptor of the name. -/
theorem Indexed.name_at (h : Indexed nameOf c) {n : String} {i : Nat}
    (hi : c.position? n = some i) : (c.at? i >>= nameOf) = some n := by
  obtain ⟨ref, href, hn⟩ := h.ref_at hi
  have hlt : i < c.size := (Array.getElem?_eq_some_iff.mp href).choose
  unfold at?
  rw [offset?_natCast hlt]
  show (c.refs[i]? >>= nameOf) = some n
  rw [href]
  exact hn

/-- If no name comes twice, a catalog that has grown keeps the positions of its names. -/
theorem Indexed.position?_of_prefix (h : Indexed nameOf c) {c' : Catalog}
    (h' : Indexed nameOf' c') (hkeep : ∀ ref n, nameOf ref = some n → nameOf' ref = some n)
    (hpre : c.toList <+: c'.toList) (hnd : (c'.toList.map nameOf').Nodup) {n : String} {i : Nat}
    (hi : c.position? n = some i) : c'.position? n = some i := by
  obtain ⟨ref, href, hn⟩ := h.ref_at hi
  have href' := getElem?_of_prefix hpre href
  refine (h'.position n i).mpr (.of_nodup hnd ?_)
  rw [List.getElem?_map, toList, Array.getElem?_toList, href', Option.map_some, hkeep ref n hn]

/-- Looking up a name leads to a descriptor of that name. -/
theorem Indexed.name_of_find? (h : Indexed nameOf c) {n : String} {ref : Nat}
    (hf : c.find? n = some ref) : nameOf ref = some n := by
  obtain ⟨i, hi, href⟩ := Option.bind_eq_some_iff.mp hf
  obtain ⟨ref', href', hn⟩ := h.ref_at hi
  rw [href] at href'
  rw [Option.some.inj href']
  exact hn

/-- What the index knows is found. -/
theorem Indexed.find?_eq_none_iff_position? (h : Indexed nameOf c) {n : String} :
    c.find? n = none ↔ c.position? n = none := by
  constructor
  · intro hf
    by_contra hne
    obtain ⟨i, hi⟩ := Option.ne_none_iff_exists'.mp hne
    obtain ⟨ref, href, _⟩ := h.ref_at hi
    rw [find?_of_position? hi href] at hf
    cases hf
  · intro hpos
    unfold find?
    rw [hpos]
    rfl

/-- What the index does not know is not found, whether there is a name or not. -/
theorem Indexed.bind_find?_eq_none (h : Indexed nameOf c) {name? : Option String}
    (hn : ∀ n, name? = some n → c.position? n = none) : name? >>= c.find? = none := by
  cases name? with
  | none => rfl
  | some n => exact h.find?_eq_none_iff_position?.mpr (hn n rfl)

/-- A name is found if and only if it is registered. -/
theorem Indexed.find?_eq_none_iff (h : Indexed nameOf c) {n : String} :
    c.find? n = none ↔ some n ∉ c.toList.map nameOf := by
  constructor
  · intro hf hmem
    obtain ⟨i, hi⟩ := exists_isLast_of_mem hmem
    have hpos := (h.position n i).mpr hi
    obtain ⟨ref, href, _⟩ := h.ref_at hpos
    rw [find?_of_position? hpos href] at hf
    cases hf
  · -- A position in the index is in range, so a name that it knows is found.
    intro hmem
    by_contra hne
    obtain ⟨ref, href⟩ := Option.ne_none_iff_exists'.mp hne
    obtain ⟨i, hi, _⟩ := Option.bind_eq_some_iff.mp href
    exact hmem (List.mem_of_getElem? ((h.position n i).mp hi).1)

/-! ### What the references stand for -/

section

variable {α : Type} {get : Nat → Option α} {name : α → String}

/-- Every reference leads somewhere, so nothing is lost by following them all. -/
theorem Indexed.map_get (h : Indexed (fun ref => (get ref).map name) c) :
    c.toList.map get = (c.toList.filterMap get).map some := by
  have key : ∀ refs : List Nat, (∀ ref ∈ refs, ∃ n, (get ref).map name = some n) →
      refs.map get = (refs.filterMap get).map some := by
    intro refs hrefs
    induction refs with
    | nil => rfl
    | cons ref refs ih =>
      obtain ⟨n, hn⟩ := hrefs ref List.mem_cons_self
      obtain ⟨a, ha, _⟩ := Option.map_eq_some_iff.mp hn
      rw [List.map_cons, List.filterMap_cons_some ha, List.map_cons, ha,
        ih fun r hr => hrefs r (List.mem_cons_of_mem _ hr)]
  exact key c.toList h.named

/-- The names that references lead to are those of the descriptors in the list. -/
theorem Indexed.map_name (h : Indexed (fun ref => (get ref).map name) c) :
    c.toList.map (fun ref => (get ref).map name)
      = ((c.toList.filterMap get).map name).map some := by
  calc c.toList.map (fun ref => (get ref).map name)
      = (c.toList.map get).map (Option.map name) := by rw [List.map_map]; rfl
    _ = ((c.toList.filterMap get).map some).map (Option.map name) := by rw [h.map_get]
    _ = ((c.toList.filterMap get).map name).map some := by rw [List.map_map, List.map_map]; rfl

/-- The positions of the catalog are those of the list of what it refers to. -/
theorem Indexed.getElem?_bind (h : Indexed (fun ref => (get ref).map name) c) (i : Nat) :
    (c.refs[i]? >>= get) = (c.toList.filterMap get)[i]? := by
  have hi : c.refs[i]?.map get = (c.toList.filterMap get)[i]?.map some := by
    rw [← List.getElem?_map, ← h.map_get, List.getElem?_map, toList, Array.getElem?_toList]
  cases hr : c.refs[i]? with
  | none =>
    rw [hr] at hi
    exact (Option.map_eq_none_iff.mp hi.symm).symm
  | some ref =>
    rw [hr] at hi
    obtain ⟨a, ha, hget⟩ := Option.map_eq_some_iff.mp hi.symm
    rw [ha, hget]
    rfl

/-- As long as nothing that a catalog refers to is touched, it stands for the same. -/
theorem Indexed.filterMap_eq (h : Indexed (fun ref => (get ref).map name) c)
    {get' : Nat → Option α} (hkeep : ∀ ref a, get ref = some a → get' ref = some a) :
    c.toList.filterMap get' = c.toList.filterMap get := by
  refine List.filterMap_congr fun ref href => ?_
  obtain ⟨n, hn⟩ := h.named ref href
  obtain ⟨a, ha, _⟩ := Option.map_eq_some_iff.mp hn
  rw [ha, hkeep ref a ha]

/-- A name leads somewhere if and only if something in the list has it. -/
theorem Indexed.find?_eq_none_iff_name (h : Indexed (fun ref => (get ref).map name) c)
    {n : String} : c.find? n = none ↔ n ∉ (c.toList.filterMap get).map name := by
  rw [h.find?_eq_none_iff, h.map_name]
  simp

/-- What a name leads to is there. -/
theorem Indexed.bind_eq_none_iff (h : Indexed (fun ref => (get ref).map name) c) {n : String} :
    (c.find? n >>= get) = none ↔ c.find? n = none := by
  cases hfind : c.find? n with
  | none => exact iff_of_true rfl rfl
  | some ref =>
    obtain ⟨a, ha, _⟩ := Option.map_eq_some_iff.mp (h.name_of_find? hfind)
    refine iff_of_false (fun hnone => ?_) (Option.some_ne_none ref)
    rw [Option.bind_eq_bind, Option.bind_some, ha] at hnone
    cases hnone

/-- What has a name in the list is what the name leads to, or has been replaced by it there. -/
theorem Indexed.exists_find? (h : Indexed (fun ref => (get ref).map name) c) {n : String}
    (hn : n ∈ (c.toList.filterMap get).map name) :
    ∃ ref ∈ c.toList, (get ref).map name = some n ∧ c.find? n = some ref := by
  cases hfind : c.find? n with
  | none => exact absurd hn (h.find?_eq_none_iff_name.mp hfind)
  | some ref =>
    obtain ⟨i, _, href⟩ := Option.bind_eq_some_iff.mp hfind
    exact ⟨ref, mem_of_getElem? href, h.name_of_find? hfind, rfl⟩

/-- A name leads to something of that name, or nothing has it. -/
theorem Indexed.found_or_missing (h : Indexed (fun ref => (get ref).map name) c) (n : String) :
    (∃ ref ∈ c.toList, (get ref).map name = some n ∧ c.find? n = some ref)
      ∨ (n ∉ (c.toList.filterMap get).map name ∧ c.find? n = none) := by
  by_cases hn : n ∈ (c.toList.filterMap get).map name
  · exact Or.inl (h.exists_find? hn)
  · exact Or.inr ⟨hn, h.find?_eq_none_iff_name.mpr hn⟩

/-- The name of a registered descriptor is in the list of names. -/
theorem name_mem {c : Catalog} {ref : Nat} {n : String} (href : ref ∈ c.toList)
    (hn : (get ref).map name = some n) : n ∈ (c.toList.filterMap get).map name := by
  obtain ⟨a, ha, hname⟩ := Option.map_eq_some_iff.mp hn
  exact List.mem_map.mpr ⟨a, List.mem_filterMap.mpr ⟨ref, href, ha⟩, hname⟩

/-- Every registration is in the list. -/
theorem Indexed.length_filterMap (h : Indexed (fun ref => (get ref).map name) c) :
    (c.toList.filterMap get).length = c.size := by
  calc (c.toList.filterMap get).length = ((c.toList.filterMap get).map some).length := by simp
    _ = (c.toList.map get).length := by rw [h.map_get]
    _ = c.size := by rw [List.length_map]; rfl

/-- **The last registration counts**, for what is found under a name. -/
theorem Indexed.find?_bind (h : Indexed (fun ref => (get ref).map name) c) (n : String) :
    (c.find? n >>= get) = (c.toList.filterMap get).reverse.find? fun a => name a = n := by
  cases hpos : c.position? n with
  | some i =>
    have hlast := (h.position n i).mp hpos
    rw [h.map_name] at hlast
    have hlast' : IsLast ((c.toList.filterMap get).map name) n i := by
      simpa [IsLast, List.getElem?_map] using hlast
    rw [find?_reverse_of_isLast hlast', ← h.getElem?_bind i]
    unfold find?
    rw [hpos]
    rfl
  | none =>
    have hfind : c.find? n = none := by unfold find?; rw [hpos]; rfl
    have hmem := h.find?_eq_none_iff_name.mp hfind
    rw [hfind, Option.bind_eq_bind, Option.bind_none, eq_comm, List.find?_eq_none]
    intro a ha hname
    refine hmem (List.mem_map.mpr ⟨a, List.mem_reverse.mp ha, ?_⟩)
    simpa using hname

end

end Catalog

end SchemaRegistry
