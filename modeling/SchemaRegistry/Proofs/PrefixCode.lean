import Mathlib.Data.List.Basic

/-!
# Codes that can be taken apart

What is written piece by piece can be read again if no piece can be mistaken for another one,
whatever is written behind it. `IsPrefixCode` says this of the pieces, and `flatMap_injective` of
the whole. The simplest code of this kind has an end mark behind each piece that occurs in none.
-/

namespace SchemaRegistry

variable {α β : Type}

/-- Nothing else is written like `a`, with anything behind it; `a` is one of the things that are
`Admitted`. -/
structure IsPrefixCode (code : α → List β) (Admitted : α → Prop) : Prop where
  ne_nil : ∀ a, Admitted a → code a ≠ []
  cut : ∀ a b rest rest', Admitted a → Admitted b → code a ++ rest = code b ++ rest' →
    a = b ∧ rest = rest'

/-- **A prefix code determines what is written in it.** -/
theorem IsPrefixCode.flatMap_injective {code : α → List β} {Admitted : α → Prop}
    (h : IsPrefixCode code Admitted) {as bs : List α} (has : ∀ a ∈ as, Admitted a)
    (hbs : ∀ b ∈ bs, Admitted b) (heq : as.flatMap code = bs.flatMap code) : as = bs := by
  induction as generalizing bs with
  | nil =>
    cases bs with
    | nil => rfl
    | cons b bs =>
      rw [List.flatMap_nil, List.flatMap_cons] at heq
      exact absurd (List.append_eq_nil_iff.mp heq.symm).1 (h.ne_nil b (hbs b List.mem_cons_self))
  | cons a as ih =>
    cases bs with
    | nil =>
      rw [List.flatMap_nil, List.flatMap_cons] at heq
      exact absurd (List.append_eq_nil_iff.mp heq).1 (h.ne_nil a (has a List.mem_cons_self))
    | cons b bs =>
      obtain ⟨rfl, hrest⟩ := h.cut a b _ _ (has a List.mem_cons_self) (hbs b List.mem_cons_self) heq
      rw [ih (fun a ha => has a (List.mem_cons_of_mem _ ha))
        (fun b hb => hbs b (List.mem_cons_of_mem _ hb)) hrest]

/-- Up to the first mark, two lists that are the same have the same in them. -/
theorem append_mark_inj {mark : α} {as bs rest rest' : List α} (has : mark ∉ as) (hbs : mark ∉ bs)
    (h : as ++ mark :: rest = bs ++ mark :: rest') : as = bs ∧ rest = rest' := by
  induction as generalizing bs with
  | nil =>
    cases bs with
    | nil => exact ⟨rfl, (List.cons.inj h).2⟩
    | cons b bs => exact absurd ((List.cons.inj h).1 ▸ List.mem_cons_self) hbs
  | cons a as ih =>
    cases bs with
    | nil => exact absurd ((List.cons.inj h).1 ▸ List.mem_cons_self) has
    | cons b bs =>
      obtain ⟨rfl, htail⟩ := List.cons.inj h
      obtain ⟨rfl, hrest⟩ := ih (fun hm => has (List.mem_cons_of_mem _ hm))
        (fun hm => hbs (List.mem_cons_of_mem _ hm)) htail
      exact ⟨rfl, hrest⟩

/-- Pieces with a mark behind each of them. -/
theorem isPrefixCode_mark (mark : α) : IsPrefixCode (fun as => as ++ [mark]) (mark ∉ ·) where
  ne_nil := fun as _ h => absurd (List.append_eq_nil_iff.mp h).2 (List.cons_ne_nil mark [])
  cut := by
    intro as bs rest rest' has hbs h
    rw [List.append_assoc, List.append_assoc] at h
    exact append_mark_inj has hbs h

end SchemaRegistry
