import Mathlib.Data.List.TakeWhile
import SchemaRegistry.Default.Parse

/-!
# What may be wrong with a default text

A text that is no value of a type is a bad text, and this is the only fault that a field outlives.
There are two others. Groups admit no default at all; and an integer literal may be so long that it
is not even converted, whatever its value (`IsOverlong`). `parse_error` says that there are no more,
for every text and every type.
-/

namespace SchemaRegistry

/-! ## Integer literals -/

namespace Numeral

/-- The text is the literal: its digits, and a sign in front of them or none. A minus sign is there
if and only if the literal is negative. -/
structure IntegerLiteral.Spells (minusAllowed : Bool) (l : IntegerLiteral) (s : String) : Prop where
  digits : l.digits ≠ [] ∧ ∀ c ∈ l.digits, c.isDigit
  text : (l.negative = true ∧ minusAllowed = true ∧ s.toList = '-' :: l.digits)
    ∨ (l.negative = false ∧ (s.toList = '+' :: l.digits ∨ s.toList = l.digits))

/-- All characters are taken if all of them are digits, and only then. -/
theorem takeDigits_eq_iff {cs ds : List Char} :
    takeDigits cs = (ds, []) ↔ cs = ds ∧ ∀ c ∈ ds, c.isDigit := by
  unfold takeDigits
  rw [Prod.mk.injEq, List.dropWhile_eq_nil_iff]
  constructor
  · rintro ⟨rfl, h⟩
    rw [List.takeWhile_eq_self_iff.mpr h]
    exact ⟨rfl, h⟩
  · rintro ⟨rfl, h⟩
    exact ⟨List.takeWhile_eq_self_iff.mpr h, h⟩

theorem takeSign_eq_minus_iff {cs ds : List Char} : takeSign cs = (true, ds) ↔ cs = '-' :: ds := by
  constructor
  · intro h
    unfold takeSign at h
    split at h <;> cases h
    rfl
  · rintro rfl
    rfl

/-- A plus sign may be there or not; digits do not start with either sign. -/
theorem takeSign_eq_plus_iff {cs ds : List Char} (h : ∀ c ∈ ds, c.isDigit) :
    takeSign cs = (false, ds) ↔ cs = '+' :: ds ∨ cs = ds := by
  constructor
  · intro hsign
    unfold takeSign at hsign
    split at hsign <;> cases hsign
    · exact Or.inl rfl
    · exact Or.inr rfl
  · rintro (rfl | rfl)
    · rfl
    · -- Digits do not start with a sign.
      unfold takeSign
      split
      · exact absurd (h '-' List.mem_cons_self) (by decide)
      · exact absurd (h '+' List.mem_cons_self) (by decide)
      · rfl

/-- The reader of integer literals reads the texts that spell them. -/
theorem IntegerLiteral.ofText?_eq_some_iff {minusAllowed : Bool} {s : String}
    {l : IntegerLiteral} : ofText? minusAllowed s = some l ↔ l.Spells minusAllowed s := by
  obtain ⟨negative, digits⟩ := l
  -- First for the parts that the reader takes apart, then for the text as a whole.
  have hread : ofText? minusAllowed s = some ⟨negative, digits⟩
      ↔ (digits ≠ [] ∧ ∀ c ∈ digits, c.isDigit) ∧ takeSign s.toList = (negative, digits)
        ∧ (negative = true → minusAllowed = true) := by
    unfold ofText?
    cases takeSign s.toList with
    | mk n rest =>
      cases hrest : takeDigits rest with
      | mk ds after =>
        dsimp only
        rw [hrest]
        dsimp only
        constructor
        -- The reader gives up in three cases, none of which the condition lets through.
        · intro h
          split at h <;> cases h
          rename_i hno
          simp only [not_or, not_and, ne_eq, not_not] at hno
          obtain ⟨hne, rfl, hminus⟩ := hno
          obtain ⟨rfl, hdigits⟩ := takeDigits_eq_iff.mp hrest
          exact ⟨⟨hne, hdigits⟩, rfl, fun hn => by simpa using hminus hn⟩
        · rintro ⟨⟨hne, hdigits⟩, heq, hminus⟩
          obtain ⟨rfl, rfl⟩ := Prod.mk.inj heq
          obtain ⟨rfl, rfl⟩ := Prod.mk.inj (hrest.symm.trans (takeDigits_eq_iff.mpr ⟨rfl, hdigits⟩))
          rw [if_neg]
          simpa [hne] using hminus
  rw [hread]
  constructor
  · rintro ⟨hdigits, hsign, hminus⟩
    refine ⟨hdigits, ?_⟩
    cases negative with
    | true => exact Or.inl ⟨rfl, hminus rfl, takeSign_eq_minus_iff.mp hsign⟩
    | false => exact Or.inr ⟨rfl, (takeSign_eq_plus_iff hdigits.2).mp hsign⟩
  · rintro ⟨hdigits, ⟨rfl, hminus, htext⟩ | ⟨rfl, htext⟩⟩
    · exact ⟨hdigits, takeSign_eq_minus_iff.mpr htext, fun _ => hminus⟩
    · exact ⟨hdigits, (takeSign_eq_plus_iff hdigits.2).mpr htext, nofun⟩

end Numeral

/-! ## Texts for a type -/

namespace Default

open Numeral

/-- The integers that the type holds, if it is one of integers. -/
def range? : Scalar → Option IntegerRange
  | .int32 | .sfixed32 | .sint32 => some signed32
  | .int64 | .sfixed64 | .sint64 => some signed64
  | .uint32 | .fixed32 => some unsigned32
  | .uint64 | .fixed64 => some unsigned64
  | _ => none

/-- The types that hold integers differ in their ranges only. -/
theorem parseScalar_of_range? {k : Scalar} {range : IntegerRange} (h : range? k = some range)
    (s : String) : parseScalar s k = parseInteger range s := by
  cases k <;> cases h <;> rfl

/-- The text is an integer literal for the type, with more digits than are ever converted. -/
def IsOverlong (s : String) (k : Scalar) (digits : Nat) : Prop :=
  ∃ range l, range? k = some range ∧ IntegerLiteral.Spells (range.low < 0) l s
    ∧ l.digits.length = digits ∧ DefaultError.maxDigits < digits

/-- An integer is refused for its text, or because it has too many digits to be converted. -/
theorem parseInteger_error {range : IntegerRange} {s : String} {e : DefaultError}
    (h : parseInteger range s = .error e) :
    e = .badText s ∨ ∃ l, IntegerLiteral.Spells (range.low < 0) l s
      ∧ DefaultError.maxDigits < l.digits.length ∧ e = .tooManyDigits l.digits.length := by
  unfold parseInteger at h
  cases hl : IntegerLiteral.ofText? (range.low < 0) s with
  | none => rw [hl] at h; cases h; exact Or.inl rfl
  | some l =>
    rw [hl] at h
    dsimp only at h
    split at h
    · rename_i hlong
      -- Too many digits; the other texts of this form can only be out of range.
      cases h
      exact Or.inr ⟨l, IntegerLiteral.ofText?_eq_some_iff.mp hl, hlong, rfl⟩
    · split at h <;> cases h
      exact Or.inl rfl

theorem parseBool_error {s : String} {e : DefaultError} (h : parseBool s = .error e) :
    e = .badText s := by
  unfold parseBool at h
  split at h
  · cases h
  · split at h <;> cases h
    rfl

theorem parseFloat_error {s : String} {e : DefaultError} (tag : Double → Value)
    (h : parseFloat s tag = .error e) : e = .badText s := by
  unfold parseFloat at h
  split at h
  · cases h
  · split at h
    · cases h
      rfl
    · split at h <;> cases h
      rfl

/-- A literal of too many digits is not read, whatever its value. -/
theorem parse_of_isOverlong {s : String} {k : Scalar} {n : Nat} (h : IsOverlong s k n) :
    parse s (.scalar k) = .error (.tooManyDigits n) := by
  obtain ⟨range, l, hrange, hl, rfl, hlong⟩ := h
  show parseScalar s k = _
  rw [parseScalar_of_range? hrange]
  unfold parseInteger
  rw [IntegerLiteral.ofText?_eq_some_iff.mpr hl]
  exact if_pos hlong

/-- **The faults of a text** for a type: it is no value of the type, the type is that of a group, or
it is an overlong integer literal. -/
theorem parse_error {s : String} {t : StoredType} {e : DefaultError} (h : parse s t = .error e) :
    e = .badText s ∨ (t.kind = .scalar .group ∧ e = .group)
      ∨ ∃ k n, t.kind = .scalar k ∧ IsOverlong s k n ∧ e = .tooManyDigits n := by
  unfold parse at h
  split at h
  · rename_i k hk
    cases hrange : range? k with
    | some range =>
      rw [parseScalar_of_range? hrange] at h
      rcases parseInteger_error h with rfl | ⟨l, hl, hlong, rfl⟩
      · exact Or.inl rfl
      · exact Or.inr (Or.inr ⟨k, _, hk, ⟨range, l, hrange, hl, rfl, hlong⟩, rfl⟩)
    | none =>
      -- What is left are the types that are not integers.
      cases k with
      | group => cases h; exact Or.inr (Or.inl ⟨hk, rfl⟩)
      | bool => exact Or.inl (parseBool_error h)
      | double => exact Or.inl (parseFloat_error .double h)
      | float => exact Or.inl (parseFloat_error (fun x => .float x.toSingle) h)
      | string | bytes => cases h
      | _ => cases hrange
  · cases h
    exact Or.inl rfl

end Default

end SchemaRegistry
