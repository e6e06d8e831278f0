import Mathlib.Data.Nat.Digits.Defs
import SchemaRegistry.Proofs.DefaultText

/-!
# Integers as texts

The default of an integer field is a literal: a sign or none, and digits. The types differ in the
integers they hold and in whether a minus sign is admitted, and this is all there is to their
defaults (`parse_integer`): the literals of integers of the type are read, each as its integer, and
all other texts are bad. The way an integer is written is one of its literals, so what is read can
be written and read again.
-/

namespace SchemaRegistry

/-! ## Writing integers -/

namespace Numeral.IntegerLiteral

/-- The literal that an integer is written as. -/
def ofInt (n : Int) : IntegerLiteral := ⟨n < 0, Nat.toDigits 10 n.natAbs⟩

/-- The literal of a number has it for its value. -/
theorem value_ofInt (n : Int) : (ofInt n).value = n := by
  have hdigits : ofDigits (ofInt n).digits = n.natAbs := Nat.ofDigitChars_ten_toDigits
  unfold value
  rw [hdigits]
  by_cases h : n < 0
  · rw [if_pos (by simpa [ofInt] using h)]
    omega
  · rw [if_neg (by simpa [ofInt] using h)]
    omega

/-- A number is written as its literal. -/
theorem spells_ofInt {n : Int} {minusAllowed : Bool} (h : n < 0 → minusAllowed = true) :
    (ofInt n).Spells minusAllowed (toString n) := by
  have hdigits : ∀ c ∈ (ofInt n).digits, c.isDigit :=
    fun c hc => Nat.isDigit_of_mem_toDigits (by decide) (by decide) hc
  refine ⟨⟨Nat.toDigits_ne_nil, hdigits⟩, ?_⟩
  rw [Int.toString_eq_repr, Int.repr_eq_if]
  -- Only a negative number has a sign.
  by_cases hn : n < 0
  · have habs : (-n).toNat = n.natAbs := by omega
    rw [if_neg (by omega), habs, Nat.repr_eq_ofList_toDigits]
    exact Or.inl ⟨decide_eq_true hn, h hn, by simp [ofInt]⟩
  · have habs : n.toNat = n.natAbs := by omega
    rw [if_pos (by omega), habs, Nat.repr_eq_ofList_toDigits]
    exact Or.inr ⟨decide_eq_false hn, Or.inr (by simp [ofInt])⟩

theorem length_ofInt_le {n : Int} {digits : Nat} (hpos : 0 < digits)
    (h : n.natAbs < 10 ^ digits) : (ofInt n).digits.length ≤ digits :=
  Nat.toDigits_length 10 n.natAbs digits hpos h

/-- All digits of a text that is a literal are digits of the literal. -/
theorem Spells.countP_eq {minusAllowed : Bool} {l : IntegerLiteral} {s : String}
    (h : l.Spells minusAllowed s) : s.toList.countP Char.isDigit = l.digits.length := by
  have hall : l.digits.countP Char.isDigit = l.digits.length := List.countP_eq_length.mpr h.digits.2
  rcases h.text with ⟨_, _, htext⟩ | ⟨_, htext | htext⟩
  · rw [htext, List.countP_cons_of_neg (by decide), hall]
  · rw [htext, List.countP_cons_of_neg (by decide), hall]
  · rw [htext, hall]

end Numeral.IntegerLiteral

/-! ## Integer types -/

open Numeral

/-- A type of integers: whether they have a sign, how many bits they take, and the representation
they are held in. -/
structure IntegerType where
  signed : Bool
  bits : Nat
  tag : Int → Value

namespace IntegerType

/-- The number is one of the type, in two's complement if the type has a sign. -/
def Holds (i : IntegerType) (n : Int) : Prop :=
  if i.signed then -2 ^ (i.bits - 1) ≤ n ∧ n < 2 ^ (i.bits - 1) else 0 ≤ n ∧ n < 2 ^ i.bits

instance (i : IntegerType) (n : Int) : Decidable (i.Holds n) :=
  inferInstanceAs (Decidable (if i.signed then _ else _))

/-- The text is a literal of the integer; one with a minus sign only if the type has signs. -/
def Reads (i : IntegerType) (s : String) (n : Int) : Prop :=
  ∃ l : IntegerLiteral, l.Spells i.signed s ∧ l.value = n

end IntegerType

/-- The integer type of a scalar; none if its values are no integers. -/
def Scalar.integerType? : Scalar → Option IntegerType
  | int32 | sfixed32 | sint32 => some ⟨true, 32, .int32⟩
  | int64 | sfixed64 | sint64 => some ⟨true, 64, .int64⟩
  | uint32 | fixed32 => some ⟨false, 32, .uint32⟩
  | uint64 | fixed64 => some ⟨false, 64, .uint64⟩
  | _ => none

namespace Default

/-- The range for an integer type is that of the integers it holds. -/
theorem exists_range {k : Scalar} {i : IntegerType} (h : k.integerType? = some i) :
    ∃ range, range? k = some range ∧ range.tag = i.tag ∧ decide (range.low < 0) = i.signed
      ∧ ∀ n, i.Holds n ↔ range.low ≤ n ∧ n ≤ range.high := by
  cases k <;> cases h <;>
    exact ⟨_, rfl, rfl, rfl, fun n => by
      simp [IntegerType.Holds, signed32, signed64, unsigned32, unsigned64]; omega⟩

/-- Integers are read from the literals that are short enough and in range. -/
theorem parseInteger_eq_ok_iff {range : IntegerRange} {s : String} {v : Value} :
    parseInteger range s = .ok v ↔ ∃ l, IntegerLiteral.Spells (range.low < 0) l s
      ∧ l.digits.length ≤ DefaultError.maxDigits ∧ (range.low ≤ l.value ∧ l.value ≤ range.high)
      ∧ v = range.tag l.value := by
  unfold parseInteger
  constructor
  -- Each test that the reader makes is one of the conditions.
  · intro h
    cases hl : IntegerLiteral.ofText? (range.low < 0) s with
    | none => rw [hl] at h; cases h
    | some l =>
      rw [hl] at h
      dsimp only at h
      split at h
      · cases h
      · split at h <;> cases h
        rename_i hlong hrange
        exact ⟨l, IntegerLiteral.ofText?_eq_some_iff.mp hl, Nat.le_of_not_lt hlong, hrange, rfl⟩
  · rintro ⟨l, hl, hlong, hrange, rfl⟩
    rw [IntegerLiteral.ofText?_eq_some_iff.mpr hl]
    dsimp only
    rw [if_neg (Nat.not_lt.mpr hlong), if_pos hrange]

variable {k : Scalar} {i : IntegerType} {t : StoredType}

/-- A text is read as an integer of the type that it is a literal of, unless it is overlong. -/
theorem parse_eq_ok_iff (ht : t.kind = .scalar k) (hk : k.integerType? = some i) {s : String}
    {v : Value} : parse s t = .ok v ↔ ∃ n, i.Holds n ∧ i.Reads s n
      ∧ s.toList.countP Char.isDigit ≤ DefaultError.maxDigits ∧ v = i.tag n := by
  obtain ⟨range, hrange, htag, hsigned, hholds⟩ := exists_range hk
  have hparse : parse s t = parseInteger range s := by
    rw [← parseScalar_of_range? hrange]
    unfold parse
    rw [ht]
  rw [hparse, parseInteger_eq_ok_iff, hsigned, htag]
  constructor
  · rintro ⟨l, hl, hlong, hl', rfl⟩
    exact ⟨l.value, (hholds _).mpr hl', ⟨l, hl, rfl⟩, hl.countP_eq ▸ hlong, rfl⟩
  · rintro ⟨n, hn, ⟨l, hl, rfl⟩, hlong, rfl⟩
    exact ⟨l, hl, hl.countP_eq ▸ hlong, (hholds _).mp hn, rfl⟩

/-- The other texts are all at fault themselves. -/
theorem parse_eq_badText (ht : t.kind = .scalar k) (hk : k.integerType? = some i) {s : String}
    (hs : s.toList.countP Char.isDigit ≤ DefaultError.maxDigits)
    (hno : ∀ n, i.Holds n → ¬ i.Reads s n) : parse s t = .error (.badText s) := by
  cases hp : parse s t with
  | ok v =>
    obtain ⟨n, hn, hreads, _⟩ := (parse_eq_ok_iff ht hk).mp hp
    exact absurd hreads (hno n hn)
  | error e =>
    -- Too many digits were excluded, and a group is no integer.
    rcases parse_error hp with rfl | ⟨hgroup, _⟩ | ⟨k', m, _, ⟨range, l, _, hl, rfl, hlong⟩, _⟩
    · rfl
    · rw [ht] at hgroup
      cases hgroup
      cases hk
    · rw [hl.countP_eq] at hs
      exact absurd hlong (Nat.not_lt.mpr hs)

/-- All integer values are shown alike. -/
theorem text_tag (hk : k.integerType? = some i) (n : Int) : (i.tag n).text = toString n := by
  cases k <;> cases hk <;> rfl

/-- No integer of a type has more than twenty digits. -/
theorem natAbs_lt_of_holds (hk : k.integerType? = some i) {n : Int} (hn : i.Holds n) :
    n.natAbs < 10 ^ 20 ∧ (n < 0 → i.signed = true) := by
  cases k <;> cases hk <;> simp [IntegerType.Holds] at hn ⊢ <;> omega

/-- A number of the type is written as it is read. -/
theorem reads_toString (hk : k.integerType? = some i) {n : Int} (hn : i.Holds n) :
    i.Reads (toString n) n :=
  ⟨.ofInt n, IntegerLiteral.spells_ofInt (natAbs_lt_of_holds hk hn).2, IntegerLiteral.value_ofInt n⟩

/-- An integer can be read as it is written. -/
theorem parse_text (ht : t.kind = .scalar k) (hk : k.integerType? = some i) {n : Int}
    (hn : i.Holds n) : parse (i.tag n).text t = .ok (i.tag n) := by
  obtain ⟨hsmall, hsign⟩ := natAbs_lt_of_holds hk hn
  have hdigits : (toString n).toList.countP Char.isDigit ≤ DefaultError.maxDigits := by
    rw [(IntegerLiteral.spells_ofInt hsign).countP_eq]
    exact (IntegerLiteral.length_ofInt_le (by decide) hsmall).trans (by decide)
  rw [text_tag hk, parse_eq_ok_iff ht hk]
  exact ⟨n, hn, reads_toString hk hn, hdigits, rfl⟩

/--
**An integer default is read if and only if it is a literal of an integer of the type.**

Let a text have at most 4300 digits. A literal is a sign or none and at least one ASCII digit, with
nothing else before, between or behind; a minus sign is admitted for types with negative integers.
If the text is a literal of an integer that the type holds, it is read as this integer, in the
representation of the type. Every other text is bad, which the error says with the text in it.
Whatever the type holds is read as it is written, so a value that was read can be written and read
again.
-/
theorem parse_integer (ht : t.kind = .scalar k) (hk : k.integerType? = some i) :
    (∀ s : String, s.toList.countP Char.isDigit ≤ 4300 →
        (∀ v, parse s t = .ok v ↔ ∃ n, i.Holds n ∧ i.Reads s n ∧ v = i.tag n)
        ∧ ((∀ n, i.Holds n → ¬ i.Reads s n) → parse s t = .error (.badText s)))
      ∧ (∀ n, i.Holds n → parse (i.tag n).text t = .ok (i.tag n))
      ∧ ∀ s v, parse s t = .ok v → parse v.text t = .ok v := by
  refine ⟨fun s hs => ⟨fun v => ?_, parse_eq_badText ht hk hs⟩, fun n hn => parse_text ht hk hn, ?_⟩
  · rw [parse_eq_ok_iff ht hk]
    exact ⟨fun ⟨n, hn, hreads, _, hv⟩ => ⟨n, hn, hreads, hv⟩,
      fun ⟨n, hn, hreads, hv⟩ => ⟨n, hn, hreads, hs, hv⟩⟩
  · intro s v hv
    obtain ⟨n, hn, _, _, rfl⟩ := (parse_eq_ok_iff ht hk).mp hv
    exact parse_text ht hk hn

/-- Leading zeros are read and not written, and one below the least integer is too small. -/
theorem parse_integer_leastSample :
    Scalar.sint32.integerType? = some ⟨true, 32, .int32⟩
      ∧ parse "-002147483648" (.scalar .sint32) = .ok (.int32 (-2147483648))
      ∧ parse "-2147483648" (.scalar .sint32) = .ok (.int32 (-2147483648))
      ∧ parse "-2147483649" (.scalar .sint32) = .error (.badText "-2147483649") := by
  have hk : Scalar.sint32.integerType? = some ⟨true, 32, .int32⟩ := rfl
  obtain ⟨hread, hwritten, _⟩ := parse_integer (t := .scalar .sint32) rfl hk
  have hleast : IntegerType.Holds ⟨true, 32, .int32⟩ (-2147483648) := by decide
  refine ⟨hk, ?_, hwritten _ hleast, ?_⟩
  · refine ((hread "-002147483648" (by decide)).1 _).mpr ⟨_, hleast, ?_, rfl⟩
    have hdigits : "002147483648".toList.all Char.isDigit = true := by decide
    exact ⟨⟨true, "002147483648".toList⟩,
      ⟨⟨by decide, List.all_eq_true.mp hdigits⟩, Or.inl ⟨rfl, rfl, rfl⟩⟩, by decide⟩
  · refine (hread "-2147483649" (by decide)).2 fun n hn ⟨l, hl, hvalue⟩ => ?_
    have hliteral : l = ⟨true, "2147483649".toList⟩ :=
      Option.some.inj ((IntegerLiteral.ofText?_eq_some_iff.mpr hl).symm.trans (by decide))
    subst hliteral hvalue
    exact absurd hn (by decide)

end Default

end SchemaRegistry
