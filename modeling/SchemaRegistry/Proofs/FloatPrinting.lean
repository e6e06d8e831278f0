import SchemaRegistry.Proofs.FloatRounding
import SchemaRegistry.Proofs.ShortestDecimal

/-!
# Printed numbers are read back

A number is printed as the shortest decimal that is rounded to it. Wherever the layout puts the
point and whether it gives an exponent, the text is that of a decimal literal with the same value
(`exists_isMantissa_write`), so reading it rounds to the number again. In single precision the
literal is that of a double; but as this double needs no rounding, the second step leaves it alone,
and both types read back what they print (`reparse_text`).
-/

namespace SchemaRegistry

namespace Numeral

/-! ## Layouts -/

theorem isDigits_toDigits (n : Nat) : IsDigits (Nat.toDigits 10 n) :=
  ⟨Nat.toDigits_ne_nil, fun _ hc => Nat.isDigit_of_mem_toDigits (by decide) (by decide) hc⟩

/-- Digits read back as the number that they are written for. -/
theorem ofDigits_toDigits (n : Nat) : ofDigits (Nat.toDigits 10 n) = n :=
  Nat.ofDigitChars_ten_toDigits

theorem isDigit_of_mem_zeros {n : Nat} {c : Char} (h : c ∈ Layout.zeros n) : c.isDigit := by
  rw [List.eq_of_mem_replicate h]
  decide

/-- Zeros in front do not count. -/
theorem ofDigits_zeros_append (n : Nat) (ds : List Char) :
    ofDigits (Layout.zeros n ++ ds) = ofDigits ds := by
  unfold ofDigits Layout.zeros
  rw [Nat.ofDigitChars_append, Nat.ofDigitChars_replicate_zero, Nat.mul_zero]

/-- Each zero behind is a factor of ten. -/
theorem ofDigits_append_zeros (ds : List Char) (n : Nat) :
    ofDigits (ds ++ Layout.zeros n) = 10 ^ n * ofDigits ds := by
  unfold ofDigits Layout.zeros
  rw [Nat.ofDigitChars_append, Nat.ofDigitChars_replicate_zero]

namespace Layout

section

variable {ds : List Char}

/-- The point comes in front of all digits, and zeros behind it. -/
theorem isMantissa_pointBefore (hds : IsDigits ds) (n : Nat) :
    IsMantissa ('0' :: '.' :: zeros n ++ ds) (ofDigits ds * 10 ^ (-(n + ds.length : ℤ))) := by
  have hlength : (n + ds.length : ℤ) = ((zeros n ++ ds).length : ℕ) := by
    rw [List.length_append, zeros, List.length_replicate]
    push_cast
    rfl
  have hvalue : (ofDigits ds * 10 ^ (-(n + ds.length : ℤ)) : ℚ)
      = ofDigits ['0'] + ofDigits (zeros n ++ ds) / 10 ^ (zeros n ++ ds).length := by
    rw [show ofDigits ['0'] = 0 from rfl, Nat.cast_zero, zero_add, ofDigits_zeros_append, hlength,
      zpow_neg, zpow_natCast, div_eq_mul_inv]
  have hzero : IsDigits ['0'] := by decide
  rw [hvalue]
  refine .point hzero fun c hc => ?_
  rcases List.mem_append.mp hc with hc | hc
  · exact isDigit_of_mem_zeros hc
  · exact hds.2 c hc

/-- Zeros fill the gap between the digits and the point, and a last one follows. -/
theorem isMantissa_pointBehind (hds : IsDigits ds) (n : Nat) :
    IsMantissa (ds ++ zeros n ++ ['.', '0']) (ofDigits ds * 10 ^ (n : ℤ)) := by
  have hvalue : (ofDigits ds * 10 ^ (n : ℤ) : ℚ)
      = ofDigits (ds ++ zeros n) + ofDigits ['0'] / 10 ^ ['0'].length := by
    rw [show ofDigits ['0'] = 0 from rfl, Nat.cast_zero, zero_div, add_zero, ofDigits_append_zeros,
      zpow_natCast]
    push_cast
    ring
  rw [hvalue]
  have hlast : ∀ c ∈ ['0'], c.isDigit := List.forall_mem_singleton.mpr rfl
  refine .point ⟨List.append_ne_nil_of_left_ne_nil hds.1 _, fun c hc => ?_⟩ hlast
  rcases List.mem_append.mp hc with hc | hc
  · exact hds.2 c hc
  · exact isDigit_of_mem_zeros hc

/-- The point comes behind the first `n` digits. -/
theorem isMantissa_pointWithin (hds : IsDigits ds) {n : Nat} (hn : 0 < n) :
    IsMantissa (ds.take n ++ '.' :: ds.drop n) (ofDigits ds / 10 ^ (ds.length - n)) := by
  have hne : ¬ (ds.take n = [] ∧ ds.drop n = []) := fun hnil =>
    (List.take_eq_nil_iff.mp hnil.1).elim (Nat.ne_of_gt hn) hds.1
  have h := FloatLiteral.isMantissa_of_point (fun c hc => hds.2 c (List.mem_of_mem_take hc))
    (fun c hc => hds.2 c (List.mem_of_mem_drop hc)) hne
  rwa [List.take_append_drop, List.length_drop] at h

/-- Wherever the point is, the number is that of the digits times the power of ten. -/
theorem isMantissa_positional (hds : IsDigits ds) (e : ℤ) :
    IsMantissa (positional ds (ds.length + e)) (ofDigits ds * 10 ^ e) := by
  unfold positional
  by_cases hfront : ds.length + e ≤ 0
  · have he : e = -(((-(ds.length + e)).toNat : ℕ) + ds.length : ℤ) := by omega
    rw [if_pos hfront]
    nth_rewrite 2 [he]
    exact isMantissa_pointBefore hds _
  · rw [if_neg hfront]
    by_cases hback : ds.length ≤ (ds.length + e).toNat
    · have he : e = ((ds.length + e).toNat - ds.length : ℕ) := by omega
      rw [if_pos hback]
      nth_rewrite 2 [he]
      exact isMantissa_pointBehind hds _
    · have he : e = -((ds.length - (ds.length + e).toNat : ℕ) : ℤ) := by omega
      have hvalue : (ofDigits ds * 10 ^ e : ℚ)
          = ofDigits ds / 10 ^ (ds.length - (ds.length + e).toNat) := by
        nth_rewrite 1 [he]
        rw [zpow_neg, zpow_natCast, div_eq_mul_inv]
      rw [if_neg hback, hvalue]
      exact isMantissa_pointWithin hds (by omega)

/-- The digits of scientific writing, with a point behind the first if there are others. -/
theorem isMantissa_scientific (hds : IsDigits ds) :
    IsMantissa (ds.take 1 ++ if ds.length ≤ 1 then [] else '.' :: ds.drop 1)
      (ofDigits ds / 10 ^ (ds.length - 1)) := by
  by_cases hone : ds.length ≤ 1
  · -- A single digit has no point behind it.
    rw [if_pos hone, List.append_nil, List.take_of_length_le hone, Nat.sub_eq_zero_of_le hone,
      pow_zero, div_one]
    exact .whole hds
  · rw [if_neg hone]
    exact isMantissa_pointWithin hds Nat.one_pos

end

/-- An exponent is written with its sign, and reads back with it. -/
theorem isExponent_exponentText (l : Layout) (e : ℤ) : IsExponent ('e' :: l.exponentText e) e := by
  unfold exponentText
  dsimp only
  generalize l.exponentDigits - (Nat.toDigits 10 e.natAbs).length = n
  -- Zeros in front fill the exponent up to the least width and do not count.
  have hdigits : IsDigits (zeros n ++ Nat.toDigits 10 e.natAbs) := by
    refine ⟨List.append_ne_nil_of_right_ne_nil _ Nat.toDigits_ne_nil, fun c hc => ?_⟩
    rcases List.mem_append.mp hc with hc | hc
    · exact isDigit_of_mem_zeros hc
    · exact (isDigits_toDigits _).2 c hc
  have hvalue : ofDigits (zeros n ++ Nat.toDigits 10 e.natAbs) = e.natAbs := by
    rw [ofDigits_zeros_append, ofDigits_toDigits]
  by_cases hneg : e < 0
  · rw [if_pos hneg]
    have h : IsExponent ('e' :: (['-'] ++ (zeros n ++ Nat.toDigits 10 e.natAbs))) _ :=
      .some (Or.inl rfl) .minus hdigits
    rwa [hvalue, if_pos rfl, show -(e.natAbs : ℤ) = e by omega] at h
  · rw [if_neg hneg]
    have h : IsExponent ('e' :: (['+'] ++ (zeros n ++ Nat.toDigits 10 e.natAbs))) _ :=
      .some (Or.inl rfl) .plus hdigits
    rwa [hvalue, if_neg (by decide), show (e.natAbs : ℤ) = e by omega] at h

/-- **What is written for a decimal is a literal of the same value.** -/
theorem exists_isMantissa_write (l : Layout) (d : Decimal) :
    ∃ m x q e, l.write d = m ++ x ∧ IsMantissa m q ∧ IsExponent x e ∧ d.value = q * 10 ^ e := by
  have hds := isDigits_toDigits d.significand
  have hvalue := ofDigits_toDigits d.significand
  unfold write Decimal.value
  dsimp only
  generalize Nat.toDigits 10 d.significand = ds at hds hvalue ⊢
  rw [← hvalue]
  -- Within the limits of the layout there is no exponent; outside the first digit stands alone.
  split
  · exact ⟨_, [], _, 0, (List.append_nil _).symm, isMantissa_positional hds _, .none,
      by rw [zpow_zero, mul_one]⟩
  · refine ⟨_, _, _, _, rfl, isMantissa_scientific hds, isExponent_exponentText l _, ?_⟩
    have hpos := List.length_pos_iff.mpr hds.1
    have hexponent : (ds.length : ℤ) + d.exponent - 1 = (ds.length - 1 : ℕ) + d.exponent := by omega
    rw [hexponent, zpow_add₀ (by norm_num), zpow_natCast]
    field_simp

end Layout

end Numeral

open Binary Numeral
open Format (proper_double proper_single)

/-! ## Reading back -/

namespace Double

variable {x : Double}

/-- A number is its sign and its word. -/
theorem ext_word {x y : Double} (hnegative : x.negative = y.negative) (hword : x.word = y.word) :
    x = y := by
  cases x
  cases y
  cases hnegative
  cases hword
  rfl

theorem text_of_isNaN (hx : x.isNaN = true) : x.text = "nan" := if_pos hx

/-- The text of a number is a sign, if it is negative, and the text of its magnitude. -/
theorem toList_text (hx : x.isNaN = false) :
    x.text.toList = (if x.negative then ['-'] else []) ++ magnitudeText x.word := by
  unfold text
  rw [if_neg (by rw [hx]; decide)]
  exact String.toList_ofList

theorem isSign_of_negative (negative : Bool) :
    IsSign (if negative then ['-'] else []) negative := by
  cases negative with
  | false => exact .none
  | true => exact .minus

/-- An infinity is shown by its word. -/
theorem isInfinity_text (hx : x.word = double.infinity) : IsInfinity x.text.toList x.negative := by
  rw [toList_text (decide_eq_false (Nat.not_lt.mpr (Nat.le_of_eq hx)))]
  refine Or.inl ⟨_, ['i', 'n', 'f'], isSign_of_negative _, by decide, ?_⟩
  rw [show magnitudeText x.word = ['i', 'n', 'f'] from if_pos hx]

/-- **The text of a finite number is a decimal that is rounded to the number.** -/
theorem exists_isDecimal_text (hx : x.word < double.infinity) :
    ∃ d : Decimal, IsDecimal x.text.toList x.negative d.value
      ∧ double.Covers x.word (d.value * double.resolution) := by
  -- Zero has a text of its own, since no digits are the shortest for it.
  have hmagnitude : ∃ d : Decimal, magnitudeText x.word = layout.write d
      ∧ double.Covers x.word (d.value * double.resolution) := by
    unfold magnitudeText
    rw [if_neg (Nat.ne_of_lt hx)]
    by_cases hzero : x.word = 0
    · rw [if_pos hzero, hzero]
      refine ⟨_, rfl, Format.covers_zero ?_⟩
      rw [Decimal.value, Nat.cast_zero, zero_mul, zero_mul]
      norm_num
    · rw [if_neg hzero]
      have hshortest := Format.isShortest_shortest proper_double (by decide)
        (Nat.pos_of_ne_zero hzero) hx
      exact ⟨_, rfl, (Format.roundDecimal_eq_iff proper_double hx).mp hshortest.reads⟩
  obtain ⟨d, hwrite, hcovers⟩ := hmagnitude
  obtain ⟨m, p, q, e, htext, hm, hp, hvalue⟩ := layout.exists_isMantissa_write d
  refine ⟨d, ⟨_, m, p, q, e, isSign_of_negative x.negative, hm, hp, ?_, hvalue⟩, hcovers⟩
  rw [toList_text (decide_eq_false (Nat.not_lt.mpr hx.le)), hwrite, htext]

/-- The decimal that is read for a covered value is the number itself. -/
theorem ofDecimal_eq_of_covers {d : Decimal} (hx : x.word < double.infinity)
    (h : double.Covers x.word (d.value * double.resolution)) : ofDecimal x.negative d = x :=
  ext_word rfl ((roundsTo_ofDecimal x.negative d).eq_of_covers h hx)

/-- A number that needs no rounding is not changed by it. -/
theorem toSingle_of_isSingle (h : x.IsSingle) : x.toSingle = x := by
  rcases h with hinf | ⟨w, hw, hunits⟩
  · exact if_pos hinf
  -- The single has the same value, so narrowing rounds to it exactly.
  · by_cases hx : x.word < double.infinity
    · have hvalue : double.value x.word = single.value w :=
        (Format.value_eq_value_iff proper_double proper_single).mpr hunits
      have hword : x.singleWord = w := by
        have hround := roundsTo_singleWord x
        rw [hvalue] at hround
        exact hround.eq_of_covers (Format.covers_value proper_single w) hw
      have hsame := (value_word_toSingle hx (hword ▸ hw)).2
      rw [hword, ← hvalue] at hsame
      exact ext_word (negative_toSingle x)
        ((Format.value_strictMono proper_double).injective hsame)
    · exact if_pos (Nat.le_of_not_lt hx)

end Double

/-! ## Defaults -/

namespace Numeral.FloatLiteral

/-- **The text of a number is a literal of this number.** -/
theorem exists_ofText?_text {x : Double} (hx : x.isNaN = false) :
    ∃ l, ofText? x.text = some l ∧ l.toDouble = x := by
  have hle : x.word ≤ double.infinity := Nat.le_of_not_lt (of_decide_eq_false hx)
  rcases Nat.eq_or_lt_of_le hle with hinf | hlt
  · exact ⟨_, ofChars?_of_isInfinity (Double.isInfinity_text hinf), Double.ext_word rfl hinf.symm⟩
  · obtain ⟨d, hdecimal, hcovers⟩ := Double.exists_isDecimal_text hlt
    obtain ⟨d', hliteral, hvalue⟩ := ofChars?_of_isDecimal hdecimal
    exact ⟨_, hliteral, Double.ofDecimal_eq_of_covers hlt (hvalue ▸ hcovers)⟩

theorem ofText?_nan : ofText? "nan" = some .nan := by decide

/-- A literal is read as the one NaN or as a number. -/
theorem toDouble_eq_nan_or (l : FloatLiteral) : l.toDouble = .nan ∨ l.toDouble.isNaN = false := by
  cases l with
  | decimal negative d => exact Or.inr (Double.isNaN_ofDecimal negative d)
  | infinity negative => exact Or.inr (Double.isNaN_infinite negative)
  | nan => exact Or.inl rfl

end Numeral.FloatLiteral

namespace Default

variable {t u : StoredType}

/-- **The text of a number reads back as the number.** -/
theorem parseFloat_text {x : Double} (hx : x.isNaN = false) (tag : Double → Value) :
    parseFloat x.text tag = .ok (tag x) := by
  obtain ⟨l, hl, rfl⟩ := FloatLiteral.exists_ofText?_text hx
  exact parseFloat_eq_ok_iff.mpr ⟨l, hl, rfl⟩

/-- Every NaN reads back as the one that the word stands for. -/
theorem parseFloat_text_of_isNaN {x : Double} (hx : x.isNaN = true) (tag : Double → Value) :
    parseFloat x.text tag = .ok (tag .nan) := by
  rw [Double.text_of_isNaN hx]
  exact parseFloat_eq_ok_iff.mpr ⟨_, FloatLiteral.ofText?_nan, rfl⟩

/-- What a literal is read as is read from its text again, if it is the one NaN or a number. -/
theorem parseFloat_text_toDouble (l : FloatLiteral) (tag : Double → Value) :
    parseFloat l.toDouble.text tag = .ok (tag l.toDouble) := by
  rcases l.toDouble_eq_nan_or with hnan | hnumber
  · rw [hnan]
    exact parseFloat_text_of_isNaN (by decide) tag
  · exact parseFloat_text hnumber tag

/--
**A floating-point value is read back from the text it is shown as.**

The text of every double is a default of double type and gives the same double, with its sign: the
infinities, the zeros, and all numbers between. It is also one of float type, and gives the double
again if that is a number of single precision. A NaN is read as the NaN. So whatever has been read
as a default of one of the types can be written and read again without a change.
-/
theorem reparse_text (ht : t.kind = .scalar .double) (hu : u.kind = .scalar .float) :
    (∀ x : Double, x.isNaN = false → parse (Value.double x).text t = .ok (.double x))
      ∧ (∀ x : Double, x.isNaN = false → x.IsSingle →
        parse (Value.float x).text u = .ok (.float x))
      ∧ (∀ x : Double, x.isNaN = true → parse (Value.double x).text t = .ok (.double .nan)
        ∧ parse (Value.float x).text u = .ok (.float .nan))
      ∧ (∀ s v, parse s t = .ok v → parse v.text t = .ok v)
      ∧ ∀ s v, parse s u = .ok v → parse v.text u = .ok v := by
  -- A single survives being narrowed again when its text is read.
  have hsingle {x : Double} (hnumber : x.isNaN = false) (hx : x.IsSingle) :
      parse x.text u = .ok (.float x) := by
    rw [parse_single hu, parseFloat_text hnumber, Double.toSingle_of_isSingle hx]
  have hnan : Double.nan.toSingle = .nan := if_pos (by decide)
  refine ⟨fun x hx => ?_, fun x hnumber hx => hsingle hnumber hx, fun x hx => ⟨?_, ?_⟩,
    fun s v hv => ?_, fun s v hv => ?_⟩
  · rw [parse_double ht]
    exact parseFloat_text hx _
  · rw [parse_double ht]
    exact parseFloat_text_of_isNaN hx _
  · rw [parse_single hu]
    exact (parseFloat_text_of_isNaN hx _).trans (by rw [hnan])
  · rw [parse_double ht] at hv ⊢
    obtain ⟨l, _, rfl⟩ := parseFloat_eq_ok_iff.mp hv
    exact parseFloat_text_toDouble l _
  · rw [parse_single hu] at hv
    obtain ⟨l, _, rfl⟩ := parseFloat_eq_ok_iff.mp hv
    rcases l.toDouble_eq_nan_or with h | h
    · rw [h, hnan, parse_single hu]
      exact (parseFloat_text_of_isNaN (by decide) _).trans (by rw [hnan])
    · exact hsingle ((Double.isNaN_toSingle _).trans h) (Double.isSingle_toSingle _)

/-- The least number of single precision, the negative zero, a NaN, and a text that is rounded. -/
theorem reparse_text_leastSample :
    parse (Value.float ⟨false, 0x36a0000000000000, by decide⟩).text (.scalar .float)
        = .ok (.float ⟨false, 0x36a0000000000000, by decide⟩)
      ∧ parse (Value.double ⟨true, 0, by decide⟩).text (.scalar .double)
        = .ok (.double ⟨true, 0, by decide⟩)
      ∧ parse (Value.double ⟨true, 0x7fffffffffffffff, by decide⟩).text (.scalar .double)
        = .ok (.double .nan)
      ∧ ∃ v, parse "0.1" (.scalar .float) = .ok v ∧ parse v.text (.scalar .float) = .ok v := by
  obtain ⟨hdouble, hsingle, hnan, _, hagain⟩ :=
    reparse_text (t := .scalar .double) (u := .scalar .float) rfl rfl
  have hleast : Double.IsSingle ⟨false, 0x36a0000000000000, by decide⟩ :=
    Or.inr ⟨1, by decide, by decide +kernel⟩
  have hliteral : FloatLiteral.ofText? "0.1" = some (.decimal false ⟨1, -1⟩) := by decide
  have htenth : parse "0.1" (.scalar .float)
      = .ok (.float (Double.ofDecimal false ⟨1, -1⟩).toSingle) := by
    rw [parse_single rfl]
    exact parseFloat_eq_ok_iff.mpr ⟨_, hliteral, rfl⟩
  exact ⟨hsingle _ (by decide) hleast, hdouble _ (by decide), (hnan _ (by decide)).1, _, htenth,
    hagain _ _ htenth⟩

end Default

end SchemaRegistry
