import SchemaRegistry.Proofs.FloatDefault
import SchemaRegistry.Proofs.FloatValue

/-!
# Defaults are the nearest numbers

A decimal default of double type is the double nearest to the decimal, whatever its length and its
exponent, and that of float type is the single-precision number nearest to this double
(`parse_decimal`). Rounding twice may give another number than rounding once, but like rounding once
it keeps the order, since both steps do.
-/

namespace SchemaRegistry

open Binary Numeral
open Format (proper_double proper_single)

theorem Numeral.Decimal.value_nonneg (d : Decimal) : 0 ≤ d.value :=
  mul_nonneg (Nat.cast_nonneg _) (zpow_nonneg (by norm_num) _)

namespace Double

/-- The number that a finite double is. -/
def value (x : Double) : ℚ := signed x.negative (double.value x.word)

/-- The place of a double among all numbers and the infinities. -/
noncomputable def toEReal (x : Double) : EReal := signed x.negative (double.extended x.word)

/-- `y` is the double that `x` is rounded to in single precision: it has the sign of `x`, it is
infinite from half a step above the greatest number on, and else it is the nearest number. -/
structure RoundsToSingle (x y : Double) : Prop where
  negative : y.negative = x.negative
  infinite_iff : y.word = double.infinity ↔ x.word = double.infinity ∨ 2 ^ 128 - 2 ^ 103 ≤ |x.value|
  nearest : y.word ≠ double.infinity →
    ∃ w, single.IsNearest y.negative w x.value ∧ double.value y.word = single.value w

/-! ## Decimals -/

/-- The word of a decimal is the nearest one, within the range of the format. -/
theorem roundsTo_ofDecimal (negative : Bool) (d : Decimal) :
    double.RoundsTo (d.value * double.resolution) (ofDecimal negative d).word :=
  Format.roundsTo_roundDecimal proper_double d.significand d.exponent

theorem signed_coe (negative : Bool) (q : ℚ) :
    signed negative ((q : ℝ) : EReal) = ((signed negative q : ℚ) : ℝ) := by
  cases negative with
  | false => rfl
  | true =>
    show -((q : ℝ) : EReal) = ((-q : ℚ) : ℝ)
    push_cast
    rfl

theorem word_ofDecimal_mono {negative negative' : Bool} {d d' : Decimal}
    (h : d.value ≤ d'.value) : (ofDecimal negative d).word ≤ (ofDecimal negative' d').word :=
  (roundsTo_ofDecimal negative d).mono (roundsTo_ofDecimal negative' d')
    (mul_le_mul_of_nonneg_right h (Nat.cast_nonneg _))

/-- A zero with any number of digits is the word zero. -/
theorem word_ofDecimal_of_zero (negative : Bool) {d : Decimal} (h : d.value = 0) :
    (ofDecimal negative d).word = 0 := by
  have hround := roundsTo_ofDecimal negative d
  rw [h, zero_mul] at hround
  exact hround.eq_zero proper_double

/-- **Reading a decimal keeps the order.** -/
theorem toEReal_ofDecimal_mono {negative negative' : Bool} {d d' : Decimal}
    (h : signed negative d.value ≤ signed negative' d'.value) :
    (ofDecimal negative d).toEReal ≤ (ofDecimal negative' d').toEReal := by
  have hnonneg (d : Decimal) : 0 ≤ ((d.value : ℝ) : EReal) := by
    exact_mod_cast d.value_nonneg
  have hmono {negative negative' : Bool} {d d' : Decimal}
      (hle : ((d.value : ℝ) : EReal) ≤ ((d'.value : ℝ) : EReal)) :
      double.extended (ofDecimal negative d).word
        ≤ double.extended (ofDecimal negative' d').word :=
    Format.extended_mono proper_double (word_ofDecimal_mono (by exact_mod_cast hle))
  have hzero {negative : Bool} {d : Decimal} (hd : ((d.value : ℝ) : EReal) = 0) :
      double.extended (ofDecimal negative d).word = 0 := by
    rw [word_ofDecimal_of_zero negative (by exact_mod_cast hd),
      Format.extended_zero proper_double]
  -- Signs are put in front at the end; zero is the one value that both signs have.
  refine signed_le_signed (hnonneg d) (hnonneg d') (Format.extended_nonneg proper_double _)
    (Format.extended_nonneg proper_double _) hmono hmono hzero hzero ?_
  show signed negative ((d.value : ℝ) : EReal) ≤ signed negative' ((d'.value : ℝ) : EReal)
  rw [signed_coe, signed_coe]
  exact_mod_cast h

/-! ## Single precision -/

variable {x y : Double}

/-- The single-precision word of a number is the nearest one to its magnitude. -/
theorem roundsTo_singleWord (x : Double) :
    single.RoundsTo (double.value x.word * single.resolution) x.singleWord := by
  rw [Format.value_eq proper_double]
  exact Format.roundsTo_round proper_single (double.units x.word) double.resolution_pos

/-- Below infinity the result is the single-precision number itself, which is far from the greatest
double. -/
theorem value_word_toSingle (hx : x.word < double.infinity) (hw : x.singleWord < single.infinity) :
    x.toSingle.word < double.infinity
      ∧ double.value x.toSingle.word = single.value x.singleWord := by
  have htoSingle : x.toSingle.word
      = double.round (single.units x.singleWord) single.resolution := by
    unfold toSingle
    rw [if_neg (Nat.not_le.mpr hx), if_neg (Nat.ne_of_lt hw)]
    rfl
  have hvalue : double.value x.toSingle.word = single.value x.singleWord := by
    rw [htoSingle, Format.value_eq_value_iff proper_double proper_single]
    exact units_widen hw
  -- A double of this value is below infinity because the values are.
  refine ⟨?_, hvalue⟩
  have hlt : double.value x.toSingle.word < double.value double.infinity := by
    calc double.value x.toSingle.word = single.value x.singleWord := hvalue
      _ < single.value single.infinity := Format.value_strictMono proper_single hw
      _ = 2 ^ 128 := Format.value_infinity proper_single
      _ < 2 ^ 1024 := pow_lt_pow_right₀ (by norm_num) (by norm_num)
      _ = double.value double.infinity := (Format.value_infinity proper_double).symm
  exact (Format.value_strictMono proper_double).lt_iff_lt.mp hlt

theorem toSingle_of_infinity (hx : x.word = double.infinity) : x.toSingle = x :=
  if_pos (Nat.le_of_eq hx.symm)

/-- A number too large for single precision becomes infinity of its sign. -/
theorem toSingle_of_overflow (hx : x.word < double.infinity)
    (hw : x.singleWord = single.infinity) : x.toSingle = infinite x.negative := by
  unfold toSingle
  rw [if_neg (Nat.not_le.mpr hx), if_pos hw]

theorem negative_ofMagnitude (negative : Bool) (word : Nat) (h : word ≤ double.infinity) :
    (ofMagnitude negative word h).negative = negative := rfl

/-- Rounding keeps the sign, also that of a zero. -/
theorem negative_toSingle (x : Double) : x.toSingle.negative = x.negative := by
  unfold toSingle
  split
  · rfl
  · split
    · exact negative_ofMagnitude _ _ _
    · exact negative_ofMagnitude _ _ _

/-- Rounding runs over into infinity in both formats at once. -/
theorem extended_toSingle (hx : x.word < double.infinity) :
    double.extended x.toSingle.word = single.extended x.singleWord := by
  rcases Nat.eq_or_lt_of_le (single.round_le_infinity (double.units x.word) double.resolution)
    with hw | hw
  · rw [toSingle_of_overflow hx hw, show x.singleWord = single.infinity from hw,
      Format.extended_infinity]
    exact Format.extended_infinity
  · obtain ⟨hlt, hvalue⟩ := value_word_toSingle hx hw
    rw [Format.extended_of_lt hlt, hvalue]
    exact (Format.extended_of_lt hw).symm

theorem word_toSingle_eq_infinity_iff (hx : x.word < double.infinity) :
    x.toSingle.word = double.infinity ↔ x.singleWord = single.infinity := by
  constructor
  · intro hy
    by_contra hw
    have hle : x.singleWord ≤ single.infinity := single.round_le_infinity _ _
    exact absurd hy (Nat.ne_of_lt (value_word_toSingle hx (Nat.lt_of_le_of_ne hle hw)).1)
  · intro hw
    rw [toSingle_of_overflow hx hw]
    rfl

/-- **What a double is rounded to in single precision is nearest to it.** -/
theorem roundsToSingle (hx : x.word ≤ double.infinity) : x.RoundsToSingle x.toSingle := by
  rcases Nat.eq_or_lt_of_le hx with hinf | hlt
  · rw [toSingle_of_infinity hinf]
    -- Infinity stays, and says nothing on the bound.
    exact ⟨rfl, ⟨Or.inl, fun _ => hinf⟩, fun hfinite => absurd hinf hfinite⟩
  -- A finite double is rounded to the nearest single, or beyond the bound to infinity.
  · have hrounds : single.Rounds single.bound x.negative x.singleWord x.value :=
      (roundsTo_singleWord x).rounds proper_single (Format.value_nonneg _) x.negative
    rw [Format.bound_single] at hrounds
    refine ⟨negative_toSingle x, ?_, fun hfinite => ?_⟩
    · rw [word_toSingle_eq_infinity_iff hlt, hrounds.infinite_iff]
      exact ⟨Or.inr, fun h => h.resolve_left (Nat.ne_of_lt hlt)⟩
    · rw [ne_eq, word_toSingle_eq_infinity_iff hlt, hrounds.infinite_iff, not_le] at hfinite
      have hnearest := hrounds.nearest hfinite
      rw [negative_toSingle]
      exact ⟨_, hnearest, (value_word_toSingle hlt hnearest.lt_infinity).2⟩

/-- Rounding to single precision keeps the order of magnitudes. -/
theorem singleWord_mono (h : x.word ≤ y.word) : x.singleWord ≤ y.singleWord := by
  have hvalue := (Format.value_strictMono proper_double).monotone h
  exact (roundsTo_singleWord x).mono (roundsTo_singleWord y)
    (mul_le_mul_of_nonneg_right hvalue (Nat.cast_nonneg _))

theorem singleWord_of_zero (h : x.word = 0) : x.singleWord = 0 := by
  have hround := roundsTo_singleWord x
  rw [h, Format.value_zero proper_double, zero_mul] at hround
  exact hround.eq_zero proper_single

theorem extended_toSingle_mono (hy : y.word ≤ double.infinity) (h : x.word ≤ y.word) :
    double.extended x.toSingle.word ≤ double.extended y.toSingle.word := by
  rcases Nat.eq_or_lt_of_le hy with hinf | hlt
  · rw [toSingle_of_infinity hinf, hinf, Format.extended_infinity]
    exact le_top
  · rw [extended_toSingle hlt, extended_toSingle (Nat.lt_of_le_of_lt h hlt)]
    exact Format.extended_mono proper_single (singleWord_mono h)

/-- **Rounding to single precision keeps the order.** -/
theorem toEReal_toSingle_mono (hx : x.word ≤ double.infinity) (hy : y.word ≤ double.infinity)
    (h : x.toEReal ≤ y.toEReal) : x.toSingle.toEReal ≤ y.toSingle.toEReal := by
  have hnonneg := Format.extended_nonneg proper_double
  -- Both zeros stay what they are, so it does not matter which of them a number is compared to.
  have hzero {z : Double} (hz : double.extended z.word = 0) :
      double.extended z.toSingle.word = 0 := by
    have hword : z.word = 0 := by
      by_contra hpos
      have hlt := Format.extended_lt proper_double (Nat.pos_of_ne_zero hpos)
        proper_double.infinity_pos
      rw [Format.extended_zero proper_double, hz] at hlt
      exact lt_irrefl _ hlt
    rw [extended_toSingle (hword ▸ proper_double.infinity_pos), singleWord_of_zero hword,
      Format.extended_zero proper_single]
  unfold toEReal
  rw [negative_toSingle, negative_toSingle]
  exact signed_le_signed (hnonneg _) (hnonneg _) (hnonneg _) (hnonneg _)
    (fun hle => extended_toSingle_mono hy (Format.le_of_extended_le proper_double hx hle))
    (fun hle => extended_toSingle_mono hx (Format.le_of_extended_le proper_double hy hle))
    hzero hzero h

end Double

/-! ## Defaults -/

namespace Default

variable {t u : StoredType}

/-- A decimal default is read with all its digits before anything is rounded. -/
theorem parse_of_isDecimal (ht : t.kind = .scalar .double) (hu : u.kind = .scalar .float)
    {s : String} {negative : Bool} {q : ℚ} (h : IsDecimal s.toList negative q) :
    ∃ d : Decimal, d.value = q ∧ parse s t = .ok (.double (.ofDecimal negative d))
      ∧ parse s u = .ok (.float (Double.ofDecimal negative d).toSingle) := by
  obtain ⟨d, hd, hvalue⟩ := FloatLiteral.ofChars?_of_isDecimal h
  have hliteral : FloatLiteral.ofText? s = some (.decimal negative d) := hd
  refine ⟨d, hvalue, ?_, ?_⟩
  · rw [parse_double ht]
    exact parseFloat_eq_ok_iff.mpr ⟨_, hliteral, rfl⟩
  · rw [parse_single hu]
    exact parseFloat_eq_ok_iff.mpr ⟨_, hliteral, rfl⟩

/--
**The default that a decimal spells is the nearest number.**

As a double it is the one nearest to the decimal, the one with the even significand if two are
nearest, and infinity if and only if the decimal is at least half a step above the greatest double.
In single precision it is the number nearest to that double in the same way. The sign is the one
that is written, also that of a zero. A greater decimal never gives a smaller default.
-/
theorem parse_decimal (ht : t.kind = .scalar .double) (hu : u.kind = .scalar .float) :
    (∀ s negative q, IsDecimal s.toList negative q →
      ∃ x y, parse s t = .ok (.double x) ∧ parse s u = .ok (.float y) ∧ x.negative = negative
        ∧ double.Rounds (2 ^ 1024 - 2 ^ 970) negative x.word (signed negative q)
        ∧ x.RoundsToSingle y)
      ∧ ∀ s s' negative negative' q q' x x' y y', IsDecimal s.toList negative q →
        IsDecimal s'.toList negative' q' → signed negative q ≤ signed negative' q' →
        parse s t = .ok (.double x) → parse s' t = .ok (.double x') →
        parse s u = .ok (.float y) → parse s' u = .ok (.float y') →
        x.toEReal ≤ x'.toEReal ∧ y.toEReal ≤ y'.toEReal := by
  constructor
  · intro s negative q h
    obtain ⟨d, rfl, hdouble, hsingle⟩ := parse_of_isDecimal ht hu h
    -- The double is rounded from the decimal, and the single from the double.
    refine ⟨_, _, hdouble, hsingle, rfl, ?_, ?_⟩
    · rw [← Format.bound_double]
      exact (Double.roundsTo_ofDecimal negative d).rounds proper_double d.value_nonneg negative
    · exact Double.roundsToSingle (double.roundDecimal_le_infinity _ _)
  · intro s s' negative negative' q q' x x' y y' h h' hle hx hx' hy hy'
    obtain ⟨d, rfl, hdouble, hsingle⟩ := parse_of_isDecimal ht hu h
    obtain ⟨d', rfl, hdouble', hsingle'⟩ := parse_of_isDecimal ht hu h'
    -- What is read is what the decimals round to, so that monotone rounding is enough.
    cases hdouble.symm.trans hx
    cases hdouble'.symm.trans hx'
    cases hsingle.symm.trans hy
    cases hsingle'.symm.trans hy'
    have hmono := Double.toEReal_ofDecimal_mono hle
    exact ⟨hmono, Double.toEReal_toSingle_mono (double.roundDecimal_le_infinity _ _)
      (double.roundDecimal_le_infinity _ _) hmono⟩

/-- A number far below the least double, which leaves its sign to a zero. -/
theorem parse_decimal_underflowSample :
    ∃ x x' y y', parse "-1e-400" (.scalar .double) = .ok (.double x)
      ∧ parse ".1" (.scalar .double) = .ok (.double x')
      ∧ parse "-1e-400" (.scalar .float) = .ok (.float y)
      ∧ parse ".1" (.scalar .float) = .ok (.float y')
      ∧ x.negative = true ∧ double.Rounds (2 ^ 1024 - 2 ^ 970) true x.word (-10 ^ (-400 : ℤ))
      ∧ x.RoundsToSingle y ∧ x.toEReal ≤ x'.toEReal ∧ y.toEReal ≤ y'.toEReal := by
  obtain ⟨hread, hmono⟩ := parse_decimal (t := .scalar .double) (u := .scalar .float) rfl rfl
  have hsmall : IsDecimal "-1e-400".toList true (10 ^ (-400 : ℤ)) := by
    have hone : IsMantissa ['1'] 1 := Nat.cast_one (R := ℚ) ▸ .whole (by decide)
    have hexponent : IsExponent ('e' :: (['-'] ++ ['4', '0', '0'])) (-400) :=
      .some (Or.inl rfl) .minus (by decide)
    exact ⟨['-'], ['1'], _, 1, -400, .minus, hone, hexponent, by decide, (one_mul _).symm⟩
  have htenth : IsDecimal ".1".toList false (1 / 10) := by
    have hfraction : IsMantissa ['.', '1'] ((1 : ℕ) / 10 ^ 1) := .fraction (by decide)
    exact ⟨[], ['.', '1'], [], _, 0, .none, hfraction, .none, by decide, by norm_num⟩
  obtain ⟨x, y, hx, hy, hnegative, hrounds, hsingle⟩ := hread _ _ _ hsmall
  obtain ⟨x', y', hx', hy', _⟩ := hread _ _ _ htenth
  -- The one is negative, if barely, and the other is not.
  have hle : signed true ((10 : ℚ) ^ (-400 : ℤ)) ≤ signed false (1 / 10) := by
    have hpos : (0 : ℚ) < 10 ^ (-400 : ℤ) := zpow_pos (by norm_num) _
    show -((10 : ℚ) ^ (-400 : ℤ)) ≤ 1 / 10
    linarith
  obtain ⟨hdouble, hfloat⟩ :=
    hmono _ _ _ _ _ _ x x' y y' hsmall htenth hle hx hx' hy hy'
  exact ⟨x, x', y, y', hx, hx', hy, hy', hnegative, hrounds, hsingle, hdouble, hfloat⟩

end Default

end SchemaRegistry
