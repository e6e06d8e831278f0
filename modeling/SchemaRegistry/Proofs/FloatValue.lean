import Mathlib.Data.EReal.Operations
import SchemaRegistry.Proofs.Nearest

/-!
# The numbers that words stand for

A word stands for a significand times a power of two (`value`), with one power for all subnormal
words and one more for each exponent after that. Of all numbers of the format, of either sign,
rounding gives the nearest one, and of two nearest ones that with the even significand; from half a
step above the greatest number on it gives infinity (`RoundsTo.rounds`). The numbers and infinity
together are in the order of their words (`extended_mono`).
-/

namespace SchemaRegistry

namespace Binary

/-- The number with the given sign and absolute value. -/
def signed {α : Type} [Neg α] (negative : Bool) (a : α) : α := if negative then -a else a

/-- A sign does not change the magnitude. -/
theorem abs_signed (negative : Bool) {a : ℚ} (ha : 0 ≤ a) : |signed negative a| = a := by
  cases negative with
  | false => exact abs_of_nonneg ha
  | true => exact (abs_neg a).trans (abs_of_nonneg ha)

theorem dist_signed_self (negative : Bool) (a b : ℚ) :
    |signed negative a - signed negative b| = |a - b| := by
  cases negative with
  | false => rfl
  | true =>
    show |-a - -b| = |a - b|
    rw [neg_sub_neg, abs_sub_comm]

/-- Numbers of different signs are as far apart as both are from zero. -/
theorem dist_signed_of_ne {negative negative' : Bool} (h : negative' ≠ negative) {a b : ℚ}
    (ha : 0 ≤ a) (hb : 0 ≤ b) : |signed negative' a - signed negative b| = a + b := by
  cases negative with
  | false =>
    have htrue : negative' = true := by simpa using h
    subst htrue
    show |-a - b| = a + b
    rw [abs_of_nonpos (by linarith)]
    ring
  | true =>
    have hfalse : negative' = false := by simpa using h
    subst hfalse
    show |a - -b| = a + b
    rw [sub_neg_eq_add, abs_of_nonneg (by linarith)]

/-- Another sign does not bring numbers together. -/
theorem dist_signed (negative negative' : Bool) {a b : ℚ} (ha : 0 ≤ a) (hb : 0 ≤ b) :
    |a - b| ≤ |signed negative' a - signed negative b| := by
  by_cases hsign : negative' = negative
  · rw [hsign, dist_signed_self]
  · rw [dist_signed_of_ne hsign ha hb]
    exact abs_le.mpr ⟨by linarith, by linarith⟩

/-- The order of signed numbers is kept if the order of absolute values is and zero stays zero. -/
theorem signed_le_signed {a a' b b' : EReal} {negative negative' : Bool} (ha : 0 ≤ a) (ha' : 0 ≤ a')
    (hb : 0 ≤ b) (hb' : 0 ≤ b') (hle : a ≤ a' → b ≤ b') (hge : a' ≤ a → b' ≤ b)
    (hzero : a = 0 → b = 0) (hzero' : a' = 0 → b' = 0)
    (h : signed negative a ≤ signed negative' a') : signed negative b ≤ signed negative' b' := by
  cases negative with
  | false =>
    cases negative' with
    | false => exact hle h
    | true =>
      -- Only zero is as small as something negative.
      have hneg : a ≤ -a' := h
      have hnonpos : -a' ≤ 0 := EReal.neg_le_zero.mpr ha'
      have ha0 : a = 0 := le_antisymm (hneg.trans hnonpos) ha
      have ha0' : a' = 0 := le_antisymm (EReal.neg_nonneg.mp (ha.trans hneg)) ha'
      show b ≤ -b'
      rw [hzero ha0, hzero' ha0', neg_zero]
  | true =>
    cases negative' with
    | false => exact (EReal.neg_le_zero.mpr hb).trans hb'
    | true => exact EReal.neg_le_neg_iff.mpr (hge (EReal.neg_le_neg_iff.mp h))

namespace Format

variable (f : Format)

/-! ## Values -/

/-- The digits of the number, with the leading one that a word of a normal number leaves out. -/
def significand (w : Nat) : Nat :=
  if w / f.binade = 0 then w % f.binade else f.binade + w % f.binade

/-- The exponent of the last digit. -/
def exponent (w : Nat) : Int :=
  max (w / f.binade) 1 - (2 ^ (f.exponentBits - 1) - 1) - f.fractionBits

/-- The number that a finite word stands for. -/
def value (w : Nat) : ℚ := f.significand w * 2 ^ f.exponent w

theorem resolution_cast_pos : (0 : ℚ) < f.resolution := by exact_mod_cast f.resolution_pos

theorem resolution_ne_zero : (f.resolution : ℚ) ≠ 0 := f.resolution_cast_pos.ne'

variable {f}

/-- A word is a significand times a power of two, counted in least positive numbers. -/
theorem units_eq (w : Nat) : f.units w = f.significand w * 2 ^ (w / f.binade - 1) := by
  unfold units significand
  -- The least exponent field has no implicit bit.
  by_cases hfield : w / f.binade = 0
  · have hlt : w < f.binade := by
      by_contra hge
      have := Nat.div_pos (Nat.le_of_not_lt hge) f.binade_pos
      omega
    rw [if_pos hlt, if_pos hfield, hfield, Nat.mod_eq_of_lt hlt]
    simp
  · have hge : ¬ w < f.binade := fun hlt => hfield (Nat.div_eq_of_lt hlt)
    rw [if_neg hge, if_neg hfield]
    rfl

/-- The value of a word is its count of least positive numbers. -/
theorem value_eq (hf : f.Proper) (w : Nat) : f.value w = f.units w / f.resolution := by
  have htwo := hf.two_le
  -- The exponent is counted from the step between subnormals.
  have hexponent : f.exponent w = ((w / f.binade - 1 : ℕ) : ℤ) - (f.scale : ℤ) := by
    have hcast : (2 ^ (f.exponentBits - 1) : ℤ) = (2 ^ (f.exponentBits - 1) : ℕ) := by
      push_cast
      rfl
    unfold exponent scale
    rw [Nat.pow_eq, hcast]
    generalize 2 ^ (f.exponentBits - 1) = p at htwo
    generalize w / f.binade = e
    omega
  unfold value resolution
  rw [hexponent, units_eq, zpow_sub₀ two_ne_zero, zpow_natCast, zpow_natCast, Nat.pow_eq]
  push_cast
  ring

theorem units_eq_value (hf : f.Proper) (w : Nat) : (f.units w : ℚ) = f.value w * f.resolution := by
  rw [value_eq hf, div_mul_cancel₀ _ f.resolution_ne_zero]

/-- Two formats have the same number if it is as many units in terms of both resolutions. -/
theorem value_eq_value_iff {g : Format} (hf : f.Proper) (hg : g.Proper) {w w' : Nat} :
    f.value w = g.value w' ↔ f.units w * g.resolution = g.units w' * f.resolution := by
  rw [value_eq hf, value_eq hg, div_eq_div_iff f.resolution_ne_zero g.resolution_ne_zero]
  exact_mod_cast Iff.rfl

theorem value_nonneg (w : Nat) : 0 ≤ f.value w :=
  mul_nonneg (Nat.cast_nonneg _) (zpow_nonneg zero_le_two _)

/-- Words are ordered as their values. -/
theorem value_strictMono (hf : f.Proper) : StrictMono f.value := by
  intro w w' h
  have hpos := f.resolution_cast_pos
  have hunits : (f.units w : ℚ) < f.units w' := by exact_mod_cast f.units_strictMono h
  rw [value_eq hf, value_eq hf]
  exact div_lt_div_of_pos_right hunits hpos

theorem value_zero (hf : f.Proper) : f.value 0 = 0 := by
  rw [value_eq hf, units_zero, Nat.cast_zero, zero_div]

/-- The word of infinity would stand for the power of two above all finite numbers. -/
theorem value_infinity (hf : f.Proper) : f.value f.infinity = 2 ^ 2 ^ (f.exponentBits - 1) := by
  rw [value_eq hf, hf.units_infinity, div_eq_iff f.resolution_ne_zero]
  push_cast
  rfl

/-- A word is even if its significand is. -/
theorem significand_mod_two (hf : f.Proper) (w : Nat) : f.significand w % 2 = w % 2 := by
  have hdvd : 2 ∣ f.binade := Nat.dvd_of_mod_eq_zero hf.even_binade
  have hmod : w % f.binade % 2 = w % 2 := Nat.mod_mod_of_dvd w hdvd
  unfold significand
  split
  · exact hmod
  · rw [Nat.add_mod, hf.even_binade, Nat.zero_add, Nat.mod_mod, hmod]

/-! ## Nearest numbers -/

variable (f) in
/-- Of the numbers of the format, the one with this sign and word is nearest to `q`; if another is
just as near, its significand is even. -/
structure IsNearest (negative : Bool) (w : Nat) (q : ℚ) : Prop where
  lt_infinity : w < f.infinity
  nearest : ∀ negative' w', w' < f.infinity →
    |signed negative (f.value w) - q| ≤ |signed negative' (f.value w') - q|
  even : ∀ negative' w', w' < f.infinity →
    signed negative' (f.value w') ≠ signed negative (f.value w) →
    |signed negative' (f.value w') - q| = |signed negative (f.value w) - q| →
    f.significand w % 2 = 0

variable (f) in
/-- The sign and the word that `q` is rounded to: those of infinity if `q` is at least `bound` in
absolute value, and those of the nearest number otherwise. -/
structure Rounds (bound : ℚ) (negative : Bool) (w : Nat) (q : ℚ) : Prop where
  infinite_iff : w = f.infinity ↔ bound ≤ |q|
  nearest : |q| < bound → f.IsNearest negative w q

variable (f) in
/-- What is half way from the greatest number to the next power of two. -/
def bound : ℚ := f.midpoint (f.infinity - 1) / f.resolution

/-- The step from the greatest number to the next power of two. -/
theorem step_greatest (hf : f.Proper) :
    f.step (f.infinity - 1) = 2 ^ (2 * 2 ^ (f.exponentBits - 1) - 3) := by
  have hpow := hf.two_pow_exponentBits
  have htwo := hf.two_le
  have hpos := f.binade_pos
  -- The greatest finite word has all but the last bit of its exponent field set.
  obtain ⟨e, he⟩ : ∃ e, 2 ^ f.exponentBits = e + 2 := ⟨2 ^ f.exponentBits - 2, by omega⟩
  have hinf : f.infinity = (e + 1) * f.binade := by
    unfold infinity
    rw [Nat.pow_eq, he]
    rfl
  have hfield : (f.infinity - 1) / f.binade = e := by
    rw [hinf]
    refine Nat.div_eq_of_lt_le ?_ (Nat.sub_lt (Nat.mul_pos (Nat.succ_pos e) hpos) Nat.one_pos)
    rw [Nat.succ_mul]
    omega
  unfold step
  rw [hfield]
  congr 1
  omega

/-- Half a step above the largest finite number, infinity begins. -/
theorem bound_eq (hf : f.Proper) : f.bound = 2 ^ 2 ^ (f.exponentBits - 1)
    - 2 ^ ((2 ^ (f.exponentBits - 1) : ℕ) - 2 - f.fractionBits : ℤ) := by
  have hlast : (f.units (f.infinity - 1) : ℚ)
      = 2 ^ 2 ^ (f.exponentBits - 1) * f.resolution - f.step (f.infinity - 1) := by
    have hunits := hf.units_infinity
    rw [← Nat.sub_add_cancel hf.infinity_pos, units_succ] at hunits
    rw [eq_sub_iff_add_eq]
    exact_mod_cast hunits
  -- Half of the step behind the greatest number is a power of two again.
  have hhalf : (2 : ℚ) ^ ((2 ^ (f.exponentBits - 1) : ℕ) - 2 - f.fractionBits : ℤ)
      * f.resolution * 2 = f.step (f.infinity - 1) := by
    have htwo := hf.two_le
    rw [step_greatest hf]
    unfold resolution scale
    rw [Nat.pow_eq, Nat.pow_eq]
    generalize 2 ^ (f.exponentBits - 1) = p at htwo
    push_cast
    rw [← zpow_natCast, ← zpow_natCast, ← zpow_add₀ two_ne_zero, ← zpow_add_one₀ two_ne_zero]
    congr 1
    omega
  unfold bound
  rw [midpoint_eq, hlast, div_eq_iff f.resolution_ne_zero, sub_mul]
  linarith

theorem bound_double : double.bound = 2 ^ 1024 - 2 ^ 970 := by
  rw [bound_eq proper_double]
  norm_num [double]

theorem bound_single : single.bound = 2 ^ 128 - 2 ^ 103 := by
  rw [bound_eq proper_single]
  norm_num [single]

variable {w : Nat} {m : ℚ}

/-- No number is nearer to what a word covers than that of the word. -/
theorem Covers.dist_value (hf : f.Proper) (h : f.Covers w (m * f.resolution)) {x : Nat}
    (hx : x ≠ w) : |f.value w - m| ≤ |f.value x - m|
      ∧ (w % 2 = 1 → |f.value w - m| < |f.value x - m|) := by
  have hpos := f.resolution_cast_pos
  -- Distances in units are those in values, up to the resolution.
  have hscale (y : Nat) :
      |(f.units y : ℚ) - m * f.resolution| = |f.value y - m| * f.resolution := by
    rw [value_eq hf, ← abs_of_pos hpos, ← abs_mul, abs_of_pos hpos]
    congr 1
    field_simp
  obtain ⟨hle, hlt⟩ := h.dist hx
  rw [hscale, hscale] at hle hlt
  exact ⟨le_of_mul_le_mul_right hle hpos, fun hodd => lt_of_mul_lt_mul_right (hlt hodd) hpos.le⟩

/-- A word whose interval covers a number is the nearest one to it, whatever the sign. -/
theorem Covers.isNearest (hf : f.Proper) (hm : 0 ≤ m) (h : f.Covers w (m * f.resolution))
    (hw : w < f.infinity) (negative : Bool) : f.IsNearest negative w (signed negative m) := by
  -- No number is nearer, and one that is as near makes the word even.
  refine ⟨hw, fun negative' w' hw' => ?_, fun negative' w' hw' hne heq => ?_⟩
  · rw [dist_signed_self]
    refine le_trans ?_ (dist_signed negative negative' (value_nonneg w') hm)
    by_cases hx : w' = w
    · rw [hx]
    · exact (h.dist_value hf hx).1
  · rw [dist_signed_self] at heq
    have hfar := dist_signed negative negative' (value_nonneg (f := f) w') hm
    rw [heq] at hfar
    rw [significand_mod_two hf]
    by_contra hne0
    have hodd : w % 2 = 1 := by omega
    by_cases hx : w' = w
    · -- The number with the other sign lies beyond zero, and zero itself is not nearer.
      subst hx
      have hsign : negative' ≠ negative := fun hsign => hne (by rw [hsign])
      have hzero := (h.dist_value hf (x := 0) (by omega)).2 hodd
      have hvalue := f.value_nonneg w'
      rw [dist_signed_of_ne hsign hvalue hm] at heq
      rw [← heq, value_zero hf, zero_sub, abs_neg, abs_of_nonneg hm] at hzero
      linarith
    · exact absurd ((h.dist_value hf hx).2 hodd) (not_lt.mpr hfar)

/-- **Rounding gives the nearest number**, and infinity only beyond all numbers. -/
theorem RoundsTo.rounds (hf : f.Proper) (hm : 0 ≤ m) (h : f.RoundsTo (m * f.resolution) w)
    (negative : Bool) : f.Rounds f.bound negative w (signed negative m) := by
  obtain ⟨u, hu, rfl⟩ := h
  have hpos := f.resolution_cast_pos
  -- Infinity is reached exactly from the bound on.
  have hbound : f.infinity ≤ u ↔ f.bound ≤ m := by
    rw [hu.infinity_le_iff hf]
    exact (div_le_iff₀ hpos).symm
  refine ⟨?_, fun hlt => ?_⟩
  · rw [abs_signed negative hm, ← hbound, min_eq_right_iff]
  · rw [abs_signed negative hm] at hlt
    have hfinite : u < f.infinity :=
      Nat.lt_of_not_le fun hle => absurd (hbound.mp hle) (not_le.mpr hlt)
    rw [Nat.min_eq_left hfinite.le]
    exact hu.isNearest hf hm hfinite negative

/-! ## Infinity among the values -/

variable (f) in
/-- The value of a word, or infinity. -/
noncomputable def extended (w : Nat) : EReal :=
  if f.infinity ≤ w then ⊤ else ((f.value w : ℝ) : EReal)

theorem extended_infinity : f.extended f.infinity = ⊤ := if_pos (Nat.le_refl _)

theorem extended_of_lt {w : Nat} (h : w < f.infinity) : f.extended w = ((f.value w : ℝ) : EReal) :=
  if_neg (Nat.not_le.mpr h)

/-- With infinity at their end, words are still ordered as their values. -/
theorem extended_lt (hf : f.Proper) {w w' : Nat} (h : w < w') (hw : w < f.infinity) :
    f.extended w < f.extended w' := by
  rw [extended_of_lt hw]
  unfold extended
  split
  · exact EReal.coe_lt_top _
  · exact EReal.coe_lt_coe_iff.mpr (Rat.cast_lt.mpr (value_strictMono hf h))

theorem extended_mono (hf : f.Proper) : Monotone f.extended := by
  intro w w' h
  by_cases hw : w < f.infinity
  · rcases Nat.eq_or_lt_of_le h with rfl | hlt
    · exact le_refl _
    · exact (extended_lt hf hlt hw).le
  · have hw' : f.infinity ≤ w' := Nat.le_trans (Nat.le_of_not_lt hw) h
    rw [show f.extended w' = ⊤ from if_pos hw']
    exact le_top

theorem le_of_extended_le (hf : f.Proper) {w w' : Nat} (hw : w ≤ f.infinity)
    (h : f.extended w ≤ f.extended w') : w ≤ w' := by
  by_contra hlt
  exact absurd (extended_lt hf (Nat.lt_of_not_le hlt) (by omega)) (not_lt.mpr h)

theorem extended_zero (hf : f.Proper) : f.extended 0 = 0 := by
  rw [extended_of_lt hf.infinity_pos, value_zero hf, Rat.cast_zero, EReal.coe_zero]

theorem extended_nonneg (hf : f.Proper) (w : Nat) : 0 ≤ f.extended w :=
  extended_zero hf ▸ extended_mono hf (Nat.zero_le w)

end Format

end Binary

end SchemaRegistry
