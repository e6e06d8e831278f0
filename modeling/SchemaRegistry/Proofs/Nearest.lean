import Mathlib.Algebra.Order.Field.Rat
import Mathlib.Algebra.Order.AbsoluteValue.Basic
import Mathlib.Order.Monotone.Basic
import Mathlib.Tactic.Linarith
import Mathlib.Tactic.Positivity
import Mathlib.Tactic.FieldSimp
import SchemaRegistry.Proofs.Rounding

/-!
# Rounding goes to the nearest number

Words are ordered as the numbers they stand for, so the numbers for which a word is the nearest lie
between the midpoints to its two neighbours. A word *covers* these numbers, with the midpoints if it
is even. Each number is covered by one word only, a greater number by no smaller word, and no other
word is nearer to what a word covers. If there was no greatest number, rounding would give the word
that covers a quotient (`covers_unbounded`); as there is one, it gives infinity in place of words
that are greater still (`RoundsTo`). The same is true of decimals, however large or small their
exponents are (`roundsTo_roundDecimal`).
-/

namespace SchemaRegistry

namespace Binary

/-- The rounded quotient is off by half the divisor at most, and by less if it is odd. -/
theorem roundHalfEven_bounds {n d : Nat} (hd : 0 < d) :
    (2 * roundHalfEven n d * d ≤ 2 * n + d ∧ 2 * n ≤ 2 * roundHalfEven n d * d + d)
      ∧ (roundHalfEven n d % 2 = 1 →
        2 * roundHalfEven n d * d < 2 * n + d ∧ 2 * n < 2 * roundHalfEven n d * d + d) := by
  have hdiv : d * (n / d) + n % d = n := Nat.div_add_mod n d
  have hmod : n % d < d := Nat.mod_lt n hd
  unfold roundHalfEven
  dsimp only
  generalize n / d = q at hdiv ⊢
  generalize n % d = r at hdiv hmod ⊢
  -- The three cases of the remainder are below, above and at half of the divisor.
  have hq : 2 * q * d = 2 * (d * q) := by ring
  have hq1 : 2 * (q + 1) * d = 2 * (d * q) + 2 * d := by ring
  split
  · rw [hq]
    omega
  · split
    · rw [hq1]
      omega
    · -- A tie, which goes to the even quotient.
      rcases Nat.mod_two_eq_zero_or_one q with heven | hodd
      · rw [heven, Nat.add_zero, hq, heven]
        omega
      · rw [hodd, hq1]
        omega

/-- The same for the quotient as a number. -/
theorem roundHalfEven_near {n d : Nat} (hd : 0 < d) :
    ((roundHalfEven n d : ℚ) - 1 / 2 ≤ n / d ∧ (n / d : ℚ) ≤ roundHalfEven n d + 1 / 2)
      ∧ (roundHalfEven n d % 2 = 1 →
        (roundHalfEven n d : ℚ) - 1 / 2 < n / d ∧ (n / d : ℚ) < roundHalfEven n d + 1 / 2) := by
  -- Each bound is one on natural numbers, divided by the denominator.
  obtain ⟨⟨hlower, hupper⟩, hodd⟩ := roundHalfEven_bounds (n := n) hd
  have hpos : (0 : ℚ) < d := by exact_mod_cast hd
  refine ⟨⟨?_, ?_⟩, fun h => ⟨?_, ?_⟩⟩
  · have hcast : (2 * roundHalfEven n d * d : ℚ) ≤ 2 * n + d := by exact_mod_cast hlower
    rw [le_div_iff₀ hpos]
    linarith
  · have hcast : (2 * n : ℚ) ≤ 2 * roundHalfEven n d * d + d := by exact_mod_cast hupper
    rw [div_le_iff₀ hpos]
    linarith
  · have hcast : (2 * roundHalfEven n d * d : ℚ) < 2 * n + d := by exact_mod_cast (hodd h).1
    rw [lt_div_iff₀ hpos]
    linarith
  · have hcast : (2 * n : ℚ) < 2 * roundHalfEven n d * d + d := by exact_mod_cast (hodd h).2
    rw [div_lt_iff₀ hpos]
    linarith

/-- Rounding does not step over a whole number. -/
theorem roundHalfEven_le {n d a : Nat} (hd : 0 < d) (h : n < a * d) : roundHalfEven n d ≤ a := by
  have hlt : 2 * roundHalfEven n d * d < (2 * a + 1) * d := by
    calc 2 * roundHalfEven n d * d ≤ 2 * n + d := (roundHalfEven_bounds hd).1.1
      _ < 2 * (a * d) + d := by omega
      _ = (2 * a + 1) * d := by ring
  have := Nat.lt_of_mul_lt_mul_right hlt
  omega

theorem le_roundHalfEven {n d a : Nat} (hd : 0 < d) (h : a * d ≤ n) : a ≤ roundHalfEven n d := by
  have hle : 2 * a * d ≤ (2 * roundHalfEven n d + 1) * d := by
    calc 2 * a * d = 2 * (a * d) := Nat.mul_assoc _ _ _
      _ ≤ 2 * n := Nat.mul_le_mul_left 2 h
      _ ≤ 2 * roundHalfEven n d * d + d := (roundHalfEven_bounds hd).1.2
      _ = (2 * roundHalfEven n d + 1) * d := by ring
  have := Nat.le_of_mul_le_mul_right hle hd
  omega

namespace Format

/-- There are numbers below one, and two words for each power of two at least. -/
structure Proper (f : Format) : Prop where
  exponentBits : 2 ≤ f.exponentBits
  fractionBits : 1 ≤ f.fractionBits

theorem proper_double : double.Proper := ⟨by decide, by decide⟩

theorem proper_single : single.Proper := ⟨by decide, by decide⟩

variable {f : Format}

/-- There is an even number of words to an exponent. -/
theorem Proper.even_binade (hf : f.Proper) : f.binade % 2 = 0 := by
  unfold binade
  obtain ⟨k, hk⟩ := Nat.exists_eq_add_of_le hf.fractionBits
  rw [hk, Nat.add_comm, Nat.pow_eq, Nat.pow_succ]
  omega

/-- The word of infinity is even, so ties at the upper end go to it. -/
theorem Proper.even_infinity (hf : f.Proper) : f.infinity % 2 = 0 := by
  unfold infinity
  rw [Nat.mul_mod, hf.even_binade, Nat.mul_zero, Nat.zero_mod]

theorem Proper.infinity_pos (hf : f.Proper) : 0 < f.infinity := by
  have hpow : 2 ^ 1 ≤ 2 ^ f.exponentBits :=
    Nat.pow_le_pow_right (by decide) (Nat.le_trans (by decide) hf.exponentBits)
  refine Nat.mul_pos ?_ f.binade_pos
  rw [Nat.pow_eq]
  omega

theorem Proper.two_le (hf : f.Proper) : 2 ≤ 2 ^ (f.exponentBits - 1) := by
  calc 2 = 2 ^ 1 := rfl
    _ ≤ 2 ^ (f.exponentBits - 1) :=
      Nat.pow_le_pow_right (by decide) (Nat.le_sub_one_of_lt hf.exponentBits)

theorem Proper.two_pow_exponentBits (hf : f.Proper) :
    2 ^ f.exponentBits = 2 * 2 ^ (f.exponentBits - 1) := by
  rw [← Nat.pow_succ', Nat.succ_eq_add_one,
    Nat.sub_add_cancel (Nat.le_of_succ_le hf.exponentBits)]

/-! ## The numbers of a format -/

variable (f) in
/-- The distance from the number of a word to the next one. -/
def step (w : Nat) : Nat := 2 ^ (w / f.binade - 1)

theorem step_pos (w : Nat) : 0 < f.step w := Nat.two_pow_pos _

/-- A word is that of a whole number of steps. -/
theorem exists_grid (w : Nat) : ∃ q, w = (w / f.binade - 1) * f.binade + q ∧ q < 2 * f.binade
    ∧ (w / f.binade - 1 = 0 ∨ f.binade ≤ q) := by
  have hdiv := Nat.div_add_mod w f.binade
  have hmod := Nat.mod_lt w f.binade_pos
  rw [Nat.mul_comm] at hdiv
  -- The words of the two least exponent fields share one step.
  cases hfield : w / f.binade with
  | zero =>
    rw [hfield, Nat.zero_mul, Nat.zero_add] at hdiv
    exact ⟨w, by rw [Nat.zero_sub, Nat.zero_mul, Nat.zero_add], by omega, Or.inl rfl⟩
  | succ e =>
    rw [hfield, Nat.add_mul, Nat.one_mul] at hdiv
    refine ⟨f.binade + w % f.binade, ?_, by omega, Or.inr (Nat.le_add_right _ _)⟩
    rw [Nat.add_sub_cancel]
    omega

/-- Neighbouring words are a step apart. -/
theorem units_succ (w : Nat) : f.units (w + 1) = f.units w + f.step w := by
  obtain ⟨q, hw, hq, hs⟩ := f.exists_grid w
  unfold step
  generalize w / f.binade - 1 = s at hw hs ⊢
  subst hw
  rw [Nat.add_assoc, f.units_grid (Nat.le_of_lt hq) hs, f.units_grid hq (hs.imp_right (by omega)),
    Nat.mul_succ]

/-- Words are ordered as their counts. -/
theorem units_strictMono : StrictMono f.units := by
  refine strictMono_nat_of_lt_succ fun w => ?_
  rw [units_succ]
  exact Nat.lt_add_of_pos_right (step_pos w)

theorem units_zero : f.units 0 = 0 := if_pos f.binade_pos

/-- Steps do not get shorter. -/
theorem step_mono {w w' : Nat} (h : w ≤ w') : f.step w ≤ f.step w' :=
  Nat.pow_le_pow_right (by decide) (Nat.sub_le_sub_right (Nat.div_le_div_right h) 1)

/-- On the grid of an exponent, steps are at least those of the grid. -/
theorem step_grid {q s : Nat} (hs : s = 0 ∨ f.binade ≤ q) :
    2 ^ s ≤ f.step (s * f.binade + q) := by
  refine Nat.pow_le_pow_right (by decide) ?_
  rcases hs with rfl | hq
  · exact Nat.zero_le _
  · refine Nat.le_sub_one_of_lt ((Nat.le_div_iff_mul_le f.binade_pos).mpr ?_)
    rw [Nat.succ_mul]
    omega

/-- The word of infinity would stand for the next power of two. -/
theorem Proper.units_infinity (hf : f.Proper) :
    f.units f.infinity = 2 ^ 2 ^ (f.exponentBits - 1) * f.resolution := by
  have hpow := hf.two_pow_exponentBits
  have htwo := hf.two_le
  -- Infinity is the word behind the greatest binade.
  have hword : f.infinity = (2 ^ f.exponentBits - 3) * f.binade + 2 * f.binade := by
    rw [← Nat.add_mul]
    unfold infinity
    congr 1
    rw [Nat.pow_eq]
    omega
  rw [hword, f.units_grid (Nat.le_refl _) (Or.inr (by omega))]
  unfold resolution scale binade
  rw [Nat.pow_eq, Nat.pow_eq, Nat.pow_eq, ← Nat.pow_succ', ← Nat.pow_add, ← Nat.pow_add]
  congr 1
  omega

/-! ## Midpoints -/

variable (f) in
/-- What lies half way between a word and the next one, counted in least positive numbers. -/
def midpoint (w : Nat) : ℚ := ((f.units w : ℚ) + f.units (w + 1)) / 2

/-- A midpoint is half a step above its word. -/
theorem midpoint_eq (w : Nat) : f.midpoint w = f.units w + f.step w / 2 := by
  unfold midpoint
  rw [units_succ]
  push_cast
  ring

/-- Midpoints are ordered as their words. -/
theorem midpoint_strictMono : StrictMono f.midpoint := by
  refine strictMono_nat_of_lt_succ fun w => ?_
  have h := f.units_strictMono (Nat.lt_succ_self w)
  have h' := f.units_strictMono (Nat.lt_succ_self (w + 1))
  have hcast : (f.units w : ℚ) < f.units (w + 1) := by exact_mod_cast h
  have hcast' : (f.units (w + 1) : ℚ) < f.units (w + 1 + 1) := by exact_mod_cast h'
  unfold midpoint
  linarith

variable (f) in
/-- The number `v`, counted in least positive numbers, lies between the midpoints on both sides of
the word, or on one of them if the word is even. -/
structure Covers (w : Nat) (v : ℚ) : Prop where
  lower : ∀ u, w = u + 1 → f.midpoint u ≤ v
  upper : v ≤ f.midpoint w
  strict : w % 2 = 1 → (∀ u, w = u + 1 → f.midpoint u < v) ∧ v < f.midpoint w

namespace Covers

variable {w w' : Nat} {v v' : ℚ}

/-- **A greater number is covered by no smaller word.** -/
theorem mono (h : f.Covers w v) (h' : f.Covers w' v') (hv : v ≤ v') : w ≤ w' := by
  by_contra hlt
  obtain ⟨u, rfl⟩ : ∃ u, w = u + 1 := ⟨w - 1, by omega⟩
  have hmid : f.midpoint w' ≤ f.midpoint u := f.midpoint_strictMono.monotone (by omega)
  have hlower := h.lower u rfl
  have hupper := h'.upper
  -- All of these are one midpoint, and of the two words beside it one is odd.
  have heq : f.midpoint w' = f.midpoint u := by linarith
  have hu : w' = u := f.midpoint_strictMono.injective heq
  subst hu
  rcases Nat.mod_two_eq_zero_or_one w' with heven | hodd
  · have := (h.strict (by omega)).1 w' rfl
    linarith
  · have := (h'.strict hodd).2
    linarith

/-- A number is covered by one word at most. -/
theorem unique (h : f.Covers w v) (h' : f.Covers w' v) : w = w' :=
  Nat.le_antisymm (h.mono h' (le_refl v)) (h'.mono h (le_refl v))

/-- A number of the format is covered by its own word. -/
theorem of_units (w : Nat) : f.Covers w (f.units w) := by
  -- Half a step lies between the value and either midpoint.
  have hupper : (f.units w : ℚ) < f.midpoint w := by
    have hstep : (0 : ℚ) < f.step w := by exact_mod_cast f.step_pos w
    rw [midpoint_eq]
    linarith
  have hlower : ∀ u, w = u + 1 → f.midpoint u < f.units w := by
    rintro u rfl
    have hstep : (0 : ℚ) < f.step u := by exact_mod_cast f.step_pos u
    rw [midpoint_eq, units_succ]
    push_cast
    linarith
  exact ⟨fun u hu => (hlower u hu).le, hupper.le, fun _ => ⟨hlower, hupper⟩⟩

/-- From the middle on, `b` is nearer than what lies at `a` or before. -/
theorem nearer_above {x a b v : ℚ} (hx : x ≤ a) (hab : a < b) :
    ((a + b) / 2 ≤ v → |b - v| ≤ |x - v|) ∧ ((a + b) / 2 < v → |b - v| < |x - v|) := by
  have hfar (hv : (a + b) / 2 ≤ v) : |x - v| = v - x := by
    rw [abs_sub_comm, abs_of_nonneg (by linarith)]
  constructor
  · intro hv
    rw [hfar hv]
    exact abs_le.mpr ⟨by linarith, by linarith⟩
  · intro hv
    rw [hfar hv.le]
    exact abs_lt.mpr ⟨by linarith, by linarith⟩

/-- Up to the middle, `a` is nearer than what lies at `b` or behind. -/
theorem nearer_below {x a b v : ℚ} (hx : b ≤ x) (hab : a < b) :
    (v ≤ (a + b) / 2 → |a - v| ≤ |x - v|) ∧ (v < (a + b) / 2 → |a - v| < |x - v|) := by
  have h := nearer_above (v := -v) (neg_le_neg hx) (neg_lt_neg hab)
  have hmiddle : (-b + -a) / 2 = -((a + b) / 2) := by ring
  rwa [hmiddle, neg_le_neg_iff, neg_lt_neg_iff, neg_sub_neg, neg_sub_neg, abs_sub_comm v,
    abs_sub_comm v] at h

/-- No word is nearer to what a word covers, and one just as near there is only if it is even. -/
theorem dist (h : f.Covers w v) {x : Nat} (hx : x ≠ w) :
    |(f.units w : ℚ) - v| ≤ |(f.units x : ℚ) - v|
      ∧ (w % 2 = 1 → |(f.units w : ℚ) - v| < |(f.units x : ℚ) - v|) := by
  have hstep (u : Nat) : (f.units u : ℚ) < f.units (u + 1) := by
    exact_mod_cast f.units_strictMono (Nat.lt_succ_self u)
  -- Any other word is on the far side of the midpoint next to `w`.
  rcases Nat.lt_or_gt_of_ne hx with hlt | hgt
  · obtain ⟨u, rfl⟩ : ∃ u, w = u + 1 := ⟨w - 1, by omega⟩
    have hmono : (f.units x : ℚ) ≤ f.units u := by
      exact_mod_cast f.units_strictMono.monotone (Nat.le_of_lt_succ hlt)
    obtain ⟨hnear, hnearer⟩ := nearer_above (v := v) hmono (hstep u)
    exact ⟨hnear (h.lower u rfl), fun hodd => hnearer ((h.strict hodd).1 u rfl)⟩
  · have hmono : (f.units (w + 1) : ℚ) ≤ f.units x := by
      exact_mod_cast f.units_strictMono.monotone (Nat.succ_le_of_lt hgt)
    obtain ⟨hnear, hnearer⟩ := nearer_below (v := v) hmono (hstep w)
    exact ⟨hnear h.upper, fun hodd => hnearer (h.strict hodd).2⟩

/-- The words from infinity on cover the numbers from the last midpoint on. -/
theorem infinity_le_iff (hf : f.Proper) (h : f.Covers w v) :
    f.infinity ≤ w ↔ f.midpoint (f.infinity - 1) ≤ v := by
  have hpos := hf.infinity_pos
  have heven := hf.even_infinity
  constructor
  · intro hle
    -- The midpoint below infinity is the least number that `w` covers.
    obtain ⟨u, rfl⟩ : ∃ u, w = u + 1 := ⟨w - 1, by omega⟩
    exact (f.midpoint_strictMono.monotone (by omega)).trans (h.lower u rfl)
  · intro hle
    -- A finite word covers nothing beyond it, and the midpoint itself goes to infinity, which is
    -- even.
    by_contra hlt
    have hmid : f.midpoint w ≤ f.midpoint (f.infinity - 1) :=
      f.midpoint_strictMono.monotone (by omega)
    have hupper := h.upper
    have heq : w = f.infinity - 1 := f.midpoint_strictMono.injective (by linarith)
    have := (h.strict (by omega)).2
    linarith

end Covers

/-! ## Rounding -/

/-- Numbers up to half the least positive one are covered by zero. -/
theorem covers_zero {v : ℚ} (hv : v ≤ 1 / 2) : f.Covers 0 v := by
  have hmid : f.midpoint 0 = 1 / 2 := by
    unfold midpoint
    rw [units_succ, units_zero]
    simp [step]
  exact ⟨nofun, hmid ▸ hv, nofun⟩

variable (f) in
/-- The word that a number, counted in least positive ones, is rounded to: the one that covers it,
or that of infinity if this is smaller. -/
def RoundsTo (v : ℚ) (w : Nat) : Prop := ∃ u, f.Covers u v ∧ w = min u f.infinity

namespace RoundsTo

variable {w w' u : Nat} {v v' : ℚ}

/-- Rounding keeps the order of numbers. -/
theorem mono (h : f.RoundsTo v w) (h' : f.RoundsTo v' w') (hv : v ≤ v') : w ≤ w' := by
  obtain ⟨u, hu, rfl⟩ := h
  obtain ⟨u', hu', rfl⟩ := h'
  exact min_le_min_right _ (hu.mono hu' hv)

theorem covers (h : f.RoundsTo v w) (hw : w < f.infinity) : f.Covers w v := by
  obtain ⟨u, hu, rfl⟩ := h
  rwa [show min u f.infinity = u by omega]

/-- A number that a finite word covers is rounded to it. -/
theorem eq_of_covers (h : f.RoundsTo v w) (hu : f.Covers u v) (hlt : u < f.infinity) : w = u := by
  obtain ⟨u', hu', rfl⟩ := h
  rw [hu'.unique hu, Nat.min_eq_left hlt.le]

theorem eq_zero (hf : f.Proper) (h : f.RoundsTo 0 w) : w = 0 :=
  h.eq_of_covers (covers_zero (by norm_num)) hf.infinity_pos

/-- What is too large for the format is rounded to infinity. -/
theorem eq_infinity (hf : f.Proper) (h : f.RoundsTo v w) (hv : f.units f.infinity ≤ v) :
    w = f.infinity := by
  obtain ⟨u, hu, rfl⟩ := h
  have hmono : (f.units (f.infinity - 1) : ℚ) ≤ f.units f.infinity := by
    exact_mod_cast f.units_strictMono.monotone (Nat.sub_le _ _)
  have hle : f.infinity ≤ u := by
    rw [hu.infinity_le_iff hf]
    unfold midpoint
    rw [Nat.sub_add_cancel hf.infinity_pos]
    linarith
  exact Nat.min_eq_right hle

end RoundsTo

/-! ## Quotients -/

variable (f) in
/-- The word that a quotient would be rounded to if there was no greatest number. -/
def unbounded (n d : Nat) : Nat :=
  f.shift (n * f.resolution / d) * f.binade
    + roundHalfEven (n * f.resolution) (d * 2 ^ f.shift (n * f.resolution / d))

theorem units_grid_cast {q s : Nat} (hq : q ≤ 2 * f.binade) (hs : s = 0 ∨ f.binade ≤ q) :
    (f.units (s * f.binade + q) : ℚ) = 2 ^ s * q := by
  rw [f.units_grid hq hs]
  push_cast
  rfl

/-- The next midpoint is half a step away at least. -/
theorem le_midpoint_grid {q s : Nat} (hq : q ≤ 2 * f.binade) (hs : s = 0 ∨ f.binade ≤ q) :
    2 ^ s * (q + 1 / 2 : ℚ) ≤ f.midpoint (s * f.binade + q) := by
  have hstep : (2 ^ s : ℚ) ≤ f.step (s * f.binade + q) := by exact_mod_cast step_grid hs
  rw [midpoint_eq, units_grid_cast hq hs]
  linarith

/-- And so is the last one, but below a power of two it may be nearer, since steps are shorter
there. -/
theorem midpoint_grid_le {q s u : Nat} (hq : q ≤ 2 * f.binade) (hs : s = 0 ∨ f.binade ≤ q)
    (hu : s * f.binade + q = u + 1) : f.midpoint u ≤ 2 ^ s * (q - 1 / 2 : ℚ)
      ∨ s ≠ 0 ∧ q = f.binade ∧ f.midpoint u < 2 ^ s * q := by
  have hbelow : f.midpoint u = 2 ^ s * q - f.step u / 2 := by
    rw [midpoint_eq, ← units_grid_cast hq hs, hu, units_succ]
    push_cast
    ring
  rw [hbelow]
  by_cases hpower : s ≠ 0 ∧ q = f.binade
  -- At a power of two the step below is half as wide, but the number is not below the power.
  · have hstep : (0 : ℚ) < f.step u := by exact_mod_cast step_pos u
    exact Or.inr ⟨hpower.1, hpower.2, by linarith⟩
  · -- The word before is that of one step less.
    have hpos := f.binade_pos
    have hpred : u = s * f.binade + (q - 1) := by
      rcases hs with rfl | hge
      · omega
      · omega
    have hstep : (2 ^ s : ℚ) ≤ f.step u := by
      rw [hpred]
      exact_mod_cast step_grid (f := f) (by omega)
    exact Or.inl (by linarith)

/-- What is within half a step of a whole number of steps is covered by their word. Below a power
of two the steps are shorter, but then the power itself is in between. -/
theorem covers_grid (hf : f.Proper) {q s : Nat} {v : ℚ} (hq : q ≤ 2 * f.binade)
    (hs : s = 0 ∨ f.binade ≤ q ∧ (2 ^ s * f.binade : ℚ) ≤ v)
    (hlower : 2 ^ s * (q - 1 / 2 : ℚ) ≤ v) (hupper : v ≤ 2 ^ s * (q + 1 / 2 : ℚ))
    (hodd : q % 2 = 1 → 2 ^ s * (q - 1 / 2 : ℚ) < v ∧ v < 2 ^ s * (q + 1 / 2 : ℚ)) :
    f.Covers (s * f.binade + q) v := by
  have hgrid : s = 0 ∨ f.binade ≤ q := hs.imp_right And.left
  -- The word and the number of steps are even together, so ties are decided alike.
  have hparity : (s * f.binade + q) % 2 = q % 2 := by
    rw [Nat.add_mod, Nat.mul_mod, hf.even_binade]
    omega
  have hnext := le_midpoint_grid hq hgrid
  have hlast : ∀ u, s * f.binade + q = u + 1 →
      f.midpoint u < v ∨ f.midpoint u ≤ 2 ^ s * (q - 1 / 2 : ℚ) := by
    intro u hu
    rcases midpoint_grid_le hq hgrid hu with hle | ⟨hs0, rfl, hlt⟩
    · exact Or.inr hle
    · exact Or.inl (hlt.trans_le (hs.resolve_left hs0).2)
  refine ⟨fun u hu => ?_, hupper.trans hnext, fun hw => ⟨fun u hu => ?_, ?_⟩⟩
  · rcases hlast u hu with hlt | hle
    · exact hlt.le
    · exact hle.trans hlower
  · rcases hlast u hu with hlt | hle
    · exact hlt
    · exact hle.trans_lt (hodd (hparity ▸ hw)).1
  · exact (hodd (hparity ▸ hw)).2.trans_le hnext

/-- **A quotient is covered by the word that it is rounded to.** -/
theorem covers_unbounded (hf : f.Proper) (n : Nat) {d : Nat} (hd : 0 < d) :
    f.Covers (f.unbounded n d) (n / d * f.resolution) := by
  have hfew := f.lt_of_shift (n * f.resolution / d)
  have hmany := fun h => f.le_of_shift_pos (v := n * f.resolution / d) h
  have hvalue : (n / d * f.resolution : ℚ) = (n * f.resolution : ℕ) / d := by
    push_cast
    ring
  unfold unbounded
  rw [hvalue]
  generalize n * f.resolution = scaled at hfew hmany ⊢
  generalize f.shift (scaled / d) = s at hfew hmany ⊢
  have hstep : 0 < d * 2 ^ s := Nat.mul_pos hd (Nat.two_pow_pos s)
  obtain ⟨⟨hlower, hupper⟩, hodd⟩ := roundHalfEven_near (n := scaled) hstep
  have hq : roundHalfEven scaled (d * 2 ^ s) ≤ 2 * f.binade := by
    refine roundHalfEven_le hstep ?_
    calc scaled < 2 ^ s * (2 * f.binade) * d := (Nat.div_lt_iff_lt_mul hd).mp hfew
      _ = 2 * f.binade * (d * 2 ^ s) := by ring
  have hgrid : s = 0 ∨ f.binade ≤ roundHalfEven scaled (d * 2 ^ s)
      ∧ (2 ^ s * f.binade : ℚ) ≤ scaled / d := by
    rcases Nat.eq_zero_or_pos s with hzero | hpos
    · exact Or.inl hzero
    · have hle := (Nat.le_div_iff_mul_le hd).mp (hmany hpos)
      refine Or.inr ⟨le_roundHalfEven hstep ?_, ?_⟩
      · calc f.binade * (d * 2 ^ s) = 2 ^ s * f.binade * d := by ring
          _ ≤ scaled := hle
      · rw [le_div_iff₀ (by exact_mod_cast hd)]
        exact_mod_cast hle
  -- The quotient counts units, and what was rounded counts steps.
  have hunits : (scaled / d : ℚ) = 2 ^ s * (scaled / (d * 2 ^ s : ℕ)) := by
    push_cast
    field_simp
  have hpos : (0 : ℚ) < 2 ^ s := by positivity
  rw [hunits] at hgrid ⊢
  exact covers_grid hf hq hgrid (mul_le_mul_of_nonneg_left hlower hpos.le)
    (mul_le_mul_of_nonneg_left hupper hpos.le) fun h =>
      ⟨mul_lt_mul_of_pos_left (hodd h).1 hpos, mul_lt_mul_of_pos_left (hodd h).2 hpos⟩

/-- **Quotients are rounded to the nearest word.** -/
theorem roundsTo_round (hf : f.Proper) (n : Nat) {d : Nat} (hd : 0 < d) :
    f.RoundsTo (n / d * f.resolution) (f.round n d) :=
  ⟨_, covers_unbounded hf n hd, rfl⟩

/-! ## Decimals -/

/-- Three binary digits do not make up for a decimal one. -/
theorem pow_eight_le (e : Nat) : 2 ^ (3 * e) ≤ 10 ^ e := by
  rw [Nat.pow_mul]
  exact Nat.pow_le_pow_left (by decide) e

/-- A significand has all the bits below its first one, and each zero behind it adds three. -/
theorem le_decimal_of_log2 {m e k : Nat} (hm : m ≠ 0) (h : k ≤ m.log2 + 3 * e) :
    2 ^ k ≤ m * 10 ^ e := by
  calc 2 ^ k ≤ 2 ^ (m.log2 + 3 * e) := Nat.pow_le_pow_right (by decide) h
    _ = 2 ^ m.log2 * 2 ^ (3 * e) := Nat.pow_add _ _ _
    _ ≤ m * 10 ^ e := Nat.mul_le_mul (Nat.log2_self_le hm) (pow_eight_le e)

/-- It has no more than the bits up to its first one, and each place takes three away. -/
theorem decimal_le_of_log2 {m e k : Nat} (h : m.log2 + k + 2 ≤ 3 * e) :
    2 * (m * 2 ^ k) ≤ 10 ^ e := by
  calc 2 * (m * 2 ^ k) ≤ 2 * (2 ^ (m.log2 + 1) * 2 ^ k) :=
      Nat.mul_le_mul_left 2 (Nat.mul_le_mul_right _ (Nat.le_of_lt Nat.lt_log2_self))
    _ = 2 ^ (m.log2 + k + 2) := by ring
    _ ≤ 2 ^ (3 * e) := Nat.pow_le_pow_right (by decide) h
    _ ≤ 10 ^ e := pow_eight_le e

/-- A decimal with zeros behind its digits is a whole number, and one too great for the format is
infinity without being computed. -/
theorem roundsTo_roundDecimal_natCast (hf : f.Proper) (m e : Nat) :
    f.RoundsTo ((m * 10 ^ e : ℕ) / (1 : ℕ) * f.resolution) (f.roundDecimal m (e : ℕ)) := by
  have hround := roundsTo_round hf (m * 10 ^ e) Nat.one_pos
  show f.RoundsTo _ (if m = 0 then 0
    else if 2 ^ (f.exponentBits - 1) ≤ m.log2 + 3 * e then f.infinity
    else f.round (m * 10 ^ e) 1)
  split
  · -- Zero is zero whatever the exponent says.
    rename_i hzero
    subst hzero
    rw [Nat.zero_mul] at hround ⊢
    rw [Nat.cast_zero, zero_div, zero_mul] at hround ⊢
    rwa [hround.eq_zero hf] at hround
  · rename_i hm
    split
    · rename_i hlarge
      have hpow : 2 ^ 2 ^ (f.exponentBits - 1) ≤ m * 10 ^ e := le_decimal_of_log2 hm hlarge
      have hbeyond : (f.units f.infinity : ℚ) ≤ (m * 10 ^ e : ℕ) / (1 : ℕ) * f.resolution := by
        rw [hf.units_infinity, Nat.cast_one, div_one]
        exact_mod_cast Nat.mul_le_mul_right _ hpow
      rwa [hround.eq_infinity hf hbeyond] at hround
    · exact hround

/-- A decimal with places behind the point is a quotient, and one of at most half the least number
of the format is zero without being computed. -/
theorem roundsTo_roundDecimal_negSucc (hf : f.Proper) (m e : Nat) :
    f.RoundsTo (m / (10 ^ (e + 1) : ℕ) * f.resolution) (f.roundDecimal m (.negSucc e)) := by
  show f.RoundsTo _ (if m.log2 + f.scale + 2 ≤ 3 * (e + 1) then 0
    else f.round m (10 ^ (e + 1)))
  split
  · rename_i hsmall
    refine ⟨0, covers_zero ?_, (Nat.zero_min _).symm⟩
    have hpow : 2 * (m * f.resolution) ≤ 10 ^ (e + 1) := decimal_le_of_log2 hsmall
    have hcast : (2 * (m * f.resolution) : ℚ) ≤ (10 ^ (e + 1) : ℕ) := by exact_mod_cast hpow
    have hpos : (0 : ℚ) < (10 ^ (e + 1) : ℕ) := by exact_mod_cast Nat.pow_pos (by decide)
    rw [div_mul_eq_mul_div, div_le_iff₀ hpos]
    linarith
  · exact roundsTo_round hf m (Nat.pow_pos (by decide))

/-- **A decimal is rounded to the word that covers it**, or to infinity if that is smaller. -/
theorem roundsTo_roundDecimal (hf : f.Proper) (m : Nat) (e : Int) :
    f.RoundsTo (m * 10 ^ e * f.resolution) (f.roundDecimal m e) := by
  cases e with
  | ofNat e =>
    have hvalue : (m * 10 ^ (Int.ofNat e) : ℚ) = (m * 10 ^ e : ℕ) / (1 : ℕ) := by
      rw [Int.ofNat_eq_natCast, zpow_natCast]
      push_cast
      ring
    rw [hvalue]
    exact roundsTo_roundDecimal_natCast hf m e
  | negSucc e =>
    have hvalue : (m * 10 ^ (Int.negSucc e) : ℚ) = m / (10 ^ (e + 1) : ℕ) := by
      rw [zpow_negSucc]
      push_cast
      rw [div_eq_mul_inv]
    rw [hvalue]
    exact roundsTo_roundDecimal_negSucc hf m e

end Format

end Binary

end SchemaRegistry
