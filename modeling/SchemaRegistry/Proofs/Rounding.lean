import Mathlib.Algebra.Ring.Nat
import Mathlib.Tactic.ByContra
import Mathlib.Tactic.Ring
import SchemaRegistry.Binary.Double

/-!
# Numbers that need no rounding

What a format can hold exactly it rounds to itself (`units_round`). The significand of a number has
at most one bit more than the fraction field of its format, so the number fits into any format with
wider fields, and every single-precision number is one of double precision. Rounding to single
precision and giving the result as a double therefore stays in single precision, unless it runs over
into infinity (`Double.isSingle_toSingle`).
-/

namespace SchemaRegistry

namespace Binary

/-- A fraction that is a whole number is not rounded. -/
theorem roundHalfEven_mul {d : Nat} (hd : 0 < d) (q : Nat) : roundHalfEven (d * q) d = q := by
  unfold roundHalfEven
  rw [Nat.mul_div_cancel_left q hd, Nat.mul_mod_right]
  exact if_pos hd

namespace Format

variable (f : Format)

theorem binade_pos : 0 < f.binade := Nat.two_pow_pos f.fractionBits

theorem resolution_pos : 0 < f.resolution := Nat.two_pow_pos f.scale

/-- A finer format divides the unit by a power of two. -/
theorem resolution_of_scale {f g : Format} {k : Nat} (h : g.scale = f.scale + k) :
    g.resolution = f.resolution * 2 ^ k := by
  unfold resolution
  rw [h]
  exact Nat.pow_add 2 f.scale k

/-- The step between neighbours near a count of units is two to this power. -/
def shift (v : Nat) : Nat := v.log2 - f.fractionBits

/-- The number of steps in a count has at most one bit more than the fraction field. -/
theorem lt_of_shift (v : Nat) : v < 2 ^ f.shift v * (2 * f.binade) := by
  have hexponent : v.log2 + 1 ≤ f.shift v + (1 + f.fractionBits) := by unfold shift; omega
  calc v < 2 ^ (v.log2 + 1) := Nat.lt_log2_self
    _ ≤ 2 ^ (f.shift v + (1 + f.fractionBits)) := Nat.pow_le_pow_right (by decide) hexponent
    _ = 2 ^ f.shift v * (2 * f.binade) := by rw [Nat.pow_add, Nat.pow_add, Nat.pow_one]; rfl

/-- And it has that many, unless the step is the least. -/
theorem le_of_shift_pos {v : Nat} (h : 0 < f.shift v) : 2 ^ f.shift v * f.binade ≤ v := by
  have hexponent : f.shift v + f.fractionBits = v.log2 := by unfold shift at h ⊢; omega
  have hv : v ≠ 0 := by
    rintro rfl
    unfold shift at h
    rw [Nat.log2_zero] at h
    omega
  calc 2 ^ f.shift v * f.binade = 2 ^ v.log2 := by rw [← hexponent, Nat.pow_add]; rfl
    _ ≤ v := Nat.log2_self_le hv

/-- Shifting a count of few enough bits by `k` leaves the step at most `2 ^ k`. -/
theorem shift_le {m : Nat} (hm : m < 2 * f.binade) (k : Nat) : f.shift (m * 2 ^ k) ≤ k := by
  by_contra hlt
  have hmul := f.le_of_shift_pos (v := m * 2 ^ k) (by omega)
  -- A greater step would need a greater significand.
  have hstep : 2 ^ (k + 1) ≤ 2 ^ f.shift (m * 2 ^ k) := Nat.pow_le_pow_right (by decide) (by omega)
  have hle : 2 ^ k * (2 * f.binade) ≤ 2 ^ k * m := by
    calc 2 ^ k * (2 * f.binade) = 2 ^ (k + 1) * f.binade := by rw [Nat.pow_succ, Nat.mul_assoc]
      _ ≤ 2 ^ f.shift (m * 2 ^ k) * f.binade := Nat.mul_le_mul_right _ hstep
      _ ≤ 2 ^ k * m := by rwa [Nat.mul_comm (2 ^ k)]
  exact absurd (Nat.le_of_mul_le_mul_left hle (Nat.two_pow_pos k)) (by omega)

/-- A whole number of steps is what its word stands for, up to the next power of two. -/
theorem units_grid {q s : Nat} (hq : q ≤ 2 * f.binade) (hs : s = 0 ∨ f.binade ≤ q) :
    f.units (s * f.binade + q) = 2 ^ s * q := by
  have hpos := f.binade_pos
  unfold units
  by_cases hlt : q < f.binade
  · -- Below the first full binade the step is the least, and the word is the count.
    have hzero : s = 0 := hs.resolve_right (Nat.not_le.mpr hlt)
    subst hzero
    simp [hlt]
  · obtain ⟨r, rfl⟩ := Nat.exists_eq_add_of_le (Nat.le_of_not_lt hlt)
    have hword : s * f.binade + (f.binade + r) = r + f.binade * (s + 1) := by
      rw [Nat.mul_add, Nat.mul_one, Nat.mul_comm]
      omega
    have hbinade : ¬ r + f.binade * (s + 1) < f.binade := by
      rw [Nat.mul_add, Nat.mul_one]
      omega
    rw [hword, if_neg hbinade, Nat.add_mul_div_left _ _ hpos, Nat.add_mul_mod_self_left]
    by_cases hr : r < f.binade
    · rw [Nat.div_eq_of_lt hr, Nat.mod_eq_of_lt hr, Nat.zero_add, Nat.add_sub_cancel, Nat.mul_comm]
      rfl
    · -- The significand has run over into the exponent.
      have hr : r = f.binade := by omega
      subst hr
      rw [Nat.div_self hpos, Nat.mod_self, Nat.add_zero, Nat.add_comm 1, Nat.add_sub_cancel]
      show f.binade * 2 ^ (s + 1) = 2 ^ s * (f.binade + f.binade)
      rw [Nat.pow_succ]
      ring

/-- The same where the step is the one for the count. -/
theorem units_steps {q s : Nat} (hs : f.shift (2 ^ s * q) = s) :
    f.units (s * f.binade + q) = 2 ^ s * q := by
  have hlt : q < 2 * f.binade := by
    have h := f.lt_of_shift (2 ^ s * q)
    rw [hs] at h
    exact Nat.lt_of_mul_lt_mul_left h
  -- The shift is zero, or there are enough steps to fill a binade.
  refine f.units_grid (Nat.le_of_lt hlt) ?_
  by_cases hzero : s = 0
  · exact Or.inl hzero
  · have h := f.le_of_shift_pos (v := 2 ^ s * q) (by omega)
    rw [hs] at h
    exact Or.inr (Nat.le_of_mul_le_mul_left h (Nat.two_pow_pos s))

/-- **What can be held exactly is not rounded.** -/
theorem units_round {n d m k : Nat} (hd : 0 < d) (hm : m < 2 * f.binade)
    (hk : k + 2 < 2 ^ f.exponentBits) (hn : n * f.resolution = d * (m * 2 ^ k)) :
    f.units (f.round n d) = m * 2 ^ k := by
  have hle := f.shift_le hm k
  have hlt := f.lt_of_shift (m * 2 ^ k)
  have hround : f.round n d = min (f.shift (m * 2 ^ k) * f.binade
      + roundHalfEven (d * (m * 2 ^ k)) (d * 2 ^ f.shift (m * 2 ^ k))) f.infinity := by
    unfold round
    dsimp only
    rw [hn, Nat.mul_div_cancel_left _ hd]
    rfl
  obtain ⟨q, hq⟩ : 2 ^ f.shift (m * 2 ^ k) ∣ m * 2 ^ k :=
    Nat.dvd_trans (Nat.pow_dvd_pow 2 hle) (Nat.dvd_mul_left _ m)
  generalize hs : f.shift (m * 2 ^ k) = s at *
  rw [hq] at hs hlt hround ⊢
  rw [← Nat.mul_assoc, roundHalfEven_mul (Nat.mul_pos hd (Nat.two_pow_pos s))] at hround
  -- The word is below that of infinity.
  have hfinite : s * f.binade + q ≤ f.infinity := by
    have hq' := Nat.lt_of_mul_lt_mul_left hlt
    calc s * f.binade + q ≤ s * f.binade + 2 * f.binade := by omega
      _ = (s + 2) * f.binade := (Nat.add_mul _ _ _).symm
      _ ≤ f.infinity := Nat.mul_le_mul_right _ (Nat.le_sub_one_of_lt (by
        show s + 2 < 2 ^ f.exponentBits
        omega))
  rw [hround, Nat.min_eq_left hfinite]
  exact f.units_steps hs

/-- A finite word stands for a significand with one bit more than the fraction field, times a power
of two. -/
theorem exists_units {w : Nat} (hw : w < f.infinity) :
    ∃ m k, f.units w = m * 2 ^ k ∧ m < 2 * f.binade ∧ k + 1 < 2 ^ f.exponentBits := by
  have hpos := f.binade_pos
  have hfield : w / f.binade < 2 ^ f.exponentBits - 1 :=
    Nat.div_lt_of_lt_mul (by rw [Nat.mul_comm]; exact hw)
  have hexponents := Nat.zero_lt_of_lt hfield
  unfold units
  split
  -- A subnormal word is its own count of the least units.
  · rename_i hlt
    exact ⟨w, 0, (Nat.mul_one w).symm, by omega, by omega⟩
  · have hmod := Nat.mod_lt w hpos
    refine ⟨f.binade + w % f.binade, w / f.binade - 1, rfl, by omega, ?_⟩
    generalize w / f.binade = e at hfield ⊢
    omega

end Format

/-- **Every number of single precision is one of double precision.** -/
theorem units_widen {w : Nat} (hw : w < single.infinity) :
    double.units (double.round (single.units w) single.resolution) * single.resolution
      = single.units w * double.resolution := by
  obtain ⟨m, k, hunits, hm, hk⟩ := single.exists_units hw
  have hgap : double.scale = single.scale + 925 := by decide
  have hscale := Format.resolution_of_scale hgap
  have hm' : m < 2 * double.binade := Nat.lt_trans hm (by decide)
  -- The exponents of singles lie well inside those of doubles, so nothing is rounded.
  have hk' : k + 925 + 2 < 2 ^ double.exponentBits := by
    have : k + 1 < 2 ^ 8 := hk
    show k + 925 + 2 < 2 ^ 11
    omega
  have hn : m * 2 ^ k * double.resolution = single.resolution * (m * 2 ^ (k + 925)) := by
    rw [hscale, Nat.pow_add, ← Nat.mul_assoc m, Nat.mul_left_comm]
  rw [hunits, double.units_round single.resolution_pos hm' hk' hn, hn, Nat.mul_comm]

end Binary

open Binary

/-- The number is one that single precision can hold, or it is infinite or NaN. -/
def Double.IsSingle (x : Double) : Prop :=
  double.infinity ≤ x.word
    ∨ ∃ w < single.infinity, double.units x.word * single.resolution
      = single.units w * double.resolution

/-- Rounding to single precision gives a single. -/
theorem Double.isSingle_toSingle (x : Double) : x.toSingle.IsSingle := by
  unfold toSingle
  split
  · rename_i hinf
    exact Or.inl hinf
  · split
    · exact Or.inl (Nat.le_refl _)
    · rename_i hne
      have hlt : x.singleWord < single.infinity :=
        Nat.lt_of_le_of_ne (single.round_le_infinity _ _) hne
      exact Or.inr ⟨x.singleWord, hlt, units_widen hlt⟩

end SchemaRegistry
