import Mathlib.Data.List.Basic
import SchemaRegistry.Proofs.FloatText
import SchemaRegistry.Proofs.FloatValue

/-!
# The shortest decimal is the shortest

The decimals that are rounded to a word lie between two midpoints, with the number of the word among
them. So if a multiple of a power of ten reads back, one of the two beside the number does, and it
is enough to try these (`onGrid?_eq_some`, `onGrid?_eq_none`). A decimal with a certain count of
digits is a multiple of the power of ten for this count, or else it is so far away that the power of
ten in between is shorter still (`exists_multiple`). Therefore the first count with a multiple that
reads back is the least, and as with seventeen digits there always is one, the search ends with
the shortest decimal (`isShortest_shortest`).
-/

namespace SchemaRegistry

open Numeral

/-- A search through a range finds the first place. -/
theorem exists_first_of_findSome?_range {α : Type} {find : Nat → Option α} {n : Nat} {a : α}
    (h : (List.range n).findSome? find = some a) :
    ∃ i < n, find i = some a ∧ ∀ j < i, find j = none := by
  obtain ⟨before, i, after, hrange, hi, hnone⟩ := List.findSome?_eq_some_iff.mp h
  have hmem : i ∈ List.range n := by
    rw [hrange]
    exact List.mem_append_right _ List.mem_cons_self
  have hlt := List.mem_range.mp hmem
  refine ⟨i, hlt, hi, fun j hj => hnone j ?_⟩
  -- The numbers are tried in order, so a smaller one was tried before.
  have hsorted := List.pairwise_lt_range (n := n)
  have hj' : j ∈ List.range n := List.mem_range.mpr (hj.trans hlt)
  rw [hrange] at hsorted hj'
  rcases List.mem_append.mp hj' with hmem | hmem
  · exact hmem
  · rcases List.mem_cons.mp hmem with rfl | hmem
    · exact absurd hj (Nat.lt_irrefl j)
    · have := (List.pairwise_cons.mp (List.pairwise_append.mp hsorted).2.1).1 j hmem
      omega

/-! ## Digits -/

/-- Trailing zeros go into the exponent, and the value stays. -/
theorem Numeral.Decimal.value_trim (n : Nat) (e : Int) :
    (Decimal.trim n e).value = n * 10 ^ e := by
  fun_induction Decimal.trim n e with
  | case1 n e h ih =>
    obtain ⟨k, rfl⟩ := Nat.dvd_of_mod_eq_zero h.2
    rw [ih, Nat.mul_div_cancel_left k (by decide), zpow_add_one₀ (by norm_num)]
    push_cast
    ring
  | case2 => rfl

theorem Numeral.Decimal.significand_trim_le (n : Nat) (e : Int) :
    (Decimal.trim n e).significand ≤ n := by
  fun_induction Decimal.trim n e with
  | case1 n e h ih => exact Nat.le_trans ih (Nat.div_le_self n 10)
  | case2 => exact Nat.le_refl _

/-- With one digit too many only a power of ten is left, which is trimmed. -/
theorem Numeral.Decimal.significand_trim_lt {n k : Nat} (e : Int) (h : n ≤ 10 ^ (k + 1)) :
    (Decimal.trim n e).significand < 10 ^ (k + 1) := by
  rcases Nat.eq_or_lt_of_le h with rfl | hlt
  · have hpow : 10 ^ (k + 1) ≠ 0 ∧ 10 ^ (k + 1) % 10 = 0 := by
      rw [Nat.pow_succ, Nat.mul_mod_left]
      exact ⟨Nat.mul_ne_zero (Nat.pow_pos (by decide)).ne' (by decide), rfl⟩
    rw [Decimal.trim, if_pos hpow]
    refine Nat.lt_of_le_of_lt (Decimal.significand_trim_le _ _) ?_
    exact Nat.div_lt_self (Nat.pos_of_ne_zero hpow.1) (by decide)
  · exact Nat.lt_of_le_of_lt (Decimal.significand_trim_le _ _) hlt

/-- The number of digits of a significand. -/
def Numeral.Decimal.length (d : Decimal) : Nat := (Nat.toDigits 10 d.significand).length

/-- How many digits a number has says which powers of ten it is between. -/
theorem length_toDigits_bounds {n : Nat} (hn : 0 < n) :
    10 ^ ((Nat.toDigits 10 n).length - 1) ≤ n ∧ n < 10 ^ (Nat.toDigits 10 n).length := by
  have hpos : 0 < (Nat.toDigits 10 n).length := Nat.length_toDigits_pos
  refine ⟨?_, (Nat.length_toDigits_le_iff (by decide) hpos).mp (Nat.le_refl _)⟩
  by_contra hlt
  rcases Nat.eq_zero_or_pos ((Nat.toDigits 10 n).length - 1) with hone | hmore
  · rw [hone, Nat.pow_zero] at hlt
    omega
  · have := (Nat.length_toDigits_le_iff (by decide) hmore).mpr (Nat.lt_of_not_le hlt)
    omega

theorem ten_pow_mul_zpow (j : Nat) (g : Int) : ((10 ^ j : ℕ) : ℚ) * 10 ^ g = 10 ^ (j + g) := by
  rw [zpow_add₀ (by norm_num), zpow_natCast]
  push_cast
  rfl

namespace Binary

/-! ## Between two numbers -/

/-- `a` lies between `k` and `q`, or is one of them. -/
def Between (k a q : ℚ) : Prop := k ≤ a ∧ a ≤ q ∨ q ≤ a ∧ a ≤ k

/-- What is between is at least as near. -/
theorem Between.dist {k a q : ℚ} (h : Between k a q) : |a - q| ≤ |k - q| := by
  rcases h with ⟨hka, haq⟩ | ⟨hqa, hak⟩
  · rw [abs_of_nonpos (by linarith), abs_of_nonpos (by linarith)]
    linarith
  · rw [abs_of_nonneg (by linarith), abs_of_nonneg (by linarith)]
    linarith

theorem Between.mul {k a q c : ℚ} (h : Between k a q) (hc : 0 ≤ c) :
    Between (k * c) (a * c) (q * c) :=
  h.imp (fun h => ⟨mul_le_mul_of_nonneg_right h.1 hc, mul_le_mul_of_nonneg_right h.2 hc⟩)
    fun h => ⟨mul_le_mul_of_nonneg_right h.1 hc, mul_le_mul_of_nonneg_right h.2 hc⟩

namespace Format

variable {f : Format} {w : Nat}

/-- A double covers what is between two numbers that it covers. -/
theorem Covers.convex {a b c : ℚ} (h : f.Covers w a) (h' : f.Covers w c) (hab : a ≤ b)
    (hbc : b ≤ c) : f.Covers w b := by
  refine ⟨fun u hu => (h.lower u hu).trans hab, hbc.trans h'.upper, fun hodd =>
    ⟨fun u hu => ?_, ?_⟩⟩
  · exact ((h.strict hodd).1 u hu).trans_le hab
  · exact hbc.trans_lt (h'.strict hodd).2

theorem covers_value (hf : f.Proper) (w : Nat) : f.Covers w (f.value w * f.resolution) := by
  rw [← units_eq_value hf]
  exact .of_units w

/-- What is between the number of a word and something that the word covers is covered. -/
theorem Covers.between {k a : ℚ} (hf : f.Proper) (h : f.Covers w (k * f.resolution))
    (hb : Between k a (f.value w)) : f.Covers w (a * f.resolution) := by
  rcases hb.mul f.resolution_cast_pos.le with ⟨hka, haq⟩ | ⟨hqa, hak⟩
  · exact h.convex (covers_value hf w) hka haq
  · exact (covers_value hf w).convex h hqa hak

/-! ## Decimals that read back -/

/-- A decimal is read as a double if and only if the double covers it. -/
theorem roundDecimal_eq_iff (hf : f.Proper) (hw : w < f.infinity) {m : Nat} {e : Int} :
    f.roundDecimal m e = w ↔ f.Covers w (m * 10 ^ e * f.resolution) := by
  have hround := roundsTo_roundDecimal hf m e
  constructor
  · intro h
    exact (h ▸ hround).covers hw
  · intro h
    exact hround.eq_of_covers h hw

/-- If a decimal is read as the double, so is every one that is nearer on the same side. -/
theorem roundDecimal_of_between (hf : f.Proper) (hw : w < f.infinity) {m k : Nat} {e g : Int}
    (h : f.roundDecimal m e = w) (hb : Between (m * 10 ^ e) (k * 10 ^ g) (f.value w)) :
    f.roundDecimal k g = w :=
  (roundDecimal_eq_iff hf hw).mpr (((roundDecimal_eq_iff hf hw).mp h).between hf hb)

/-- The same for multiples of one power of ten. -/
theorem between_grid {q a k : ℚ} {e : Int} (h : Between k a (q / 10 ^ e)) :
    Between (k * 10 ^ e) (a * 10 ^ e) q := by
  have hpos : (0 : ℚ) < 10 ^ e := zpow_pos (by norm_num) e
  have hmul := h.mul hpos.le
  rwa [div_mul_cancel₀ _ hpos.ne'] at hmul

theorem dist_grid_le {a k q c : ℚ} (hc : 0 < c) (h : |a - q / c| ≤ |k - q / c|) :
    |a * c - q| ≤ |k * c - q| := by
  have hscale (x : ℚ) : |x * c - q| = |x - q / c| * c := by
    rw [← abs_of_pos hc, ← abs_mul, abs_of_pos hc, sub_mul, div_mul_cancel₀ _ hc.ne']
  rw [hscale, hscale]
  exact mul_le_mul_of_nonneg_right h hc.le

/-! ## Neighbours on a grid -/

/-- The two whole numbers beside `q`, the nearer one first. -/
structure Neighbours (first second : Nat) (q : ℚ) : Prop where
  between : ∀ k : Nat, Between k first q ∨ Between k second q
  near : |first - q| ≤ |second - q|

/-- The first neighbour is the nearest of all whole numbers. -/
theorem Neighbours.dist {first second : Nat} {q : ℚ} (h : Neighbours first second q) (k : Nat) :
    |first - q| ≤ |k - q| := by
  rcases h.between k with hb | hb
  · exact hb.dist
  · exact h.near.trans hb.dist

/-- A quotient is between its floor and the next number. -/
theorem div_bounds {n d : Nat} (hd : 0 < d) :
    ((n / d : ℕ) : ℚ) ≤ n / d ∧ (n / d : ℚ) < (n / d : ℕ) + 1 := by
  have hpos : (0 : ℚ) < d := by exact_mod_cast hd
  constructor
  · rw [le_div_iff₀ hpos]
    exact_mod_cast Nat.div_mul_le_self n d
  · rw [div_lt_iff₀ hpos]
    exact_mod_cast Nat.lt_mul_of_div_lt (Nat.lt_succ_self (n / d)) hd

/-- Every whole number has one of the two around the quotient between it and the quotient. -/
theorem between_div {n d : Nat} (hd : 0 < d) (k : Nat) :
    Between k (n / d : ℕ) (n / d : ℚ) ∨ Between k (n / d + 1 : ℕ) (n / d : ℚ) := by
  obtain ⟨hbelow, habove⟩ := div_bounds (n := n) hd
  rcases Nat.lt_or_ge (n / d) k with hlt | hge
  · exact Or.inr (Or.inr ⟨by exact_mod_cast habove.le, by exact_mod_cast hlt⟩)
  · exact Or.inl (Or.inl ⟨by exact_mod_cast hge, hbelow⟩)

/-- Twice the remainder tells which of the two is nearer. -/
theorem near_div {n d : Nat} (hd : 0 < d) :
    (2 * (n % d) ≤ d → |((n / d : ℕ) : ℚ) - n / d| ≤ |((n / d + 1 : ℕ) : ℚ) - n / d|)
      ∧ (d ≤ 2 * (n % d) → |((n / d + 1 : ℕ) : ℚ) - n / d| ≤ |((n / d : ℕ) : ℚ) - n / d|) := by
  obtain ⟨hbelow, habove⟩ := div_bounds (n := n) hd
  have hpos : (0 : ℚ) < d := by exact_mod_cast hd
  -- The remainder says on which side of the middle the quotient is.
  have hmod : ((n % d : ℕ) : ℚ) = (n / d - (n / d : ℕ)) * d := by
    have hdiv : (d * (n / d : ℕ) + (n % d : ℕ) : ℚ) = n := by exact_mod_cast Nat.div_add_mod n d
    rw [sub_mul, div_mul_cancel₀ _ hpos.ne']
    linarith
  have hlow : |((n / d : ℕ) : ℚ) - n / d| = n / d - (n / d : ℕ) := by
    rw [abs_of_nonpos (by linarith), neg_sub]
  have hhigh : |((n / d + 1 : ℕ) : ℚ) - n / d| = (n / d : ℕ) + 1 - n / d := by
    push_cast
    exact abs_of_nonneg (by linarith)
  rw [hlow, hhigh]
  constructor
  · intro h
    have hcast : 2 * ((n % d : ℕ) : ℚ) ≤ d := by exact_mod_cast h
    have : 2 * ((n / d : ℚ) - (n / d : ℕ)) * d ≤ 1 * d := by linarith
    have := le_of_mul_le_mul_right this hpos
    linarith
  · intro h
    have hcast : (d : ℚ) ≤ 2 * ((n % d : ℕ) : ℚ) := by exact_mod_cast h
    have : 1 * (d : ℚ) ≤ 2 * ((n / d : ℚ) - (n / d : ℕ)) * d := by linarith
    have := le_of_mul_le_mul_right this hpos
    linarith

/-- The quotient is the value in steps of the grid. -/
theorem gridQuotient_eq (hf : f.Proper) (w : Nat) (e : Int) : 0 < (f.gridQuotient w e).2
    ∧ ((f.gridQuotient w e).1 : ℚ) / (f.gridQuotient w e).2 = f.value w / 10 ^ e := by
  rw [value_eq hf]
  -- The grid is coarser than one, or finer.
  cases e with
  | ofNat e =>
    refine ⟨Nat.mul_pos f.resolution_pos (Nat.pow_pos (by decide)), ?_⟩
    show (f.units w : ℚ) / (f.resolution * 10 ^ e : ℕ) = _
    rw [Int.ofNat_eq_natCast, zpow_natCast, div_div]
    push_cast
    rfl
  | negSucc e =>
    refine ⟨f.resolution_pos, ?_⟩
    show ((f.units w * 10 ^ (e + 1) : ℕ) : ℚ) / f.resolution = _
    rw [zpow_negSucc, div_inv_eq_mul]
    push_cast
    ring

/-- The search tries the two neighbours of the value on the grid, the nearer one first. -/
theorem exists_neighbours (hf : f.Proper) (w : Nat) (e : Int) : ∃ first second : Nat,
    Neighbours first second (f.value w / 10 ^ e)
      ∧ f.onGrid? w e = if f.roundDecimal first e = w then some ⟨first, e⟩
        else if f.roundDecimal second e = w then some ⟨second, e⟩ else none := by
  obtain ⟨hd, hquotient⟩ := gridQuotient_eq hf w e
  rw [← hquotient]
  unfold onGrid?
  generalize f.gridQuotient w e = quotient at hd ⊢
  obtain ⟨n, d⟩ := quotient
  dsimp only at hd ⊢
  simp only [decide_eq_true_eq, Bool.or_eq_true, Bool.and_eq_true]
  -- Which neighbour is tried first is decided by the remainder.
  split
  · rename_i hfirst
    exact ⟨n / d, n / d + 1, ⟨between_div hd, (near_div hd).1 (by omega)⟩, rfl⟩
  · rename_i hsecond
    exact ⟨n / d + 1, n / d, ⟨fun k => (between_div hd k).symm, (near_div hd).2 (by omega)⟩, rfl⟩

variable {e : Int} {d : Decimal}

/-- What is found on a grid reads back, and nothing else on the grid that does is nearer. -/
theorem onGrid?_eq_some (hf : f.Proper) (hw : w < f.infinity) (h : f.onGrid? w e = some d) :
    d.exponent = e ∧ f.roundDecimal d.significand e = w ∧ ∀ k, f.roundDecimal k e = w →
      |(d.significand : ℚ) - f.value w / 10 ^ e| ≤ |(k : ℚ) - f.value w / 10 ^ e| := by
  obtain ⟨first, second, hneighbours, hgrid⟩ := exists_neighbours hf w e
  rw [hgrid] at h
  split at h
  · rename_i hfirst
    cases h
    exact ⟨rfl, hfirst, fun k _ => hneighbours.dist k⟩
  · rename_i hfirst
    split at h
    · rename_i hsecond
      cases h
      refine ⟨rfl, hsecond, fun k hk => ?_⟩
      -- On the side of the first neighbour nothing reads back, as it would do so itself.
      rcases hneighbours.between k with hb | hb
      · exact absurd (roundDecimal_of_between hf hw hk (between_grid hb)) hfirst
      · exact hb.dist
    · cases h

/-- If the search fails, nothing on the grid is read as the double. -/
theorem onGrid?_eq_none (hf : f.Proper) (hw : w < f.infinity) (h : f.onGrid? w e = none) (k : Nat) :
    f.roundDecimal k e ≠ w := by
  intro hk
  obtain ⟨first, second, hneighbours, hgrid⟩ := exists_neighbours hf w e
  rw [hgrid] at h
  rcases hneighbours.between k with hb | hb
  · rw [if_pos (roundDecimal_of_between hf hw hk (between_grid hb))] at h
    cases h
  · rw [if_pos (roundDecimal_of_between hf hw hk (between_grid hb))] at h
    split at h <;> cases h

/-! ## Counting digits -/

/-- `pointOf` gives the least power of ten above the value. -/
theorem pointOf_bounds (hf : f.Proper) (hpos : 0 < w) :
    (10 : ℚ) ^ (f.pointOf w - 1) ≤ f.value w ∧ f.value w < 10 ^ f.pointOf w := by
  have hunits : 0 < f.units w := f.units_zero ▸ f.units_strictMono hpos
  -- Scaling by ten to the scale leaves a whole number: the powers of two cancel.
  have hscaled : f.units w * Nat.pow 10 f.scale / f.resolution = f.units w * 5 ^ f.scale := by
    have hten : Nat.pow 10 f.scale = 5 ^ f.scale * f.resolution := Nat.mul_pow 5 2 f.scale
    rw [hten, ← Nat.mul_assoc, Nat.mul_div_cancel _ f.resolution_pos]
  obtain ⟨hlower, hupper⟩ := length_toDigits_bounds
    (Nat.mul_pos hunits (Nat.pow_pos (by decide : 0 < 5)) : 0 < f.units w * 5 ^ f.scale)
  have hlength : 0 < (Nat.toDigits 10 (f.units w * 5 ^ f.scale)).length := Nat.length_toDigits_pos
  unfold pointOf
  dsimp only
  rw [hscaled]
  generalize (Nat.toDigits 10 (f.units w * 5 ^ f.scale)).length = length at hlower hupper hlength ⊢
  have hvalue : f.value w = (f.units w * 5 ^ f.scale : ℕ) / (10 ^ f.scale : ℕ) := by
    rw [value_eq hf, show 10 = 5 * 2 from rfl, Nat.mul_pow]
    unfold resolution
    rw [Nat.pow_eq]
    push_cast
    field_simp
  have hten : (0 : ℚ) < (10 ^ f.scale : ℕ) := by exact_mod_cast Nat.pow_pos (by decide)
  have hshift (x : ℤ) : (10 : ℚ) ^ (x - f.scale) * (10 ^ f.scale : ℕ) = 10 ^ x := by
    rw [mul_comm, ten_pow_mul_zpow, add_sub_cancel]
  have hlast : (length : ℤ) - f.scale - 1 = (length - 1 : ℕ) - f.scale := by omega
  rw [hvalue, le_div_iff₀ hten, div_lt_iff₀ hten, hlast, hshift, hshift, zpow_natCast, zpow_natCast]
  exact ⟨by exact_mod_cast hlower, by exact_mod_cast hupper⟩

/-- A decimal of few digits that lies beyond a power of ten is a multiple of what its last digit
counts for at the most. -/
theorem exists_multiple_of_lt {m n : Nat} {e p : ℤ} (hlength : (Decimal.mk m e).length ≤ n + 1)
    (hlow : (10 : ℚ) ^ (p - 1) < m * 10 ^ e) :
    ∃ k : Nat, (k : ℚ) * 10 ^ (p - (n + 1 : ℕ)) = m * 10 ^ e := by
  have hm : m < 10 ^ (n + 1) :=
    (Nat.length_toDigits_le_iff (by decide) (Nat.succ_pos n)).mp hlength
  have hexponent : p - 1 < (n + 1 : ℕ) + e := by
    have hlt : (10 : ℚ) ^ (p - 1) < 10 ^ ((n + 1 : ℕ) + e) := by
      calc (10 : ℚ) ^ (p - 1) < m * 10 ^ e := hlow
        _ ≤ (10 ^ (n + 1) : ℕ) * 10 ^ e := by
          refine mul_le_mul_of_nonneg_right ?_ (zpow_nonneg (by norm_num) e)
          exact_mod_cast hm.le
        _ = 10 ^ ((n + 1 : ℕ) + e) := ten_pow_mul_zpow _ _
    exact (zpow_lt_zpow_iff_right₀ (by norm_num)).mp hlt
  obtain ⟨j, hj⟩ : ∃ j : Nat, e = p - (n + 1 : ℕ) + j :=
    ⟨(e - (p - (n + 1 : ℕ))).toNat, by omega⟩
  refine ⟨m * 10 ^ j, ?_⟩
  rw [Nat.cast_mul, mul_assoc, ten_pow_mul_zpow, hj, add_comm]

/-- Something with that few digits that reads back has a multiple beside it that does so too and is
no farther away. -/
theorem exists_multiple (hf : f.Proper) (hpos : 0 < w) (hw : w < f.infinity) {m n : Nat}
    (h : f.roundDecimal m e = w) (hlength : (Decimal.mk m e).length ≤ n + 1) :
    ∃ k : Nat, f.roundDecimal k (f.pointOf w - (n + 1 : ℕ)) = w
      ∧ |k * 10 ^ (f.pointOf w - (n + 1 : ℕ)) - f.value w| ≤ |m * 10 ^ e - f.value w| := by
  obtain ⟨hlower, hupper⟩ := pointOf_bounds hf hpos
  generalize f.pointOf w = p at hlower hupper ⊢
  suffices hbetween : ∃ k : Nat,
      Between (m * 10 ^ e) (k * 10 ^ (p - (n + 1 : ℕ))) (f.value w) by
    obtain ⟨k, hb⟩ := hbetween
    exact ⟨k, roundDecimal_of_between hf hw h hb, hb.dist⟩
  by_cases hhigh : (10 : ℚ) ^ p ≤ m * 10 ^ e
  · -- The next power of ten is a multiple.
    refine ⟨10 ^ (n + 1), Or.inr ?_⟩
    rw [ten_pow_mul_zpow, add_sub_cancel]
    exact ⟨hupper.le, hhigh⟩
  · by_cases hlow : m * 10 ^ e ≤ (10 : ℚ) ^ (p - 1)
    · -- So is the last one.
      refine ⟨10 ^ n, Or.inl ?_⟩
      rw [ten_pow_mul_zpow, show (n : ℤ) + (p - (n + 1 : ℕ)) = p - 1 by omega]
      exact ⟨hlow, hlower⟩
    · -- Between these two the decimal itself is one, as its digits go no farther.
      obtain ⟨k, hsame⟩ := exists_multiple_of_lt hlength (not_le.mp hlow)
      refine ⟨k, ?_⟩
      rw [hsame]
      rcases le_total (m * 10 ^ e : ℚ) (f.value w) with hle | hge
      · exact Or.inl ⟨le_refl _, hle⟩
      · exact Or.inr ⟨hge, le_refl _⟩

/-! ## Seventeen digits -/

/-- A number is a small multiple of the step that leads to it. -/
theorem units_le_step (w : Nat) : f.units (w + 1) ≤ 2 * f.binade * f.step w := by
  obtain ⟨q, hw, hq, hs⟩ := f.exists_grid w
  rw [units_succ]
  unfold step
  generalize w / f.binade - 1 = s at hw hs ⊢
  subst hw
  rw [f.units_grid hq.le hs]
  calc 2 ^ s * q + 2 ^ s = (q + 1) * 2 ^ s := by ring
    _ ≤ 2 * f.binade * 2 ^ s := Nat.mul_le_mul_right _ hq

/-- What is less than half a step away is covered. -/
theorem Covers.of_near {v : ℚ} (h : |v - f.units (w + 1)| < (f.step w : ℚ) / 2) :
    f.Covers (w + 1) v := by
  obtain ⟨hlower, hupper⟩ := abs_lt.mp h
  -- The step behind is no shorter, so half a step is within reach on both sides.
  have hstep : (f.step w : ℚ) ≤ f.step (w + 1) := by exact_mod_cast step_mono (Nat.le_succ w)
  have hbefore : f.midpoint w < v := by
    have hunits : (f.units (w + 1) : ℚ) = f.units w + f.step w := by exact_mod_cast units_succ w
    rw [midpoint_eq]
    linarith
  have hbehind : v < f.midpoint (w + 1) := by
    rw [midpoint_eq]
    linarith
  refine ⟨fun u hu => ?_, hbehind.le, fun _ => ⟨fun u hu => ?_, hbehind⟩⟩
  · cases hu
    exact hbefore.le
  · cases hu
    exact hbefore

/-- The grid of the most digits is finer than the steps of the format. -/
theorem grid_lt_step {u : Nat} (hf : f.Proper) (hbits : 2 * f.binade < 10 ^ (mostDigits - 1)) :
    10 ^ (f.pointOf (u + 1) - mostDigits) * f.resolution < (f.step u : ℚ) := by
  have hsteps : (f.units (u + 1) : ℚ) ≤ 2 * f.binade * f.step u := by
    exact_mod_cast units_le_step u
  have hmany : (2 * f.binade * f.step u : ℚ) < (10 ^ (mostDigits - 1) : ℕ) * f.step u := by
    exact_mod_cast Nat.mul_lt_mul_of_pos_right hbits (step_pos u)
  -- The leading digit stands far in front of the last one on the grid.
  have hpoint : (10 ^ (mostDigits - 1) : ℕ) * (10 : ℚ) ^ (f.pointOf (u + 1) - mostDigits)
      ≤ f.value (u + 1) := by
    rw [ten_pow_mul_zpow, show ((mostDigits - 1 : ℕ) : ℤ) + (f.pointOf (u + 1) - mostDigits)
      = f.pointOf (u + 1) - 1 by unfold mostDigits; omega]
    exact (pointOf_bounds hf (Nat.succ_pos u)).1
  have hscaled := mul_le_mul_of_nonneg_right hpoint f.resolution_cast_pos.le
  rw [mul_assoc, ← units_eq_value hf] at hscaled
  exact lt_of_mul_lt_mul_left ((hscaled.trans hsteps).trans_lt hmany) (Nat.cast_nonneg _)

/-- With the most digits the search succeeds. -/
theorem exists_onGrid? (hf : f.Proper) (hbits : 2 * f.binade < 10 ^ (mostDigits - 1)) (hpos : 0 < w)
    (hw : w < f.infinity) : ∃ d, f.onGrid? w (f.pointOf w - mostDigits) = some d := by
  obtain ⟨u, rfl⟩ : ∃ u, w = u + 1 := ⟨w - 1, by omega⟩
  have hfine := grid_lt_step (u := u) hf hbits
  generalize f.pointOf (u + 1) - mostDigits = g at hfine ⊢
  obtain ⟨hd, hquotient⟩ := gridQuotient_eq hf (u + 1) g
  obtain ⟨hlower, hupper⟩ := (roundHalfEven_near (n := (f.gridQuotient (u + 1) g).1) hd).1
  rw [hquotient] at hlower hupper
  generalize roundHalfEven _ _ = k at hlower hupper
  have hten : (0 : ℚ) < 10 ^ g := zpow_pos (by norm_num) g
  rw [le_div_iff₀ hten] at hlower
  rw [div_le_iff₀ hten] at hupper
  have hcovers : f.Covers (u + 1) (k * 10 ^ g * f.resolution) := by
    have hdist : |(k : ℚ) * 10 ^ g - f.value (u + 1)| ≤ 10 ^ g / 2 :=
      abs_le.mpr ⟨by linarith, by linarith⟩
    refine .of_near ?_
    calc |(k : ℚ) * 10 ^ g * f.resolution - f.units (u + 1)|
        = |(k : ℚ) * 10 ^ g - f.value (u + 1)| * f.resolution := by
          rw [units_eq_value hf, ← sub_mul, abs_mul, abs_of_pos f.resolution_cast_pos]
      _ ≤ 10 ^ g / 2 * f.resolution :=
          mul_le_mul_of_nonneg_right hdist f.resolution_cast_pos.le
      _ < f.step u / 2 := by linarith
  cases hgrid : f.onGrid? (u + 1) g with
  | none => exact absurd ((roundDecimal_eq_iff hf hw).mpr hcovers) (onGrid?_eq_none hf hw hgrid k)
  | some d => exact ⟨d, rfl⟩

/-! ## The shortest decimal -/

variable (f) in
/-- Of the decimals that are rounded to the word, this is one with the fewest digits, and of those
with as few the nearest to the number of the word. -/
structure IsShortest (w : Nat) (d : Decimal) : Prop where
  reads : f.roundDecimal d.significand d.exponent = w
  fewest : ∀ m e, f.roundDecimal m e = w → d.length ≤ (Decimal.mk m e).length
  nearest : ∀ m e, f.roundDecimal m e = w → (Decimal.mk m e).length ≤ d.length →
    |d.value - f.value w| ≤ |(Decimal.mk m e).value - f.value w|

/-- A number found on the grid for a count of digits has no more digits but zeros. -/
theorem length_trim_le (hf : f.Proper) (hpos : 0 < w) (hw : w < f.infinity) {n : Nat}
    (h : f.onGrid? w (f.pointOf w - (n + 1 : ℕ)) = some d) :
    (Decimal.trim d.significand d.exponent).length ≤ n + 1 := by
  obtain ⟨_, hreads, hnear⟩ := onGrid?_eq_some hf hw h
  have hten : (0 : ℚ) < 10 ^ (f.pointOf w - (n + 1 : ℕ)) := zpow_pos (by norm_num) _
  have hvalue : f.value w / 10 ^ (f.pointOf w - (n + 1 : ℕ)) < (10 ^ (n + 1) : ℕ) := by
    rw [div_lt_iff₀ hten, ten_pow_mul_zpow, add_sub_cancel]
    exact (pointOf_bounds hf hpos).2
  have hle : d.significand ≤ 10 ^ (n + 1) := by
    -- Beyond the next power of ten nothing is found, as the power itself is nearer.
    by_contra hgt
    have hcast : ((10 ^ (n + 1) : ℕ) : ℚ) < d.significand := by exact_mod_cast not_le.mp hgt
    have hbetween : Between d.significand (10 ^ (n + 1) : ℕ)
        (f.value w / 10 ^ (f.pointOf w - (n + 1 : ℕ))) := Or.inr ⟨hvalue.le, hcast.le⟩
    have hfar := hnear _ (roundDecimal_of_between hf hw hreads (between_grid hbetween))
    rw [abs_of_pos (by linarith), abs_of_pos (by linarith)] at hfar
    linarith
  exact (Nat.length_toDigits_le_iff (by decide) (Nat.succ_pos n)).mpr
    (Decimal.significand_trim_lt d.exponent hle)

/-- **What is found for a word is the shortest decimal**, if seventeen digits are enough to tell the
words apart. -/
theorem isShortest_shortest (hf : f.Proper) (hbits : 2 * f.binade < 10 ^ (mostDigits - 1))
    (hpos : 0 < w) (hw : w < f.infinity) : f.IsShortest w (f.shortest w) := by
  unfold shortest
  dsimp only
  split
  -- The first grid on which something was found, where all coarser ones were tried before.
  · rename_i d hfound
    obtain ⟨n, _, hgrid, hbefore⟩ := exists_first_of_findSome?_range hfound
    obtain ⟨hexponent, hreads, hnear⟩ := onGrid?_eq_some hf hw hgrid
    have hlength := length_trim_le hf hpos hw hgrid
    refine ⟨?_, fun m e hm => ?_, fun m e hm hle => ?_⟩
    · rw [roundDecimal_eq_iff hf hw] at hreads ⊢
      show f.Covers w ((Decimal.trim d.significand d.exponent).value * f.resolution)
      rw [Decimal.value_trim, hexponent]
      exact hreads
    · -- With fewer digits something would have been found before.
      by_contra hshorter
      have hdigits : 0 < (Decimal.mk m e).length := Nat.length_toDigits_pos
      obtain ⟨i, hi⟩ : ∃ i, (Decimal.mk m e).length = i + 1 :=
        ⟨(Decimal.mk m e).length - 1, by omega⟩
      obtain ⟨k, hk, _⟩ := exists_multiple hf hpos hw hm (Nat.le_of_eq hi)
      exact onGrid?_eq_none hf hw (hbefore i (by omega)) k hk
    · obtain ⟨k, hk, hdist⟩ := exists_multiple hf hpos hw hm (hle.trans hlength)
      -- Distances on the grid are distances of values.
      have hten : (0 : ℚ) < 10 ^ (f.pointOf w - (n + 1 : ℕ)) := zpow_pos (by norm_num) _
      rw [Decimal.value_trim, hexponent]
      exact (dist_grid_le hten (hnear k hk)).trans hdist
  -- The finest grid cannot fail.
  · rename_i hnone
    obtain ⟨d, hd⟩ := exists_onGrid? hf hbits hpos hw
    rw [List.findSome?_eq_none_iff] at hnone
    cases (hnone 16 (by decide)).symm.trans hd

end Format

end Binary

end SchemaRegistry
