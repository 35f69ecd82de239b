import Mathlib.Data.Int.Log
import LocalHarness.Library.Decimal

/-! # Numbers of 53 bits

The result of an operation on floats is the number of 53 bits that is nearest to the exact one, and of two as
near the even one. What has 53 bits is kept; a whole number below what is rounded stays below it.
-/

namespace LocalHarness.Library.Binary64

open LocalHarness.Library.Decimal

/-- The distance of the numbers of 53 bits around this one. -/
def ulp (q : ℚ) : ℚ :=
  2 ^ (Int.log 2 q - 52)

/-- The nearest number of 53 bits, for one that is not negative. -/
def nearest (q : ℚ) : ℚ :=
  roundHalfEven (q / ulp q) * ulp q

variable {q : ℚ} {m : ℤ}

theorem ulp_pos (q : ℚ) : 0 < ulp q :=
  zpow_pos (by norm_num) _

theorem nearest_error (q : ℚ) : |nearest q - q| ≤ ulp q / 2 := by
  have pos := ulp_pos q
  have low := le_roundHalfEven_iff.mp (le_refl (roundHalfEven (q / ulp q)))
  have high := roundHalfEven_le_iff.mp (le_refl (roundHalfEven (q / ulp q)))
  have scaled : nearest q - q = (roundHalfEven (q / ulp q) - q / ulp q) * ulp q := by
    rw [nearest, sub_mul, div_mul_cancel₀ _ pos.ne']
  have near : |(roundHalfEven (q / ulp q) : ℚ) - q / ulp q| ≤ 1 / 2 := by
    rw [abs_le]
    constructor
    · rcases high with less | ⟨same, -⟩ <;> linarith
    · rcases low with more | ⟨same, -⟩ <;> linarith
  rw [scaled, abs_mul, abs_of_pos pos]
  calc
    |(roundHalfEven (q / ulp q) : ℚ) - q / ulp q| * ulp q ≤ 1 / 2 * ulp q := by gcongr
    _ = ulp q / 2 := by ring

theorem ulp_le (pos : 0 < q) : ulp q ≤ q / 2 ^ 52 := by
  have low := Int.zpow_log_le_self Nat.one_lt_two pos
  rw [ulp, zpow_sub₀ (by norm_num)]
  push_cast at low
  gcongr
  norm_num

/-- What is a whole multiple of the distance is kept. -/
theorem nearest_of_multiple (whole : q = m * ulp q) : nearest q = q := by
  have ratio : q / ulp q = m := by
    rw [div_eq_iff (ulp_pos q).ne']
    exact whole
  rw [nearest, ratio, roundHalfEven_int, ← whole]

theorem log_lt {e : ℤ} (pos : 0 < q) (below : q < 2 ^ e) : Int.log 2 q < e :=
  (Int.lt_zpow_iff_log_lt Nat.one_lt_two pos).mp (by exact_mod_cast below)

/-- A number of 53 bits at most is kept. -/
theorem nearest_of_bits {k : ℕ} {e : ℤ} (small : k < 2 ^ 53) : nearest (k * 2 ^ e) = k * 2 ^ e := by
  rcases Nat.eq_zero_or_pos k with rfl | some_
  · simp [nearest, roundHalfEven]
  have scale : (0 : ℚ) < 2 ^ e := zpow_pos (by norm_num) e
  have pos : (0 : ℚ) < k * 2 ^ e := mul_pos (by exact_mod_cast some_) scale
  have below : (k : ℚ) * 2 ^ e < 2 ^ (53 + e) := by
    rw [zpow_add₀ (by norm_num)]
    exact mul_lt_mul_of_pos_right (by exact_mod_cast small) scale
  have bits := log_lt pos below
  obtain ⟨d, shift⟩ : ∃ d : ℕ, e = (Int.log 2 ((k : ℚ) * 2 ^ e) - 52) + d :=
    ⟨(e - (Int.log 2 ((k : ℚ) * 2 ^ e) - 52)).toNat, by omega⟩
  have whole : (k : ℚ) * 2 ^ e = ((k * 2 ^ d : ℕ) : ℤ) * ulp (k * 2 ^ e) := by
    rw [ulp]
    generalize Int.log 2 ((k : ℚ) * 2 ^ e) - 52 = l at shift
    rw [shift, zpow_add₀ (by norm_num), zpow_natCast]
    push_cast
    ring
  exact nearest_of_multiple whole

theorem nearest_nat {k : ℕ} (small : k < 2 ^ 53) : nearest k = k := by
  have same := @nearest_of_bits k 0 small
  rwa [zpow_zero, mul_one] at same

theorem nearest_half {k : ℕ} (small : k < 2 ^ 53) : nearest (k / 2) = k / 2 := by
  have same := @nearest_of_bits k (-1) small
  rwa [zpow_neg_one, ← div_eq_mul_inv] at same

/-- A whole number stays below. -/
theorem le_nearest (pos : 0 < q) (small : q < 2 ^ 53) (below : (m : ℚ) ≤ q) : (m : ℚ) ≤ nearest q := by
  have bits := log_lt pos (e := 53) (by exact_mod_cast small)
  obtain ⟨d, shift⟩ : ∃ d : ℕ, Int.log 2 q - 52 = -d := ⟨(52 - Int.log 2 q).toNat, by omega⟩
  have whole : (m : ℚ) / ulp q = ((m * 2 ^ d : ℤ) : ℚ) := by
    rw [ulp, shift, zpow_neg, div_inv_eq_mul, zpow_natCast]
    push_cast
    rfl
  have most : m * 2 ^ d ≤ roundHalfEven (q / ulp q) := by
    rw [← roundHalfEven_int (m * 2 ^ d), ← whole]
    exact roundHalfEven_mono (by gcongr; exact (ulp_pos q).le)
  rw [nearest, ← div_le_iff₀ (ulp_pos q), whole]
  exact_mod_cast most

/-- Rounding keeps the whole part of what is not too near to the next whole number. -/
theorem floor_nearest (pos : 0 < q) (small : q < 2 ^ 53) (below : (m : ℚ) ≤ q) (apart : q + q / 2 ^ 53 < m + 1) :
    ⌊nearest q⌋ = m := by
  have error := (abs_le.mp (nearest_error q)).2
  have unit := ulp_le pos
  have half : q / 2 ^ 53 = q / 2 ^ 52 / 2 := by ring
  refine Int.floor_eq_iff.mpr ⟨le_nearest pos small below, ?_⟩
  rw [half] at apart
  linarith

/-- Beyond two to the 52 there is no half, and an odd number and a half become the next. -/
theorem nearest_half_past {k : ℕ} (past : 2 ^ 52 ≤ k) (small : k + 1 ≤ 2 ^ 53) (odd : k % 2 = 1) :
    nearest (k + 1 / 2) = k + 1 := by
  have pos : (0 : ℚ) < k + 1 / 2 := by positivity
  have low : (2 : ℚ) ^ 52 ≤ k := by exact_mod_cast past
  have high : (k : ℚ) + 1 ≤ 2 ^ 53 := by exact_mod_cast small
  have least : 52 ≤ Int.log 2 ((k : ℚ) + 1 / 2) := by
    refine (Int.zpow_le_iff_le_log Nat.one_lt_two pos).mp ?_
    have wide : (((2 : ℕ) : ℚ) ^ (52 : ℤ)) = 2 ^ 52 := by norm_cast
    rw [wide]
    linarith
  have most : Int.log 2 ((k : ℚ) + 1 / 2) < 53 := by
    refine log_lt pos ?_
    have wide : (2 : ℚ) ^ (53 : ℤ) = 2 ^ 53 := by norm_cast
    rw [wide]
    linarith
  have unit : ulp ((k : ℚ) + 1 / 2) = 1 := by
    rw [ulp, show Int.log 2 ((k : ℚ) + 1 / 2) = 52 by omega]
    rfl
  have up : roundHalfEven ((k : ℚ) + 1 / 2) = k + 1 := by
    apply le_antisymm
    · refine roundHalfEven_le_iff.mpr (.inl ?_)
      push_cast
      linarith
    · refine le_roundHalfEven_iff.mpr (.inr ⟨?_, by omega⟩)
      push_cast
      ring
  rw [nearest, unit, div_one, mul_one, up]
  push_cast
  rfl

end LocalHarness.Library.Binary64
