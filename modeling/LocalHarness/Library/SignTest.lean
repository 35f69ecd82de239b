import Mathlib.Algebra.Order.Field.Rat
import Mathlib.Data.Nat.Choose.Sum
import Mathlib.Tactic.Linarith
import Mathlib.Tactic.NormNum
import Mathlib.Tactic.Positivity

/-! # The two-sided sign test

The exact binomial test at one half, over the `n` pairs that moved and the smaller count `k`
of the two ways they moved. Being two-sided it is blind to which way the larger count went;
what it does say is that a balanced split is never significant.
-/

namespace LocalHarness.Library.SignTest

open Finset

/-- The ways to move fewer than `k + 1` of `n` pairs one way. -/
def tail (n k : Nat) : Nat :=
  ((List.range (k + 1)).map (n.choose ·)).sum

/-- The chance under no effect of a split at least as uneven as `k` of `n`. -/
def signTest (k n : Nat) : ℚ :=
  if n = 0 then 1
  else min 1 (2 * (tail n (min k (n - k)) / 2 ^ n))

theorem tail_eq_sum (n k : Nat) : tail n k = ∑ i ∈ range (k + 1), n.choose i :=
  rfl

theorem tail_succ (n k : Nat) : tail n (k + 1) = tail n k + n.choose (k + 1) := by
  rw [tail_eq_sum, tail_eq_sum, sum_range_succ]

/-- Pascal's rule, summed. -/
theorem tail_pascal (n k : Nat) : tail (n + 1) (k + 1) = tail n k + tail n (k + 1) := by
  induction k with
  | zero =>
      simp only [tail_eq_sum, sum_range_succ, sum_range_zero, Nat.choose_zero_right,
        Nat.choose_one_right]
      omega
  | succ k ih =>
      rw [tail_succ (n + 1), ih, Nat.choose_succ_succ', tail_succ n (k + 1), tail_succ n k]
      omega

/-- Half of the ways to move an odd number of pairs. -/
theorem tail_odd (m : Nat) : tail (2 * m + 1) m = 4 ^ m := by
  rw [tail_eq_sum, Nat.sum_range_choose_halfway]

/-- More than half of the ways to move an even number of pairs. -/
theorem four_pow_le_tail (m : Nat) : 4 ^ m ≤ 2 * tail (2 * m) m := by
  cases m with
  | zero => decide
  | succ k =>
      have pascal := tail_pascal (2 * (k + 1)) k
      rw [tail_odd] at pascal
      have smaller : tail (2 * (k + 1)) k ≤ tail (2 * (k + 1)) (k + 1) := by
        rw [tail_succ]
        exact Nat.le_add_right _ _
      omega

theorem signTest_of_half {k n : Nat} (half : 2 ^ n ≤ 2 * tail n (min k (n - k))) :
    signTest k n = 1 := by
  unfold signTest
  split
  next => rfl
  next =>
    apply min_eq_left
    have cast : (2 : ℚ) ^ n ≤ 2 * (tail n (min k (n - k)) : ℚ) := by exact_mod_cast half
    rw [← mul_div_assoc, le_div_iff₀ (by positivity), one_mul]
    exact cast

/-- Two counts that are equal or next to each other are what no effect would give. -/
theorem signTest_balanced {gained lost : Nat} (low : gained ≤ lost) (near : lost ≤ gained + 1) :
    signTest (min gained lost) (gained + lost) = 1 := by
  apply signTest_of_half
  rw [min_eq_left low, min_eq_left (by omega)]
  obtain rfl | rfl : lost = gained ∨ lost = gained + 1 := by omega
  · rw [← two_mul, pow_mul]
    exact four_pow_le_tail lost
  · have shape : gained + (gained + 1) = 2 * gained + 1 := by omega
    rw [shape, tail_odd, pow_succ, pow_mul]
    norm_num [mul_comm]

end LocalHarness.Library.SignTest
