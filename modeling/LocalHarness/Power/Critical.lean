import LocalHarness.Library.SignScaled

/-! # The fewest gains that reject

What the planner takes the gate to reject on: of `d` cells that changed, the fewest gains at which
the two-sided sign test is at most `alpha`. The bound it compares with is a float times a whole
number, which has to be a float itself first.
-/

namespace LocalHarness.Power

open LocalHarness.Library SignTest

structure OverflowError where
  deriving DecidableEq

/-- No float reaches two to this. -/
def MAX_EXP : Nat := 1024

/-- The whole numbers from here on round to more than the greatest float. -/
def FLOAT_LIMIT : Nat :=
  2 ^ MAX_EXP - 2 ^ (MAX_EXP - 54)

/-- A float times a whole number. -/
def times (x : ℚ) (n : Nat) : Except OverflowError ℚ :=
  if FLOAT_LIMIT ≤ n then .error {} else .ok (x * n)

/-- The loop over `k`, with the tail so far. -/
def criticalFrom (d : Nat) (bound : ℚ) : List Nat → Nat → Nat
  | [], _ => d - d / 2
  | k :: rest, tail =>
      if bound < 2 * (tail + d.choose k : Nat) then if k = 0 then d + 1 else d - k + 1
      else criticalFrom d bound rest (tail + d.choose k)

/-- `_critical`, in exact arithmetic. -/
def critical (d : Nat) (alpha : ℚ) : Nat :=
  criticalFrom d (alpha * 2 ^ d) (List.range (d / 2 + 1)) 0

def _critical (d : Nat) (alpha : ℚ) : Except OverflowError Nat :=
  (times alpha (2 ^ d)).map fun bound => criticalFrom d bound (List.range (d / 2 + 1)) 0

theorem pow_lt_gap {e n m : Nat} (next : n + 1 = m) (less : e < n) : 2 ^ n < 2 ^ m - 2 ^ e := by
  apply Nat.lt_sub_of_add_lt
  calc
    2 ^ n + 2 ^ e < 2 ^ n + 2 ^ n := Nat.add_lt_add_left (Nat.pow_lt_pow_right (by decide) less) _
    _ = 2 ^ m := by rw [← two_mul, ← pow_succ', next]

theorem limit_le {d : Nat} : FLOAT_LIMIT ≤ 2 ^ d ↔ MAX_EXP ≤ d := by
  constructor
  · intro reach
    by_contra less
    have smaller := Nat.pow_le_pow_right Nat.zero_lt_two (Nat.le_sub_one_of_lt (not_le.mp less))
    have greater : 2 ^ (MAX_EXP - 1) < FLOAT_LIMIT := pow_lt_gap (by decide) (by decide)
    exact absurd (reach.trans smaller) (not_le.mpr greater)
  · exact fun reach => (Nat.sub_le _ _).trans (Nat.pow_le_pow_right Nat.zero_lt_two reach)

/-- The product overflows from `MAX_EXP` cells on, and is exact below. -/
theorem critical_eq (d : Nat) (alpha : ℚ) :
    _critical d alpha = if MAX_EXP ≤ d then .error {} else .ok (critical d alpha) := by
  unfold _critical times
  simp only [limit_le]
  split
  next => rfl
  next =>
    rw [critical]
    push_cast
    rfl

/-! ## The loop -/

/-- The ways to move fewer than `k` of `d` cells one way. -/
def fewer (d k : Nat) : Nat :=
  ((List.range k).map (d.choose ·)).sum

theorem fewer_succ (d k : Nat) : fewer d (k + 1) = fewer d k + d.choose k := by
  rw [fewer, fewer, List.range_succ, List.map_append, List.sum_append, List.map_singleton,
    List.sum_singleton]

theorem fewer_mono {d k l : Nat} (le : k ≤ l) : fewer d k ≤ fewer d l := by
  induction l, le using Nat.le_induction with
  | base => exact le_refl _
  | succ m _ ih =>
      rw [fewer_succ]
      exact ih.trans (Nat.le_add_right _ _)

theorem criticalFrom_le {d l : Nat} {bound : ℚ} {k n tail : Nat} (past : l < k)
    (room : k + n ≤ d / 2 + 1) :
    criticalFrom d bound (List.range' k n) tail ≤ d - l := by
  induction n generalizing k tail with
  | zero =>
      rw [List.range'_zero, criticalFrom]
      omega
  | succ n ih =>
      rw [List.range'_succ, criticalFrom]
      split
      next =>
        rw [if_neg (Nat.ne_zero_of_lt past)]
        omega
      next => exact ih (past.trans (Nat.lt_succ_self k)) (by omega)

/-- From `k` on, the loop turns down `l` losses exactly where the tail up to them is too great. -/
theorem criticalFrom_le_iff {d l : Nat} {bound : ℚ} {k n : Nat} (low : k ≤ l)
    (high : l < k + n) (room : k + n ≤ d / 2 + 1) :
    criticalFrom d bound (List.range' k n) (fewer d k) ≤ d - l ↔
      2 * (fewer d (l + 1) : ℚ) ≤ bound := by
  induction n generalizing k with
  | zero => omega
  | succ n ih =>
      rw [List.range'_succ, criticalFrom, ← fewer_succ]
      split
      next beyond =>
        refine iff_of_false ?_ ?_
        · split <;> omega
        · have more : (fewer d (k + 1) : ℚ) ≤ fewer d (l + 1) := by
            exact_mod_cast fewer_mono (Nat.succ_le_succ low)
          rw [not_le]
          exact beyond.trans_le (by linarith)
      next under =>
        rcases low.eq_or_lt with rfl | later
        · exact iff_of_true (criticalFrom_le (Nat.lt_succ_self k) (by omega)) (not_lt.mp under)
        · exact ih later (by omega) (by omega)

/-- The planner and the gate reject on the same outcomes: of `d` cells that changed, `g` gains that
    are more than the losses are critical exactly where the sign test is at most `alpha`. -/
theorem critical_le_iff {d g : Nat} (alpha : ℚ) (within : g ≤ d) (more : d - g < g) :
    critical d alpha ≤ g ↔ signTest (d - g) d ≤ alpha := by
  have least : min (d - g) g = d - g := Nat.min_eq_left more.le
  have whole : d - g + g = d := Nat.sub_add_cancel within
  have rest : d - (d - g) = g := Nat.sub_sub_self within
  have test := signTest_eq_chance more.le
  rw [least, whole, min_eq_right (two_chance_le_one more), chance, whole] at test
  have loop : criticalFrom d (alpha * 2 ^ d) (List.range' 0 (d / 2 + 1)) (fewer d 0) ≤ d - (d - g) ↔
      2 * (fewer d (d - g + 1) : ℚ) ≤ alpha * 2 ^ d :=
    criticalFrom_le_iff (Nat.zero_le _) (by omega) (by omega)
  rw [rest] at loop
  rw [test, critical, List.range_eq_range']
  refine loop.trans ?_
  have pos : (0 : ℚ) < 2 ^ d := by positivity
  rw [← mul_div_assoc, div_le_iff₀ pos]
  rfl

theorem critical_of_ten : critical 10 (1 / 20) ≤ 9 ↔ signTest (10 - 9) 10 ≤ 1 / 20 :=
  critical_le_iff (1 / 20) (by decide) (by decide)

end LocalHarness.Power
