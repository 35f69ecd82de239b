import Mathlib.Algebra.BigOperators.Ring.List
import Mathlib.Algebra.Order.BigOperators.Group.List
import LocalHarness.Library.Decimal

/-! # Ratios of sums

The sum of numerators over the sum of denominators lies between the ratios it is pooled from, so long
as nothing is counted where there is nothing to count. Rounding the ratios and the pool keeps this.
Rounding the numerators first, to decimals that the denominators are whole multiples of, loses it only
where all of them are tied.
-/

namespace LocalHarness.Library.Mediant

open Decimal

variable {α : Type*} {l : List α}

section Law

variable {K : Type*} [Field K] [LinearOrder K] {num den : α → K}

/-- What has nothing below the line adds nothing to either sum. -/
theorem sum_filter {f : α → K} (blank : ∀ x ∈ l, den x = 0 → f x = 0) :
    ((l.filter fun x => den x ≠ 0).map f).sum = (l.map f).sum := by
  induction l with
  | nil => rfl
  | cons x rest ih =>
      have tail := ih fun y member => blank y (List.mem_cons_of_mem _ member)
      by_cases none : den x = 0
      · rw [List.filter_cons_of_neg (by simpa using none), List.map_cons, List.sum_cons, tail,
          blank x List.mem_cons_self none, zero_add]
      · rw [List.filter_cons_of_pos (by simpa using none), List.map_cons, List.map_cons,
          List.sum_cons, List.sum_cons, tail]

/-- The numerators that count add up to the pool of what they stand over. -/
theorem sum_eq_pool (blank : ∀ x ∈ l, den x = 0 → num x = 0) (some_ : (l.map den).sum ≠ 0) :
    ((l.filter fun x => den x ≠ 0).map num).sum =
      ((l.filter fun x => den x ≠ 0).map fun x => (l.map num).sum / (l.map den).sum * den x).sum := by
  rw [sum_filter blank, sum_filter (fun x _ none => by rw [none, mul_zero]), List.sum_map_mul_left,
    div_mul_cancel₀ _ some_]

theorem filter_ne_nil (some_ : (l.map den).sum ≠ 0) : (l.filter fun x => den x ≠ 0) ≠ [] := by
  intro none
  apply some_
  rw [← sum_filter (f := den) (fun _ _ same => same), none]
  rfl

variable [IsStrictOrderedRing K]

theorem exists_div_le (nonneg : ∀ x ∈ l, 0 ≤ den x) (blank : ∀ x ∈ l, den x = 0 → num x = 0)
    (some_ : (l.map den).sum ≠ 0) :
    ∃ x ∈ l, den x ≠ 0 ∧ num x / den x ≤ (l.map num).sum / (l.map den).sum := by
  obtain ⟨x, member, le⟩ :=
    List.exists_le_of_sum_le (filter_ne_nil some_) _ _ (sum_eq_pool blank some_).le
  obtain ⟨member, counted⟩ := List.mem_filter.mp member
  have counted : den x ≠ 0 := by simpa using counted
  have pos : 0 < den x := lt_of_le_of_ne (nonneg x member) counted.symm
  exact ⟨x, member, counted, (div_le_iff₀ pos).mpr le⟩

theorem exists_le_div (nonneg : ∀ x ∈ l, 0 ≤ den x) (blank : ∀ x ∈ l, den x = 0 → num x = 0)
    (some_ : (l.map den).sum ≠ 0) :
    ∃ x ∈ l, den x ≠ 0 ∧ (l.map num).sum / (l.map den).sum ≤ num x / den x := by
  obtain ⟨x, member, le⟩ :=
    List.exists_le_of_sum_le (filter_ne_nil some_) _ _ (sum_eq_pool blank some_).ge
  obtain ⟨member, counted⟩ := List.mem_filter.mp member
  have counted : den x ≠ 0 := by simpa using counted
  have pos : 0 < den x := lt_of_le_of_ne (nonneg x member) counted.symm
  exact ⟨x, member, counted, (le_div_iff₀ pos).mpr le⟩

end Law

section RoundedNumerators

variable {places finer : Nat} {num : α → ℚ} {den : α → Nat}

/-- Every numerator is rounded down, to what makes its ratio the one tie. -/
def TiedBelow (places finer : Nat) (num : α → ℚ) (den : α → Nat) (l : List α) : Prop :=
  ∃ k : ℤ, k % 2 = 0 ∧
    ∀ x ∈ l, rounded finer (num x) = den x * tie places k ∧ rounded finer (num x) < num x

/-- Every numerator is rounded up, to what makes its ratio the one tie. -/
def TiedAbove (places finer : Nat) (num : α → ℚ) (den : α → Nat) (l : List α) : Prop :=
  ∃ k : ℤ, k % 2 = 1 ∧
    ∀ x ∈ l, rounded finer (num x) = den x * tie places k ∧ num x < rounded finer (num x)

theorem tiedBelow_neg :
    TiedBelow places finer (fun x => -num x) den l ↔ TiedAbove places finer num den l := by
  have turned : ∀ k x, (rounded finer (-num x) = den x * tie places (-k - 1) ∧
        rounded finer (-num x) < -num x) ↔
      (rounded finer (num x) = den x * tie places k ∧ num x < rounded finer (num x)) := by
    intro k x
    rw [rounded_neg, tie_neg, mul_neg, neg_inj, neg_lt_neg_iff]
  constructor
  · rintro ⟨k, even, tied⟩
    refine ⟨-k - 1, by omega, fun x member => (turned (-k - 1) x).mp ?_⟩
    have back : -(-k - 1) - 1 = k := by ring
    rw [back]
    exact tied x member
  · rintro ⟨k, odd, tied⟩
    exact ⟨-k - 1, by omega, fun x member => (turned k x).mpr (tied x member)⟩

theorem sum_pos (some_ : l ≠ []) (pos : ∀ x ∈ l, 0 < den x) :
    0 < (l.map fun x => (den x : ℚ)).sum := by
  have least := List.sum_lt_sum_of_ne_nil some_ (fun _ => (0 : ℚ)) (fun x => (den x : ℚ))
    (fun x member => by exact_mod_cast pos x member)
  simpa using least

/-- The sum of the rounded numerators over the sum of the denominators. -/
def pool (finer : Nat) (num : α → ℚ) (den : α → Nat) (l : List α) : ℚ :=
  (l.map fun x => rounded finer (num x)).sum / (l.map fun x => (den x : ℚ)).sum

theorem pool_of_tied (some_ : l ≠ []) (pos : ∀ x ∈ l, 0 < den x) {k : ℤ}
    (tied : ∀ x ∈ l, rounded finer (num x) = den x * tie places k) :
    pool finer num den l = tie places k := by
  rw [pool, List.map_congr_left tied, List.sum_map_mul_right, mul_div_cancel_left₀ _ (sum_pos some_ pos).ne']

/-- Where every ratio reaches a tie, every rounded numerator does, and the pool passes the tie unless all
    are at it. -/
theorem tied_of_pool_le (more : places < finer) (some_ : l ≠ []) (pos : ∀ x ∈ l, 0 < den x) {k : ℤ}
    (reached : ∀ x ∈ l, tie places k ≤ num x / den x) (most : pool finer num den l ≤ tie places k) :
    ∀ x ∈ l, rounded finer (num x) = den x * tie places k := by
  have least : ∀ x ∈ l, den x * tie places k ≤ rounded finer (num x) := by
    intro x member
    have pos : (0 : ℚ) < den x := by exact_mod_cast pos x member
    rw [← rounded_mul_tie more]
    apply rounded_mono
    rw [mul_comm]
    exact (le_div_iff₀ pos).mp (reached x member)
  by_contra apart
  push Not at apart
  obtain ⟨x, member, other⟩ := apart
  have less := List.sum_lt_sum _ _ least ⟨x, member, lt_of_le_of_ne (least x member) other.symm⟩
  rw [List.sum_map_mul_right, mul_comm, ← lt_div_iff₀ (sum_pos some_ pos)] at less
  exact absurd less most.not_gt

theorem exists_rounded_le_iff (more : places < finer) (some_ : l ≠ []) (pos : ∀ x ∈ l, 0 < den x) :
    (∃ x ∈ l, rounded places (num x / den x) ≤ rounded places (pool finer num den l)) ↔
      ¬ TiedBelow places finer num den l := by
  constructor
  · rintro ⟨x, member, le⟩ ⟨k, even, tied⟩
    have at_ : rounded places (pool finer num den l) ≤ k / 10 ^ places := rounded_le_iff.mpr
      (.inr ⟨pool_of_tied some_ pos fun x member => (tied x member).1, even⟩)
    have pos : (0 : ℚ) < den x := by exact_mod_cast pos x member
    have beyond : tie places k < num x / den x := by
      obtain ⟨same, less⟩ := tied x member
      rw [lt_div_iff₀ pos, mul_comm, ← same]
      exact less
    exact absurd (le.trans at_) (lt_rounded_iff.mpr (.inl beyond)).not_ge
  · intro free
    by_contra none
    push Not at none
    apply free
    let k := roundHalfEven (pool finer num den l * 10 ^ places)
    have at_ : rounded places (pool finer num den l) = k / 10 ^ places := rfl
    have beyond : ∀ x ∈ l, tie places k < num x / den x ∨ num x / den x = tie places k ∧ k % 2 = 1 :=
      fun x member => lt_rounded_iff.mp (at_ ▸ none x member)
    have reached : ∀ x ∈ l, tie places k ≤ num x / den x :=
      fun x member => (beyond x member).elim le_of_lt fun same => same.1.ge
    have under := rounded_le_iff.mp at_.le
    have most : pool finer num den l ≤ tie places k := under.elim le_of_lt fun same => same.1.le
    have tied := tied_of_pool_le more some_ pos reached most
    have even : k % 2 = 0 := by
      rcases under with less | ⟨-, even⟩
      · exact absurd (pool_of_tied some_ pos tied) less.ne
      · exact even
    refine ⟨k, even, fun x member => ⟨tied x member, ?_⟩⟩
    have pos : (0 : ℚ) < den x := by exact_mod_cast pos x member
    rcases beyond x member with less | ⟨-, odd⟩
    · rw [tied x member, mul_comm]
      exact (lt_div_iff₀ pos).mp less
    · omega

theorem exists_le_rounded_iff (more : places < finer) (some_ : l ≠ []) (pos : ∀ x ∈ l, 0 < den x) :
    (∃ x ∈ l, rounded places (pool finer num den l) ≤ rounded places (num x / den x)) ↔
      ¬ TiedAbove places finer num den l := by
  have turned : pool finer (fun x => -num x) den l = -pool finer num den l := by
    have minus : ∀ q : ℚ, -q = -1 * q := neg_eq_neg_one_mul
    simp only [pool, rounded_neg, minus (rounded finer _), List.sum_map_mul_left]
    ring
  rw [← tiedBelow_neg, ← exists_rounded_le_iff more some_ pos]
  simp only [turned, neg_div, rounded_neg, neg_le_neg_iff]

end RoundedNumerators

end LocalHarness.Library.Mediant
