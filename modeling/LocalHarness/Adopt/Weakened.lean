import LocalHarness.Library.SignScaled
import LocalHarness.Adopt.Gates

/-! # What the correction for repeats does to the evidence

The cells gained are divided by the design effect and rounded down, the cells lost are rounded up.
For a challenger that is ahead both go the cautious way. For one that is behind they add to what is
against it.
-/

namespace LocalHarness.Adopt

open LocalHarness.Library SignTest

/-- The design effect of the repeats of two candidates. -/
def effectOf (rows : List Row) (incumbent challenger : String) : ℚ :=
  let (rho, repeats) := rowsIcc rows [incumbent, challenger]
  designEffect repeats (rho.getD DEFAULT_RHO)

/-- The correction takes nothing from the side that is behind: there is none, or the challenger is
    ahead (of so few cells that the tolerance is none of them), or it gained no cell, or both counts
    divide evenly. -/
def Even (rows : List Row) (incumbent challenger : String) : Prop :=
  let cell := headToHead rows incumbent challenger
  let deff := effectOf rows incumbent challenger
  deff ≤ 1 + tolerance ∨ (cell.lost ≤ cell.gained ∧ cell.discordant * tolerance < 1) ∨
    cell.gained = 0 ∨ ∃ gained lost : Nat, cell.gained = gained * deff ∧ cell.lost = lost * deff

/-- The correction weakens the evidence: the p is no smaller, and neither a loss nor a win is
    significant that was not. -/
structure Weakened (rows : List Row) (incumbent challenger : String) : Prop where
  p_le : (headToHead rows incumbent challenger).p ≤ (pairedP rows incumbent challenger).p
  loss : worse rows incumbent challenger ≠ "" → (headToHead rows incumbent challenger).p ≤ ALPHA
  win : ∀ lane first second, (gates lane incumbent challenger first second rows).adopt = true →
    (headToHead rows incumbent challenger).p ≤ ALPHA

/-! ## The rounded counts -/

theorem tolerance_pos : 0 < tolerance := by
  norm_num [tolerance]

theorem tolerance_lt_one : tolerance < 1 := by
  norm_num [tolerance]

theorem shrunkDown_le {n : Nat} {deff : ℚ} (least : 1 ≤ deff) : shrunkDown (n / deff) ≤ n := by
  have share : (n : ℚ) / deff ≤ n := div_le_self (Nat.cast_nonneg n) least
  have less : (n : ℚ) / deff + tolerance < n + 1 := by
    have small := tolerance_lt_one
    linarith
  have floor : ⌊(n : ℚ) / deff + tolerance⌋ ≤ n :=
    Int.lt_add_one_iff.mp (Int.floor_lt.mpr (by exact_mod_cast less))
  unfold shrunkDown
  omega

theorem shrunkUp_le {n : Nat} {deff : ℚ} (least : 1 ≤ deff) : shrunkUp (n / deff) ≤ n := by
  have share : (n : ℚ) / deff ≤ n := div_le_self (Nat.cast_nonneg n) least
  have less : (n : ℚ) / deff - tolerance ≤ n := by
    have small := tolerance_pos
    linarith
  have ceil : ⌈(n : ℚ) / deff - tolerance⌉ ≤ n := Int.ceil_le.mpr (by exact_mod_cast less)
  unfold shrunkUp
  omega

theorem shrunkDown_cast_le {x : ℚ} (nonneg : 0 ≤ x) : (shrunkDown x : ℚ) ≤ x + tolerance := by
  have small := tolerance_pos
  have floor : 0 ≤ ⌊x + tolerance⌋ := Int.floor_nonneg.mpr (by linarith)
  have cast : ((shrunkDown x : Nat) : ℚ) = ⌊x + tolerance⌋ := by
    exact_mod_cast Int.toNat_of_nonneg floor
  rw [cast]
  exact Int.floor_le _

theorem le_shrunkUp_cast (x : ℚ) : x - tolerance ≤ (shrunkUp x : ℚ) := by
  have ceil : (⌈x - tolerance⌉ : ℚ) ≤ (shrunkUp x : Nat) := by
    exact_mod_cast Int.self_le_toNat _
  exact (Int.le_ceil _).trans ceil

theorem shrunkUp_mono {x y : ℚ} (le : x ≤ y) : shrunkUp x ≤ shrunkUp y :=
  Int.toNat_le_toNat (Int.ceil_le_ceil (by linarith))

theorem shrunkDown_nat (n : Nat) : shrunkDown n = n := by
  have floor : ⌊(n : ℚ) + tolerance⌋ = n := by
    rw [Int.floor_eq_iff]
    exact ⟨by exact_mod_cast (by linarith [tolerance_pos] : (n : ℚ) ≤ n + tolerance),
      by exact_mod_cast (by linarith [tolerance_lt_one] : (n : ℚ) + tolerance < n + 1)⟩
  rw [shrunkDown, floor, Int.toNat_natCast]

theorem shrunkUp_nat (n : Nat) : shrunkUp n = n := by
  have ceil : ⌈(n : ℚ) - tolerance⌉ = n := by
    rw [Int.ceil_eq_iff]
    exact ⟨by exact_mod_cast (by linarith [tolerance_lt_one] : (n : ℚ) - 1 < n - tolerance),
      by exact_mod_cast (by linarith [tolerance_pos] : (n : ℚ) - tolerance ≤ n)⟩
  rw [shrunkUp, ceil, Int.toNat_natCast]

/-- Of a challenger that is ahead, the rounded counts are no more uneven. -/
theorem ratio_ahead {lost gained : Nat} {deff : ℚ} (least : 1 ≤ deff)
    (few : ((lost + gained : Nat) : ℚ) * tolerance < 1) :
    lost * shrunkDown (gained / deff) ≤ shrunkUp (lost / deff) * gained := by
  have pos : 0 < deff := by linarith
  have down := mul_le_mul_of_nonneg_left
    (shrunkDown_cast_le (by positivity : (0 : ℚ) ≤ gained / deff)) (Nat.cast_nonneg lost)
  have up := mul_le_mul_of_nonneg_right (le_shrunkUp_cast (lost / deff)) (Nat.cast_nonneg gained)
  have same : (lost : ℚ) * (gained / deff) = lost / deff * gained := by ring
  push_cast at few
  have close : (lost : ℚ) * shrunkDown (gained / deff) < shrunkUp (lost / deff) * gained + 1 := by
    linarith
  exact Nat.lt_succ_iff.mp (by exact_mod_cast close)

/-! ## The p -/

theorem ahead_weakened {lost gained : Nat} {deff : ℚ} (least : 1 ≤ deff) (ahead : lost ≤ gained)
    (few : ((lost + gained : Nat) : ℚ) * tolerance < 1) :
    signTest (min lost gained) (lost + gained) ≤
      signTest (min (shrunkDown (gained / deff)) (shrunkUp (lost / deff)))
        (shrunkDown (gained / deff) + shrunkUp (lost / deff)) := by
  have near : shrunkUp (lost / deff) ≤ shrunkDown (gained / deff) + 1 := by
    have order : (lost : ℚ) / deff ≤ gained / deff :=
      div_le_div_of_nonneg_right (by exact_mod_cast ahead) (by linarith)
    exact (shrunkUp_mono order).trans (shrunkUp_le_shrunkDown_succ (by positivity))
  rcases le_or_gt (shrunkUp (lost / deff)) (shrunkDown (gained / deff)) with le | gt
  · rw [min_comm (shrunkDown _), Nat.add_comm (shrunkDown _)]
    exact signTest_scaled ahead le (shrunkDown_le least) (ratio_ahead least few)
  · rw [signTest_balanced gt.le near, signTest_eq_chance ahead]
    exact min_le_left _ _

/-- Counts that divide evenly keep their ratio. -/
theorem divided_weakened {few many few' many' : Nat} {deff : ℚ} (least : 1 ≤ deff)
    (order : few ≤ many) (first : (few : ℚ) = few' * deff) (second : (many : ℚ) = many' * deff) :
    signTest (min few many) (few + many) ≤ signTest (min few' many') (few' + many') := by
  have pos : 0 < deff := by linarith
  have order' : few' ≤ many' := by
    have cast : (few : ℚ) ≤ many := by exact_mod_cast order
    rw [first, second] at cast
    exact_mod_cast le_of_mul_le_mul_right cast pos
  have fewer : many' ≤ many := by
    have cast : (many' : ℚ) ≤ many := by
      rw [second]
      exact le_mul_of_one_le_right (Nat.cast_nonneg _) least
    exact_mod_cast cast
  refine signTest_scaled order order' fewer (le_of_eq ?_)
  have cast : (few : ℚ) * many' = few' * many := by
    rw [first, second]
    ring
  exact_mod_cast cast

theorem pairedP_p (rows : List Row) (incumbent challenger : String) :
    (pairedP rows incumbent challenger).p =
      let cell := headToHead rows incumbent challenger
      let deff := effectOf rows incumbent challenger
      if deff ≤ 1 + tolerance then cell.p
      else signTest (min (shrunkDown (cell.gained / deff)) (shrunkUp (cell.lost / deff)))
        (shrunkDown (cell.gained / deff) + shrunkUp (cell.lost / deff)) := by
  unfold pairedP effectOf
  dsimp only
  split <;> rfl

theorem p_le_pairedP {rows : List Row} {incumbent challenger : String}
    (even : Even rows incumbent challenger) :
    (headToHead rows incumbent challenger).p ≤ (pairedP rows incumbent challenger).p := by
  have least : 1 ≤ effectOf rows incumbent challenger := one_le_designEffect _ _
  rw [pairedP_p]
  dsimp only [Even] at even ⊢
  split
  next => exact le_refl _
  next corrected =>
    rw [Cell.p, Cell.discordant]
    generalize effectOf rows incumbent challenger = deff at *
    generalize headToHead rows incumbent challenger = cell at *
    have pos : 0 < deff := by linarith
    obtain none_ | ⟨ahead, few⟩ | nothing | ⟨gained, lost, first, second⟩ := even
    · exact absurd none_ corrected
    · exact ahead_weakened least ahead few
    · have zero : shrunkDown ((0 : Nat) / deff) = 0 := by
        rw [Nat.cast_zero, zero_div]
        exact_mod_cast shrunkDown_nat 0
      rw [nothing, zero, min_comm, Nat.add_comm]
      exact signTest_scaled (Nat.zero_le _) (Nat.zero_le _) (shrunkUp_le least) (by simp)
    · have gained_eq : (cell.gained : ℚ) / deff = gained := by rw [first, mul_div_cancel_right₀ _ pos.ne']
      have lost_eq : (cell.lost : ℚ) / deff = lost := by rw [second, mul_div_cancel_right₀ _ pos.ne']
      rw [gained_eq, lost_eq, shrunkDown_nat, shrunkUp_nat]
      rcases Nat.le_total cell.gained cell.lost with behind | ahead
      · rw [min_comm, Nat.add_comm]
        exact divided_weakened least behind first second
      · rw [min_comm gained, Nat.add_comm gained]
        exact divided_weakened least ahead second first

/-- Where the correction takes nothing from the side that is behind, it only weakens the evidence. -/
theorem correction_weakens {rows : List Row} {incumbent challenger : String}
    (even : Even rows incumbent challenger) : Weakened rows incumbent challenger := by
  have le := p_le_pairedP even
  constructor
  · exact le
  · exact fun lost => le.trans (worse_ne_empty.mp lost).2
  · exact fun lane first second adopted => le.trans (gates_adopt.mp adopted).2.2.2

/-- Eight cases that one candidate passes all but one of and the other fails all but that one, and
    one that both pass twice. -/
def onceRepeated : List Row :=
  ((List.range 8).flatMap fun n =>
    [{ caseId := toString n, candidate := "ahead", passed := n ≠ 0 },
     { caseId := toString n, candidate := "behind", passed := n = 0 }]) ++
  ["t#1", "t#2"].flatMap fun caseId =>
    [{ caseId, candidate := "ahead", passed := true },
     { caseId, candidate := "behind", passed := true }]

theorem ahead_weakens : Weakened onceRepeated "behind" "ahead" :=
  correction_weakens (.inr (.inl (by decide +kernel)))

/-- Seven cells lost against one gained are no evidence of a loss, until the one is rounded away. -/
theorem behind_strengthened :
    (headToHead onceRepeated "ahead" "behind").p = 9 / 128 ∧
      (pairedP onceRepeated "ahead" "behind").p = 1 / 64 ∧
        worse onceRepeated "ahead" "behind" ≠ "" ∧ ¬ Weakened onceRepeated "ahead" "behind" := by
  have raw : (headToHead onceRepeated "ahead" "behind").p = 9 / 128 := by decide +kernel
  have shrunk : (pairedP onceRepeated "ahead" "behind").p = 1 / 64 := by decide +kernel
  refine ⟨raw, shrunk, by decide +kernel, fun weakened => ?_⟩
  have le := weakened.p_le
  rw [raw, shrunk] at le
  exact absurd le (by norm_num)

end LocalHarness.Adopt
