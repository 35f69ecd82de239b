import LocalHarness.Power.Planned

/-! # Where the planner returns

The bound that a count of changed cells is compared with is a float times a power of two. A count
whose window reaches `MAX_EXP` has no such bound, and the planner raises.
-/

namespace LocalHarness.Power

open LocalHarness.Library
open LocalHarness.Adopt (mean shrunkDown designEffect ALPHA DEFAULT_RHO)

/-- A vector of pass rates. -/
def Rates (rates : List ℚ) : Prop :=
  ∀ p ∈ rates, 0 ≤ p ∧ p ≤ 1

/-- The odds of a cell: it is not lost with less than no chance, and it is gained or lost with at
    most all of it. -/
structure Odds (gain lose : ℚ) : Prop where
  lose_nonneg : 0 ≤ lose
  le_one : 0 < gain → gain + lose ≤ 1

variable (math : Libm)

/-- The window of `n` cells reaches the counts that cannot be compared. -/
def Overflows (gain lose : ℚ) (n : Nat) : Prop :=
  0 < gain ∧ MAX_EXP ≤ n ∧
    MAX_EXP - 2 < n * (gain + lose) + 12 * math.sqrt (n * (gain + lose) * (1 - (gain + lose)))

instance (gain lose : ℚ) : DecidablePred (Overflows math gain lose) := fun n =>
  inferInstanceAs (Decidable (0 < gain ∧ MAX_EXP ≤ n ∧
    (MAX_EXP - 2 : ℚ) < n * (gain + lose) + 12 * math.sqrt (n * (gain + lose) * (1 - (gain + lose)))))

/-- What `powerCells` comes to without the overflow. -/
def exactPower (gain lose : ℚ) (n : Nat) (alpha : ℚ) : ℚ :=
  let disc := gain + lose
  if n < 1 ∨ disc ≤ 0 ∨ gain ≤ 0 then 0
  else
    min 1 ((window n (n * disc) (math.sqrt (n * disc * (1 - disc)))).map fun d =>
      term math n d (critical d alpha) disc (gain / disc)).sum

/-! ## The odds of rates -/

section Means

variable {α : Type} {f g : α → ℚ}

theorem mean_nonneg {l : List α} (nonneg : ∀ a ∈ l, 0 ≤ f a) : 0 ≤ mean (l.map f) := by
  refine div_nonneg (List.sum_nonneg fun x member => ?_) (Nat.cast_nonneg _)
  obtain ⟨a, inside, rfl⟩ := List.mem_map.mp member
  exact nonneg a inside

theorem mean_add (l : List α) : mean (l.map f) + mean (l.map g) = mean (l.map fun a => f a + g a) := by
  simp only [mean, List.length_map, List.sum_map_add]
  ring

theorem mean_neg (l : List α) : mean (l.map fun a => - f a) = - mean (l.map f) := by
  have sum : (l.map fun a => - f a).sum = - (l.map f).sum := by
    induction l with
    | nil => simp
    | cons a rest ih => rw [List.map_cons, List.sum_cons, ih, List.map_cons, List.sum_cons]; ring
  rw [mean, mean, sum, List.length_map, List.length_map, neg_div]

theorem mean_le_one {l : List α} (le : ∀ a ∈ l, f a ≤ 1) : mean (l.map f) ≤ 1 := by
  have sum : (l.map f).sum ≤ (l.map f).length • (1 : ℚ) := by
    refine List.sum_le_card_nsmul _ _ fun x member => ?_
    obtain ⟨a, inside, rfl⟩ := List.mem_map.mp member
    exact le a inside
  rw [nsmul_one] at sum
  exact div_le_one_of_le₀ sum (Nat.cast_nonneg _)

end Means

/-- A cell that was passed with one chance and is passed with another changes with at most one. -/
theorem change_le_one {p q : ℚ} (low : 0 ≤ p) (high : p ≤ 1) (at_most : q ≤ 1) (at_least : p - 1 < q) :
    (1 - p) * q + p * (1 - q) ≤ 1 := by
  rcases le_total 0 q with nonneg | neg
  · nlinarith [mul_nonneg (sub_nonneg.mpr high) (sub_nonneg.mpr at_most), mul_nonneg low nonneg]
  · have first : 0 ≤ p * (q - (p - 1)) := mul_nonneg low (by linarith)
    have second : 0 ≤ (1 - p) * (1 - q - p) := mul_nonneg (by linarith) (by linarith)
    nlinarith [first, second]

theorem cellOdds_odds {rates : List ℚ} (within : Rates rates) (effect : ℚ) :
    Odds (cellOdds rates effect).1 (cellOdds rates effect).2 := by
  refine ⟨mean_nonneg fun p member => ?_, fun gains => ?_⟩
  · exact mul_nonneg (within p member).1 (sub_nonneg.mpr (min_le_left _ _))
  · have above : -1 < effect := by
      by_contra below
      have none_ : 0 ≤ mean (rates.map fun p => - ((1 - p) * min 1 (p + effect))) := by
        refine mean_nonneg fun p member => ?_
        obtain ⟨-, high⟩ := within p member
        have lost : min 1 (p + effect) ≤ 0 := (min_le_right _ _).trans (by linarith)
        linarith [mul_nonneg (sub_nonneg.mpr high) (neg_nonneg.mpr lost)]
      rw [mean_neg] at none_
      have some_ : 0 < mean (rates.map fun p => (1 - p) * min 1 (p + effect)) := gains
      linarith
    rw [cellOdds, mean_add]
    refine mean_le_one fun p member => ?_
    obtain ⟨low, high⟩ := within p member
    exact change_le_one low high (min_le_left _ _) (lt_min (by linarith) (by linarith))

/-! ## One count -/

/-- The greatest count of the window is the one that matters. -/
theorem window_reaches {n : Nat} {mean sd : ℚ} (some_ : 1 ≤ n) (nonneg : 0 ≤ mean) (le : mean ≤ n)
    (sd_nonneg : 0 ≤ sd) :
    (∃ d ∈ window n mean sd, MAX_EXP ≤ d) ↔ MAX_EXP ≤ n ∧ MAX_EXP - 2 < mean + 12 * sd := by
  have exp : MAX_EXP = 1024 := rfl
  have top : 1023 ≤ ⌈mean + 12 * sd⌉ ↔ (MAX_EXP - 2 : ℚ) < mean + 12 * sd := by
    have whole : (MAX_EXP - 2 : ℚ) = ((1022 : ℤ) : ℚ) := by
      rw [exp]
      norm_num
    rw [whole, ← Int.lt_ceil]
    exact Int.add_one_le_iff (a := 1022)
  have low : ⌊mean - 12 * sd⌋ ≤ (n : ℤ) := by
    rw [Int.floor_le_iff]
    push_cast
    linarith
  have low' : ⌊mean - 12 * sd⌋ ≤ ⌈mean + 12 * sd⌉ :=
    (Int.floor_le_floor (by linarith)).trans (Int.floor_le_ceil (mean + 12 * sd))
  have high : 0 ≤ ⌈mean + 12 * sd⌉ := Int.ceil_nonneg (by positivity)
  rw [← top]
  unfold window
  dsimp only
  generalize ⌊mean - 12 * sd⌋ = lo at low low'
  generalize ⌈mean + 12 * sd⌉ = hi at low' high
  constructor
  · rintro ⟨d, member, reach⟩
    rw [List.mem_range'_1] at member
    omega
  · rintro ⟨many, far⟩
    refine ⟨(min (n : ℤ) (hi + 1)).toNat, List.mem_range'_1.mpr ?_, ?_⟩
    all_goals omega

theorem powerCells_eq {gain lose : ℚ} (odds : Odds gain lose) (n : Nat) (alpha : ℚ) :
    powerCells math gain lose n alpha =
      if Overflows math gain lose n then .error (.overflow {})
      else .ok (exactPower math gain lose n alpha) := by
  unfold powerCells exactPower
  dsimp only
  split
  next early =>
    have safe : ¬ Overflows math gain lose n := by
      rintro ⟨gains, many, -⟩
      have some_ : 1 ≤ n := (show 1 ≤ MAX_EXP by decide).trans many
      rcases early with none_ | none_ | none_
      · exact absurd some_ (Nat.not_le.mpr none_)
      · linarith [odds.lose_nonneg]
      · exact absurd gains (not_lt.mpr none_)
    rw [if_neg safe]
  next asked =>
    push Not at asked
    obtain ⟨some_, disc, gains⟩ := asked
    have most := odds.le_one gains
    have mean_nonneg : 0 ≤ n * (gain + lose) := by positivity
    have mean_le : n * (gain + lose) ≤ n := mul_le_of_le_one_right (Nat.cast_nonneg n) most
    have variance : ¬ n * (gain + lose) * (1 - (gain + lose)) < 0 :=
      not_lt.mpr (mul_nonneg mean_nonneg (sub_nonneg.mpr most))
    have compared : ∀ d, (do
        let need ← (_critical d alpha).mapError Raised.overflow
        Except.ok (term math n d need (gain + lose) (gain / (gain + lose)))) =
        if MAX_EXP ≤ d then Except.error (Raised.overflow {})
        else .ok (term math n d (critical d alpha) (gain + lose) (gain / (gain + lose))) := by
      intro d
      rw [critical_eq]
      split <;> rfl
    have reaches := window_reaches some_ mean_nonneg mean_le
      (math.sqrt_nonneg (n * (gain + lose) * (1 - (gain + lose))))
    have same : (∃ d ∈ window n (n * (gain + lose))
        (math.sqrt (n * (gain + lose) * (1 - (gain + lose)))), MAX_EXP ≤ d) ↔
        Overflows math gain lose n := reaches.trans (and_iff_right gains).symm
    rw [Libm.root, if_neg variance]
    simp only [compared]
    dsimp only [bind, Except.bind]
    rw [mapM_refused]
    by_cases beyond : Overflows math gain lose n
    · simp only [same, if_pos beyond]
    · simp only [same, if_neg beyond]

/-! ## The search -/

variable (order : SetOrder)

/-- The counts that the search comes to, in its order. -/
def searched (rates : List ℚ) (rho : ℚ) (stochastic : Bool) (cap most : Nat) : List Nat :=
  (List.range' rates.length (most + 1 - rates.length)).flatMap fun k =>
    order ((repeatsUpTo cap stochastic).map fun r => effectiveCells k r rho)

/-- No count that the search comes to overflows, until one has the power. -/
def SafeSearch (rates : List ℚ) (effect rho : ℚ) (stochastic : Bool) (alpha target : ℚ) (cap : Nat)
    (most : Nat := MAX_CASES) : Prop :=
  let (gain, lose) := cellOdds rates effect
  ∀ front n back, searched order rates rho stochastic cap most = front ++ n :: back →
    (∀ m ∈ front, exactPower math gain lose m alpha < target) → ¬ Overflows math gain lose n

theorem casesNeeded_returns {rates : List ℚ} (within : Rates rates) (effect rho : ℚ) (stochastic : Bool)
    (alpha target : ℚ) (cap most : Nat) :
    Returns (casesNeeded math order rates effect rho stochastic alpha target cap most) ↔
      SafeSearch math order rates effect rho stochastic alpha target cap most := by
  have odds := cellOdds_odds within effect
  have saturated : rates = [] → (cellOdds rates effect).1 ≤ 0 := by
    rintro rfl
    simp [cellOdds, mean]
  unfold casesNeeded SafeSearch
  generalize cellOdds rates effect = chances at odds saturated
  obtain ⟨gain, lose⟩ := chances
  dsimp only at odds saturated ⊢
  by_cases gains : gain ≤ 0
  · refine iff_of_true ?_ fun front n back _ _ beyond => absurd beyond.1 (not_lt.mpr gains)
    split
    next => exact returns_ok _
    next => exact returns_ok _
  · have some_ : rates ≠ [] := fun none_ => gains (saturated none_)
    have decided : ∀ n, (powerCells math gain lose n alpha).map (fun got => decide (target ≤ got)) =
        if Overflows math gain lose n then .error (.overflow {})
        else .ok (decide (target ≤ exactPower math gain lose n alpha)) := by
      intro n
      rw [powerCells_eq math odds]
      split <;> rfl
    rw [if_neg some_, if_neg gains, ← returns_map (f := Option.isSome), map_findM]
    simp only [decided]
    rw [returns_anyM, ← searched]
    simp only [decide_eq_false_iff_not, not_le]

/-! ## The plan -/

/-- The repeats that a plan asks the power of. -/
def asked (request : Request) : List Nat :=
  if request.stochastic = false then [1]
  else if request.repeats.getD 0 ≠ 0 then [request.repeats.getD 0]
  else List.range' 1 request.cap

theorem power_eq {rates : List ℚ} (within : Rates rates) (effect : ℚ) {r : Nat} (alpha rho : ℚ) :
    power math rates effect r alpha rho =
      let (gain, lose) := cellOdds rates effect
      let n := effectiveCells rates.length r rho
      if Overflows math gain lose n then .error (.overflow {})
      else .ok (exactPower math gain lose n alpha) := by
  have odds := cellOdds_odds within effect
  unfold power
  split
  next none_ =>
    have zero : effectiveCells rates.length r rho = 0 := by
      apply if_pos
      rcases none_ with rfl | none_
      · exact .inl Nat.zero_lt_one
      · exact .inr none_
    have safe : ¬ Overflows math (cellOdds rates effect).1 (cellOdds rates effect).2 0 :=
      fun beyond => absurd beyond.2.1 (by decide)
    dsimp only
    rw [zero, if_neg safe, exactPower, if_pos (.inl Nat.zero_lt_one)]
  next => exact powerCells_eq math odds _ _

theorem fallShort_returns {powers : List ℚ} (some_ : powers ≠ []) (rho : ℚ) (measured : Bool)
    (target : ℚ) (cap : Nat) (more : String) :
    Returns (fallShort powers rho measured target cap more) := by
  unfold fallShort
  cases greatest : powers.max? with
  | none => exact absurd (List.max?_eq_none_iff.mp greatest) some_
  | some best =>
      dsimp only
      generalize (if measured then plateau powers best else max (plateau powers best)
        (min MEASURING_REPEAT cap)) = r
      by_cases early : r < cap ∧ 0 < rho
      · rw [if_pos early]
        exact returns_ok _
      · rw [if_neg early]
        exact returns_ok _

theorem chosenRepeat_returns {rates : List ℚ} (within : Rates rates) (effect rho : ℚ) (measured : Bool)
    (alpha : ℚ) {request : Request} (some_ : 0 < request.cap) (more : String) :
    Returns (chosenRepeat math rates effect rho measured request.stochastic alpha request.target
        request.cap request.repeats more) ↔
      ∀ r ∈ asked request, ¬ Overflows math (cellOdds rates effect).1 (cellOdds rates effect).2
        (effectiveCells rates.length r rho) := by
  have asks := fun r => power_eq (r := r) math within effect alpha rho
  generalize cellOdds rates effect = chances at asks ⊢
  obtain ⟨gain, lose⟩ := chances
  dsimp only at asks ⊢
  unfold chosenRepeat asked
  dsimp only
  by_cases fixed : request.stochastic = false
  · rw [if_pos fixed, if_pos fixed, List.forall_mem_singleton, asks, returns_bind]
    split
    next beyond => simp [beyond]
    next safe => simp [safe]
  · rw [if_neg fixed, if_neg fixed]
    by_cases chosen : request.repeats.getD 0 ≠ 0
    · rw [if_pos chosen, if_pos chosen, List.forall_mem_singleton, asks, returns_bind]
      split
      next beyond => simp [beyond]
      next safe => simp [safe]
    · rw [if_neg chosen, if_neg chosen, returns_bind]
      simp only [asks]
      rw [mapM_refused]
      by_cases beyond : ∃ r ∈ List.range' 1 request.cap, Overflows math gain lose
          (effectiveCells rates.length r rho)
      · rw [if_pos beyond]
        refine iff_of_false ?_ fun safe => ?_
        · rintro ⟨powers, made, -⟩
          cases made
        · obtain ⟨r, inside, bad⟩ := beyond
          exact safe r inside bad
      · rw [if_neg beyond]
        refine iff_of_true ⟨_, rfl, ?_⟩ fun r inside bad => beyond ⟨r, inside, bad⟩
        split
        next => exact returns_ok _
        next =>
          refine fallShort_returns (fun none_ => ?_) _ _ _ _ _
          have lengths := congrArg List.length none_
          rw [List.length_map, List.length_range'] at lengths
          exact some_.ne' lengths

/-- No count that the plan of a request asks the power of overflows. -/
def SafePlan (rates : List ℚ) (request : Request) : Prop :=
  let effect := request.effect.getD DEFAULT_EFFECT
  let rho := request.rho.getD DEFAULT_RHO
  SafeSearch math order rates effect rho request.stochastic (request.alpha.getD ALPHA) request.target
      request.cap ∧
    ∀ r ∈ asked request, ¬ Overflows math (cellOdds rates effect).1 (cellOdds rates effect).2
      (effectiveCells rates.length r rho)

theorem plan_returns {rates : List ℚ} (within : Rates rates) {request : Request} (some_ : 0 < request.cap) :
    Returns (plan math order rates request) ↔ SafePlan math order rates request := by
  unfold plan SafePlan
  dsimp only
  rw [returns_bind, ← casesNeeded_returns math order within]
  constructor
  · rintro ⟨need, searched, made⟩
    obtain ⟨⟨r, got, capped, why⟩, chosen, -⟩ := returns_bind.mp made
    exact ⟨⟨need, searched⟩, (chosenRepeat_returns math within _ _ _ _ some_ _).mp ⟨_, chosen⟩⟩
  · rintro ⟨⟨need, searched⟩, safe⟩
    refine ⟨need, searched, returns_bind.mpr ?_⟩
    obtain ⟨chosen, made⟩ := (chosenRepeat_returns math within _ _ request.rho.isSome _ some_ _).mpr safe
    exact ⟨chosen, made, returns_ok _⟩

/-- The planner raises exactly where it comes to a count of cells whose window overflows. -/
theorem planner_returns_iff {rates : List ℚ} (within : Rates rates) :
    (∀ (effect alpha : ℚ) (n : Nat),
      Returns (powerCells math (cellOdds rates effect).1 (cellOdds rates effect).2 n alpha) ↔
        ¬ Overflows math (cellOdds rates effect).1 (cellOdds rates effect).2 n) ∧
      (∀ (effect rho : ℚ) (stochastic : Bool) (alpha target : ℚ) (cap most : Nat),
        Returns (casesNeeded math order rates effect rho stochastic alpha target cap most) ↔
          SafeSearch math order rates effect rho stochastic alpha target cap most) ∧
        ∀ request : Request, 0 < request.cap →
          (Returns (plan math order rates request) ↔ SafePlan math order rates request) := by
  refine ⟨fun effect alpha n => ?_, casesNeeded_returns math order within,
    fun request some_ => plan_returns math order within some_⟩
  rw [powerCells_eq math (cellOdds_odds within effect)]
  split
  next beyond => exact iff_of_false (not_returns_error _) (not_not_intro beyond)
  next safe => exact iff_of_true (returns_ok _) safe

/-- Roots down to the denominator of their square, and exact for the squares of whole numbers. -/
def wholeRoots : Libm where
  sqrt x := (Nat.sqrt (x.num.toNat * x.den) : ℚ) / x.den
  lgamma _ := 0
  exp _ := 1
  log _ := 0
  sqrt_nonneg _ := by positivity

theorem rates_replicate {p : ℚ} (k : Nat) (low : 0 ≤ p) (high : p ≤ 1) : Rates (List.replicate k p) := by
  intro q member
  rw [List.eq_of_mem_replicate member]
  exact ⟨low, high⟩

/-- Six cases that are all won: the odds are certain, so no logarithm is taken. -/
theorem six_cases_planned :
    Returns (plan wholeRoots List.dedup (List.replicate 6 0) { effect := some 1, rho := some 0 }) := by
  refine ((planner_returns_iff wholeRoots List.dedup (rates_replicate 6 le_rfl zero_le_one)).2.2 _
    (by decide)).mpr ⟨fun front n back shape earlier => ?_, by decide +kernel⟩
  have first : ((repeatsUpTo CAP true).map fun r => effectiveCells 6 r 0).dedup =
      6 :: (List.range' 2 15).map (6 * ·) := by decide +kernel
  have cases_ : List.range' 6 (MAX_CASES + 1 - 6) = 6 :: List.range' 7 (MAX_CASES - 6) :=
    List.range'_succ ..
  change (List.range' 6 (MAX_CASES + 1 - 6)).flatMap (fun k =>
    ((repeatsUpTo CAP true).map fun r => effectiveCells k r 0).dedup) = _ at shape
  rw [cases_, List.flatMap_cons, first, List.cons_append] at shape
  cases front with
  | nil =>
      rw [← (List.cons.inj shape).1]
      decide +kernel
  | cons m front =>
      have powered := earlier m List.mem_cons_self
      rw [← (List.cons.inj shape).1] at powered
      exact absurd powered (by decide +kernel)

/-- A hundred cases passed half the time, drawn independently up to sixteen times, are 1600 cells: 800
    are expected to change, and 1041 may. -/
theorem sixteen_repeats_raise :
    Rates (List.replicate 100 (1 / 2)) ∧
      ¬ Returns (powerCells wholeRoots (7 / 20) (3 / 20) 1600 ALPHA) ∧
        ¬ Returns (plan wholeRoots List.dedup (List.replicate 100 (1 / 2)) { rho := some 0 }) := by
  have within : Rates (List.replicate 100 (1 / 2)) :=
    rates_replicate 100 (by norm_num) (by norm_num)
  have odds : cellOdds (List.replicate 100 (1 / 2)) DEFAULT_EFFECT = (7 / 20, 3 / 20) := by
    decide +kernel
  have beyond : Overflows wholeRoots (7 / 20) (3 / 20) 1600 := by decide +kernel
  refine ⟨within, ?_, ?_⟩
  · have chances := cellOdds_odds within DEFAULT_EFFECT
    rw [odds] at chances
    rw [powerCells_eq wholeRoots chances, if_pos beyond]
    exact not_returns_error _
  · rw [plan_returns wholeRoots List.dedup within (by decide)]
    rintro ⟨-, safe⟩
    have last := safe 16 (by decide)
    have cells : effectiveCells (List.replicate 100 (1 / 2 : ℚ)).length 16 0 = 1600 := by decide +kernel
    rw [Option.getD_some, cells, Option.getD_none, odds] at last
    exact last beyond

end LocalHarness.Power
