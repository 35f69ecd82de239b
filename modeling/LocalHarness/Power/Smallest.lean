import Mathlib.Data.List.GetD
import LocalHarness.Power.Returns

/-! # What a plan says of its repeat

Its power is the one of the repeat it returns, whatever the loops before made of it. With no repeat
chosen, that repeat is the smallest with the power, or none up to the cap has it; and what does not
fit the budget is cut down until it does.
-/

namespace LocalHarness.Power

open LocalHarness.Library
open LocalHarness.Adopt (ALPHA DEFAULT_RHO)

variable (math : Libm) (order : SetOrder)

/-- The power of `r` repeats is less than the target. -/
def Short (powerAt : Nat → Except Raised ℚ) (target : ℚ) (r : Nat) : Prop :=
  ∃ got, powerAt r = .ok got ∧ got < target

/-- What the repeat of a plan was chosen for. -/
structure Chosen (powerAt : Nat → Except Raised ℚ) (target : ℚ) (cap : Nat) (stochastic : Bool)
    (repeats : Option Nat) (r : Nat) (got : ℚ) : Prop where
  pos : 0 < r
  power : powerAt r = .ok got
  once : stochastic = false → r = 1
  given : stochastic = true → repeats.getD 0 ≠ 0 → r = repeats.getD 0
  smallest : repeats.getD 0 = 0 → target ≤ got → ∀ r', 1 ≤ r' → r' < r → Short powerAt target r'
  unreached : stochastic = true → repeats.getD 0 = 0 → got < target →
    ∀ r', 1 ≤ r' → r' ≤ cap → Short powerAt target r'

/-- The power a plan has for these rates at a repeat. -/
def Plan.powerAt (p : Plan) (rates : List ℚ) (r : Nat) : Except Raised ℚ :=
  LocalHarness.Power.power math rates p.effect r p.alpha p.rho

theorem mapM_range_ok {powerAt : Nat → Except Raised ℚ} {cap : Nat} {powers : List ℚ}
    (made : (List.range' 1 cap).mapM powerAt = .ok powers) :
    powers.length = cap ∧ ∀ r, 1 ≤ r → r ≤ cap → powerAt r = .ok (powers.getD (r - 1) 0) := by
  have each := mapM_ok made
  have length : powers.length = cap := by rw [← each.length_eq, List.length_range']
  refine ⟨length, fun r low high => ?_⟩
  have inside : r - 1 < powers.length := by omega
  have pair := each.get (i := r - 1) (by rwa [each.length_eq]) inside
  have place : 1 + 1 * (r - 1) = r := by omega
  rwa [List.get_eq_getElem, List.getElem_range', place, List.get_eq_getElem,
    ← List.getD_eq_getElem _ 0 inside] at pair

theorem plateau_le {powers : List ℚ} {best : ℚ} (greatest : powers.max? = some best) :
    plateau powers best ≤ powers.length := by
  have member : best ∈ powers := List.max?_mem greatest
  exact List.findIdx_lt_length_of_exists ⟨best, member, by simp [PLATEAU_ABS]⟩

theorem fallShort_ok {powerAt : Nat → Except Raised ℚ} {cap : Nat} {powers : List ℚ}
    (made : (List.range' 1 cap).mapM powerAt = .ok powers) {rho target got : ℚ} {measured capped : Bool}
    {more why : String} {r : Nat}
    (short : fallShort powers rho measured target cap more = .ok (r, got, capped, why)) :
    0 < r ∧ r ≤ cap ∧ powerAt r = .ok got := by
  obtain ⟨length, each⟩ := mapM_range_ok made
  unfold fallShort at short
  cases greatest : powers.max? with
  | none =>
      rw [greatest] at short
      cases short
  | some best =>
      have some_ : 0 < powers.length :=
        List.length_pos_of_mem (List.max?_mem greatest)
      rw [greatest] at short
      dsimp only at short
      have within := plateau_le greatest
      rw [length] at within some_
      obtain ⟨r', chosen⟩ : ∃ r', (if measured then plateau powers best
        else max (plateau powers best) (min MEASURING_REPEAT cap)) = r' := ⟨_, rfl⟩
      rw [chosen] at short
      have le : r' ≤ cap := by
        rw [← chosen]
        split <;> omega
      have pos : 0 < r' := by
        have first : 0 < plateau powers best := Nat.succ_pos _
        rw [← chosen]
        split <;> omega
      by_cases early : r' < cap ∧ 0 < rho
      · have here := each r' pos le
        rw [if_pos early] at short
        cases short
        exact ⟨pos, le, here⟩
      · rw [if_neg early] at short
        cases short
        refine ⟨some_, le_refl _, ?_⟩
        rw [each cap some_ (le_refl _), List.getLastD_eq_getLast?, List.getLast?_eq_getElem?, length,
          List.getD_eq_getElem?_getD]

theorem chosenRepeat_ok {rates : List ℚ} {effect rho alpha target got : ℚ}
    {measured stochastic capped : Bool} {cap r : Nat} {repeats : Option Nat} {more why : String}
    (made : chosenRepeat math rates effect rho measured stochastic alpha target cap repeats more =
      .ok (r, got, capped, why)) :
    Chosen (fun r => power math rates effect r alpha rho) target cap stochastic repeats r got := by
  unfold chosenRepeat at made
  dsimp only at made
  by_cases fixed : stochastic = false
  · rw [if_pos fixed] at made
    obtain ⟨got', power, rest⟩ := bind_ok made
    cases rest
    exact
      { pos := Nat.one_pos
        power := power
        once := fun _ => rfl
        given := fun other => absurd (fixed.symm.trans other) (by decide)
        smallest := fun _ _ r' low high => absurd high (Nat.not_lt.mpr low)
        unreached := fun other => absurd (fixed.symm.trans other) (by decide) }
  · rw [if_neg fixed] at made
    by_cases chosen : repeats.getD 0 ≠ 0
    · rw [if_pos chosen] at made
      obtain ⟨got', power, rest⟩ := bind_ok made
      cases rest
      exact
        { pos := Nat.pos_of_ne_zero chosen
          power := power
          once := fun other => absurd other fixed
          given := fun _ _ => rfl
          smallest := fun none_ => absurd none_ chosen
          unreached := fun _ none_ => absurd none_ chosen }
    · rw [if_neg chosen] at made
      obtain ⟨powers, asked, rest⟩ := bind_ok made
      obtain ⟨length, each⟩ := mapM_range_ok asked
      -- The first repeat of the list with the power, or none.
      cases found : powers.findIdx? fun got => target ≤ got with
      | some i =>
          rw [found] at rest
          cases rest
          obtain ⟨inside, reached, earlier⟩ := List.findIdx?_eq_some_iff_getElem.mp found
          rw [decide_eq_true_iff] at reached
          have short : ∀ r', 1 ≤ r' → r' < i + 1 →
              Short (fun r => LocalHarness.Power.power math rates effect r alpha rho) target r' := by
            intro r' low high
            have before := earlier (r' - 1) (by omega)
            rw [decide_eq_true_iff, not_le, ← List.getD_eq_getElem _ 0] at before
            exact ⟨_, each r' low (by omega), before⟩
          rw [← List.getD_eq_getElem _ 0] at reached
          exact
            { pos := Nat.succ_pos i
              power := each (i + 1) (Nat.succ_pos i) (length ▸ inside)
              once := fun other => absurd other fixed
              given := fun _ other => absurd other chosen
              smallest := fun _ _ => short
              unreached := fun _ _ less => absurd less (not_lt.mpr reached) }
      | none =>
          rw [found] at rest
          obtain ⟨pos, le, power⟩ := fallShort_ok asked rest
          have below := List.findIdx?_eq_none_iff.mp found
          have short : ∀ r', 1 ≤ r' → r' ≤ cap →
              Short (fun r => LocalHarness.Power.power math rates effect r alpha rho) target r' := by
            intro r' low high
            have inside : r' - 1 < powers.length := by omega
            have missed := below _ (List.getElem_mem inside)
            rw [decide_eq_false_iff_not, not_le, ← List.getD_eq_getElem _ 0] at missed
            exact ⟨_, each r' low high, missed⟩
          exact
            { pos := pos
              power := power
              once := fun other => absurd other fixed
              given := fun _ other => absurd other chosen
              smallest := fun _ _ r' low high => short r' low (high.le.trans le)
              unreached := fun _ _ _ => short }

/-- A plan answers the request it was made for. -/
structure Answers (rates : List ℚ) (request : Request) (p : Plan) : Prop where
  chosen : Chosen (p.powerAt math rates) p.target p.cap p.stochastic request.repeats p.repeats p.power
  effect : p.effect = request.effect.getD DEFAULT_EFFECT
  alpha : p.alpha = request.alpha.getD ALPHA
  rho : p.rho = request.rho.getD DEFAULT_RHO
  measured : p.rhoMeasured = request.rho.isSome
  target : p.target = request.target
  cap : p.cap = request.cap
  stochastic : p.stochastic = request.stochastic

theorem plan_answers {rates : List ℚ} {request : Request} {p : Plan}
    (made : plan math order rates request = .ok p) : Answers math rates request p := by
  unfold plan at made
  dsimp only at made
  obtain ⟨need, -, rest⟩ := bind_ok made
  obtain ⟨⟨r, got, capped, why⟩, chosen, last⟩ := bind_ok rest
  cases last
  exact ⟨chosenRepeat_ok math chosen, rfl, rfl, rfl, rfl, rfl, rfl, rfl⟩

/-! ## Within the budget -/

/-- What a plan that was fitted to a budget says of it. -/
structure Fitted (rates : List ℚ) (chosen : Plan) (casesRun : Nat) (medianS : Option ℚ) (budgetS : ℚ)
    (explicit : Bool) (p : Plan) : Prop where
  power : chosen.powerAt math rates p.repeats = .ok p.power
  projected : p.projectedS = projectedSeconds casesRun p.repeats medianS
  fits : explicit = true ∨ p.repeats = 1 ∨ medianS = none ∨ ∃ seconds, p.projectedS = some seconds ∧
    seconds ≤ budgetS

theorem cutDown_ok {rates : List ℚ} {request : Request} {chosen p : Plan}
    (planned : Answers math rates request chosen) {r : Nat} (pos : 0 < r) {cost : Option ℚ} {budgetS : ℚ}
    {note : String} (made : cutDown math order chosen rates r cost budgetS note = .ok p) :
    p.repeats = r ∧ p.projectedS = cost ∧ chosen.powerAt math rates r = .ok p.power := by
  unfold cutDown at made
  obtain ⟨got, again, last⟩ := bind_ok made
  cases last
  have answers := plan_answers math order again
  have same : got.repeats = r := answers.chosen.given answers.stochastic pos.ne'
  refine ⟨same, rfl, ?_⟩
  have power := answers.chosen.power
  have rho : got.rho = chosen.rho := by
    have measured := planned.measured
    have assumed := planned.rho
    rw [answers.rho]
    cases given : request.rho with
    | none =>
        rw [given] at measured assumed
        rw [measured, assumed]
        rfl
    | some rho =>
        rw [given] at measured
        rw [measured]
        rfl
  rw [Plan.powerAt, answers.effect, answers.alpha, rho, same] at power
  exact power

/-- One repeat is run whatever it costs, and no more than the budget pays for. -/
theorem cut_fits {once budgetS : ℚ} (pos : 0 < once) {a b : ℤ} {r : Nat}
    (cut : r = (max 1 (min a (min b ⌊budgetS / once⌋))).toNat) : r = 1 ∨ r * once ≤ budgetS := by
  rcases Nat.lt_or_ge 1 r with more | one
  · right
    have below : (r : ℤ) ≤ ⌊budgetS / once⌋ := by omega
    have share : (r : ℚ) ≤ budgetS / once := by exact_mod_cast Int.le_floor.mp below
    exact (le_div_iff₀ pos).mp share
  · left
    omega

theorem withinBudget_fits {rates : List ℚ} {request : Request} {chosen p : Plan}
    (planned : Answers math rates request chosen) {casesRun : Nat} {medianS : Option ℚ}
    (measured : ∀ seconds ∈ medianS, 0 ≤ seconds) {budgetS : ℚ} {explicit : Bool}
    (made : withinBudget math order chosen rates casesRun medianS budgetS explicit = .ok p) :
    Fitted math rates chosen casesRun medianS budgetS explicit p := by
  unfold withinBudget at made
  dsimp only at made
  by_cases kept : explicit = true ∨ chosen.stochastic = false
  · rw [if_pos kept] at made
    cases made
    refine ⟨planned.chosen.power, rfl, ?_⟩
    rcases kept with given | fixed
    · exact .inl given
    · exact .inr (.inl (planned.chosen.once fixed))
  · rw [if_neg kept] at made
    cases medianS with
    | none =>
        obtain ⟨repeats, cost, power⟩ := cutDown_ok math order planned
          (Nat.lt_min.mpr ⟨planned.chosen.pos, by decide⟩) made
        exact ⟨by rw [repeats]; exact power, by rw [cost, repeats], .inr (.inr (.inl rfl))⟩
    | some seconds =>
        have nonneg := measured seconds rfl
        dsimp only [projectedSeconds, Option.map_some] at made
        split at made
        next fits =>
          cases made
          exact ⟨planned.chosen.power, rfl, .inr (.inr (.inr ⟨_, rfl, fits⟩))⟩
        next beyond =>
          split at made
          next => cases made
          next costs =>
            obtain ⟨repeats, cost, power⟩ := cutDown_ok math order planned (by omega) made
            have once : 0 < casesRun * (1 : Nat) * 2 * seconds :=
              lt_of_le_of_ne (by positivity) (Ne.symm costs)
            refine ⟨by rw [repeats]; exact power, by rw [cost, repeats]; rfl, ?_⟩
            rcases cut_fits once repeats with one | fits
            · exact .inr (.inl one)
            · refine .inr (.inr (.inr ⟨_, cost, ?_⟩))
              rw [← repeats]
              refine le_trans (le_of_eq ?_) fits
              push_cast
              ring

/-! ## The plan -/

theorem not_short {powerAt : Nat → Except Raised ℚ} {target : ℚ} {r : Nat}
    (reached : (powerAt r).toOption.any (target ≤ ·) = true) : ¬ Short powerAt target r := by
  rintro ⟨got, power, less⟩
  rw [power] at reached
  exact absurd less (not_lt.mpr (of_decide_eq_true reached))

end LocalHarness.Power
