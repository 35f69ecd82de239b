import LocalHarness.Adopt.Gates
import LocalHarness.Holdout.Assign
import LocalHarness.Library.Fallible
import LocalHarness.Power.Critical

/-! # How many repeats a run needs

The power of the gate over so many independent cells, the fewest cases that reach a target, and the
plan of a run: the smallest repeat that reaches it, or what would.
-/

namespace LocalHarness.Power

open LocalHarness.Library
open LocalHarness.Adopt (mean shrunkDown designEffect ALPHA DEFAULT_RHO)
open LocalHarness.Holdout (FRACTION)

/-- What can be raised on the way. -/
inductive Raised
  | overflow (why : OverflowError)
  /-- The root of a negative number. -/
  | domain
  /-- The greatest of no values. -/
  | empty
  | zeroDivision
  deriving DecidableEq

/-- The functions of the math module, on finite floats. -/
structure Libm where
  sqrt : ℚ → ℚ
  lgamma : ℚ → ℚ
  exp : ℚ → ℚ
  log : ℚ → ℚ
  sqrt_nonneg : ∀ x, 0 ≤ sqrt x

/-- `math.sqrt`, which takes no negative number. -/
def Libm.root (math : Libm) (x : ℚ) : Except Raised ℚ :=
  if x < 0 then .error .domain else .ok (math.sqrt x)

def TARGET : ℚ := 4 / 5

def CAP : Nat := 16

def DEFAULT_EFFECT : ℚ := 1 / 5

def MAX_CASES : Nat := 2000

def FALLBACK_REPEAT : Nat := 3

def MEASURING_REPEAT : Nat := 2

def PLATEAU : ℚ := 19 / 20

def PLATEAU_ABS : ℚ := 1 / 100

variable (math : Libm)

def pmf (n k : Nat) (p : ℚ) : ℚ :=
  if n < k then 0
  else if p = 0 then if k = 0 then 1 else 0
  else if p = 1 then if k = n then 1 else 0
  else
    let logC := math.lgamma (n + 1) - math.lgamma (k + 1) - math.lgamma (n - k + 1)
    math.exp (logC + k * math.log p + (n - k) * math.log (1 - p))

/-- `effective_cells`. -/
def effectiveCells (cases repeats : Nat) (rho : ℚ) : Nat :=
  if cases < 1 ∨ repeats < 1 then 0
  else shrunkDown ((cases * repeats : ℚ) / designEffect repeats rho)

/-- The counts of changed cells that are worth a term, for a mean and a deviation. -/
def window (n : Nat) (mean sd : ℚ) : List Nat :=
  let lo := max 1 (⌊mean - 12 * sd⌋ - 1)
  let hi := min (n : ℤ) (⌈mean + 12 * sd⌉ + 1)
  List.range' lo.toNat (hi + 1 - lo).toNat

/-- The term of `d` changed cells, of which `need` have to be gains. -/
def term (n d need : Nat) (disc r : ℚ) : ℚ :=
  if d < need then 0
  else pmf math n d disc * ((List.range' need (d + 1 - need)).map fun j => pmf math d j r).sum

/-- `power_cells`. -/
def powerCells (gain lose : ℚ) (n : Nat) (alpha : ℚ) : Except Raised ℚ :=
  let disc := gain + lose
  if n < 1 ∨ disc ≤ 0 ∨ gain ≤ 0 then .ok 0
  else do
    let r := gain / disc
    let mean := n * disc
    let sd ← math.root (n * disc * (1 - disc))
    let terms ← (window n mean sd).mapM fun d => do
      let need ← (_critical d alpha).mapError .overflow
      .ok (term math n d need disc r)
    .ok (min 1 terms.sum)

/-- `_cell_odds`. -/
def cellOdds (rates : List ℚ) (effect : ℚ) : ℚ × ℚ :=
  (mean (rates.map fun p => (1 - p) * min 1 (p + effect)),
    mean (rates.map fun p => p * (1 - min 1 (p + effect))))

def power (rates : List ℚ) (effect : ℚ) (repeats : Nat) (alpha : ℚ) (rho : ℚ) : Except Raised ℚ :=
  if rates = [] ∨ repeats < 1 then .ok 0
  else
    let (gain, lose) := cellOdds rates effect
    powerCells math gain lose (effectiveCells rates.length repeats rho) alpha

/-- The order in which the set of a list's elements is gone through. -/
abbrev SetOrder := List Nat → List Nat

variable (order : SetOrder)

/-- The repeats that are searched. -/
def repeatsUpTo (cap : Nat) (stochastic : Bool) : List Nat :=
  if stochastic then List.range' 1 cap else [1]

/-- `cases_needed`. -/
def casesNeeded (rates : List ℚ) (effect rho : ℚ) (stochastic : Bool) (alpha target : ℚ) (cap : Nat)
    (most : Nat := MAX_CASES) : Except Raised (Option Nat) :=
  if rates = [] then .ok none
  else
    let (gain, lose) := cellOdds rates effect
    if gain ≤ 0 then .ok none
    else
      (List.range' rates.length (most + 1 - rates.length)).findM? fun k =>
        (order ((repeatsUpTo cap stochastic).map fun r => effectiveCells k r rho)).anyM fun n =>
          (powerCells math gain lose n alpha).map fun got => target ≤ got

structure Plan where
  repeats : Nat
  power : ℚ
  cells : Nat
  cases : Nat
  effect : ℚ
  alpha : ℚ
  target : ℚ
  cap : Nat
  capped : Bool
  stochastic : Bool
  observed : Nat
  why : String
  rho : ℚ := 0
  rhoMeasured : Bool := false
  casesNeeded : Option Nat := none
  neededRepeat : Option Nat := none
  projectedS : Option ℚ := none
  budgetS : Option ℚ := none
  deriving DecidableEq

def Plan.enough (plan : Plan) : Bool :=
  plan.target ≤ plan.power

/-- `_more_cases`. -/
def moreCases (rates : List ℚ) (effect : ℚ) (k : Nat) (need : Option Nat) (target : ℚ) : String :=
  match need with
  | none =>
      if rates = [] ∨ (cellOdds rates effect).1 ≤ 0 then
        "the holdout is saturated: the incumbent passes every case, " ++
          "so no number of cases can show a gain"
      else "no holdout of up to " ++ toString MAX_CASES ++ " cases reaches " ++ Decimal.shortest target
  | some need =>
      if need ≤ k then toString k ++ " holdout cases are enough"
      else
        toString need ++ " holdout cases would reach " ++ Decimal.shortest target ++ ": " ++
          toString (need - k) ++ " more holdout cases, about " ++
          toString ⌈((need - k : Nat) : ℚ) / FRACTION⌉ ++ " more lane cases at the " ++
          Decimal.shortest FRACTION ++ " holdout fraction"

/-- The repeat past which more buy next to nothing: the first within reach of the greatest power. -/
def plateau (powers : List ℚ) (best : ℚ) : Nat :=
  powers.findIdx (fun got => best * PLATEAU ≤ got ∨ best - got ≤ PLATEAU_ABS) + 1

/-- What no repeat up to the cap reaching the target is answered with. -/
def fallShort (powers : List ℚ) (rho : ℚ) (measured : Bool) (target : ℚ) (cap : Nat) (more : String) :
    Except Raised (Nat × ℚ × Bool × String) :=
  match powers.max? with
  | none => .error .empty
  | some best =>
      let r := plateau powers best
      let r := if measured then r else max r (min MEASURING_REPEAT cap)
      if r < cap ∧ 0 < rho then
        .ok (r, powers.getD (r - 1) 0, false,
          "repeats of a case are correlated (rho " ++ Decimal.fixed 2 rho ++
            (if measured then "" else ", assumed until measured") ++ "), so no repeat up to " ++
            toString cap ++ " reaches " ++ Decimal.shortest target ++ ": power " ++
            Decimal.fixed 2 best ++ " at most, already at repeat " ++ toString r ++ "; " ++ more)
      else
        .ok (cap, powers.getLastD 0, true,
          "capped at repeat " ++ toString cap ++ " with power " ++
            Decimal.fixed 2 (powers.getLastD 0) ++ "; " ++ more)

/-- The repeat of a plan, its power, whether it is the cap, and why. -/
def chosenRepeat (rates : List ℚ) (effect rho : ℚ) (measured stochastic : Bool) (alpha target : ℚ)
    (cap : Nat) (repeats : Option Nat) (more : String) : Except Raised (Nat × ℚ × Bool × String) := do
  let k := rates.length
  let at_ := fun r => power math rates effect r alpha rho
  if stochastic = false then
    let got ← at_ 1
    .ok (1, got, false,
      if target ≤ got then ""
      else "repeat adds no cells in this lane; " ++ toString k ++ " cases give power " ++
        Decimal.fixed 2 got ++ ", so more cases are needed: " ++ more)
  else
    let chosen := repeats.getD 0
    if chosen ≠ 0 then
      let got ← at_ chosen
      .ok (chosen, got, false,
        if target ≤ got then ""
        else "chosen repeat " ++ toString chosen ++ " gives power " ++ Decimal.fixed 2 got ++ "; " ++
          more)
    else
      let powers ← (List.range' 1 cap).mapM at_
      match powers.findIdx? fun got => target ≤ got with
      | some i => .ok (i + 1, powers.getD i 0, false, "")
      | none => fallShort powers rho measured target cap more

/-- What is asked of a plan. -/
structure Request where
  effect : Option ℚ := none
  stochastic : Bool := true
  alpha : Option ℚ := none
  target : ℚ := TARGET
  cap : Nat := CAP
  repeats : Option Nat := none
  observed : Nat := 0
  rho : Option ℚ := none

def plan (rates : List ℚ) (request : Request) : Except Raised Plan := do
  let alpha := request.alpha.getD ALPHA
  let effect := request.effect.getD DEFAULT_EFFECT
  let k := rates.length
  let rho := request.rho.getD DEFAULT_RHO
  let need ← casesNeeded math order rates effect rho request.stochastic alpha request.target request.cap
  let (r, got, capped, why) ← chosenRepeat math rates effect rho request.rho.isSome request.stochastic
    alpha request.target request.cap request.repeats (moreCases rates effect k need request.target)
  .ok
    { repeats := r, power := got, cells := effectiveCells k r rho, cases := k, effect, alpha
      target := request.target, cap := request.cap, capped, stochastic := request.stochastic
      observed := request.observed, why, rho, rhoMeasured := request.rho.isSome, casesNeeded := need }

/-- `projected_seconds`, for two candidates. -/
def projectedSeconds (cases repeats : Nat) (medianS : Option ℚ) : Option ℚ :=
  medianS.map fun seconds => cases * repeats * 2 * seconds

/-- `_hm`. -/
def hm (seconds : ℚ) : String :=
  let m := Decimal.roundHalfEven (seconds / 60)
  if 60 ≤ m then
    toString (m / 60) ++ "h " ++ (if m % 60 < 10 then "0" else "") ++ toString (m % 60) ++ "m"
  else toString (max m 1) ++ "m"

/-- The plan again, with fewer repeats than it chose. -/
def cutDown (chosen : Plan) (rates : List ℚ) (r : Nat) (cost : Option ℚ) (budgetS : ℚ) (note : String) :
    Except Raised Plan := do
  let got ← plan math order rates
    { effect := some chosen.effect, alpha := some chosen.alpha, target := chosen.target
      cap := chosen.cap, repeats := some r, observed := chosen.observed
      rho := if chosen.rhoMeasured then some chosen.rho else none }
  .ok
    { got with
      neededRepeat := some chosen.repeats, projectedS := cost, budgetS := some budgetS
      why := String.intercalate "; " ([note, got.why].filter (· ≠ "")) }

def withinBudget (chosen : Plan) (rates : List ℚ) (casesRun : Nat) (medianS : Option ℚ) (budgetS : ℚ)
    (explicit : Bool := false) : Except Raised Plan :=
  let cost := fun r => projectedSeconds casesRun r medianS
  let kept : Plan :=
    { chosen with
      projectedS := cost chosen.repeats, budgetS := some budgetS, neededRepeat := some chosen.repeats }
  if explicit ∨ chosen.stochastic = false then .ok kept
  else
    match cost chosen.repeats, cost 1 with
    | some seconds, some once =>
        if seconds ≤ budgetS then .ok kept
        else if once = 0 then .error .zeroDivision
        else
          let r := (max 1 (min (FALLBACK_REPEAT : ℤ) (min chosen.repeats ⌊budgetS / once⌋))).toNat
          cutDown math order chosen rates r (cost r) budgetS
            ("repeat " ++ toString chosen.repeats ++ " for power " ++ Decimal.fixed 2 chosen.power ++
              " would take " ++ hm seconds ++ ", over the " ++ hm budgetS ++ " budget; ran repeat " ++
              toString r)
    | _, _ =>
        let r := min chosen.repeats FALLBACK_REPEAT
        cutDown math order chosen rates r (cost r) budgetS
          ("no measured seconds per case in this lane, so the cost of repeat " ++
            toString chosen.repeats ++ " is unknown; ran repeat " ++ toString r)

end LocalHarness.Power
