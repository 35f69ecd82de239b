import Mathlib.Data.List.Dedup
import Mathlib.Tactic.Ring
import LocalHarness.Library.Decimal
import LocalHarness.Library.SignTest

/-! # Two candidates over the cells of one run

The rows of a run, the side of the split each falls on, and the comparison of two
candidates on the cases both sat. Repeats of a case are shrunk by their design effect
before the sign test, so one case counts about once however often it was drawn.
-/

namespace LocalHarness.Adopt

open LocalHarness.Library

/-- A result row, in the columns adoption reads. `decisions` is the one metric that is a
    list: the confidence of each field decided, and whether it was right. -/
structure Row where
  caseId : String
  candidate : String
  passed : Bool
  seconds : ℚ := 0
  metrics : List (String × ℚ) := []
  decisions : List (ℚ × Bool) := []
  deriving DecidableEq

/-- A case id without its repeat. -/
def baseId (caseId : String) : String :=
  (Text.partition caseId '#').1

inductive Side
  | dev | holdout
  deriving DecidableEq

def MIN_HOLDOUT : Nat := 3

def MIN_DEV : Nat := 3

/-- A lane's cases, dealt to two sides. -/
structure Split where
  lane : String
  dev : List String
  holdout : List String
  tooSmall : Bool
  version : String := "1"
  deriving DecidableEq

namespace Split

def side (split : Split) (caseId : String) : Option Side :=
  if baseId caseId ∈ split.holdout then some .holdout
  else if baseId caseId ∈ split.dev then some .dev
  else none

def caveat (split : Split) : String :=
  if split.tooSmall then
    "the " ++ split.lane ++ " lane is too small to split (" ++ toString split.holdout.length ++
      " cases, needs " ++ toString (MIN_HOLDOUT + MIN_DEV) ++ "), so it was decided on all cases"
  else ""

end Split

def rowsOn (rows : List Row) (split : Split) (side : Side) : List Row :=
  rows.filter fun row => split.side row.caseId = some side

/-- One candidate against another, cell by cell. -/
structure Cell where
  candidate : String
  lost : Nat
  gained : Nat
  unchanged : Nat
  deriving DecidableEq

namespace Cell

def discordant (cell : Cell) : Nat :=
  cell.lost + cell.gained

def p (cell : Cell) : ℚ :=
  SignTest.signTest (min cell.lost cell.gained) cell.discordant

end Cell

def rowsOf (rows : List Row) (name : String) : List Row :=
  rows.filter fun row => row.candidate = name

/-- How a candidate did on a case; of several rows with one id the last is the one kept. -/
def resultOn (rows : List Row) (name caseId : String) : Option Bool :=
  ((rowsOf rows name).reverse.find? fun row => row.caseId = caseId).map Row.passed

/-- The cases both candidates sat. -/
def sharedCases (rows : List Row) (incumbent challenger : String) : List String :=
  ((rowsOf rows incumbent).map Row.caseId).dedup.filter fun caseId =>
    (resultOn rows challenger caseId).isSome

/-- Two candidates over the same cases in one run, paired by case. -/
def headToHead (rows : List Row) (incumbent challenger : String) : Cell :=
  let keys := sharedCases rows incumbent challenger
  let lost := keys.countP fun caseId =>
    resultOn rows incumbent caseId = some true ∧ resultOn rows challenger caseId = some false
  let gained := keys.countP fun caseId =>
    resultOn rows incumbent caseId = some false ∧ resultOn rows challenger caseId = some true
  { candidate := challenger, lost, gained, unchanged := keys.length - lost - gained }

def mean (values : List ℚ) : ℚ :=
  values.sum / values.length

/-- Within-case correlation of the draws, one-way over cases, each candidate centred on its
    own mean; none when no case was drawn twice or nothing varies. -/
def icc (byCandidate : List (List (List ℚ))) : Option ℚ :=
  let seen := (byCandidate.map fun cand => cand.filter (· ≠ [])).filter (· ≠ [])
  let ssb : ℚ := (seen.map fun cand =>
    (cand.map fun g => g.length * (mean g - mean cand.flatten) ^ 2).sum).sum
  let ssw : ℚ := (seen.map fun cand =>
    (cand.map fun g => (g.map fun y => (y - mean g) ^ 2).sum).sum).sum
  let dfb : Nat := (seen.map fun cand => cand.length - 1).sum
  let dfw : Nat := (seen.flatten.map fun g => g.length - 1).sum
  if dfb = 0 ∨ dfw = 0 then none
  else
    let msb := ssb / dfb
    let msw := ssw / dfw
    let draws : ℚ := (seen.flatten.map List.length).sum
    let denom := msb + (draws / seen.flatten.length - 1) * msw
    if denom = 0 then none else some (max 0 (min 1 ((msb - msw) / denom)))

/-- A candidate's draws, grouped by the case they repeat. -/
def drawsOf (rows : List Row) (name : String) : List (List ℚ) :=
  ((rowsOf rows name).map fun row => baseId row.caseId).dedup.map fun base =>
    ((rowsOf rows name).filter fun row => baseId row.caseId = base).map fun row =>
      if row.passed then 1 else 0

/-- The correlation of repeats, and the mean number of draws of a case. -/
def rowsIcc (rows : List Row) (names : List String) : Option ℚ × ℚ :=
  let byCandidate := names.dedup.map (drawsOf rows)
  let groups := byCandidate.flatten
  (icc byCandidate, if groups = [] then 1 else mean (groups.map fun g => (g.length : ℚ)))

/-- The correlation assumed until a repeated case measures it. -/
def DEFAULT_RHO : ℚ := 1

def designEffect (repeats rho : ℚ) : ℚ :=
  1 + max 0 (repeats - 1) * min 1 (max 0 rho)

theorem one_le_designEffect (repeats rho : ℚ) : 1 ≤ designEffect repeats rho := by
  have extra : 0 ≤ max 0 (repeats - 1) := le_max_left _ _
  have share : 0 ≤ min 1 (max 0 rho) := le_min zero_le_one (le_max_left _ _)
  have product := mul_nonneg extra share
  unfold designEffect
  linarith

/-- How far a float may be from the whole number it stands for. -/
def tolerance : ℚ := 1 / 10 ^ 9

/-- `int(x + 1e-9)`, of a count. -/
def shrunkDown (x : ℚ) : Nat :=
  ⌊x + tolerance⌋.toNat

/-- `math.ceil(x - 1e-9)`, of a count. -/
def shrunkUp (x : ℚ) : Nat :=
  ⌈x - tolerance⌉.toNat

theorem shrunkDown_le_shrunkUp (x : ℚ) : shrunkDown x ≤ shrunkUp x := by
  apply Int.toNat_le_toNat
  have tiny : tolerance + tolerance < 1 := by norm_num [tolerance]
  have apart : (⌊x + tolerance⌋ : ℚ) < ⌈x - tolerance⌉ + 1 := by
    have floor := Int.floor_le (x + tolerance)
    have ceil := Int.le_ceil (x - tolerance)
    linarith
  exact Int.lt_add_one_iff.mp (by exact_mod_cast apart)

theorem shrunkUp_le_shrunkDown_succ {x : ℚ} (nonneg : 0 ≤ x) :
    shrunkUp x ≤ shrunkDown x + 1 := by
  have positive : 0 < tolerance := by norm_num [tolerance]
  have apart : (⌈x - tolerance⌉ : ℚ) < ⌊x + tolerance⌋ + 2 := by
    have floor := Int.lt_floor_add_one (x + tolerance)
    have ceil := Int.ceil_lt_add_one (x - tolerance)
    linarith
  have floor : 0 ≤ ⌊x + tolerance⌋ := Int.floor_nonneg.mpr (by linarith)
  have bound : ⌈x - tolerance⌉ < ⌊x + tolerance⌋ + 2 := by exact_mod_cast apart
  unfold shrunkUp shrunkDown
  omega

/-- A paired cell, its p over independent evidence, and a note when repeats were shrunk. -/
structure Paired where
  cell : Cell
  p : ℚ
  shrunk : String
  deriving DecidableEq

def pairedP (rows : List Row) (incumbent challenger : String) : Paired :=
  let cell := headToHead rows incumbent challenger
  let (rho, repeats) := rowsIcc rows [incumbent, challenger]
  let used := rho.getD DEFAULT_RHO
  let deff := designEffect repeats used
  if deff ≤ 1 + tolerance then { cell, p := cell.p, shrunk := "" }
  else
    let gained := shrunkDown (cell.gained / deff)
    let lost := shrunkUp (cell.lost / deff)
    { cell
      p := SignTest.signTest (min gained lost) (gained + lost)
      shrunk := toString gained ++ " gained against " ++ toString lost ++
        " lost once correlated repeats are counted as cases (rho " ++ Decimal.fixed 2 used ++
        (if rho.isSome then "" else " assumed") ++ ", repeat " ++ Decimal.fixed 1 repeats ++ ")" }

@[simp] theorem pairedP_cell (rows : List Row) (incumbent challenger : String) :
    (pairedP rows incumbent challenger).cell = headToHead rows incumbent challenger := by
  unfold pairedP
  dsimp only
  split <;> rfl

/-- As many cells lost as gained is no evidence, shrunk or not. -/
theorem pairedP_balanced {rows : List Row} {incumbent challenger : String}
    (balanced : (headToHead rows incumbent challenger).lost =
      (headToHead rows incumbent challenger).gained) :
    (pairedP rows incumbent challenger).p = 1 := by
  unfold pairedP
  dsimp only
  split
  next =>
    rw [Cell.p, Cell.discordant]
    exact SignTest.signTest_balanced balanced.le (by omega)
  next =>
    dsimp only
    rw [balanced]
    apply SignTest.signTest_balanced (shrunkDown_le_shrunkUp _)
    apply shrunkUp_le_shrunkDown_succ
    have least := one_le_designEffect (rowsIcc rows [incumbent, challenger]).2
      ((rowsIcc rows [incumbent, challenger]).1.getD DEFAULT_RHO)
    positivity

end LocalHarness.Adopt
