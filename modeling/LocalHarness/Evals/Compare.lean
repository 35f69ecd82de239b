import Mathlib.Algebra.Order.Field.Rat
import Mathlib.Data.Rat.Floor
import LocalHarness.Adopt.Ranking
import LocalHarness.Library.Dict

/-! # Is the difference between two candidates real?

`evals/compare.py`. The cases both sat are drawn again and again, and the two ends of the interval are
entries of the sorted differences.
-/

namespace LocalHarness.Evals.Compare

open LocalHarness.Library
open LocalHarness.Adopt (Direction directionOf)

/-- Metrics that are a ratio of two counts. -/
def RATIOS : List (String × String × String) :=
  [("wer", "wer_errors", "wer_words")]

structure Row where
  candidate : String
  case_id : String
  metrics : Dict ℚ

/-- `{candidate: {case_id: (numerator, denominator)}}` -/
abbrev By := Dict (Dict (ℚ × ℚ))

def enter (num den : String) (by_ : By) (row : Row) : By :=
  match row.metrics.lookup num with
  | none => by_
  | some value =>
      by_.insert row.candidate (((by_.lookup row.candidate).getD ∅).insert row.case_id
        (value, if den = "" then 1 else (row.metrics.lookup den).getD 1))

def casesOf (by_ : By) (candidate : String) : Finset String :=
  ((by_.lookup candidate).getD ∅).keys

/-- The cases that every candidate sat. -/
def shared (by_ : By) : Finset String :=
  (by_.keys.biUnion (casesOf by_)).filter fun case_ => ∀ candidate ∈ by_.keys, case_ ∈ casesOf by_ candidate

def paired (rows : List Row) (metric : String) : By × List String :=
  let (num, den) := (RATIOS.lookup metric).getD (metric, "")
  let by_ := rows.foldl (enter num den) ∅
  (by_, Dict.sortedKeys (shared by_))

inductive Fault
  | key
  | index
  deriving DecidableEq

/-- `by[candidate][case]` -/
def counts (by_ : By) (candidate case_ : String) : Except Fault (ℚ × ℚ) :=
  ((by_.lookup candidate).bind fun cases => cases.lookup case_).elim (.error .key) .ok

/-- `num / den if den else 0.0`, of the sums. -/
def ratio (each : List (ℚ × ℚ)) : ℚ :=
  let den := (each.map Prod.snd).sum
  if den = 0 then 0 else (each.map Prod.fst).sum / den

def rate (by_ : By) (candidate : String) (cases : List String) : Except Fault ℚ := do
  return ratio (← cases.mapM (counts by_ candidate))

/-- `random.Random`: the `k`-th `randrange(n)` after a seed. -/
structure Random where
  draw : Int → Nat → Nat → Nat
  below : ∀ seed n k, 0 < n → draw seed n k < n

/-- `values[i]` -/
def item {α : Type} (values : List α) (i : Int) : Except Fault α :=
  let i := if i < 0 then i + values.length else i
  if i < 0 then .error .index else (values[i.toNat]?).elim (.error .index) .ok

/-- `int(q)` -/
def int (q : ℚ) : Int :=
  if 0 ≤ q then ⌊q⌋ else ⌈q⌉

structure Interval where
  candidate : String
  baseline : String
  difference : ℚ
  low : ℚ
  high : ℚ
  cases : Nat
  separable : Bool
  deriving DecidableEq

def DEFAULT_RESAMPLES : Nat := 3000

def DEFAULT_CONFIDENCE : ℚ := 19 / 20

/-- The `r`-th list of as many cases. -/
def resample (random : Random) (seed : Int) (cases : List String) (r : Nat) :
    Except Fault (List String) :=
  (List.range cases.length).mapM fun i =>
    item cases (random.draw seed cases.length (r * cases.length + i))

/-- The difference in corpus rate. -/
def difference (by_ : By) (candidate baseline : String) (cases : List String) : Except Fault ℚ := do
  return (← rate by_ candidate cases) - (← rate by_ baseline cases)

def interval (random : Random) (by_ : By) (cases : List String) (candidate baseline : String)
    (resamples : Nat) (seed : Int) (confidence : ℚ) : Except Fault Interval := do
  let point ← difference by_ candidate baseline cases
  let diffs ← (List.range resamples).mapM fun r => do
    difference by_ candidate baseline (← resample random seed cases r)
  let diffs := diffs.insertionSort (· ≤ ·)
  let tail := (1 - confidence) / 2
  let low ← item diffs (int (tail * resamples))
  let high ← item diffs (min (int ((1 - tail) * resamples)) (resamples - 1))
  return ⟨candidate, baseline, point, low, high, cases.length, decide (0 < low) || decide (high < 0)⟩

inductive Verdict
  | notSeparable
  | notRanked
  | worse
  | better
  deriving DecidableEq

def Verdict.text : Verdict → String
  | .notSeparable => "not separable"
  | .notRanked => "not ranked on"
  | .worse => "worse"
  | .better => "BETTER"

/-- Which way a difference points, in the metric's own direction. -/
def verdict (row : Interval) (metric : String) : Verdict :=
  if row.separable = false then .notSeparable
  else
    match directionOf metric with
    | .neutral => .notRanked
    | .lower => if 0 < row.difference then .worse else .better
    | .higher => if 0 < row.difference then .better else .worse

end LocalHarness.Evals.Compare
