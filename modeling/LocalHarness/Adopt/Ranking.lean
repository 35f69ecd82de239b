import Mathlib.Data.List.Lex
import Mathlib.Data.List.Sort
import Mathlib.Data.Prod.Lex
import LocalHarness.Adopt.Paired

/-! # A candidate's summary, and which of two is better

One candidate's rows rolled up into the row it is ranked on, and the one ordering of such
rows. Unlike a paired comparison, a summary is over whatever cases that candidate sat.
-/

namespace LocalHarness.Adopt

open LocalHarness.Library

/-- Which way a metric runs; a neutral one is reported and never ranked on. -/
inductive Direction
  | lower | higher | neutral
  deriving DecidableEq

/-- `claims_check.INTERFACES`, as a metric's name spells them. -/
def interfaces : List String := ["cited_only", "conversation", "legacy"]

def claimsMetric (name interface : String) : String :=
  "claims_" ++ name ++ "_" ++ interface

def PER_INTERFACE : List (String × Direction) :=
  [("recall", .higher), ("precision", .higher), ("bad_matched", .lower),
   ("unreviewed", .neutral), ("pass", .higher), ("verbatim", .neutral), ("near_miss", .neutral)]

def METRIC_DIRECTION : List (String × Direction) :=
  [("wer", .lower), ("cer", .lower), ("ink", .neutral), ("motion", .higher),
   ("adherence", .higher), ("speaker_similarity", .higher), ("tokens_per_s", .higher),
   ("duration_error_s", .lower), ("seconds", .neutral), ("completion_tokens", .neutral),
   ("code_pass", .higher), ("svg_bytes", .neutral), ("decide_accuracy", .higher),
   ("decide_brier", .lower), ("decide_ece", .lower), ("calibrated", .neutral),
   ("per_option", .neutral), ("needle_withheld_calls", .neutral), ("needle_peak_mb", .lower),
   ("agent_valid_call_rate", .higher), ("agent_steps", .neutral), ("agent_tool_calls", .neutral),
   ("agent_valid_calls", .neutral), ("agent_ttft_sum_s", .neutral), ("agent_model_s", .neutral),
   ("agent_tool_s", .neutral), ("agent_wall_s", .neutral), ("agent_no_tool_steps", .neutral),
   ("agent_ctx", .neutral), ("prompt_tokens", .neutral), ("method_calls", .neutral),
   ("method_samples", .neutral), ("method_chosen", .neutral), ("retrieval_recall", .higher),
   ("retrieval_ndcg", .higher), ("pii_f1", .higher), ("pii_precision", .higher),
   ("pii_recall", .higher), ("claims_schema_valid", .higher), ("claims_empty_rate", .higher),
   ("claims_emitted", .neutral), ("claims_judge_calibrated", .neutral),
   ("claims_matcher_version", .neutral)] ++
  interfaces.flatMap fun interface =>
    PER_INTERFACE.map fun (name, way) => (claimsMetric name interface, way)

/-- A metric that declares no direction is taken to be better lower. -/
def directionOf (metric : String) : Direction :=
  (METRIC_DIRECTION.lookup metric).getD .lower

/-- Metrics that are ratios, with the sums they are made of. -/
def RATIO_METRICS : List (String × String × String) :=
  [("wer", "wer_errors", "wer_words"),
   ("agent_valid_call_rate", "agent_valid_calls", "agent_tool_calls"),
   ("decide_accuracy", "decide_correct", "decide_fields"),
   ("decide_brier", "decide_brier_sum", "decide_fields"),
   ("cer", "cer_errors", "cer_chars"),
   ("pii_f1", "pii_2tp", "pii_f1_den"),
   ("pii_precision", "pii_tp", "pii_pred"),
   ("pii_recall", "pii_tp", "pii_gold"),
   ("claims_empty_rate", "claims_empty_kept", "claims_empty_cases")] ++
  interfaces.flatMap fun interface =>
    [("recall", "good_found", "good_total"), ("precision", "good_found", "reviewed_matched")].map
      fun (name, numerator, denominator) =>
        (claimsMetric name interface, claimsMetric numerator interface,
          claimsMetric denominator interface)

/-- Bookkeeping that is no column of its own. -/
def companions : List String :=
  RATIO_METRICS.flatMap fun (_, numerator, denominator) => [numerator, denominator]

/-- Each metric the rows report, and every value of it. -/
def gatherMetrics (rows : List Row) : List (String × List ℚ) :=
  ((rows.flatMap Row.metrics).map Prod.fst).dedup.map fun name =>
    (name, rows.filterMap fun row => row.metrics.lookup name)

/-- The mean of each metric over the rows that reported it, or the ratio of its sums. -/
def meanMetrics (rows : List Row) : List (String × ℚ) :=
  let gathered := gatherMetrics rows
  gathered.filterMap fun (name, values) =>
    if name ∈ companions then none
    else
      let sums := (RATIO_METRICS.lookup name).bind fun (numerator, denominator) =>
        (gathered.lookup numerator).bind fun above =>
          (gathered.lookup denominator).map fun below => (above.sum, below.sum)
      some (name, match sums with
        | some (above, below) => if below = 0 then 0 else Decimal.rounded 4 (above / below)
        | none => Decimal.rounded 4 (mean values))

def ECE_BINS : Nat := 10

def MIN_ECE_N : Nat := 100

/-- Expected calibration error over confidences and whether they were right. -/
def ece (pairs : List (ℚ × Bool)) : ℚ :=
  if pairs = [] then 0
  else
    ((List.range ECE_BINS).map fun (b : Nat) =>
      let inside := pairs.filter fun pair =>
        ((b : ℚ) / ECE_BINS ≤ pair.1 ∧ pair.1 < ((b : ℚ) + 1) / ECE_BINS) ∨
          (b + 1 = ECE_BINS ∧ pair.1 = 1)
      if inside = [] then 0
      else
        (inside.length : ℚ) / pairs.length *
          |mean (inside.map Prod.fst) - mean (inside.map fun pair => if pair.2 then 1 else 0)|).sum

/-- Pooled over every field decision, once there are enough to bin. -/
def decideCalibration (rows : List Row) : List (String × ℚ) :=
  let pairs := rows.flatMap Row.decisions
  if pairs.length < MIN_ECE_N then [] else [("decide_ece", Decimal.rounded 4 (ece pairs))]

def median (values : List ℚ) : ℚ :=
  let sorted := values.insertionSort (· ≤ ·)
  let half := sorted.length / 2
  if sorted.length % 2 = 1 then sorted.getD half 0
  else (sorted.getD (half - 1) 0 + sorted.getD half 0) / 2

/-- A candidate's summary row, in the columns it is ranked and costed on. -/
structure Summary where
  candidate : String
  passRate : ℚ := 0
  medianS : ℚ := 0
  metrics : List (String × ℚ) := []
  deriving DecidableEq

/-- One candidate's summary row over just these rows, if it has any. -/
def summary (rows : List Row) (name : String) : Option Summary :=
  let mine := rowsOf rows name
  if mine = [] then none
  else
    let pooled := decideCalibration mine
    some
      { candidate := name
        passRate := Decimal.rounded 3 ((mine.countP Row.passed : ℚ) / mine.length)
        medianS := Decimal.rounded 3 (median (mine.map Row.seconds))
        metrics := ((meanMetrics mine).filter fun metric => (pooled.lookup metric.1).isNone) ++
          pooled }

/-- The values a summary is ranked on, in the order of their names, each the higher the
    better. -/
def ranked (metrics : List (String × ℚ)) : List ℚ :=
  (metrics.insertionSort fun a b => a.1 ≤ b.1).filterMap fun (name, value) =>
    match directionOf name with
    | .neutral => none
    | .higher => some value
    | .lower => some (-value)

/-- How good a summary row is: its pass rate, then its metrics, then how fast it was. -/
def orderKey (row : Summary) : ℚ ×ₗ List ℚ ×ₗ ℚ :=
  toLex (row.passRate, toLex (ranked row.metrics, -row.medianS))

/-- The challenger's summary row is better on the lane's own metric. -/
def better (incumbent challenger : Summary) : Bool :=
  orderKey incumbent < orderKey challenger

/-- A challenger that passed more often is better, whatever either scored on the rest. -/
theorem better_of_passRate {incumbent challenger : Summary}
    (more : incumbent.passRate < challenger.passRate) : better incumbent challenger = true := by
  rw [better, decide_eq_true_iff, orderKey, orderKey, Prod.Lex.toLex_lt_toLex]
  exact .inl more

theorem passRate_le_of_better {incumbent challenger : Summary}
    (wins : better incumbent challenger = true) : incumbent.passRate ≤ challenger.passRate := by
  rw [better, decide_eq_true_iff, orderKey, orderKey, Prod.Lex.toLex_lt_toLex] at wins
  rcases wins with more | ⟨same, _⟩
  · exact more.le
  · exact same.le

end LocalHarness.Adopt
