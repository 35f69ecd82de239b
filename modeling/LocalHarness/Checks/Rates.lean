import LocalHarness.Checks.Claims
import LocalHarness.Checks.Decide

/-! # The rates that scorers record

What each scorer records of one reply: a rate, and the counts it was made of. Where there is nothing to
count each has its own rate, and some of the rates are cut off.
-/

namespace LocalHarness.Checks

open LocalHarness.Library

abbrev Metrics := List (String × ℚ)

/-- The library that aligns two texts: the edits of the alignment, and the rate that it calls the
    word error rate. -/
structure Jiwer where
  wordEdits : List String → List String → Nat
  charEdits : List Char → List Char → Nat
  wer : List String → List String → ℚ
  wer_eq : ∀ reference hypothesis,
    wer reference hypothesis = wordEdits reference hypothesis / reference.length

/-- The least edits to every end of a list, of a list that has one more at the front. -/
def editStep {α : Type} [DecidableEq α] (x : α) : List α → List Nat → List Nat
  | [], row => [row.headD 0 + 1]
  | y :: ys, row =>
      let rest := editStep x ys row.tail
      (if x = y then row.tail.headD 0
        else 1 + min (row.headD 0) (min (row.tail.headD 0) (rest.headD 0))) :: rest

/-- The fewest words or characters put in, taken out or changed. -/
def edits {α : Type} [DecidableEq α] (xs ys : List α) : Nat :=
  (xs.foldr (fun x row => editStep x ys row) (List.range (ys.length + 1)).reverse).headD 0

def levenshtein : Jiwer where
  wordEdits := edits
  charEdits := edits
  wer reference hypothesis := edits reference hypothesis / reference.length
  wer_eq _ _ := rfl

example : edits "kitten".toList "sitting".toList = 3 := by
  decide

variable (jiwer : Jiwer)

/-! ## Words -/

/-- Word error rate of normalized words. Nothing is scored against an empty reference. -/
def wer (reference hypothesis : List String) : Option ℚ :=
  if reference = [] then none
  else if hypothesis = [] then some 1
  else some (jiwer.wer reference hypothesis)

/-- Errors, and words of the reference. -/
def werCounts (reference hypothesis : List String) : Option (Nat × Nat) :=
  if reference = [] then none
  else if hypothesis = [] then some (reference.length, reference.length)
  else some (jiwer.wordEdits reference hypothesis, reference.length)

def speechMetrics (reference hypothesis : List String) : Option Metrics :=
  (wer jiwer reference hypothesis).bind fun rate =>
    (werCounts jiwer reference hypothesis).map fun (errors, words) =>
      [("wer", Decimal.rounded 4 rate), ("wer_errors", errors), ("wer_words", words)]

/-! ## Characters -/

/-- `" ".join(text.split())`. -/
def squeezed (text : String) : List Char :=
  List.intercalate [' '] ((text.toList.splitOnP Text.isSpace).filter (· ≠ []))

/-- Character errors, and characters of the reference. -/
def textCer (expected got : String) : Option (Nat × Nat) :=
  let reference := squeezed expected
  let hypothesis := squeezed got
  if reference = [] then none
  else if hypothesis = [] then some (reference.length, reference.length)
  else some (jiwer.charEdits reference hypothesis, reference.length)

def ocrMetrics (expected got : String) : Option Metrics :=
  (textCer jiwer expected got).map fun (errors, chars) =>
    let rate : ℚ := if chars = 0 then 1 else min 1 (errors / chars)
    [("cer", Decimal.rounded 4 rate), ("cer_errors", errors), ("cer_chars", chars)]

/-! ## Marked spans -/

abbrev Span := Int × Int

def hits (start stop : Int) (spans : List Span) : Bool :=
  spans.any fun (s, e) => s < stop && start < e

/-- Runs of letters and digits. -/
def tokensFrom : Nat → Option Nat → List Char → List (Nat × Nat)
  | _, none, [] => []
  | place, some start, [] => [(start, place)]
  | place, start, c :: rest =>
      if c.isAlphanum then tokensFrom (place + 1) (some (start.getD place)) rest
      else (start.map fun start => (start, place)).toList ++ tokensFrom (place + 1) none rest

structure Marks where
  tp : Nat
  fp : Nat
  fn : Nat
  deriving DecidableEq

/-- True positives, false positives and false negatives over the tokens of the text. -/
def counts (text : String) (gold predicted : List Span) : Marks :=
  let tokens := tokensFrom 0 none text.toList
  { tp := tokens.countP fun (s, e) => hits s e gold && hits s e predicted
    fp := tokens.countP fun (s, e) => hits s e predicted && !hits s e gold
    fn := tokens.countP fun (s, e) => hits s e gold && !hits s e predicted }

def piiMetrics (text : String) (gold predicted : List Span) : Metrics :=
  let { tp, fp, fn } := counts text gold predicted
  let den := 2 * tp + fp + fn
  let f1 : ℚ := if den ≠ 0 then 2 * tp / den else 1
  [("pii_f1", Decimal.rounded 4 f1), ("pii_2tp", 2 * tp), ("pii_f1_den", den),
   ("pii_precision",
     if tp + fp ≠ 0 then Decimal.rounded 4 (tp / (tp + fp)) else if tp + fn = 0 then 1 else 0),
   ("pii_recall", if tp + fn ≠ 0 then Decimal.rounded 4 (tp / (tp + fn)) else 1),
   ("pii_tp", tp), ("pii_pred", tp + fp), ("pii_gold", tp + fn)]

/-! ## Decided fields -/

structure FieldScore where
  field : String
  answer : Option String
  gold : String
  correct : Bool
  brier : ℚ
  confidence : ℚ
  calibrated : Bool
  deriving DecidableEq

/-- The score of one field. Without a distribution all is on the answer, or nowhere. -/
def fieldScore (allowed : List String) (want : String) (got : Parsed) (name : String) : FieldScore :=
  let dist := got.probs.getD (allowed.map fun a => (a, if some a = got.answer then 1 else 0))
  let share := fun a => (dist.lookup a).getD 0
  { field := name
    answer := got.answer
    gold := want
    correct := got.answer = some want
    brier := (allowed.map fun a => (share a - if a = want then 1 else 0) ^ 2).sum
    confidence := got.answer.elim 0 fun answer => if answer = "" then 0 else share answer
    calibrated := got.probs.isSome }

def fieldScores (parsed : List (String × Parsed)) (gold : Ordered String Value) (schema : Schema) :
    Except Raised (List FieldScore) :=
  schema.items.mapM fun (name, spec) => do
    let codes ← codeMap spec
    let want ← (gold.get? name).elim (.error (.keyError name)) fun value => .ok (key value)
    .ok (fieldScore (codes.map Prod.snd) want ((parsed.lookup name).getD ⟨none, none⟩) name)

/-- What is recorded of the fields, if there are any to divide by. -/
def decideMetrics (scores : List FieldScore) (perOption : Bool) : Option Metrics :=
  let n := scores.length
  let right := scores.countP FieldScore.correct
  let brier := (scores.map FieldScore.brier).sum
  if n = 0 then none
  else
    some ([("decide_accuracy", Decimal.rounded 4 (right / n)), ("decide_correct", right),
      ("decide_fields", n), ("decide_brier", Decimal.rounded 4 (brier / n)),
      ("decide_brier_sum", Decimal.rounded 6 brier),
      ("calibrated", if scores.all FieldScore.calibrated then 1 else 0)] ++
      if perOption then [] else [("per_option", 0)])

/-! ## Reviewed claims -/

/-- How a reviewer saw the claim. -/
inductive Interface
  | citedOnly | conversation | legacy
  deriving DecidableEq

def Interface.spelled : Interface → String
  | citedOnly => "cited_only"
  | conversation => "conversation"
  | legacy => "legacy"

def INTERFACES : List Interface := [.citedOnly, .conversation, .legacy]

/-- A per-interface metric's name. -/
def metric (name : String) (interface : Interface) : String :=
  "claims_" ++ name ++ "_" ++ interface.spelled

def scoreMetrics (interface : Interface) (score : Claims.Score) : Metrics :=
  [(metric "reviewed_matched" interface, score.reviewedMatched),
   (metric "unreviewed" interface, score.unreviewed),
   (metric "good_found" interface, score.goodFound),
   (metric "good_total" interface, score.goodTotal),
   (metric "bad_matched" interface, score.badMatched),
   (metric "recall" interface, score.recall_),
   (metric "precision" interface, score.precision),
   (metric "pass" interface, if score.pass then 1 else 0),
   (metric "near_miss" interface, score.nearMiss),
   (metric "verbatim" interface, score.verbatim)]

/-- The reviews of one interface. -/
def reviewsOf (reviews : List (Interface × Claims.Review)) (interface : Interface) :
    List Claims.Review :=
  (reviews.filter fun review => review.1 = interface).map Prod.snd

/-- How alike two claims are, by what the claims of a case say of its words. -/
abbrev Similarity := List String → String → String → ℚ

variable (similarity : Similarity)

/-- One interface's score in a case. -/
def scoreOf (emitted : List Claims.Emitted) (reviews : List (Interface × Claims.Review))
    (interface : Interface) : Claims.Score :=
  Claims._score (similarity (reviews.map fun review => review.2.claim)) emitted
    (reviewsOf reviews interface)

def MATCHER_VERSION : ℚ := 2

/-- Of a case that no claim is expected of. -/
def emptyMetrics (emitted : List Claims.Emitted) : Metrics :=
  let kept : ℚ := if emitted = [] then 1 else 0
  [("claims_schema_valid", 1), ("claims_emitted", (emitted.length : ℚ)), ("claims_empty_kept", kept),
   ("claims_empty_cases", 1), ("claims_empty_rate", kept), ("claims_judge_calibrated", 0),
   ("claims_matcher_version", MATCHER_VERSION)]

/-- What is recorded of the claims of a reply, if it is the schema's JSON. -/
def claimsMetrics (emitted : Option (List Claims.Emitted)) (reviews : List (Interface × Claims.Review))
    (expectEmpty : Bool) : Metrics :=
  match emitted with
  | none =>
      [("claims_schema_valid", 0), ("claims_judge_calibrated", 0),
       ("claims_matcher_version", MATCHER_VERSION)]
  | some emitted =>
      if expectEmpty then emptyMetrics emitted
      else
        [("claims_schema_valid", 1), ("claims_emitted", (emitted.length : ℚ)),
          ("claims_judge_calibrated", 0), ("claims_matcher_version", MATCHER_VERSION)] ++
        (INTERFACES.filter fun interface => reviewsOf reviews interface ≠ []).flatMap fun interface =>
          scoreMetrics interface (scoreOf similarity emitted reviews interface)

/-! ## Tool calls -/

/-- A step of an agent: of each call whether it was valid. -/
structure Step where
  calls : List Bool
  failed : Option String := none
  ttftS : Option ℚ := none
  seconds : ℚ := 0
  toolS : ℚ := 0
  promptTokens : Option Int := none
  completionTokens : Option Int := none

/-- The tokens of all the steps that say how many. -/
def tokensOf (name : String) (got : List Int) : Metrics :=
  if got = [] then [] else [(name, got.sum)]

def rollup (steps : List Step) (wall : ℚ) : Metrics :=
  let calls := steps.flatMap Step.calls
  let valid := calls.countP (· = true)
  [("agent_steps", (steps.length : ℚ)), ("agent_tool_calls", calls.length), ("agent_valid_calls", valid),
   ("agent_valid_call_rate", if calls ≠ [] then Decimal.rounded 4 (valid / calls.length) else 0),
   ("agent_no_tool_steps", steps.countP fun step => step.failed = some "no tool call"),
   ("agent_ttft_sum_s", Decimal.rounded 3 (steps.filterMap Step.ttftS).sum),
   ("agent_model_s", Decimal.rounded 3 (steps.map Step.seconds).sum),
   ("agent_tool_s", Decimal.rounded 3 (steps.map Step.toolS).sum),
   ("agent_wall_s", Decimal.rounded 3 wall)] ++
  tokensOf "prompt_tokens" (steps.filterMap Step.promptTokens) ++
  tokensOf "completion_tokens" (steps.filterMap Step.completionTokens)

/-! ## A reply of any lane -/

/-- A reply and what it is scored against. -/
inductive Reply
  | spoken (reference hypothesis : List String)
  | transcribed (expected got : String)
  | marked (text : String) (gold : List Span) (predicted : Option (List Span))
  | decided (parsed : List (String × Parsed)) (gold : Ordered String Value) (schema : Schema)
      (perOption : Bool)
  | claimed (emitted : Option (List Claims.Emitted)) (reviews : List (Interface × Claims.Review))
      (expectEmpty : Bool)
  | worked (steps : List Step) (wall : ℚ)

/-- The scores of the fields of a decision. -/
def Reply.scores : Reply → List FieldScore
  | decided parsed gold schema _ => (fieldScores parsed gold schema).toOption.getD []
  | _ => []

/-- What is recorded of a reply, where anything is. -/
def Reply.metrics : Reply → Option Metrics
  | spoken reference hypothesis => speechMetrics jiwer reference hypothesis
  | transcribed expected got => ocrMetrics jiwer expected got
  | marked text gold predicted => predicted.map (piiMetrics text gold)
  | decided parsed gold schema perOption =>
      (fieldScores parsed gold schema).toOption.bind fun scores => decideMetrics scores perOption
  | claimed emitted reviews expectEmpty => some (claimsMetrics similarity emitted reviews expectEmpty)
  | worked steps wall => some (rollup steps wall)

end LocalHarness.Checks
