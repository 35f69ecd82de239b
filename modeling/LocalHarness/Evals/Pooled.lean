import LocalHarness.Adopt.Ranking
import LocalHarness.Checks.Rates
import LocalHarness.Library.Mediant

/-! # Pooled rates

A candidate's rate over all of its rows is pooled from the counts of the rows. It lies between the
rates of the rows, but for what a scorer says where it has nothing to count, for a rate that is cut off,
and for a sum that was rounded before it was pooled.
-/

namespace LocalHarness.Evals

open LocalHarness.Library Checks
open Adopt (Row gatherMetrics meanMetrics)

/-- The rates that are pooled. -/
inductive Ratio
  | wer | validCallRate | accuracy | brier | cer | f1 | precision | recall_ | emptyRate
  | claimsRecall (interface : Interface)
  | claimsPrecision (interface : Interface)
  deriving DecidableEq

namespace Ratio

def name : Ratio → String
  | wer => "wer"
  | validCallRate => "agent_valid_call_rate"
  | accuracy => "decide_accuracy"
  | brier => "decide_brier"
  | cer => "cer"
  | f1 => "pii_f1"
  | precision => "pii_precision"
  | recall_ => "pii_recall"
  | emptyRate => "claims_empty_rate"
  | claimsRecall interface => metric "recall" interface
  | claimsPrecision interface => metric "precision" interface

def numerator : Ratio → String
  | wer => "wer_errors"
  | validCallRate => "agent_valid_calls"
  | accuracy => "decide_correct"
  | brier => "decide_brier_sum"
  | cer => "cer_errors"
  | f1 => "pii_2tp"
  | precision | recall_ => "pii_tp"
  | emptyRate => "claims_empty_kept"
  | claimsRecall interface | claimsPrecision interface => metric "good_found" interface

def denominator : Ratio → String
  | wer => "wer_words"
  | validCallRate => "agent_tool_calls"
  | accuracy | brier => "decide_fields"
  | cer => "cer_chars"
  | f1 => "pii_f1_den"
  | precision => "pii_pred"
  | recall_ => "pii_gold"
  | emptyRate => "claims_empty_cases"
  | claimsRecall interface => metric "good_total" interface
  | claimsPrecision interface => metric "reviewed_matched" interface

theorem lookup_name (ratio : Ratio) :
    Adopt.RATIO_METRICS.lookup ratio.name = some (ratio.numerator, ratio.denominator) := by
  cases ratio with
  | claimsRecall interface => cases interface <;> decide
  | claimsPrecision interface => cases interface <;> decide
  | _ => decide

theorem not_companion (ratio : Ratio) : ratio.name ∉ Adopt.companions := by
  cases ratio with
  | claimsRecall interface => cases interface <;> decide
  | claimsPrecision interface => cases interface <;> decide
  | _ => decide

def all : List Ratio :=
  [wer, validCallRate, accuracy, brier, cer, f1, precision, recall_, emptyRate] ++
    INTERFACES.flatMap fun interface => [claimsRecall interface, claimsPrecision interface]

/-- No other rate is pooled. -/
theorem all_ratios :
    Adopt.RATIO_METRICS = all.map fun ratio => (ratio.name, ratio.numerator, ratio.denominator) := by
  decide

end Ratio

/-! ## What is gathered -/

theorem lookup_map_key {β : Type} (f : String → β) {names : List String} {name : String}
    (member : name ∈ names) : (names.map fun name => (name, f name)).lookup name = some (f name) := by
  induction names with
  | nil => cases member
  | cons first rest ih =>
      rw [List.map_cons, List.lookup_cons]
      by_cases same : name = first
      · rw [← same, beq_self_eq_true]
      · rw [beq_false_of_ne same]
        exact ih ((List.mem_cons.mp member).resolve_left same)

theorem lookup_filterMap_key {β γ : Type} {step : String × β → Option (String × γ)} {name : String}
    {f : β → γ} (kept : ∀ value, step (name, value) = some (name, f value))
    (keyed : ∀ pair pair', step pair = some pair' → pair'.1 = pair.1) (l : List (String × β)) :
    (l.filterMap step).lookup name = (l.lookup name).map f := by
  induction l with
  | nil => rfl
  | cons pair rest ih =>
      obtain ⟨key, value⟩ := pair
      by_cases same : name = key
      · subst same
        rw [List.filterMap_cons_some (kept value), List.lookup_cons_self, List.lookup_cons_self]
        rfl
      · have other : (name == key) = false := beq_false_of_ne same
        rw [List.lookup_cons, other]
        cases made : step (key, value) with
        | none =>
            rw [List.filterMap_cons_none made]
            exact ih
        | some pair' =>
            obtain ⟨key', value'⟩ := pair'
            obtain rfl : key' = key := keyed _ _ made
            rw [List.filterMap_cons_some made, List.lookup_cons, other]
            exact ih

variable {rows : List Row} {name : String}

theorem mem_of_lookup {β : Type} {l : List (String × β)} {value : β}
    (found : l.lookup name = some value) : (name, value) ∈ l := by
  obtain ⟨front, back, rfl, -⟩ := List.lookup_eq_some_iff.mp found
  exact List.mem_append_right _ List.mem_cons_self

theorem lookup_gatherMetrics {row : Row} (member : row ∈ rows) {value : ℚ}
    (reported : row.metrics.lookup name = some value) :
    (gatherMetrics rows).lookup name = some (rows.filterMap fun row => row.metrics.lookup name) := by
  apply lookup_map_key fun name => rows.filterMap fun row => row.metrics.lookup name
  rw [List.mem_dedup]
  exact List.mem_map_of_mem (List.mem_flatMap.mpr ⟨row, member, mem_of_lookup reported⟩)

/-- The ratio of two sums, and nothing where there is nothing below the line. -/
def ratioOf (above below : ℚ) : ℚ :=
  if below = 0 then 0 else Decimal.rounded 4 (above / below)

theorem lookup_meanMetrics {ratio : Ratio} {values above below : List ℚ}
    (gathered : (gatherMetrics rows).lookup ratio.name = some values)
    (numerator : (gatherMetrics rows).lookup ratio.numerator = some above)
    (denominator : (gatherMetrics rows).lookup ratio.denominator = some below) :
    (meanMetrics rows).lookup ratio.name = some (ratioOf above.sum below.sum) := by
  unfold meanMetrics
  dsimp only
  rw [lookup_filterMap_key (f := fun _ => ratioOf above.sum below.sum), gathered]
  · rfl
  · intro value
    dsimp only
    rw [if_neg ratio.not_companion, ratio.lookup_name, Option.bind_some, numerator, Option.bind_some,
      denominator]
    rfl
  · rintro ⟨key, value⟩ pair' made
    dsimp only at made
    split at made
    next => cases made
    next => exact (congrArg Prod.fst (Option.some.inj made)).symm

/-! ## Rows of scored replies -/

variable (jiwer : Jiwer) (similarity : Similarity)

/-- The row records the reply. -/
def Recorded (row : Row) (reply : Reply) : Prop :=
  ∃ items, reply.metrics jiwer similarity = some items ∧
    ∀ item ∈ items, row.metrics.lookup item.1 = some item.2

/-- What is recorded of a reply under a name. -/
def value (reply : Reply) (name : String) : Option ℚ :=
  (reply.metrics jiwer similarity).bind fun items => items.lookup name

/-- The rate is recorded of the reply, and its counts. -/
def Carries (ratio : Ratio) (reply : Reply) : Prop :=
  ∀ name ∈ [ratio.name, ratio.numerator, ratio.denominator], (value jiwer similarity reply name).isSome

instance (ratio : Ratio) (reply : Reply) : Decidable (Carries jiwer similarity ratio reply) :=
  inferInstanceAs (Decidable (∀ name ∈ [ratio.name, ratio.numerator, ratio.denominator],
    (value jiwer similarity reply name).isSome))

/-- Some row's rate is no more than the pooled one, and some row's no less. -/
def Between (ratio : Ratio) (rows : List Row) (pooled : ℚ) : Prop :=
  (∃ row ∈ rows, ∃ rate, row.metrics.lookup ratio.name = some rate ∧ rate ≤ pooled) ∧
    ∃ row ∈ rows, ∃ rate, row.metrics.lookup ratio.name = some rate ∧ pooled ≤ rate

variable {jiwer similarity}

theorem Recorded.lookup {row : Row} {reply : Reply} (recorded : Recorded jiwer similarity row reply)
    {name : String} {q : ℚ} (carried : value jiwer similarity reply name = some q) :
    row.metrics.lookup name = some q := by
  obtain ⟨items, made, kept⟩ := recorded
  rw [value, made, Option.bind_some] at carried
  exact kept _ (mem_of_lookup carried)

/-- What the rows say under a name is what the replies do. -/
theorem lookup_rows {replies : List Reply}
    (recorded : List.Forall₂ (Recorded jiwer similarity) rows replies) {q : Reply → ℚ}
    (carried : ∀ reply ∈ replies, value jiwer similarity reply name = some (q reply)) :
    rows.map (fun row => row.metrics.lookup name) = replies.map fun reply => some (q reply) := by
  induction recorded with
  | nil => rfl
  | cons first rest ih =>
      rw [List.map_cons, List.map_cons, first.lookup (carried _ List.mem_cons_self),
        ih fun reply member => carried reply (List.mem_cons_of_mem _ member)]

theorem gathered_rows {replies : List Reply} (some_ : rows ≠ [])
    (recorded : List.Forall₂ (Recorded jiwer similarity) rows replies) {q : Reply → ℚ}
    (carried : ∀ reply ∈ replies, value jiwer similarity reply name = some (q reply)) :
    (gatherMetrics rows).lookup name = some (replies.map q) := by
  have same := lookup_rows recorded carried
  have all : rows.filterMap (fun row => row.metrics.lookup name) = replies.map q := by
    have through := congrArg (List.filterMap id) same
    rw [List.filterMap_map, List.filterMap_map] at through
    exact through.trans (congrFun List.filterMap_eq_map replies)
  obtain ⟨row, member⟩ := List.exists_mem_of_ne_nil rows some_
  have reported : row.metrics.lookup name ∈ rows.map fun row => row.metrics.lookup name :=
    List.mem_map_of_mem member
  rw [same] at reported
  obtain ⟨reply, -, found⟩ := List.mem_map.mp reported
  rw [lookup_gatherMetrics member found.symm, all]

theorem exists_row_iff {replies : List Reply}
    (recorded : List.Forall₂ (Recorded jiwer similarity) rows replies) {q : Reply → ℚ}
    (carried : ∀ reply ∈ replies, value jiwer similarity reply name = some (q reply)) (p : ℚ → Prop) :
    (∃ row ∈ rows, ∃ rate, row.metrics.lookup name = some rate ∧ p rate) ↔
      ∃ reply ∈ replies, p (q reply) := by
  have same := lookup_rows recorded carried
  constructor
  · rintro ⟨row, member, rate, found, holds⟩
    have reported : row.metrics.lookup name ∈ rows.map fun row => row.metrics.lookup name :=
      List.mem_map_of_mem member
    rw [same] at reported
    obtain ⟨reply, member, shared⟩ := List.mem_map.mp reported
    rw [found] at shared
    exact ⟨reply, member, Option.some.inj shared ▸ holds⟩
  · rintro ⟨reply, member, holds⟩
    have reported : some (q reply) ∈ replies.map fun reply => some (q reply) :=
      List.mem_map_of_mem (f := fun reply => some (q reply)) member
    rw [← same] at reported
    obtain ⟨row, member, shared⟩ := List.mem_map.mp reported
    exact ⟨row, member, _, shared, holds⟩

end LocalHarness.Evals
