import LocalHarness.Library.Ordered
import LocalHarness.Library.Tally
import LocalHarness.Library.Text

/-! # How the rows of a candidate ended

A summary counts the rows that passed, ran into the token budget, were wrong, came out empty, or were
broken by the instrument. Each class is told by a predicate of its own. No row is in two of them, and a
row is in none exactly when it failed and does not say how.
-/

namespace LocalHarness.Evals

open LocalHarness.Library

namespace Outcomes

/-- `reasons.TOKEN_BUDGET_EXHAUSTED`. -/
def TOKEN_BUDGET_EXHAUSTED : String := "token_budget_exhausted"

/-- A result row, in the columns its outcome is told from. -/
structure Result where
  candidate : String
  passed : Bool
  detail : String
  failureClass : String := ""
  deriving DecidableEq

/-- The candidate produced nothing. -/
def _EMPTY_MARKS : List String :=
  ["empty completion", "no answer", "left no output", "no output", "wrote nothing", "returned no text"]

/-- The instrument broke. -/
def _ERROR_MARKS : List String :=
  ["timed out", "timeout", "unreachable", "not installed", "could not launch", "connection", "http 5",
    "server error", "[metal]", "out of memory", "traceback"]

/-- `exited [1-9]`, found anywhere. -/
def nonzeroExit (low : String) : Bool :=
  ["1", "2", "3", "4", "5", "6", "7", "8", "9"].any fun digit => Text.contains low ("exited " ++ digit)

inductive FailureKind
  | unsaid | wrong | empty | error
  deriving DecidableEq

-- `str.lower`.
variable (lower : String → String)

/-- How one failure is told by its detail line. A broken instrument often produced nothing as well, and
    is looked for first. -/
def failureKind (detail : String) : FailureKind :=
  if detail = "" then .unsaid
  else
    let low := lower detail
    if nonzeroExit low || _ERROR_MARKS.any (Text.contains low) then .error
    else if _EMPTY_MARKS.any (Text.contains low) then .empty
    else .wrong

def _overBudget (row : Result) : Bool :=
  !row.passed && row.failureClass == TOKEN_BUDGET_EXHAUSTED

/-- The columns of a summary that count rows by how they ended. -/
structure Counts where
  total : Nat
  passed : Nat
  budget : Nat
  wrong : Nat
  empty : Nat
  errored : Nat
  deriving DecidableEq

inductive Class
  | passed | budget | wrong | empty | errored
  deriving DecidableEq

/-- What a row is counted by under each class. -/
def Class.holds (row : Result) : Class → Bool
  | passed => row.passed
  | budget => _overBudget row
  | wrong => !_overBudget row && !row.passed && failureKind lower row.detail == .wrong
  | empty => !_overBudget row && !row.passed && failureKind lower row.detail == .empty
  | errored => !_overBudget row && !row.passed && failureKind lower row.detail == .error

def counts (rows : List Result) : Counts where
  total := rows.length
  passed := rows.countP (Class.holds lower · .passed)
  budget := rows.countP (Class.holds lower · .budget)
  wrong := rows.countP (Class.holds lower · .wrong)
  empty := rows.countP (Class.holds lower · .empty)
  errored := rows.countP (Class.holds lower · .errored)

/-- `summarize`, in these columns. -/
def summarize (results : List Result) : Ordered String Counts :=
  (Ordered.groupBy Result.candidate results).mapValues (counts lower)

/-! ## One case split -/

/-- The class of a row, if it has one. -/
def classOf (row : Result) : Option Class :=
  if row.passed then some .passed
  else if row.failureClass = TOKEN_BUDGET_EXHAUSTED then some .budget
  else
    match failureKind lower row.detail with
    | .unsaid => none
    | .wrong => some .wrong
    | .empty => some .empty
    | .error => some .errored

variable {lower}

/-- The five predicates are the branches of one case split. -/
theorem holds_iff (row : Result) (c : Class) : c.holds lower row = true ↔ classOf lower row = some c := by
  cases passed : row.passed with
  | true => cases c <;> simp [Class.holds, classOf, _overBudget, passed]
  | false =>
      by_cases beyond : row.failureClass = TOKEN_BUDGET_EXHAUSTED
      · cases c <;> simp [Class.holds, classOf, _overBudget, passed, beyond]
      · cases kind : failureKind lower row.detail <;> cases c <;>
          simp [Class.holds, classOf, _overBudget, passed, beyond, kind]

theorem failureKind_unsaid {detail : String} : failureKind lower detail = .unsaid ↔ detail = "" := by
  unfold failureKind
  dsimp only
  split_ifs <;> simp_all

/-- Failed, not on the budget, and without a word on how. -/
def Unsaid (row : Result) : Prop :=
  row.passed = false ∧ row.failureClass ≠ TOKEN_BUDGET_EXHAUSTED ∧ row.detail = ""

theorem classOf_none {row : Result} : classOf lower row = none ↔ Unsaid row := by
  cases passed : row.passed with
  | true => simp [classOf, Unsaid, passed]
  | false =>
      by_cases beyond : row.failureClass = TOKEN_BUDGET_EXHAUSTED
      · simp [classOf, Unsaid, passed, beyond]
      · have said := @failureKind_unsaid lower row.detail
        cases kind : failureKind lower row.detail <;> rw [kind] at said <;>
          simp_all [classOf, Unsaid]

/-! ## The partition -/

def Class.all : List Class := [.passed, .budget, .wrong, .empty, .errored]

/-- The classes partition the rows, as the summary counts them: each row is in exactly one, and their
    counts add up to the total. -/
structure Partition (lower : String → String) (rows : List Result) (got : Counts) : Prop where
  one : ∀ row ∈ rows, ∃! c, Class.holds lower row c = true
  total : got.passed + got.budget + got.wrong + got.empty + got.errored = got.total

/-- The counts of the classes add up to the rows that have one. -/
theorem sum_counts (rows : List Result) :
    (counts lower rows).passed + (counts lower rows).budget + (counts lower rows).wrong +
        (counts lower rows).empty + (counts lower rows).errored =
      rows.countP fun row => (classOf lower row).isSome := by
  have classes := Tally.sum_countP_class (classOf lower) Class.all (by decide)
    (by intro c; cases c <;> decide) rows
  have told : ∀ c, rows.countP (Class.holds lower · c) = rows.countP fun row => classOf lower row = some c :=
    fun c => List.countP_congr fun row _ => (holds_iff row c).trans decide_eq_true_iff.symm
  rw [← classes]
  simp only [counts, told, Class.all, List.map_cons, List.map_nil, List.sum_cons, List.sum_nil]
  omega

theorem partition_iff (rows : List Result) :
    Partition lower rows (counts lower rows) ↔ ∀ row ∈ rows, ¬ Unsaid row := by
  constructor
  · intro partition row member unsaid
    obtain ⟨c, holds, -⟩ := partition.one row member
    rw [holds_iff, classOf_none.mpr unsaid] at holds
    cases holds
  · intro said
    have classed : ∀ row ∈ rows, (classOf lower row).isSome = true := fun row member =>
      Option.isSome_iff_ne_none.mpr fun none => said row member (classOf_none.mp none)
    refine ⟨fun row member => ?_, ?_⟩
    · obtain ⟨c, found⟩ := Option.isSome_iff_exists.mp (classed row member)
      refine ⟨c, (holds_iff row c).mpr found, fun c' holds => ?_⟩
      exact Option.some.inj (((holds_iff row c').mp holds).symm.trans found)
    · rw [sum_counts]
      exact List.countP_eq_length.mpr classed

/-- In every summary no row is in two classes, and the classes partition a candidate's rows exactly where
    each of them that failed, and not on the budget, has a detail. -/
theorem summarize_partition_iff (results : List Result) {candidate : String} {got : Counts}
    (summed : (summarize lower results).get? candidate = some got) :
    let rows := results.filter fun row => row.candidate = candidate
    (∀ row ∈ rows, ∀ c c', Class.holds lower row c = true → Class.holds lower row c' = true → c = c') ∧
      (Partition lower rows got ↔ ∀ row ∈ rows, row.passed = false →
        row.failureClass ≠ TOKEN_BUDGET_EXHAUSTED → row.detail ≠ "") := by
  intro rows
  rw [summarize, Ordered.get?_mapValues, Ordered.get?_groupBy, Option.map_eq_some_iff] at summed
  obtain ⟨group, found, rfl⟩ := summed
  obtain ⟨-, found⟩ := Option.ite_none_left_eq_some.mp found
  obtain rfl : rows = group := Option.some.inj found
  constructor
  · intro row _ c c' holds holds'
    exact Option.some.inj (((holds_iff row c).mp holds).symm.trans ((holds_iff row c').mp holds'))
  · rw [partition_iff]
    refine forall₂_congr fun row _ => ?_
    rw [Unsaid, not_and, not_and]

/-- A drawing that passed, and a run that the server broke off. -/
def told : List Result :=
  [{ candidate := "m", passed := true, detail := "" },
    { candidate := "m", passed := false, detail := "timed out after 180.0s", failureClass := "timeout" }]

theorem told_partition :
    let rows := told.filter fun row => row.candidate = "m"
    (∀ row ∈ rows, ∀ c c', Class.holds Text.lower row c = true →
        Class.holds Text.lower row c' = true → c = c') ∧
      (Partition Text.lower rows ⟨2, 1, 0, 0, 0, 1⟩ ↔ ∀ row ∈ rows, row.passed = false →
        row.failureClass ≠ TOKEN_BUDGET_EXHAUSTED → row.detail ≠ "") :=
  summarize_partition_iff told (by decide)

/-- A transcript without a grade fails its case, and says nothing. -/
theorem ungraded_unclassed :
    let row : Result :=
      { candidate := "m", passed := false, detail := "", failureClass := "content_failed" }
    (summarize Text.lower [row]).get? "m" = some ⟨1, 0, 0, 0, 0, 0⟩ ∧
      (∀ c, Class.holds Text.lower row c = false) ∧ ¬ Partition Text.lower [row] ⟨1, 0, 0, 0, 0, 0⟩ := by
  refine ⟨by decide, fun c => by cases c <;> decide, fun partition => ?_⟩
  exact absurd partition.total (by decide)

end Outcomes

end LocalHarness.Evals
