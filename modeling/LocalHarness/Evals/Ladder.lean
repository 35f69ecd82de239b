import Mathlib.Data.List.Pairwise
import LocalHarness.Evals.Outcomes
import LocalHarness.Library.Decimal

/-! # A reply cut off at its budget is tried again with a larger one

The ladder of budgets ends at the room a prompt leaves in the context. A case climbs it from the bottom while
its replies run out of their budgets.
-/

namespace LocalHarness.Evals

open LocalHarness.Library

namespace Ladder

/-- `delegate.MAX_TOKENS` -/
def MAX_TOKENS : ℤ := 8192

/-- `delegate.CHARS_PER_TOKEN` -/
def CHARS_PER_TOKEN : ℤ := 3

/-- `delegate.cap`: the largest budget a request may ask for. -/
def cap (ctx : Option ℤ) (texts : List (Option String)) : ℤ :=
  match ctx with
  | none => MAX_TOKENS
  | some ctx =>
      let chars : ℤ := (texts.map fun t => ((t.getD "").length : ℤ)).sum
      max 0 (ctx - -((-chars).fdiv CHARS_PER_TOKEN))

/-- Rungs past the room become that room. -/
def rungsFor (ladder : List ℤ) (ctx : Option ℤ) (texts : List (Option String)) : List ℤ :=
  match ctx with
  | none => ladder
  | some ctx =>
      let room := cap (some ctx) texts
      if room < 1 then ladder.take 1
      else
        let kept := ladder.filter (· < room)
        if kept.length < ladder.length then kept ++ [room] else kept

structure Attempt where
  maxTokens : ℤ
  tokens : Option ℤ
  seconds : ℚ
  passed : Bool
  failureClass : String
  deriving DecidableEq

/-- A result row: what a climb looks at, and all the rest. -/
structure Row (ρ : Type) where
  passed : Bool
  seconds : ℚ
  failureClass : String
  /-- `metrics.get("completion_tokens")` -/
  completionTokens : Option ℤ
  attempts : List Attempt
  rest : ρ

variable {σ ρ : Type}

def Row.exhausted (row : Row ρ) : Bool :=
  row.failureClass == Outcomes.TOKEN_BUDGET_EXHAUSTED

/-- A reply with no content and no usage spent the whole budget. -/
def attempt (rung : ℤ) (row : Row ρ) : Attempt where
  maxTokens := rung
  tokens :=
    match row.completionTokens with
    | some tokens => if tokens ≠ 0 then some tokens else if row.exhausted then some rung else none
    | none => if row.exhausted then some rung else none
  seconds := row.seconds
  passed := row.passed
  failureClass := row.failureClass

section

-- A runner may change with every reply, and answers as it pleases at each budget.
variable (runner : σ → ℤ → Row ρ × σ)

/-- The loop of `climb`, and its last row; none where there was no turn. -/
def climbLoop : σ → List Attempt → Option (Row ρ) → List ℤ → Option (List Attempt × Row ρ)
  | _, attempts, row, [] => row.map (attempts, ·)
  | s, attempts, _, rung :: rungs =>
      let ran := runner s rung
      let attempts := attempts ++ [attempt rung ran.1]
      if ran.1.passed || !ran.1.exhausted then some (attempts, ran.1)
      else climbLoop ran.2 attempts (some ran.1) rungs

def climb (s : σ) (rungs : List ℤ) : Option (Row ρ) :=
  (climbLoop runner s [] none rungs).map fun (attempts, row) =>
    { row with attempts := attempts, seconds := Decimal.rounded 3 (attempts.map Attempt.seconds).sum }

/-- What the runner answers at each of the rungs, one after the other. -/
def answers : σ → List ℤ → List (ℤ × Row ρ)
  | _, [] => []
  | s, rung :: rungs => (rung, (runner s rung).1) :: answers (runner s rung).2 rungs

end

/-! ## The rungs -/

theorem rungsFor_ne_nil {ladder : List ℤ} (some : ladder ≠ []) (ctx : Option ℤ) (texts : List (Option String)) :
    rungsFor ladder ctx texts ≠ [] := by
  cases ctx with
  | none => exact some
  | some ctx =>
      simp only [rungsFor]
      split
      · cases ladder with
        | nil => exact absurd rfl some
        | cons rung rungs => exact List.cons_ne_nil rung _
      · split
        · exact List.concat_ne_nil _ _
        · next all =>
            intro none
            rw [none, List.length_nil, Nat.not_lt, Nat.le_zero, List.length_eq_zero_iff] at all
            exact some all

theorem rungsFor_increasing {ladder : List ℤ} (increasing : ladder.Pairwise (· < ·)) (ctx : Option ℤ)
    (texts : List (Option String)) : (rungsFor ladder ctx texts).Pairwise (· < ·) := by
  cases ctx with
  | none => exact increasing
  | some ctx =>
      simp only [rungsFor]
      split
      · exact increasing.sublist (List.take_sublist ..)
      · split
        · refine List.pairwise_append.mpr
            ⟨increasing.sublist List.filter_sublist, List.pairwise_singleton .., fun rung kept top last => ?_⟩
          rw [List.mem_singleton.mp last]
          exact of_decide_eq_true (List.mem_filter.mp kept).2
        · exact increasing.sublist List.filter_sublist

theorem rungsFor_le {ladder : List ℤ} {ctx : ℤ} {texts : List (Option String)}
    (room : 1 ≤ cap (some ctx) texts) : ∀ rung ∈ rungsFor ladder (some ctx) texts, rung ≤ cap (some ctx) texts := by
  have kept : ∀ rung ∈ ladder.filter (· < cap (some ctx) texts), rung ≤ cap (some ctx) texts :=
    fun rung member => (of_decide_eq_true (List.mem_filter.mp member).2).le
  simp only [rungsFor, if_neg (Int.not_lt.mpr room)]
  split
  · intro rung member
    rcases List.mem_append.mp member with below | top
    · exact kept rung below
    · exact (List.mem_singleton.mp top).le
  · exact kept

/-! ## The climb -/

/-- A reply ran out of its budget. -/
def CutOff (answer : ℤ × Row ρ) : Prop :=
  answer.2.exhausted = true ∧ answer.2.passed = false

/-- The climb ends with `row` after so many rungs. -/
structure Climbed (runner : σ → ℤ → Row ρ × σ) (s : σ) (rungs : List ℤ) (n : Nat) (attempts : List Attempt)
    (row : Row ρ) : Prop where
  some : 0 < n
  within : n ≤ rungs.length
  attempts : attempts = (answers runner s (rungs.take n)).map fun answer => attempt answer.1 answer.2
  cutOff : ∀ answer ∈ (answers runner s (rungs.take n)).dropLast, CutOff answer
  last : ∃ rung, (answers runner s (rungs.take n)).getLast? = .some (rung, row) ∧
    (CutOff (rung, row) → n = rungs.length)

theorem answers_ne_nil (runner : σ → ℤ → Row ρ × σ) (s : σ) {rungs : List ℤ} {n : Nat} (some : 0 < n)
    (within : n ≤ rungs.length) : answers runner s (rungs.take n) ≠ [] := by
  cases n with
  | zero => exact absurd some (Nat.lt_irrefl 0)
  | succ n =>
      cases rungs with
      | nil => exact absurd within (Nat.not_succ_le_zero n)
      | cons rung rungs => exact List.cons_ne_nil _ _

theorem Climbed.one {runner : σ → ℤ → Row ρ × σ} {s : σ} {rung : ℤ} {rungs : List ℤ}
    (stops : CutOff (rung, (runner s rung).1) → rungs = []) :
    Climbed runner s (rung :: rungs) 1 [attempt rung (runner s rung).1] (runner s rung).1 where
  some := Nat.one_pos
  within := Nat.succ_le_succ (Nat.zero_le _)
  attempts := rfl
  cutOff := List.forall_mem_nil _
  last := ⟨rung, rfl, fun cut => by rw [stops cut]; rfl⟩

theorem Climbed.next {runner : σ → ℤ → Row ρ × σ} {s : σ} {rung : ℤ} {rungs : List ℤ} {n : Nat}
    {attempts : List Attempt} {row : Row ρ} (cut : CutOff (rung, (runner s rung).1))
    (climbed : Climbed runner (runner s rung).2 rungs n attempts row) :
    Climbed runner s (rung :: rungs) (n + 1) (attempt rung (runner s rung).1 :: attempts) row := by
  obtain ⟨some, within, rfl, cutOff, top, last, stops⟩ := climbed
  have more := answers_ne_nil runner (runner s rung).2 some within
  have answered : answers runner s ((rung :: rungs).take (n + 1)) =
      (rung, (runner s rung).1) :: answers runner (runner s rung).2 (rungs.take n) := rfl
  refine ⟨Nat.succ_pos n, Nat.succ_le_succ within, rfl, ?_, top, ?_, fun cut => congrArg Nat.succ (stops cut)⟩
  · rw [answered, List.dropLast_cons_of_ne_nil more]
    exact List.forall_mem_cons.mpr ⟨cut, cutOff⟩
  · rw [answered, List.getLast?_cons_of_ne_nil more, last]

theorem climbLoop_climbed (runner : σ → ℤ → Row ρ × σ) {rungs : List ℤ} (some : rungs ≠ []) (s : σ)
    (done : List Attempt) (previous : Option (Row ρ)) :
    ∃ n attempts row, climbLoop runner s done previous rungs = .some (done ++ attempts, row) ∧
      Climbed runner s rungs n attempts row := by
  induction rungs generalizing s done previous with
  | nil => exact absurd rfl some
  | cons rung rungs ih =>
      simp only [climbLoop]
      by_cases ended : ((runner s rung).1.passed || !(runner s rung).1.exhausted) = true
      · rw [if_pos ended]
        refine ⟨1, _, _, rfl, .one fun cut => ?_⟩
        obtain ⟨exhausted, failed⟩ := cut
        rw [exhausted, failed] at ended
        cases ended
      · have cut : CutOff (rung, (runner s rung).1) := by simpa [CutOff, and_comm] using ended
        rw [if_neg ended]
        cases rungs with
        | nil => exact ⟨1, _, _, rfl, .one fun _ => rfl⟩
        | cons next rungs =>
            obtain ⟨n, attempts, row, looped, climbed⟩ := ih (List.cons_ne_nil _ _) (runner s rung).2
              (done ++ [attempt rung (runner s rung).1]) (.some (runner s rung).1)
            refine ⟨n + 1, _, row, ?_, climbed.next cut⟩
            rw [looped, List.append_assoc]
            rfl

/-- The attempts are for the first rungs, one each. -/
theorem Climbed.isPrefix {runner : σ → ℤ → Row ρ × σ} {s : σ} {rungs : List ℤ} {n : Nat}
    {attempts : List Attempt} {row : Row ρ} (climbed : Climbed runner s rungs n attempts row) :
    attempts.map Attempt.maxTokens <+: rungs := by
  have asked (s : σ) (rungs : List ℤ) :
      (answers runner s rungs).map Prod.fst = rungs := by
    induction rungs generalizing s with
    | nil => rfl
    | cons rung rungs ih => exact congrArg (rung :: ·) (ih _)
  have same : attempts.map Attempt.maxTokens = rungs.take n := by
    rw [climbed.attempts, List.map_map]
    exact asked s (rungs.take n)
  rw [same]
  exact List.take_prefix n rungs

/-- Cut off at the first rung, and answered at the second. -/
def scripted (_ : Unit) (rung : ℤ) : Row Unit × Unit :=
  (if rung < 16000 then ⟨false, 5, Outcomes.TOKEN_BUDGET_EXHAUSTED, none, [], ()⟩
    else ⟨true, 2, "", some 8000, [], ()⟩, ())

end Ladder

end LocalHarness.Evals
