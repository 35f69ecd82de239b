import Mathlib.Data.List.MinMax
import Mathlib.Data.Prod.Lex
import LocalHarness.Library.Decimal
import LocalHarness.Library.Dict
import LocalHarness.Library.SignTest
import LocalHarness.Library.Top

/-! # Choosing a value of a knob

A sweep runs an evaluation once for each value of a knob. `decide` takes the cheapest value that the
paired sign test cannot tell from the best; the test sees the cells that both runs have.
-/

namespace LocalHarness.Sweeps

open LocalHarness.Library LocalHarness.Library.Tally

/-- A stored row of a run. -/
structure Row where
  caseId : String
  passed : Bool
  seconds : Option ℚ

/-- A case, and which of its rows. -/
abbrev Cell := String × Nat

/-- `_cells`, once these cases have been seen. -/
def cellsAfter : List String → List Row → List (Cell × Row)
  | _, [] => []
  | seen, row :: rest =>
      ((row.caseId, seen.count row.caseId + 1), row) :: cellsAfter (row.caseId :: seen) rest

def cells (rows : List Row) : List (Cell × Row) :=
  cellsAfter [] rows

/-- The cells that both have and that only the first passed. -/
def lost (base mine : List (Cell × Row)) : Nat :=
  base.countP fun cell => cell.2.passed && (mine.lookup cell.1).any fun row => !row.passed

def gained (base mine : List (Cell × Row)) : Nat :=
  base.countP fun cell => !cell.2.passed && (mine.lookup cell.1).any Row.passed

/-- The paired sign test over the cells that both have. -/
def evidence (base mine : List (Cell × Row)) : ℚ :=
  SignTest.signTest (min (lost base mine) (gained base mine)) (lost base mine + gained base mine)

/-- The second is not told from the first: it has not lost more than it gained, or not by enough. -/
def Tied (alpha : ℚ) (base mine : List (Cell × Row)) : Prop :=
  ¬ (gained base mine < lost base mine ∧ evidence base mine ≤ alpha)

instance (alpha : ℚ) (base mine : List (Cell × Row)) : Decidable (Tied alpha base mine) :=
  inferInstanceAs (Decidable (¬ (gained base mine < lost base mine ∧ evidence base mine ≤ alpha)))

def passed (rows : List Row) : Nat :=
  rows.countP Row.passed

def seconds (rows : List Row) : ℚ :=
  (rows.map fun row => row.seconds.getD 0).sum

/-- What the table says of a value. -/
structure Cost where
  passed : Nat
  n : Nat
  seconds : ℚ
  lost : Nat
  gained : Nat
  p : ℚ
  tied : Bool
  best : Bool

variable {ν : Type} [DecidableEq ν]

/-- Where a value stands in the list, the last time it does. -/
def pos (values : List ν) (v : ν) : Nat :=
  values.length - 1 - values.reverse.idxOf v

/-- The values of which a run is stored. -/
def ran (values : List ν) (outcomes : ν → List Row) : List ν :=
  (firsts values).filter fun v => outcomes v ≠ []

/-- Seconds, and of those with as many the first in the list. -/
def Price := ℚ ×ₗ Nat

instance : LinearOrder Price :=
  @Prod.Lex.instLinearOrder ℚ Nat Rat.linearOrder Nat.instLinearOrder

/-- Cells passed with their sign changed, and then a price. -/
def Score := ℤ ×ₗ Price

instance : LinearOrder Score :=
  @Prod.Lex.instLinearOrder ℤ Price Int.instLinearOrder instLinearOrderPrice

def price (values : List ν) (outcomes : ν → List Row) (v : ν) : Price :=
  toLex (seconds (outcomes v), pos values v)

/-- The most cells passed, then the fewest seconds. -/
def score (values : List ν) (outcomes : ν → List Row) (v : ν) : Score :=
  toLex (-(passed (outcomes v) : ℤ), price values outcomes v)

def best (values : List ν) (outcomes : ν → List Row) : Option ν :=
  (ran values outcomes).argmin (score values outcomes)

def cost (alpha : ℚ) (outcomes : ν → List Row) (best v : ν) : Cost :=
  let base := cells (outcomes best)
  let mine := cells (outcomes v)
  { passed := passed (outcomes v)
    n := (outcomes v).length
    seconds := Decimal.rounded 3 (seconds (outcomes v))
    lost := lost base mine
    gained := gained base mine
    p := Decimal.rounded 4 (evidence base mine)
    tied := Tied alpha base mine
    best := v = best }

/-- The value chosen, and the table under the texts of the values. -/
def decide (str : ν → String) (values : List ν) (outcomes : ν → List Row) (alpha : ℚ) :
    Option ν × Dict Cost :=
  match best values outcomes with
  | none => (none, ∅)
  | some best =>
      let swept := values.filter fun v => v ∈ ran values outcomes
      let tied := swept.filter fun v => Tied alpha (cells (outcomes best)) (cells (outcomes v))
      (tied.argmin (price values outcomes),
        .ofItems (swept.map fun v => (str v, cost alpha outcomes best v)))

/-! ## A run beside itself -/

theorem cellsAfter_above {seen : List String} {rows : List Row} {entry : Cell × Row}
    (member : entry ∈ cellsAfter seen rows) : seen.count entry.1.1 < entry.1.2 := by
  induction rows generalizing seen with
  | nil => cases member
  | cons row rest ih =>
      rcases List.mem_cons.mp member with rfl | later
      · exact Nat.lt_succ_self _
      · have above := ih later
        rw [List.count_cons] at above
        omega

theorem nodup_cellsAfter (seen : List String) (rows : List Row) :
    ((cellsAfter seen rows).map Prod.fst).Nodup := by
  induction rows generalizing seen with
  | nil => exact List.nodup_nil
  | cons row rest ih =>
      rw [cellsAfter, List.map_cons, List.nodup_cons]
      refine ⟨fun again => ?_, ih _⟩
      obtain ⟨entry, member, same⟩ := List.mem_map.mp again
      have above := cellsAfter_above member
      rw [same, List.count_cons_self] at above
      exact Nat.lt_irrefl _ above

theorem lookup_cells {rows : List Row} {cell : Cell × Row} (member : cell ∈ cells rows) :
    (cells rows).lookup cell.1 = some cell.2 := by
  have once := nodup_cellsAfter [] rows
  rw [← cells] at once
  obtain ⟨front, back, shape⟩ := List.append_of_mem member
  refine List.lookup_eq_some_iff.mpr ⟨front, back, shape, fun other before => ?_⟩
  rw [shape, List.map_append, List.map_cons] at once
  have apart := (List.nodup_append.mp once).2.2 _ (List.mem_map_of_mem before) cell.1
    List.mem_cons_self
  exact bne_iff_ne.mpr apart.symm

/-- No cell is lost from a run to itself, and so the best value is tied with itself. -/
theorem tied_self (alpha : ℚ) (rows : List Row) : Tied alpha (cells rows) (cells rows) := by
  rintro ⟨less, -⟩
  have none_ : lost (cells rows) (cells rows) = 0 := by
    refine List.countP_eq_zero.mpr fun cell member => ?_
    rw [lookup_cells member]
    simp
  omega

/-! ## The choice -/

variable {values : List ν} {outcomes : ν → List Row} {alpha : ℚ} {str : ν → String} {v : ν}

theorem mem_ran : v ∈ ran values outcomes ↔ v ∈ values ∧ outcomes v ≠ [] := by
  rw [ran, List.mem_filter, Top.mem_firsts, decide_eq_true_eq]

/-- Nothing is chosen only where no run is stored. Otherwise it is the cheapest of the values that
    the sign test cannot tell from the best; how many cells the runs share plays no part. -/
theorem decide_cheapest (str : ν → String) (values : List ν) (outcomes : ν → List Row) (alpha : ℚ) :
    ((decide str values outcomes alpha).1 = none ↔ ∀ v ∈ values, outcomes v = []) ∧
      ∀ chosen, (decide str values outcomes alpha).1 = some chosen →
        ∃ best ∈ ran values outcomes,
          (∀ v ∈ ran values outcomes, score values outcomes best ≤ score values outcomes v) ∧
          chosen ∈ ran values outcomes ∧
          Tied alpha (cells (outcomes best)) (cells (outcomes chosen)) ∧
          ∀ v ∈ ran values outcomes, Tied alpha (cells (outcomes best)) (cells (outcomes v)) →
            price values outcomes chosen ≤ price values outcomes v := by
  unfold decide
  cases first : best values outcomes with
  | none =>
      have none_ : ran values outcomes = [] := List.argmin_eq_none.mp first
      refine ⟨iff_of_true rfl fun v member => ?_, nofun⟩
      by_contra stored
      have inside : v ∈ ran values outcomes := mem_ran.mpr ⟨member, stored⟩
      rw [none_] at inside
      cases inside
  | some best =>
      have member : best ∈ ran values outcomes := List.argmin_mem first
      have mem_tied : ∀ v, v ∈ (values.filter fun v => v ∈ ran values outcomes).filter
          (fun v => Tied alpha (cells (outcomes best)) (cells (outcomes v))) ↔
            v ∈ ran values outcomes ∧ Tied alpha (cells (outcomes best)) (cells (outcomes v)) := by
        intro v
        simp only [List.mem_filter, decide_eq_true_eq]
        exact and_congr_left fun _ => and_iff_right_of_imp fun inside => (mem_ran.mp inside).1
      constructor
      · refine iff_of_false (fun nothing => ?_) fun unrun => ?_
        · have inside := (mem_tied best).mpr ⟨member, tied_self alpha _⟩
          rw [List.argmin_eq_none.mp nothing] at inside
          cases inside
        · exact (mem_ran.mp member).2 (unrun best (mem_ran.mp member).1)
      · intro chosen made
        obtain ⟨stored, tied⟩ := (mem_tied chosen).mp (List.argmin_mem made)
        exact ⟨best, member, fun v inside => List.le_of_mem_argmin inside first, stored, tied,
          fun v inside also => List.le_of_mem_argmin ((mem_tied v).mpr ⟨inside, also⟩) made⟩

/-- A run that stopped at its first cell, which it failed, is chosen over one that passed three. -/
theorem stopped_run_chosen :
    ∃ (outcomes : Nat → List Row) (best chosen : Nat),
      Sweeps.best [1, 2] outcomes = some best ∧
        (decide toString [1, 2] outcomes (1 / 20)).1 = some chosen ∧ chosen ≠ best ∧
        (cells (outcomes chosen)).length < (cells (outcomes best)).length := by
  refine ⟨fun v => if v = 1 then [⟨"a", true, some 10⟩, ⟨"b", true, some 10⟩, ⟨"c", true, some 10⟩]
    else [⟨"a", false, some 1⟩], 1, 2, ?_, ?_, ?_, ?_⟩
  all_goals decide +kernel

end LocalHarness.Sweeps
