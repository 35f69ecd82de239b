import Mathlib.Data.Rat.Defs
import LocalHarness.Library.Table
import LocalHarness.Library.Text

/-! # The store's shape

The vocabularies writers and readers share, and the columns of a proposal and of
a verdict that the state machine reads. A proposal whose `state` is the empty
text has no outcome yet.
-/

namespace LocalHarness.MemoryStore

open LocalHarness.Library

/-- Outcomes a proposal can reach, `VERDICTS`. -/
inductive Outcome
  | measured
  | declined
  | broken
  | queued
  | ignored
  | screened
  deriving DecidableEq, Repr

namespace Outcome

def all : List Outcome :=
  [.measured, .declined, .broken, .queued, .ignored, .screened]

def text : Outcome → String
  | .measured => "measured"
  | .declined => "declined"
  | .broken => "broken"
  | .queued => "queued"
  | .ignored => "ignored"
  | .screened => "screened"

def ofText? (name : String) : Option Outcome :=
  all.find? fun outcome => outcome.text == name

theorem ofText?_text (outcome : Outcome) : ofText? outcome.text = some outcome := by
  cases outcome <;> decide

end Outcome

/-- The outcomes that suppress a proposal's being proposed again. -/
def terminal : List Outcome :=
  [.measured, .declined, .broken, .ignored]

/-- Outcomes that are not answers. -/
def waypoints : List Outcome :=
  [.queued, .screened]

/-- An outcome is an answer or it is not, never both. -/
theorem terminal_iff_not_waypoint (outcome : Outcome) :
    outcome ∈ terminal ↔ outcome ∉ waypoints := by
  cases outcome <;> decide

def inspect : String := "inspect"

def judge : String := "judge"

def fetch : String := "fetch"

def screen : String := "screen"

def measure : String := "measure"

def adopt : String := "adopt"

/-- `LADDER.get(tier, 0)`: a tier the ladder does not name ranks with inspect. -/
def ladder (tier : String) : Nat :=
  if tier = judge then 1
  else if tier = fetch then 2
  else if tier = screen then 3
  else if tier = measure then 4
  else if tier = adopt then 5
  else 0

/-- A row of `verdicts`, in the columns some reader of the state machine uses.
    `untilText` is the column `until`. -/
structure Verdict where
  outcome : Outcome
  tier : String
  detail : String
  runPath : String
  score : Option ℚ
  decidedAt : ℚ
  machineId : Nat
  untilText : String
  candidateId : Option Nat
  runId : Option Nat
  reason : String
  proposalId : Option Nat
  reopens : Option Nat
  reopenKind : String
  deriving DecidableEq

/-- A row of `proposals`. -/
structure Proposal where
  name : String
  state : Option Outcome
  stateVerdictId : Option Nat
  retestCount : Nat
  nextRetestAt : Option ℚ
  sizeBytes : Nat
  deriving DecidableEq

structure Store where
  proposals : Table Proposal
  verdicts : Table Verdict
  deriving DecidableEq

namespace Verdict

/-- No score, no run path and no run id: a row two calls may share. -/
def bare (row : Verdict) : Bool :=
  row.score.isNone && row.runPath == "" && row.runId.getD 0 == 0

end Verdict

namespace Proposal

/-- `COALESCE(state_verdict_id, 0)`. -/
def held (p : Proposal) : Nat :=
  p.stateVerdictId.getD 0

end Proposal

namespace Store

/-- A store with one proposal, which nothing has decided. -/
def fresh (name : String) : Store where
  verdicts := ∅
  proposals := Table.insert ∅ 1
    { name := name, state := none, stateVerdictId := none, retestCount := 0
      nextRetestAt := none, sizeBytes := 0 } (by decide)

/-- The proposal a name points at. -/
def named (s : Store) (name : String) : Option Nat :=
  (s.proposals.rows.find? fun row => row.2.name == name).map Prod.fst

def updateProposal (s : Store) (pid : Nat) (change : Proposal → Proposal) : Store :=
  { s with proposals := s.proposals.update pid change }

@[simp] theorem updateProposal_verdicts (s : Store) (pid : Nat) (change : Proposal → Proposal) :
    (s.updateProposal pid change).verdicts = s.verdicts := rfl

@[simp] theorem updateProposal_find? (s : Store) (pid other : Nat)
    (change : Proposal → Proposal) :
    (s.updateProposal pid change).proposals.find? other =
      if other = pid then (s.proposals.find? other).map change else s.proposals.find? other :=
  Table.find?_update _ _ _ _

theorem named_present {s : Store} {name : String} {pid : Nat} (found : s.named name = some pid) :
    ∃ p, s.proposals.find? pid = some p ∧ p.name = name := by
  obtain ⟨row, inside, rfl⟩ := Option.map_eq_some_iff.mp found
  refine ⟨row.2, Table.find?_eq_some.mpr (List.mem_of_find?_eq_some inside), ?_⟩
  simpa using List.find?_some inside

/-- Changing a proposal under its name keeps every name where it was. -/
theorem named_updateProposal (s : Store) (pid : Nat) (change : Proposal → Proposal)
    (same : ∀ p, (change p).name = p.name) (name : String) :
    (s.updateProposal pid change).named name = s.named name := by
  have keyed : ((fun row : Nat × Proposal => row.2.name == name) ∘
      fun row => if row.1 = pid then (row.1, change row.2) else row) =
      fun row => row.2.name == name := by
    funext row
    by_cases here : row.1 = pid <;> simp [here, same]
  simp only [named, updateProposal, Table.update, List.find?_map, keyed, Option.map_map]
  congr 1
  funext row
  by_cases here : row.1 = pid <;> simp [here]

end Store

end LocalHarness.MemoryStore
