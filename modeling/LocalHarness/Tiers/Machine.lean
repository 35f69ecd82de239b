import Mathlib.Data.NNRat.Defs
import LocalHarness.MemoryStore.Revisit

/-! # A machine and the facts it records

What a tier refuses by is read off a machine directly; what reopens a refusal is read
off the row that machine recorded about itself. Both come from here.
-/

namespace LocalHarness.Tiers

open LocalHarness.Library LocalHarness.MemoryStore

/-- The runtimes probed for, and the cpu, which is always there. -/
inductive Runtime
  | cpu | cuda | ds4 | llamacpp | mlx | rocm | vllm
  deriving DecidableEq, Repr

namespace Runtime

/-- In the order of their names. -/
def sorted : List Runtime := [cpu, cuda, ds4, llamacpp, mlx, rocm, vllm]

def text : Runtime → String
  | cpu => "cpu"
  | cuda => "cuda"
  | ds4 => "ds4"
  | llamacpp => "llamacpp"
  | mlx => "mlx"
  | rocm => "rocm"
  | vllm => "vllm"

theorem text_inj {a b : Runtime} (same : a.text = b.text) : a = b := by
  cases a <;> cases b <;> first | rfl | exact absurd same (by decide)

theorem text_plain (runtime : Runtime) : ',' ∉ runtime.text.toList ∧ '|' ∉ runtime.text.toList := by
  cases runtime <;> decide

theorem mem_sorted (runtime : Runtime) : runtime ∈ sorted := by
  cases runtime <;> decide

end Runtime

/-- What the weights load into. -/
structure Accelerator where
  discrete : Bool
  totalGb : ℚ≥0

/-- What this machine has; `versions` is the probe, `""` for a package it could not read. -/
structure Machine where
  runtimes : List Runtime
  always : Runtime.cpu ∈ runtimes
  accelerator : Accelerator
  systemMemoryGb : ℚ≥0
  versions : String → Option String

def GIB : Nat := 1024 ^ 3

/-- The weights the 32 GB machine this was measured on will load. -/
def MEMORY_CEILING : Nat := 22 * GIB

def MEMORY_CEILING_RAM_GB : Nat := 32

namespace Machine

def has (m : Machine) (runtime : Runtime) : Bool :=
  runtime ∈ m.runtimes

/-- The verdict for a candidate needing `runtime` names it; `none` if it runs. -/
def refuses (m : Machine) (runtime : Runtime) : Option Runtime :=
  if runtime = .cpu ∨ m.has runtime then none else some runtime

/-- The largest weight this machine could load at all, in bytes. -/
def ceilingBytes (m : Machine) : Nat :=
  if m.accelerator.discrete then ⌊(m.accelerator.totalGb : ℚ) * GIB⌋.toNat
  else if 0 < m.accelerator.totalGb then
    ⌊(MEMORY_CEILING : ℚ) * m.accelerator.totalGb / MEMORY_CEILING_RAM_GB⌋.toNat
  else MEMORY_CEILING

/-- A version that could not be read is not recorded. -/
def recordedVersion (m : Machine) (package : String) : Option String :=
  (m.versions package).filter (· ≠ "")

/-- The recorded version of a package, "0" when absent. -/
def installed (m : Machine) (package : String) : String :=
  (m.recordedVersion package).getD "0"

/-- The whole gigabytes of memory a machine's row holds. -/
def memoryGb (m : Machine) : ℤ :=
  Decimal.roundHalfEven m.systemMemoryGb

/-- The row of this machine, as the facts a condition is held against. -/
def facts (m : Machine) (ceiling : Nat) : Facts where
  runtimes := Text.join ',' ((Runtime.sorted.filter m.has).map Runtime.text)
  memoryGb := m.memoryGb
  ceilingGb := ceiling / GIB
  versions := m.recordedVersion
  limits := none
  lastCommit := ""

theorem has_of_not_refuses {m : Machine} {runtime : Runtime} (runs : m.refuses runtime = none) :
    m.has runtime = true := by
  unfold refuses at runs
  split at runs
  next why =>
    cases why with
    | inl cpu =>
        rw [cpu, has, decide_eq_true_eq]
        exact m.always
    | inr here => exact here
  next => cases runs

theorem not_has_of_refuses {m : Machine} {runtime named : Runtime}
    (refused : m.refuses runtime = some named) : named = runtime ∧ m.has runtime = false := by
  unfold refuses at refused
  split at refused
  next => cases refused
  next lacks =>
    cases refused
    rw [not_or, Bool.not_eq_true] at lacks
    exact ⟨rfl, lacks.2⟩

/-- The runtimes a row lists are the ones the machine has. -/
theorem split_runtimes (m : Machine) (ceiling : Nat) :
    Text.split (m.facts ceiling).runtimes ',' = (Runtime.sorted.filter m.has).map Runtime.text := by
  apply Text.split_join
  · intro empty
    have cpu : Runtime.cpu ∈ Runtime.sorted.filter m.has :=
      List.mem_filter.mpr ⟨Runtime.mem_sorted _, has_of_not_refuses rfl⟩
    rw [List.map_eq_nil_iff.mp empty] at cpu
    cases cpu
  · intro part member
    obtain ⟨runtime, _, rfl⟩ := List.mem_map.mp member
    exact runtime.text_plain.1

theorem mem_split_runtimes {m : Machine} {ceiling : Nat} {runtime : Runtime} :
    runtime.text ∈ Text.split (m.facts ceiling).runtimes ',' ↔ m.has runtime = true := by
  rw [split_runtimes, List.mem_map]
  constructor
  · intro listed
    obtain ⟨other, member, same⟩ := listed
    rw [← Runtime.text_inj same]
    exact (List.mem_filter.mp member).2
  · intro here
    exact ⟨runtime, List.mem_filter.mpr ⟨runtime.mem_sorted, here⟩, rfl⟩

theorem memoryGb_nonneg (m : Machine) : 0 ≤ m.memoryGb :=
  Decimal.roundHalfEven_nonneg m.systemMemoryGb.2

/-- The row's ceiling is the bytes the tier refused by. -/
theorem facts_ceilingGb (m : Machine) (ceiling : Nat) :
    (m.facts ceiling).ceilingGb = (ceiling : ℚ) / GIB := rfl

theorem facts_memoryGb (m : Machine) (ceiling : Nat) :
    (m.facts ceiling).memoryGb = m.memoryGb := rfl

end Machine

end LocalHarness.Tiers
