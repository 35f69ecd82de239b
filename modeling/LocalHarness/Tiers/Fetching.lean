import LocalHarness.Tiers.Machine

/-! # The download planner's refusals -/

namespace LocalHarness.Tiers.Fetching

open LocalHarness.Library LocalHarness.MemoryStore

def DISK_FLOOR : Int := 50 * GIB

def MAX_DOWNLOAD : Int := 60 * GIB

/-- Whether a download may start, and why not when it may not. -/
structure Plan where
  repo : String
  size : Int
  ok : Bool
  why : String
  reason : String := ""
  untilText : String := ""
  deriving DecidableEq

def gib (places : Nat) (bytes : Int) : String :=
  Decimal.fixed places ((bytes : ℚ) / GIB)

/-- A size is required: an unknown one is refused rather than attempted. -/
def plan (repo : String) (size free : Int) : Plan :=
  if size ≤ 0 then
    { repo := repo, size := size, ok := false, why := "no measured size; inspect it first"
      reason := "harness" }
  else if MAX_DOWNLOAD < size then
    { repo := repo, size := size, ok := false
      why := gib 1 size ++ " GiB is over the " ++ gib 0 MAX_DOWNLOAD ++ " GiB cap"
      reason := "limit"
      untilText := keyed "limit" (floored "download_gib" (gib 0 MAX_DOWNLOAD)) }
  else if free - size < DISK_FLOOR then
    { repo := repo, size := size, ok := false
      why := gib 1 size ++ " GiB would leave under the " ++ gib 0 DISK_FLOOR ++ " GiB floor (" ++
        gib 0 free ++ " GiB free)"
      reason := "machine" }
  else
    { repo := repo, size := size, ok := true
      why := gib 1 size ++ " GiB, " ++ gib 0 free ++ " GiB free" }

/-- A download that may not start says why, and one that may gives no reason. -/
theorem plan_reason (repo : String) (size free : Int) :
    if (plan repo size free).ok then (plan repo size free).reason = ""
    else (plan repo size free).reason ∈ reasons := by
  unfold plan
  split_ifs <;> simp_all [reasons]

/-- What a queued row says of the runtime it needs. -/
structure Row where
  gguf : Bool
  runtimeNeeded : Option Runtime

/-- The runtime this row needs that this machine lacks. -/
def unrunnable (m : Machine) (row : Row) : Option Runtime :=
  if row.gguf then m.refuses .llamacpp else row.runtimeNeeded.bind m.refuses

/-- The condition written when the runtime a row needs is missing. -/
def needsUntil (m : Machine) (row : Row) : String :=
  match unrunnable m row with
  | some runtime => keyed "runtime" runtime.text
  | none => ""

theorem unrunnable_lacks {m : Machine} {row : Row} {runtime : Runtime}
    (lacks : unrunnable m row = some runtime) : m.has runtime = false := by
  have refused : ∃ asked, m.refuses asked = some runtime := by
    unfold unrunnable at lacks
    split at lacks
    next => exact ⟨_, lacks⟩
    next =>
      obtain ⟨asked, _, refused⟩ := Option.bind_eq_some_iff.mp lacks
      exact ⟨asked, refused⟩
  obtain ⟨asked, refused⟩ := refused
  obtain ⟨same, lacked⟩ := Machine.not_has_of_refuses refused
  rw [same]
  exact lacked

end LocalHarness.Tiers.Fetching
