import LocalHarness.Tiers.Machine

/-! # The screen's verdict

A screen ends in a failure class, and the class alone decides the outcome, the reason and
the form of the condition that reopens it.
-/

namespace LocalHarness.Tiers.Screen

open LocalHarness.Library LocalHarness.MemoryStore

inductive FailureClass
  | serverDead
  | gpuFault
  | refusedByGateway
  | harnessError
  | timeout
  | tokenBudgetExhausted
  | loadFailedRuntime
  | loadFailedLayout
  | backendFault
  | missingFileInSnapshot
  | crashed
  | contentFailed
  | runaway
  deriving DecidableEq, Repr

namespace FailureClass

def text : FailureClass → String
  | serverDead => "server_dead"
  | gpuFault => "gpu_fault"
  | refusedByGateway => "refused_by_gateway"
  | harnessError => "harness_error"
  | timeout => "timeout"
  | tokenBudgetExhausted => "token_budget_exhausted"
  | loadFailedRuntime => "load_failed_runtime"
  | loadFailedLayout => "load_failed_layout"
  | backendFault => "backend_fault"
  | missingFileInSnapshot => "missing_file_in_snapshot"
  | crashed => "crashed"
  | contentFailed => "content_failed"
  | runaway => "runaway"

/-- The outcome and the reason of a class. -/
def classes : FailureClass → Outcome × String
  | serverDead => (.queued, "harness")
  | gpuFault => (.declined, "machine")
  | refusedByGateway => (.queued, "harness")
  | harnessError => (.queued, "harness")
  | timeout => (.declined, "limit")
  | tokenBudgetExhausted => (.declined, "limit")
  | loadFailedRuntime => (.declined, "runtime")
  | loadFailedLayout => (.declined, "runtime")
  | backendFault => (.declined, "runtime")
  | missingFileInSnapshot => (.broken, "candidate")
  | crashed => (.broken, "candidate")
  | contentFailed => (.broken, "candidate")
  | runaway => (.broken, "candidate")

def reason (cls : FailureClass) : String :=
  cls.classes.2

theorem reason_known (cls : FailureClass) : cls.reason ∈ reasons := by
  cases cls <;> decide

/-- A class that waits for a runtime is not one that stopped at a limit. -/
theorem limit_ne_runtime {cls : FailureClass} (limit : cls.reason = "limit") :
    cls.reason ≠ "runtime" := by
  rw [limit]
  decide

end FailureClass

/-- The package whose version decides what a process engine can load. -/
def ENGINE_RUNTIMES : List (String × String) :=
  [("mflux", "mflux"), ("diffusers", "diffusers"), ("diffusers-video", "diffusers"),
    ("acestep", "ace-step"), ("tts", "mlx-audio"), ("stt", "mlx-audio"),
    ("hf-ocr", "transformers"), ("rerank", "sentence-transformers"),
    ("embed", "sentence-transformers"), ("hf-pii", "transformers"), ("ds4", "ds4")]

def LOAD_RUNTIME : String := "mlx-lm"

def LLAMACPP_PREFIX : String := "llamacpp:"

def engineRuntime (candidate : String) : Option String :=
  let head := Text.strip (Text.partition (Text.partition candidate ',').1 ':').1
  ENGINE_RUNTIMES.lookup head

/-- The package a load failure waits for. -/
def loadPackage (candidate : String) : String :=
  if candidate.startsWith LLAMACPP_PREFIX then "llama.cpp"
  else (engineRuntime candidate).getD LOAD_RUNTIME

/-- The condition that reopens a load failure: a newer runtime. -/
def loadUntil (m : Machine) (candidate : String) : String :=
  keyed "version" (floored (loadPackage candidate) (m.installed (loadPackage candidate)))

def sentence (cls : FailureClass) (why limit : String) : String :=
  let tail := if why = "" then "" else ": " ++ why
  match cls with
  | .loadFailedRuntime => "the installed runtime could not load it" ++ tail
  | .loadFailedLayout =>
      "needs its own runner: the stock loader could not assemble it" ++ tail
  | .gpuFault => "the GPU faulted running it on this machine" ++ tail
  | .backendFault => "the MPS backend aborted running it" ++ tail
  | _ =>
      if cls.reason = "limit" then
        "stopped at a limit this harness chose" ++
          (if limit = "" then "" else " (" ++ limit ++ ")") ++ tail
      else if cls.reason = "harness" then
        "not screened: " ++ cls.text ++ ". The harness could not deliver the " ++
          "request, which says nothing about the candidate" ++ tail
      else "it ran and passed nothing" ++ tail

/-- A screen's verdict. -/
structure Verdict where
  outcome : Outcome
  detail : String
  reason : String
  untilText : String := ""
  failureClass : FailureClass

/-- The limit a receipt stopped at: the first of those it recorded, in the order of texts. -/
def stoppedAt (limits : List String) : String :=
  limits.min?.getD ""

/-- The verdict a failure class means; `memory?` is the memory of the machine's row. -/
def decideClass (m : Machine) (cls : FailureClass) (why candidate : String)
    (limits : List String) (memory? : Option ℚ) : Verdict where
  outcome := cls.classes.1
  detail := sentence cls why (stoppedAt limits)
  reason := cls.reason
  untilText :=
    if cls.reason = "runtime" then loadUntil m candidate
    else if cls.reason = "limit" ∧ stoppedAt limits ≠ "" then keyed "limit" (stoppedAt limits)
    else if cls = .gpuFault ∧ memory?.getD 0 ≠ 0 then
      keyed "memory_gb" (marked 0 (memory?.getD 0))
    else ""
  failureClass := cls

/-- The condition of a screen put off because `available` gigabytes were too few. -/
def headroomUntil (available : ℚ≥0) : String :=
  keyed "memory_gb" (marked 1 available)

theorem loadPackage_plain (candidate : String) : '>' ∉ (loadPackage candidate).toList := by
  have listed : ∀ row ∈ ENGINE_RUNTIMES, '>' ∉ row.2.toList := by decide
  unfold loadPackage
  split
  next => decide
  next =>
    cases found : engineRuntime candidate with
    | none => decide
    | some package =>
        obtain ⟨front, back, rows, _⟩ := List.lookup_eq_some_iff.mp found
        exact listed _ (rows ▸ List.mem_append_right front List.mem_cons_self)

/-- A load failure does not wait for the version that is installed. -/
theorem loadUntil_unmet (chosen : String → Option ℚ) (m : Machine) (ceiling : Nat)
    (candidate : String) : untilMet chosen (m.facts ceiling) (loadUntil m candidate) = false :=
  untilMet_version (loadPackage_plain candidate) "0"

end LocalHarness.Tiers.Screen
