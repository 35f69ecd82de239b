import LocalHarness.Library.Dict
import LocalHarness.Library.Runs
import LocalHarness.MemoryStore.Transitions
import LocalHarness.Tiers.Fetching

/-! # One invocation of the fetch tier

Up to `limit` queued candidates are downloaded, each with what it needs beside itself, and the
budget is threaded through the loop. What the hub, the disk and the store answer may change
with every download, so a `World` answers for the starts so far.
-/

namespace LocalHarness.Tiers.Fetching

open LocalHarness.Library LocalHarness.MemoryStore

/-- How a download ends. One that fails may have moved some of its bytes. -/
inductive Ending where
  | landed (path : String)
  | failed (why : String) (missing : Nat)

/-- A download as it was started: whether `plan` was asked, and the free bytes and the bytes
    this run had already moved at that moment. -/
structure Start where
  repo : String
  planned : Bool
  free : Int
  before : Nat
  ending : Ending

/-- A queued row, with what its card says it runs on. -/
structure Wanted where
  name : String
  resolved : String := ""
  lane : String
  attaches_to : String := ""
  size_bytes : Int := 0
  weights : Row := ⟨false, none⟩

/-- The arguments of a run, and everything outside this module that it asks. -/
structure World where
  /-- The bytes the hub publishes for a repo, which a whole download moves. -/
  published : String → Nat
  download : List Start → String → Bool → Ending
  free_bytes : List Start → Int
  have_ : List Start → String → Bool
  /-- The repos a download's own config named. -/
  named : List Start → String → List String
  /-- The lineage of a candidate, parent and kind. -/
  parents_of : String → List (String × String)
  /-- Every row in state `queued`, and those of them the worker may fetch in rank order. -/
  stored : List Wanted
  queued : List Start → List Wanted
  serves : String → Bool
  machine : Machine
  runner_gap : String → String → String → String
  takes_attachment : String → String → Bool
  recognised : String → Bool
  candidate_for : String → String → String
  sizes : Dict Int := ∅
  sizer : String → Int
  limit : Int := 1
  free : Option Int := none
  budget : Option Nat := none

structure Done where
  repo : String
  ok : Bool
  why : String
  deriving DecidableEq

/-- The bytes of a repo that a download moves. -/
def Ending.moved (size : Nat) : Ending → Nat
  | .landed _ => size
  | .failed _ missing => size - missing

section

variable (w : World)

def moved (starts : List Start) : Nat :=
  (starts.map fun start => start.ending.moved (w.published start.repo)).sum

/-- The free bytes a plan is made with. -/
def freeNow (starts : List Start) : Int :=
  w.free.getD (w.free_bytes starts)

def startOf (starts : List Start) (repo : String) (planned text : Bool) : Start where
  repo := repo
  planned := planned
  free := freeNow w starts
  before := moved w starts
  ending := w.download starts repo text

/-! ## What a candidate needs beside itself -/

/-- The base and the repo of each OmniSVG model. -/
def MODELS : List (String × String) :=
  [("Qwen/Qwen2.5-VL-3B-Instruct", "OmniSVG/OmniSVG1.1_4B"),
    ("Qwen/Qwen2.5-VL-7B-Instruct", "OmniSVG/OmniSVG1.1_8B")]

/-- Base weights the candidate's runner loads beside it. -/
def runner_bases (model_id : String) : List String :=
  MODELS.filterMap fun entry => if entry.2 = model_id then some entry.1 else none

def adapterParents (model_id : String) : List String :=
  (w.parents_of model_id).filterMap fun parent =>
    if parent.2 = "adapter" ∧ parent.1 ≠ model_id then some parent.1 else none

def requires (starts : List Start) (model_id : String) : List String :=
  Dict.sortedKeys
    (w.named starts model_id ++ adapterParents w model_id ++ runner_bases model_id).toFinset

/-- Everything a model needs that is not on disk, itself included. -/
def missing (starts : List Start) (model_id : String) : List String :=
  (model_id :: requires w starts model_id).filter fun repo => !w.have_ starts repo

/-- Queued candidates already downloaded whose runner base is still missing. -/
def on_disk_waiting : List String :=
  ((w.stored.filter fun row => w.serves row.lane).map fun row =>
      if row.resolved = "" then row.name else row.resolved).filter fun name =>
    runner_bases name ≠ [] && w.have_ [] name && missing w [] name ≠ []

/-- The first of these that is not zero. -/
def firstSize (sizes : List Int) (otherwise : Int) : Int :=
  (sizes.find? (· ≠ 0)).getD otherwise

def baseSize (dep : String) : Int :=
  firstSize [(w.sizes.lookup dep).getD 0, w.sizer dep] (-1)

def overBudget (spent size : Int) : Bool :=
  match w.budget with
  | some budget => 0 < size && (budget : Int) < spent + size
  | none => false

def budgetText : String :=
  gib 0 (w.budget.getD 0)

/-- What a loop over the needs of a candidate carries. -/
structure Needs where
  done : List Done := []
  spent_now : Int := 0
  waiting : Option (String × String) := none
  starts : List Start

def Needs.wait (s : Needs) (dep reason why : String) : Needs :=
  { s with done := s.done ++ [⟨dep, false, why⟩], waiting := s.waiting.or (some (reason, why)) }

/-- A turn of the loop. Only a base of the runner is planned and paid for. -/
def fetchNeed (name : String) (spent : Int) (s : Needs) (dep : String) : Needs :=
  if dep ∉ runner_bases name then
    let start := startOf w s.starts dep false true
    match start.ending with
    | .failed exc _ =>
        { s with starts := s.starts ++ [start]
                 done := s.done ++ [⟨dep, false, "needed by " ++ name ++ ": " ++ exc⟩] }
    | .landed _ =>
        { s with starts := s.starts ++ [start]
                 done := s.done ++ [⟨dep, true, "needed by " ++ name⟩] }
  else
    let size := baseSize w dep
    let p := plan dep size (freeNow w s.starts)
    if overBudget w (spent + s.spent_now) size then
      s.wait dep "limit" (dep ++ ", the base its runner needs, is " ++ gib 1 size ++
        " GiB and would take this run past its " ++ budgetText w ++ " GiB budget")
    else if ¬ p.ok then
      s.wait dep p.reason (dep ++ ", the base its runner needs: " ++ p.why)
    else
      let start := startOf w s.starts dep true true
      match start.ending with
      | .failed exc _ =>
          { s with starts := s.starts ++ [start] }.wait dep "harness"
            (dep ++ ", the base its runner needs: " ++ exc)
      | .landed _ =>
          { s with starts := s.starts ++ [start], spent_now := s.spent_now + size
                   done := s.done ++ [⟨dep, true, "base weights for " ++ name⟩] }

def needTurn (name : String) (spent : Int) (s : Needs) (dep : String) : Option Needs :=
  some (fetchNeed w name spent s dep)

/-! ## The run -/

structure Loop where
  spent : Int := 0
  fetched : Int := 0
  starts : List Start := []
  done : List Done := []
  /-- What `decide_or_skip` was asked, in order. -/
  decided : List Decision := []

def neededBy (starts : List Start) (name : String) : List String :=
  (requires w starts name).filter fun repo => !w.have_ starts repo

def needs_of (s : Loop) (name : String) : Loop :=
  let got := walk (needTurn w name s.spent) { starts := s.starts } (neededBy w s.starts name)
  { s with
    spent := s.spent + got.spent_now
    starts := got.starts
    done := s.done ++ got.done
    decided := match got.waiting with
      | some (reason, why) => s.decided ++
          [{ name := name, outcome := "queued", tier := "fetch", detail := "waiting on " ++ why
             reason := reason }]
      | none => s.decided }

def ALIASES : List (String × String) := [("text", "code"), ("all", "")]

def canonical (lane : String) : String :=
  let got := Text.lower (Text.strip lane)
  ((ALIASES.find? fun entry => entry.1 = got).map Prod.snd).getD got

def GGUF_SERVED : List String := ["code", "web", "svg", "extract", "agent", "decide", "claims"]

/-- A row that is passed over: what is decided of it and what is reported. -/
structure Passed where
  decision : Decision
  done : Done

def Passed.of (name outcome why reason untilText : String) (repo : String) : Passed where
  decision := { name := name, outcome := outcome, tier := "fetch", detail := why, reason := reason
                untilText := untilText }
  done := ⟨repo, false, why⟩

/-- Why a row is not fetched, whatever room there is. -/
def gate (row : Wanted) : Option Passed :=
  match unrunnable w.machine row.weights with
  | some runtime =>
      some (.of row.name "declined" ("needs-" ++ runtime.text ++
        ": this machine has no runtime that can load these weights") "machine"
        (needsUntil w.machine row.weights) row.name)
  | none =>
      let gap := w.runner_gap row.lane row.name row.attaches_to
      if gap ≠ "" then
        some (.of row.name "queued" (gap ++ ": no runner in the " ++ row.lane ++ " lane can load it")
          "harness" "" row.name)
      else if row.attaches_to ≠ "" ∧ ¬ w.takes_attachment row.lane row.attaches_to then
        some (.of row.name "declined" (row.attaches_to ++ " in its own card: this attaches to a " ++
          "model rather than being one, and no lane can run it alone") "candidate" "" row.name)
      else if w.recognised row.name then
        let spec := (Text.partition (w.candidate_for row.lane row.name) ',').1
        let stem := if Text.starts spec "ds4:" then Text.after spec "ds4:" else spec
        some (.of row.name "queued" ("a ds4 model is fetched by hand: uv run python -m harness.ds4 " ++
          "fetch " ++ row.name ++ " " ++ stem ++ ".gguf") "limit" "" row.name)
      else none

def Wanted.repo (row : Wanted) : String :=
  if row.resolved = "" then row.name else row.resolved

def targetSize (row : Wanted) : Int :=
  firstSize [(w.sizes.lookup row.repo).getD 0, row.size_bytes] 0

/-- Why a row is not fetched now: the budget of this run, or its plan. -/
def refusal (s : Loop) (row : Wanted) : Option Passed :=
  let size := targetSize w row
  if overBudget w s.spent size then
    some (.of row.name "queued" (gib 1 size ++ " GiB would take this run past its " ++ budgetText w ++
      " GiB budget (" ++ gib 1 s.spent ++ " GiB already fetched)") "limit" "" row.repo)
  else
    let p := plan row.repo size (freeNow w s.starts)
    if ¬ p.ok then
      let outcome := if p.reason = "harness" ∨ p.reason = "machine" then "queued" else "declined"
      some (.of row.name outcome p.why p.reason p.untilText row.repo)
    else none

def Loop.pass (s : Loop) (passed : Passed) : Loop :=
  { s with decided := s.decided ++ [passed.decision], done := s.done ++ [passed.done] }

/-- A row whose download landed: it is paid for, and what it needs is fetched. -/
def landed (s : Loop) (row : Wanted) (start : Start) (path : String) : Loop :=
  let after := needs_of w
    { s with
      fetched := s.fetched + 1
      spent := s.spent + targetSize w row
      starts := s.starts ++ [start]
      decided := s.decided ++
        [{ name := row.name, outcome := "queued", tier := "fetch", detail := "downloaded"
           reason := "candidate" }] } row.repo
  { after with done := after.done ++ [⟨row.repo, true, path⟩] }

/-- The download of a row's own weights. -/
def targetStart (s : Loop) (row : Wanted) : Start :=
  startOf w s.starts row.repo true (canonical row.lane ∈ GGUF_SERVED)

/-- A turn of the loop over the queue; `limit` bounds downloads, not decisions. -/
def visit (s : Loop) (row : Wanted) : Option Loop :=
  if row.lane = "" then some s
  else match gate w row with
  | some passed => some (s.pass passed)
  | none =>
      if w.limit ≤ s.fetched then none
      else match refusal w s row with
      | some passed => some (s.pass passed)
      | none =>
          let start := targetStart w s row
          match start.ending with
          | .failed exc _ =>
              some { s with starts := s.starts ++ [start], done := s.done ++ [⟨row.repo, false, exc⟩] }
          | .landed path => some (landed w s row start path)

def waitTurn (s : Loop) (name : String) : Option Loop :=
  some (needs_of w s name)

def served : Loop :=
  walk (waitTurn w) {} (on_disk_waiting w)

/-- Fetch up to `limit` queued candidates, recording what happened. -/
def run : Loop :=
  walk (visit w) (served w) (w.queued (served w).starts)

end

end LocalHarness.Tiers.Fetching
