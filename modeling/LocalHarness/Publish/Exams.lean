import LocalHarness.Adopt.Ranking
import LocalHarness.Adopt.Record
import LocalHarness.Evals.Receipt
import LocalHarness.Library.Groups

/-! # The exam tables of a published page

A machine's runs of a lane are put into tables whose runs are comparable, and a candidate's row
in a table is that of its latest run there. What is compared is not quite the stored receipt:
the engines that served a run and the sampling of other lanes are left out of it.
-/

namespace LocalHarness.Publish

open LocalHarness.Library Evals

/-- A stored result row, in the columns a table is made from. -/
structure Result where
  caseId : String
  candidate : String
  passed : Bool
  seconds : ℚ := 0
  failureClass : String := ""

/-- A stored run. Its receipt is missing where the text does not parse. -/
structure Run where
  id : Nat
  lane : String
  tier : String := "measure"
  machineId : Option Nat
  generatedAt : Option ℚ
  repeatCount : Int := 1
  receipt : Option Raw

structure Store where
  runs : List Run
  /-- The rows of a run in the order they ran. -/
  rows : Nat → List Result
  once : (runs.map Run.id).Nodup

/-- When a run was made, and of runs made at one time which was stored first. -/
def Run.age (run : Run) : ℚ ×ₗ Nat :=
  toLex (run.generatedAt.getD 0, run.id)

/-- Stored runs, newest first by the time the receipt says it ran. -/
def find (store : Store) (mid : Nat) (lane : String) : List Run :=
  (store.runs.filter fun run =>
    (lane = "" || run.lane = lane) && run.tier = "measure" && run.machineId = some mid).insertionSort
      fun a b => b.age ≤ a.age

/-! ## A candidate's row -/

/-- The classes that mean the request never reached a model. -/
def NEVER_RAN : List String := ["server_dead", "refused_by_gateway", "harness_error"]

structure Summary where
  total : Nat
  passed : Nat
  passRate : ℚ
  medianS : ℚ
  failureClasses : List String

def summary (rows : List Result) : Summary where
  total := rows.length
  passed := rows.countP Result.passed
  passRate := Decimal.rounded 3 (rows.countP Result.passed / rows.length)
  medianS := Decimal.rounded 3 (Adopt.median (rows.map Result.seconds))
  failureClasses := (rows.filter fun row => !row.passed && row.failureClass ≠ "").map Result.failureClass

/-- The candidates of a run in the order they first ran, each with its summary. -/
def summarize (rows : List Result) : List (String × Summary) :=
  (Groups.firsts id (rows.map Result.candidate)).map fun name =>
    (name, summary (rows.filter fun row => row.candidate = name))

/-- The class that kept every case from reaching the candidate, or none if any ran. -/
def notRun (s : Summary) : String :=
  let count := fun cls => s.failureClasses.count cls
  if s.total = 0 ∨ s.passed ≠ 0 then ""
  else if (NEVER_RAN.map count).sum ≠ s.total then ""
  else
    (NEVER_RAN.foldl
      (fun (best : String × Int) cls => if best.2 < count cls then (cls, (count cls : Int)) else best)
      ("", -1)).1

structure Row where
  candidate : String
  reference : Bool
  notRun : String
  passed : Option Nat
  total : Nat
  passRate : Option ℚ
  medianS : Option ℚ
  runAt : Option ℚ
  deriving DecidableEq

def row (key : String) (s : Summary) (runAt : Option ℚ) : Row :=
  let why := notRun s
  { candidate := key
    reference := Adopt.isReference key
    notRun := why
    passed := if why ≠ "" then none else some s.passed
    total := s.total
    passRate := if why ≠ "" then none else some s.passRate
    medianS := if why ≠ "" then none else some s.medianS
    runAt := runAt }

def rank (r : Row) : Bool ×ₗ Bool ×ₗ ℚ ×ₗ ℚ :=
  toLex (r.reference, toLex (r.notRun ≠ "", toLex (-r.passRate.getD 0, r.medianS.getD 0)))

/-! ## The tables -/

section

variable (settings : String → Dict Scalar) (store : Store)

/-- A stored run's receipt for `comparable`. -/
def examReceipt (run : Run) : Receipt :=
  let raw := run.receipt.getD {}
  let lane := orText raw.modality run.lane
  let ids := raw.case_ids.getD []
  let sampling := raw.sampling.getD ∅
  let read := Receipt.from_dict settings { raw with modality := some lane }
  { modality := lane
    case_ids := if ids ≠ [] then ids
      else ((store.rows run.id).map Result.caseId).dedup.insertionSort (· ≤ ·)
    repeat_ := orNumber raw.repeat_ (orNumber (some run.repeatCount) 1)
    sampling := match sampling.lookup lane with
      | some own => Finmap.singleton lane own
      | none => sampling
    adherence := raw.adherence.getD ""
    tier := orText raw.tier (orText (some run.tier) "measure")
    accelerator := raw.accelerator.getD ""
    instruments := (raw.instruments.getD ∅).erase "serving"
    where_ := raw.where_.getD ""
    cases_digest := raw.cases_digest.getD ""
    split := raw.split.getD ""
    split_version := raw.split_version.getD ""
    devices := raw.devices.getD ∅
    launch := raw.launch.getD ∅
    max_tokens := (read.map Receipt.max_tokens).getD 0
    knobs := (read.map Receipt.knobs).getD ∅
    router_swaps := raw.router_swaps.getD ∅ }

/-- The runs that can be ranked, each with the receipt it is compared by. -/
def ranked (mid : Nat) (lane : String) : List (Run × Receipt) :=
  ((find store mid lane).map fun run => (run, examReceipt settings store run)).filter fun item =>
    (contaminated item.2).isNone

def same (a b : Run × Receipt) : Bool :=
  a.1.machineId = b.1.machineId && (comparable a.2 b.2).isNone

/-- Newest-first items into groups whose members are all `same` as each other. -/
def mutualGroups (items : List (Run × Receipt)) : List (List (Run × Receipt)) :=
  Groups.grouped same items

structure Exam where
  cases : Nat
  repeat_ : Int
  runs : Nat
  runAt : Option ℚ
  firstRunAt : Option ℚ
  rows : List Row

/-- The rows of a run's candidates. -/
def entries (item : Run × Receipt) : List Row :=
  (summarize (store.rows item.1.id)).map fun (key, s) => row key s item.1.generatedAt

def exam (group : List (Run × Receipt)) : Exam :=
  let ids := (group.head?.map fun item => item.2.case_ids).getD []
  let cases := (ids.map Adopt.baseId).dedup.length
  { cases := cases
    repeat_ := max 1 (Decimal.roundHalfEven (ids.length / max cases 1))
    runs := group.length
    runAt := group.head?.bind fun item => item.1.generatedAt
    firstRunAt := group.getLast?.bind fun item => item.1.generatedAt
    rows := (Groups.firsts Row.candidate (group.flatMap (entries store))).insertionSort
      fun a b => rank a ≤ rank b }

/-- Every candidate's latest row per comparable exam on one machine, newest exam first. -/
def exams (mid : Nat) (lane : String) : List Exam :=
  (mutualGroups (ranked settings store mid lane)).map (exam store)

end

end LocalHarness.Publish
