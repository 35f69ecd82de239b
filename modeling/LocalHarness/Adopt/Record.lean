import Mathlib.Data.List.Sort
import Mathlib.Data.NNRat.Defs
import LocalHarness.Adopt.Candidates
import LocalHarness.Adopt.Gates
import LocalHarness.Library.Runs
import LocalHarness.MemoryStore.Writes

/-! # Recording an adoption and resolving what a lane serves

`record` writes a verdict through the store's one writer and, when it adopts, an adoptions
row under that verdict; `current` resolves a lane to its newest row that this machine serves.
The world outside the store is an `Env`: the runners, the spellings of a lane's engines, and
what was measured of each candidate.
-/

namespace LocalHarness.Adopt

open LocalHarness.Library LocalHarness.Runs
open LocalHarness.MemoryStore (Store Proposal Decision)

/-- A row of `adoptions`. -/
structure Adoption where
  lane : String
  candidateId : Nat
  incumbentId : Option Nat
  runId : Option Nat
  verdictId : Nat
  machineId : Option Nat
  how : String
  adoptedAt : ℚ
  allMachines : Bool
  votes : Option Nat
  agreement : Option ℚ
  forced : Bool
  deriving DecidableEq

/-- The tables adoption reads and writes, this machine's row, and the clock. -/
structure State where
  store : Store
  candidates : Table Candidate
  adoptions : Table Adoption
  machine : Nat
  clock : ℚ

/-- What the queries of `fit` read of a candidate: its passing rows here with the largest
    peak among them, the largest peak anywhere with its machine, and its stored size. -/
structure Footprint where
  passedHere : Nat := 0
  peakHereKb : Nat := 0
  peak : Option (Nat × Nat) := none
  sizeBytes : Nat := 0

/-- What a call reads outside the tables of a `State`. `candidateFor` is none where it raises. -/
structure Env where
  keyOf : String → String
  candidateFor : String → String → Option String
  enforcesSchema : String → Bool
  footprint : Nat → Footprint
  ceilingGb : ℚ

def HOW : List String := [MEASURED, BY_HAND]

def REFERENCE_PREFIXES : List String := ["claude-code:", "cloud-"]

/-- A candidate that exists to measure local models against. -/
def isReference (candidate : String) : Bool :=
  REFERENCE_PREFIXES.any fun head => head.toList.isPrefixOf candidate.toList

def SCHEMA_LANES : List String := ["decide", "claims"]

/-- `reasons.REFUSED_BY_GATEWAY`. -/
def REFUSED_BY_GATEWAY : String := "refused_by_gateway"

/-- `reasons.CLASSES`: the outcome and the reason of each failure class. -/
def CLASSES : List (String × String × String) :=
  [("server_dead", "queued", "harness"), ("gpu_fault", "declined", "machine"),
   (REFUSED_BY_GATEWAY, "queued", "harness"), ("harness_error", "queued", "harness"),
   ("timeout", "declined", "limit"), ("token_budget_exhausted", "declined", "limit"),
   ("load_failed_runtime", "declined", "runtime"), ("load_failed_layout", "declined", "runtime"),
   ("backend_fault", "declined", "runtime"),
   ("missing_file_in_snapshot", "broken", "candidate"), ("crashed", "broken", "candidate"),
   ("content_failed", "broken", "candidate"), ("runaway", "broken", "candidate")]

/-- How a lane is named in the adoptions table. -/
def laneKey (lane : String) : String :=
  Text.lower (Text.strip lane)

inductive Error
  | held (why : String)
  | notASpec (spec : String)
  | noRow (spec : String)
  | verdict (e : MemoryStore.Error)
  | unknownHow (how : String)
  deriving DecidableEq

def Error.text : Error → String
  | .held why => why
  | .notASpec spec =>
      Text.quoted spec ++ " is not a spec any runner takes, so an adoption of it could never " ++
        "be served"
  | .noRow _ => "'NoneType' object is not subscriptable"
  | .verdict e => e.text
  | .unknownHow how => "unknown adoption kind " ++ Text.quoted how

/-- KiB in a GiB. -/
def GIB_KB : Nat := 1024 ^ 2

/-- What a candidate needs and where that is known from; none when it is not known. -/
def need (mark : Footprint) : Option (ℚ × String) :=
  match mark.peak with
  | some (kb, machine) =>
      let need := (kb : ℚ) / GIB_KB
      some (need, "measured peak " ++ Decimal.fixed 1 need ++ " GiB (machine " ++
        toString machine ++ ")")
  | none =>
      if mark.sizeBytes = 0 then none
      else
        let need := (mark.sizeBytes : ℚ) / 1024 ^ 3
        some (need, "stored size " ++ Decimal.fixed 1 need ++ " GiB")

/-- Whether a candidate fits this machine's memory ceiling, and the evidence. -/
def fit (env : Env) (cid : Nat) : Bool × String :=
  let mark := env.footprint cid
  if mark.passedHere ≠ 0 then
    (true, "ran here: " ++ toString mark.passedHere ++ " passing row(s), peak " ++
      Decimal.fixed 1 ((mark.peakHereKb : ℚ) / GIB_KB) ++ " GiB")
  else
    match need mark with
    | none => (true, "size unknown: no stored size or measured peak, so not checked")
    | some (need, source) =>
        if env.ceilingGb = 0 then
          (true, source ++ "; no memory ceiling recorded for this machine")
        else
          (need ≤ env.ceilingGb, source ++ " " ++
            (if need ≤ env.ceilingGb then "fits" else "is over") ++ " the " ++
              Decimal.fixed 1 env.ceilingGb ++ " GiB ceiling")

/-- A reference model is never a lane default. -/
def turnedDown (v : Verdict) (spec : String) : Verdict :=
  if isReference v.challenger || isReference spec then
    { lane := v.lane, incumbent := v.incumbent, challenger := v.challenger, adopt := false
      why := "reference model; never a lane default (" ++ v.why ++ ")", how := v.how }
  else v

/-- A schema lane's win on an engine that cannot enforce its schema is not adopted. -/
def schemaGuard (env : Env) (v : Verdict) (spec : String) : Verdict :=
  if v.adopt = false ∨ laneKey v.lane ∉ SCHEMA_LANES ∨ env.enforcesSchema spec then v
  else
    { lane := v.lane, incumbent := v.incumbent, challenger := v.challenger, adopt := false
      why := "not adopted: " ++ spec ++ " is not served by llama-server, so the " ++
        laneKey v.lane ++ " lane's response_format would be refused or silently dropped (" ++
        v.why ++ ")"
      how := v.how, failureClass := REFUSED_BY_GATEWAY, evidence := v.evidence }

/-- What ran: the spec given, else the challenger. -/
def specOf (v : Verdict) (spec : String) : String :=
  if spec = "" then v.challenger else spec

/-- The verdict that is recorded, once both guards have had their say. -/
def guarded (env : Env) (v : Verdict) (spec : String) : Verdict :=
  schemaGuard env (turnedDown v spec) (specOf v spec)

/-- The verdict the store is asked to write. -/
def asked (s : State) (v : Verdict) (name : String) (cid : Nat) (runId : Option Nat) : Decision :=
  let (outcome, reason) := (CLASSES.lookup v.failureClass).getD
    ("declined", if v.failureClass = UNDERPOWERED then "limit" else "candidate")
  { name
    outcome := if v.adopt then "measured" else outcome
    tier := MemoryStore.adopt
    detail := .ofList ((v.lane ++ ": " ++ v.why).toList.take 200)
    candidateId := some cid
    reason
    runId
    now := s.clock
    machineId := s.machine }

/-- What `record` does before it writes: the verdict as guarded, the candidate it is of and
    the decision to ask for. -/
def prepare (env : Env) (s : State) (v : Verdict) (spec : String) (runId : Option Nat) :
    Except Error (Verdict × Nat × Decision) × State :=
  if v.held ≠ "" then (.error (.held v.held), s)
  else
    let v := guarded env v spec
    let spec := specOf v spec
    let ensured := Candidates.ensure env.keyOf s.store s.candidates spec spec v.lane ""
    let s := { s with candidates := ensured.2 }
    match ensured.1 with
    | none => (.error (.notASpec spec), s)
    | some cid =>
        if v.adopt = true ∧ v.how = BY_HAND ∧ (fit env cid).1 = false then
          (.error (.held ("refused on this machine: " ++ spec ++ " " ++ (fit env cid).2)), s)
        else
          match Candidates.get s.store s.candidates spec with
          | none => (.error (.noRow spec), s)
          | some row =>
              let name := (Candidates.proposalName s.store row.2).getD ""
              (.ok (v, cid, asked s v name cid runId), s)

/-- The candidate row of what the lane served before, if it can be named. -/
def incumbentId (env : Env) (s : State) (lane name : String) : Option Nat × Table Candidate :=
  if name = "" then (none, s.candidates)
  else
    match Candidates.get s.store s.candidates name with
    | some row => (some row.1, s.candidates)
    | none =>
        match env.candidateFor lane name with
        | none => (none, s.candidates)
        | some spelled =>
            Candidates.ensure env.keyOf s.store s.candidates
              (if spelled = "" then name else spelled) "" lane ""

/-- An adoptions row stands on this verdict. -/
def Adopted (adoptions : Table Adoption) (vid : Nat) : Prop :=
  ∃ row ∈ adoptions.rows, row.2.verdictId = vid

instance (adoptions : Table Adoption) (vid : Nat) : Decidable (Adopted adoptions vid) :=
  inferInstanceAs (Decidable (∃ row ∈ adoptions.rows, row.2.verdictId = vid))

/-- `INSERT OR IGNORE INTO adoptions`, the verdict being unique. -/
def insertAdoption (adoptions : Table Adoption) (row : Adoption) : Table Adoption :=
  if Adopted adoptions row.verdictId then adoptions
  else adoptions.insert adoptions.nextId row adoptions.above_nextId

/-- The row that `serve` inserts. -/
def adoption (s : State) (v : Verdict) (cid : Nat) (inc runId : Option Nat) (vid : Nat) :
    Adoption where
  lane := laneKey v.lane
  candidateId := cid
  incumbentId := inc
  runId := runId
  verdictId := vid
  machineId := (s.store.verdicts.find? vid).map MemoryStore.Verdict.machineId
  how := v.how
  adoptedAt := s.clock
  allMachines := v.allMachines
  votes := v.votes
  agreement := v.agreement
  forced := v.forced

/-- The adoptions row of a verdict that adopts. -/
def serve (env : Env) (s : State) (v : Verdict) (cid : Nat) (runId : Option Nat) (vid : Nat) :
    Except Error Nat × State :=
  if v.how ∉ HOW then (.error (.unknownHow v.how), s)
  else
    let (inc, candidates) := incumbentId env s v.lane v.incumbent
    (.ok vid,
      { s with
        candidates
        adoptions := insertAdoption s.adoptions (adoption s v cid inc runId vid) })

/-- Write an adoption, or the loss, on the candidate that ran. -/
def record (env : Env) (s : State) (v : Verdict) (spec : String) (runId : Option Nat) :
    Except Error Nat × State :=
  match prepare env s v spec runId with
  | (.error e, s) => (.error e, s)
  | (.ok (v, cid, decision), s) =>
      match MemoryStore.decide s.store decision with
      | (.error e, store) => (.error (.verdict e), { s with store })
      | (.ok vid, store) =>
          if v.adopt then serve env { s with store } v cid runId vid
          else (.ok vid, { s with store })

/-- An adoptions row joined to the candidate it names. -/
structure Served where
  id : Nat
  row : Adoption
  spec : String
  deriving DecidableEq

namespace Served

/-- `ORDER BY adopted_at, id`. -/
def Before (a b : Served) : Prop :=
  a.row.adoptedAt < b.row.adoptedAt ∨ (a.row.adoptedAt = b.row.adoptedAt ∧ a.id ≤ b.id)

instance : DecidableRel Before := fun a b =>
  inferInstanceAs (Decidable (a.row.adoptedAt < b.row.adoptedAt ∨
    (a.row.adoptedAt = b.row.adoptedAt ∧ a.id ≤ b.id)))

end Served

/-- A row that this machine may serve, with its candidate's spec. -/
def servedHere (candidates : Table Candidate) (machine : Nat) (row : Nat × Adoption) :
    Option Served :=
  if row.2.allMachines || row.2.machineId.isNone || row.2.machineId == some machine then
    (candidates.find? row.2.candidateId).map fun candidate =>
      { id := row.1, row := row.2, spec := candidate.spec }
  else none

def rowsHere (s : State) : List Served :=
  s.adoptions.rows.filterMap (servedHere s.candidates s.machine)

/-- What each lane serves, and the newer by-hand row of a lane that does not fit here. -/
structure Resolved where
  out : String → Option Served
  refused : String → Option (Served × String)

namespace Resolved

/-- One row of the loop in `_resolve`. -/
def read (env : Env) (got : Resolved) (served : Served) : Resolved :=
  if isReference served.spec then got
  else if served.row.how = BY_HAND ∧ (fit env served.row.candidateId).1 = false then
    { got with
      refused := Function.update got.refused served.row.lane
        (some (served, (fit env served.row.candidateId).2)) }
  else
    { out := Function.update got.out served.row.lane (some served)
      refused := Function.update got.refused served.row.lane none }

end Resolved

def resolve (env : Env) (s : State) : Resolved :=
  ((rowsHere s).insertionSort Served.Before).foldl (Resolved.read env)
    { out := fun _ => none, refused := fun _ => none }

/-- The adoptions row each lane serves on this machine. -/
def current (env : Env) (s : State) : String → Option Served :=
  (resolve env s).out

end LocalHarness.Adopt
