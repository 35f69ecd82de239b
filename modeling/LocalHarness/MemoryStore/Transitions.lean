import LocalHarness.MemoryStore.Schema

/-! # Proposal state and the one writer that moves it

The transition table, the writer that inserts a verdict and swaps the state under
it, and `decide` over both. A refused write keeps the store it was given, so every
operation returns the store beside its result.
-/

namespace LocalHarness.MemoryStore

open LocalHarness.Library

/-- Why the transition table refuses a move. -/
inductive Refusal
  | notAReopen (reopen : String)
  | cannotReopen (reopen : String) (state : Option Outcome)
  | wouldReopen (outcome : Outcome) (tier : String) (state : Outcome) (heldTier : String)
  | comesBefore (tier heldTier : String) (outcome state : Outcome)
  deriving DecidableEq

inductive Error
  | unknownOutcome (outcome : String)
  | unknownReason (reason : String)
  | notAPath (runPath : String)
  | noProposal (name : String)
  | mustSayWhy (name reopen : String)
  | illegalTransition (name : String) (refusal : Refusal)
  | keptMoving (name : String)
  deriving DecidableEq

/-- `text or other`. -/
def orElse (text other : String) : String :=
  if text = "" then other else text

def Refusal.text : Refusal → String
  | .notAReopen reopen =>
      Text.quoted reopen ++ " is not a reopen; known: retraction, retest"
  | .cannotReopen reopen state =>
      "a " ++ reopen ++ " cannot reopen " ++ (state.map Outcome.text).getD "nothing"
  | .wouldReopen outcome tier state heldTier =>
      outcome.text ++ " at " ++ orElse tier "-" ++ " would reopen " ++ state.text ++ " at " ++
        orElse heldTier "-" ++ "; only a named reopen does that"
  | .comesBefore tier heldTier outcome state =>
      orElse tier "-" ++ " comes before " ++ heldTier ++ " on the ladder, so its " ++
        outcome.text ++ " cannot replace " ++ state.text

/-- `REASONS`, by its keys. -/
def reasons : List String :=
  ["candidate", "harness", "runtime", "machine", "memory", "limit", "upstream", "reopened"]

def Error.text : Error → String
  | .unknownOutcome outcome =>
      "unknown outcome " ++ Text.quoted outcome ++ "; known: " ++
        String.intercalate ", " (Outcome.all.map Outcome.text)
  | .unknownReason reason =>
      "unknown reason " ++ Text.quoted reason ++ "; known: " ++ String.intercalate ", " reasons
  | .notAPath runPath =>
      "run_path " ++ Text.quoted runPath ++ " is not a path. It names the run whose receipt " ++
        "backs this verdict, and a verdict whose evidence cannot be found again cannot be " ++
        "re-judged."
  | .noProposal name => "no proposal named " ++ Text.quoted name
  | .mustSayWhy name reopen => name ++ ": a " ++ reopen ++ " must say why"
  | .illegalTransition name refusal => name ++ ": " ++ refusal.text
  | .keptMoving name => name ++ ": the state kept moving under this write"

/-- `if why:` tests the text of a refusal, and no refusal has an empty one. -/
theorem Refusal.text_ne_empty (refusal : Refusal) : refusal.text ≠ "" := by
  intro empty
  have nothing := congrArg String.toList empty
  cases refusal <;> simp [Refusal.text] at nothing

def retraction : String := "retraction"

def retest : String := "retest"

/-- `REOPENS`: the states a named reopen may reopen; `none` is a kind it does not name. -/
def reopens (kind : String) : Option (Option Outcome → Bool) :=
  if kind = retraction then some fun _ => true
  else if kind = retest then some fun state => state == some .broken || state == some .declined
  else none

def retestAfterSeconds : ℚ := 7 * 86400

/-- `RETESTS`. -/
def retests : Nat := 3

/-- Tiers whose rejection can be the harness's fault. -/
def retestTiers : List String :=
  [screen, measure, adopt]

/-- A rejection a retest may reopen; one waiting on `untilText` reopens through it. -/
def retestEligible (state : Option Outcome) (tier untilText : String) : Bool :=
  (state == some .broken || state == some .declined) && tier ∈ retestTiers &&
    Text.blank untilText

/-- Why `tier` may not move `state` to `outcome`, or `none` if it may. -/
def transitionRefused (state : Option Outcome) (heldTier : String) (outcome : Outcome)
    (tier reopen : String) : Option Refusal :=
  if reopen ≠ "" then
    match reopens reopen with
    | none => some (.notAReopen reopen)
    | some allowed => if allowed state then none else some (.cannotReopen reopen state)
  else
    match state with
    | none => none
    | some state =>
        if state = .queued then none
        else if state ∈ terminal ∧ outcome ∈ waypoints then
          some (.wouldReopen outcome tier state heldTier)
        else if ladder tier < ladder heldTier then
          some (.comesBefore tier heldTier outcome state)
        else none

/-- What the transition table sees of a verdict: its outcome, its tier and its reopen. -/
structure Event where
  outcome : Outcome
  tier : String
  reopen : String
  deriving DecidableEq

/-- The state and the tier that decided it. -/
abbrev Standing := Option Outcome × String

def Event.refused (standing : Standing) (e : Event) : Option Refusal :=
  transitionRefused standing.1 standing.2 e.outcome e.tier e.reopen

/-- The state and tier after the events, refused ones skipped. -/
def fold (events : List Event) : Standing :=
  events.foldl (fun standing e =>
    if (e.refused standing).isNone then (some e.outcome, e.tier) else standing) (none, "")

/-- What `_held` reads: the state columns joined to the verdict they name. -/
structure Held where
  state : Option Outcome
  id : Option Nat
  verdict : Option Verdict
  deriving DecidableEq

namespace Held

/-- `held["id"] or 0`. -/
def key (held : Held) : Nat :=
  held.id.getD 0

/-- `held["tier"] or ""`. -/
def tier (held : Held) : String :=
  (held.verdict.map Verdict.tier).getD ""

def standing (held : Held) : Standing :=
  (held.state, held.tier)

/-- A deterministic tier restating its state, which is not a second fact. -/
def restated (held : Held) (row : Verdict) (reopen : String) : Bool :=
  held.key != 0 && reopen == "" && row.bare && held.verdict.any fun verdict =>
    verdict.tier == row.tier && verdict.outcome == row.outcome &&
      verdict.detail == row.detail && verdict.bare

end Held

namespace Store

def held (s : Store) (pid : Nat) : Option Held :=
  (s.proposals.find? pid).map fun p =>
    { state := p.state, id := p.stateVerdictId
      verdict := p.stateVerdictId.bind s.verdicts.find? }

def insertVerdict (s : Store) (vid : Nat) (row : Verdict) (above : s.verdicts.Above vid) : Store :=
  { s with verdicts := s.verdicts.insert vid row above }

def deleteVerdict (s : Store) (vid : Nat) : Store :=
  { s with verdicts := s.verdicts.delete vid }

/-- `UPDATE proposals … AND COALESCE(state_verdict_id, 0) = held`: none when no row moved. -/
def swap (s : Store) (pid vid : Nat) (outcome : Outcome) (held : Nat) : Option Store :=
  match s.proposals.find? pid with
  | some p =>
      if p.held = held then
        some (s.updateProposal pid fun p =>
          { p with state := some outcome, stateVerdictId := some vid })
      else none
  | none => none

end Store

/-- When a verdict just written falls due for a retest, `spent` retests into the proposal. -/
def dueAt (row : Verdict) (spent : Nat) : Option ℚ :=
  if retestEligible (some row.outcome) row.tier row.untilText && spent < retests then
    some (row.decidedAt + retestAfterSeconds)
  else none

/-- The retest columns in step with the state just written. -/
def rescheduled (row : Verdict) (reopen : String) (p : Proposal) : Proposal :=
  if reopen = retest then { p with retestCount := p.retestCount + 1, nextRetestAt := none }
  else { p with nextRetestAt := dueAt row p.retestCount }

/-- Keep the retest columns in step with the state just written. -/
def scheduleRetest (s : Store) (pid : Nat) (row : Verdict) (reopen : String) : Store :=
  s.updateProposal pid (rescheduled row reopen)

/-- The columns of the verdict `_write` inserts. -/
def columns (pid : Nat) (row : Verdict) (reopen : String) (held : Held) : Verdict :=
  { row with
    proposalId := some pid
    reopens := if reopen ≠ "" then held.id else none
    reopenKind := if reopen ≠ "" then reopen else "" }

/-- The attempts of `_write`, each against the state it reads afresh. -/
def attempts (pid : Nat) (name : String) (row : Verdict) (reopen : String) :
    Nat → Store → Except Error Nat × Store
  | 0, s => (.error (.keptMoving name), s)
  | left + 1, s =>
      match s.held pid with
      | none => (.error (.noProposal name), s)
      | some held =>
          if held.restated row reopen then (.ok held.key, s)
          else
            match transitionRefused held.state held.tier row.outcome row.tier reopen with
            | some refusal => (.error (.illegalTransition name refusal), s)
            | none =>
                let vid := s.verdicts.nextId
                let inserted := s.insertVerdict vid (columns pid row reopen held)
                  s.verdicts.above_nextId
                match inserted.swap pid vid row.outcome held.key with
                | some moved => (.ok vid, scheduleRetest moved pid row reopen)
                | none => attempts pid name row reopen left (inserted.deleteVerdict vid)

/-- Insert one verdict and move the proposal's state, or refuse. -/
def write (s : Store) (pid : Nat) (name : String) (row : Verdict) (reopen why : String) :
    Except Error Nat × Store :=
  if reopen ≠ "" ∧ Text.blank why then (.error (.mustSayWhy name reopen), s)
  else attempts pid name row reopen 8 s

/-- The arguments of `decide` that a reader of the state machine uses. `now` is the clock,
    for where `at` is not given, and `machineId` the row of the machine that asks. -/
structure Decision where
  name : String
  outcome : String
  tier : String := ""
  detail : String := ""
  runPath : String := ""
  score : Option ℚ := none
  at? : Option ℚ := none
  untilText : String := ""
  candidateId : Option Nat := none
  reopen : String := ""
  reopenWhy : String := ""
  reason : String := ""
  runId : Option Nat := none
  now : ℚ := 0
  machineId : Nat := 1
  deriving DecidableEq

namespace Decision

/-- A named reopen is recorded as one, whatever reason the caller gave. -/
def recordedReason (d : Decision) : String :=
  if d.reopen ≠ "" then "reopened" else d.reason

def fields (d : Decision) (outcome : Outcome) : Verdict where
  outcome := outcome
  tier := d.tier
  detail := d.detail
  runPath := d.runPath
  score := d.score
  decidedAt := d.at?.getD d.now
  machineId := d.machineId
  untilText := d.untilText
  candidateId := d.candidateId
  runId := d.runId
  reason := d.recordedReason
  proposalId := none
  reopens := none
  reopenKind := ""

/-- The latest verdict of the candidate, when it says what this call says. -/
def restates (d : Decision) (outcome : Outcome) (s : Store) : Option Nat :=
  (s.verdicts.rows.reverse.find? fun row => row.2.candidateId == d.candidateId).bind fun row =>
    if row.2.tier = d.tier ∧ row.2.outcome = outcome ∧ row.2.detail = d.detail ∧ row.2.bare then
      some row.1
    else none

end Decision

/-- A path is absolute or has a separator in it. -/
def isPath (text : String) : Bool :=
  text.toList.any fun c => c == '/' || c == '\\'

/-- Record what happened to a proposal, and move its state. -/
def decide (s : Store) (d : Decision) : Except Error Nat × Store :=
  match Outcome.ofText? d.outcome with
  | none => (.error (.unknownOutcome d.outcome), s)
  | some outcome =>
      if d.recordedReason ≠ "" ∧ d.recordedReason ∉ reasons then
        (.error (.unknownReason d.recordedReason), s)
      else if d.runPath ≠ "" ∧ ¬ isPath d.runPath then (.error (.notAPath d.runPath), s)
      else
        match s.named d.name with
        | some pid => write s pid d.name (d.fields outcome) d.reopen d.reopenWhy
        | none =>
            if d.candidateId.getD 0 = 0 ∨ d.name ≠ "" then (.error (.noProposal d.name), s)
            else
              -- A candidate no proposal names has no state to compare with.
              match if (d.fields outcome).bare then d.restates outcome s else none with
              | some vid => (.ok vid, s)
              | none =>
                  (.ok s.verdicts.nextId,
                    s.insertVerdict s.verdicts.nextId (d.fields outcome) s.verdicts.above_nextId)

/-- The decision `retract` makes of its arguments. -/
def retracting (name why outcome tier untilText : String) (now : ℚ) : Decision where
  name := name
  outcome := outcome
  tier := tier
  untilText := untilText
  detail := if why.startsWith "retracted:" then why else "retracted: " ++ why
  reopen := retraction
  reopenWhy := why
  now := now

/-- Reopen or reclassify a decided name, saying why. -/
def retract (s : Store) (name why outcome tier untilText : String) (now : ℚ) :
    Except Error Nat × Store :=
  decide s (retracting name why outcome tier untilText now)

end LocalHarness.MemoryStore
