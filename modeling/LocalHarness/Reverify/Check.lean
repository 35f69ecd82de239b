import LocalHarness.Library.Asked
import LocalHarness.Tiers.FetchRun
import LocalHarness.WorkQueue.Jobs

/-! # Running a served model again

A pass settles the re-runs whose jobs have ended and queues one for each lane that something fired for. Of a lane
and a candidate one re-run is open at a time, and one that was flagged waits for a person for the lane's days.
-/

namespace LocalHarness.Reverify

open LocalHarness.Library
open LocalHarness.WorkQueue (JobState)

inductive Outcome
  | passed
  | failed
  | regressed
  | cancelled
  | unrun
  deriving DecidableEq

def Outcome.text : Outcome → String
  | passed => "passed"
  | failed => "failed"
  | regressed => "regressed"
  | cancelled => "cancelled"
  | unrun => "unrun"

def FLAGGED : List Outcome := [.failed, .regressed, .unrun]

def REQUESTED_BY : String := "reverify"

/-- Below the default, so anything a person queued runs first. -/
def PRIORITY : Int := -10

def DAY : ℚ := 86400

/-- What a trigger is, and why it fired. -/
abbrev Trigger := String × String

/-- What a lane serves here, with any incumbent to re-run beside it. -/
structure Item where
  lane : String
  spec : String
  candidateId : Option Nat
  incumbent : String

/-- A row of `reverifications`. The outcome is none until it is settled. -/
structure Rerun where
  lane : String
  candidateId : Option Nat
  spec : String
  incumbent : String
  triggers : List Trigger
  jobId : Option Nat
  baselineRunId : Option Nat
  machineId : Option Nat
  queuedAt : ℚ
  outcome : Option Outcome := none
  reason : String := ""
  failureClass : String := ""
  detail : String := ""
  runId : Option Nat := none
  settledAt : Option ℚ := none
  deriving DecidableEq

/-- What `judge` answers. -/
structure Judged where
  outcome : Outcome
  reason : String
  failureClass : String
  detail : String
  runId : Option Nat

/-- What a pass reads of the store, and how the queue answers: nothing is assumed of it but that a lane serves one
thing. -/
structure World where
  now : ℚ
  days : String → ℚ
  served : List Item
  lanes : (served.map Item.lane).Nodup
  triggers : List Rerun → Item → List Trigger
  baseline : List Rerun → Item → Option Nat
  job : Nat → Option JobState
  judge : Rerun → Option JobState → Judged
  route : String → String
  repo : String
  machine : Option Nat
  add : WorkQueue.JobStore.Request → Nat

section

variable (w : World) (rows : List Rerun) (item : Item)

/-- `_latest`, settled or not. -/
def latest (lane : String) (candidateId : Option Nat) : Option Rerun :=
  (rows.filter fun r => (r.lane, r.candidateId) = (lane, candidateId)).getLast?

/-- `_skip`: why nothing is queued for an item, or nothing. -/
def skip (found : List Trigger) : String :=
  let last := latest rows item.lane item.candidateId
  let queued := last.bind fun r =>
    if r.outcome = none then
      some ("already queued as job " ++ ((r.jobId.filter (· ≠ 0)).map toString).getD "(gone)")
    else none
  let flagged := last.bind fun r => r.outcome.bind fun outcome =>
    if outcome ∈ FLAGGED ∧ w.now - r.settledAt.getD 0 < w.days item.lane * DAY then
      some ("flagged " ++ outcome.text ++ ": " ++ r.detail ++ "; waiting for a person")
    else none
  queued.getD (if found = [] then "nothing moved" else flagged.getD "")

/-- The command of a job; `route` is the gateway's address where a spec is reached through it. -/
def argv (route : String → String) (item : Item) : List String :=
  let specs := item.spec :: if item.incumbent ≠ "" then [item.incumbent] else []
  let route := route item.spec
  ["uv", "run", "python", "-m", "evals.run", "--modality", item.lane, "--candidates", String.intercalate "," specs] ++
    if route ≠ "" then ["--gateway", route] else []

structure Planned where
  item : Item
  triggers : List Trigger
  skip : String
  baselineRunId : Option Nat
  argv : List String

/-- `plan`, of one lane or of all. -/
def plan (lane : String) : List Planned :=
  let want := Tiers.Fetching.canonical lane
  (w.served.filter fun item => want = "" ∨ item.lane = want).map fun item =>
    let found := w.triggers rows item
    { item, triggers := found, skip := skip w rows item found, baselineRunId := w.baseline rows item
      argv := argv w.route item }

def request (entry : Planned) : WorkQueue.JobStore.Request where
  argv := entry.argv
  title := "reverify " ++ entry.item.lane ++ ": " ++ entry.item.spec
  cwd := w.repo
  priority := PRIORITY
  requestedBy := REQUESTED_BY
  now := w.now

/-- `_queue` -/
def queue (entry : Planned) : Rerun where
  lane := entry.item.lane
  candidateId := entry.item.candidateId
  spec := entry.item.spec
  incumbent := entry.item.incumbent
  triggers := entry.triggers
  jobId := some (w.add (request w entry))
  baselineRunId := entry.baselineRunId
  machineId := w.machine
  queuedAt := w.now

/-- What becomes of one row: an open one is judged when its job no longer waits or runs. -/
def settleOne (r : Rerun) : Rerun :=
  let job := r.jobId.bind w.job
  if r.outcome ≠ none ∨ job = some .pending ∨ job = some .running then r
  else
    let got := w.judge r job
    { r with
      outcome := some got.outcome
      reason := got.reason
      failureClass := got.failureClass
      detail := .ofList (got.detail.toList.take 300)
      runId := got.runId
      settledAt := some w.now }

def settle : List Rerun :=
  rows.map (settleOne w)

/-- `check`: the table after a pass. A dry one writes nothing. -/
def check (lane : String) (dry_run : Bool) : List Rerun :=
  if dry_run then rows
  else
    let settled := settle w rows
    settled ++ ((plan w settled lane).filter fun entry => entry.triggers ≠ [] ∧ entry.skip = "").map (queue w)

end

/-! ## Runs of passes -/

/-- A pass, or a job that is deleted, which takes its id from the rows that name it. -/
inductive Event
  | check (w : World) (lane : String) (dry_run : Bool)
  | deleted (job : Nat)

def forget (job : Nat) (r : Rerun) : Rerun :=
  if r.jobId = some job then { r with jobId := none } else r

def step (rows : List Rerun) : Event → List Rerun
  | .check w lane dry_run => check w rows lane dry_run
  | .deleted job => rows.map (forget job)

def run (events : List Event) : List Rerun :=
  events.foldl step []

/-- The ledger of a lane's and a candidate's re-runs; `least` are days that every lane waits, where there are. -/
def reruns (least : Option ℚ) : Asked Rerun (String × Option Nat) where
  kind r := (r.lane, r.candidateId)
  settled r := r.outcome.isSome
  free a b := b.triggers ≠ [] ∧ ∀ days ∈ least, ∀ outcome ∈ FLAGGED, a.outcome = some outcome →
    a.settledAt.getD 0 + days * DAY ≤ b.queuedAt

/-- Every lane waits for at least these days in the pass. -/
def Event.Waits (least : Option ℚ) : Event → Prop
  | .check w _ _ => ∀ days ∈ least, ∀ lane, days ≤ w.days lane
  | .deleted _ => True

section

variable {w : World} {rows : List Rerun} {item : Item} {found : List Trigger} {least : Option ℚ}

theorem settles_settle : (reruns least).Settles (settleOne w) where
  kind r := by
    unfold settleOne
    dsimp only
    split <;> rfl
  settled r done := by
    have kept : settleOne w r = r := if_pos (.inl (by rintro none_; simp [reruns, none_] at done))
    rw [kept]
    exact done
  before a b done free := by
    have kept : settleOne w a = a := if_pos (.inl (by rintro none_; simp [reruns, none_] at done))
    rw [kept]
    exact free
  after a b free := by
    unfold settleOne
    dsimp only
    split <;> exact free

theorem settles_forget (job : Nat) : (reruns least).Settles (forget job) where
  kind r := by unfold forget; split <;> rfl
  settled r done := by unfold forget; split <;> exact done
  before a b done free := by unfold forget; split <;> exact free
  after a b free := by unfold forget; split <;> exact free

theorem append_ne_empty {s : String} (t : String) (some_ : s.toList ≠ []) : s ++ t ≠ "" := by
  intro empty
  have nothing := congrArg String.toList empty
  rw [String.toList_append, String.toList_empty, List.append_eq_nil_iff] at nothing
  exact some_ nothing.1

/-- Where nothing is said against it, something fired, and the newest re-run is settled and its days are over. -/
theorem free_of_skip (fired : found ≠ []) (clear : skip w rows item found = "") {a : Rerun}
    (newest : latest rows item.lane item.candidateId = some a) :
    a.outcome.isSome = true ∧ ∀ outcome ∈ FLAGGED, a.outcome = some outcome →
      a.settledAt.getD 0 + w.days item.lane * DAY ≤ w.now := by
  simp only [skip, newest, Option.bind_some, if_neg fired] at clear
  cases settled : a.outcome with
  | none =>
      rw [settled, if_pos rfl, Option.getD_some] at clear
      exact absurd clear (append_ne_empty _ (by decide))
  | some outcome =>
      refine ⟨rfl, fun _ flagged same => ?_⟩
      obtain rfl := Option.some.inj same
      rw [settled, if_neg (by rintro ⟨⟩), Option.getD_none, Option.bind_some] at clear
      by_contra early
      have young : w.now - a.settledAt.getD 0 < w.days item.lane * DAY := by linarith
      rw [if_pos ⟨flagged, young⟩, Option.getD_some] at clear
      simp only [String.append_assoc] at clear
      exact append_ne_empty _ (by decide) clear

theorem mem_plan {lane : String} {entry : Planned} (member : entry ∈ plan w rows lane) :
    entry.item ∈ w.served ∧ entry.skip = skip w rows entry.item entry.triggers := by
  obtain ⟨item, inside, rfl⟩ := List.mem_map.mp member
  exact ⟨(List.mem_filter.mp inside).1, rfl⟩

/-- The re-runs of a pass are of different lanes. -/
theorem distinct_planned (lane : String) (p : Planned → Bool) :
    ((((plan w rows lane).filter p).map (queue w)).map (reruns least).kind).Nodup := by
  have lanes : ((plan w rows lane).map fun entry => entry.item.lane).Nodup := by
    rw [plan, List.map_map]
    exact w.lanes.sublist (List.Sublist.map Item.lane List.filter_sublist)
  refine List.Nodup.of_map Prod.fst ?_
  rw [List.map_map, List.map_map]
  exact lanes.sublist (List.Sublist.map _ List.filter_sublist)

theorem orderly_check {lane : String} {dry_run : Bool} (waits : ∀ days ∈ least, ∀ lane, days ≤ w.days lane)
    (orderly : (reruns least).Orderly rows) : (reruns least).Orderly (check w rows lane dry_run) := by
  unfold check
  split
  next => exact orderly
  next =>
    refine (orderly.settle settles_settle).ask_all (distinct_planned lane _) fun b asked a newest => ?_
    obtain ⟨entry, chosen, rfl⟩ := List.mem_map.mp asked
    obtain ⟨planned, open_⟩ := List.mem_filter.mp chosen
    obtain ⟨fired, clear⟩ := of_decide_eq_true open_
    rw [(mem_plan planned).2] at clear
    obtain ⟨settled, past⟩ := free_of_skip fired clear newest
    refine ⟨settled, fired, fun days given outcome flagged same => ?_⟩
    have fewer : days * DAY ≤ w.days entry.item.lane * DAY :=
      mul_le_mul_of_nonneg_right (waits days given entry.item.lane) (by norm_num [DAY])
    change a.settledAt.getD 0 + days * DAY ≤ w.now
    linarith [past outcome flagged same]

theorem orderly_step {event : Event} (waits : event.Waits least) (orderly : (reruns least).Orderly rows) :
    (reruns least).Orderly (step rows event) := by
  cases event with
  | check w lane dry_run => exact orderly_check waits orderly
  | deleted job => exact orderly.settle (settles_forget job)

theorem orderly_run {events : List Event} (waits : ∀ event ∈ events, event.Waits least) :
    (reruns least).Orderly (run events) := by
  unfold run
  induction events using List.reverseRecOn with
  | nil => exact Asked.orderly_nil
  | append_singleton earlier event ih =>
      rw [List.foldl_concat]
      exact orderly_step (waits event (by simp)) (ih fun e member => waits e (List.mem_append_left _ member))

end

/-- Whatever the passes read and whatever jobs are deleted between them, of a lane and a candidate at most one
re-run is open. -/
theorem one_open (events : List Event) (lane : String) (candidateId : Option Nat) :
    ((run events).countP fun r => (r.lane, r.candidateId) = (lane, candidateId) && !r.outcome.isSome) ≤ 1 := by
  have waits : ∀ event ∈ events, event.Waits none := by
    intro event _
    cases event with
    | check w lane dry_run => exact fun days given => by cases given
    | deleted job => trivial
  exact (orderly_run waits).open_once (lane, candidateId)

/-- Where a lane's days are never fewer than `least`, a re-run after one that was flagged was queued no sooner
than that many days after it was settled, and for something that fired. -/
theorem flagged_waits (least : ℚ) (events : List Event) (waits : ∀ event ∈ events, event.Waits (some least))
    (front back : List Rerun) (b : Rerun) (shape : run events = front ++ b :: back) (a : Rerun)
    (newest : latest front b.lane b.candidateId = some a) :
    a.outcome.isSome = true ∧ b.triggers ≠ [] ∧
      ∀ outcome ∈ FLAGGED, a.outcome = some outcome → a.settledAt.getD 0 + least * DAY ≤ b.queuedAt := by
  obtain ⟨settled, fired, past⟩ := orderly_run waits front b back shape a newest
  exact ⟨settled, fired, past least rfl⟩

/-- A lane's one candidate fails; a day later nothing is queued, and after the month the next is. -/
theorem failed_waited : ∃ a b : Rerun, a.outcome = some .failed ∧ b.triggers ≠ [] ∧
    a.settledAt.getD 0 + 30 * DAY ≤ b.queuedAt := by
  let world (now : ℚ) : World :=
    { now, days := fun _ => 30, served := [⟨"code", "m", none, ""⟩], lanes := by decide
      triggers := fun _ _ => [("age", "")], baseline := fun _ _ => none, job := fun _ => some .failed
      judge := fun _ _ => ⟨.failed, "", "", "", none⟩, route := fun _ => "", repo := "/r", machine := none
      add := fun _ => 1 }
  let events : List Event := [.check (world 0) "" false, .check (world DAY) "" false, .check (world (31 * DAY)) "" false]
  let first : Rerun :=
    { lane := "code", candidateId := none, spec := "m", incumbent := "", triggers := [("age", "")], jobId := some 1
      baselineRunId := none, machineId := none, queuedAt := 0, outcome := some .failed, settledAt := some DAY }
  let second : Rerun := { first with queuedAt := 31 * DAY, outcome := none, settledAt := none }
  have waits : ∀ event ∈ events, event.Waits (some 30) := by
    simp only [events, world, List.forall_mem_cons, Event.Waits, Option.mem_some_iff]
    have days : ∀ days : ℚ, 30 = days → String → days ≤ 30 := fun _ same _ => same ▸ le_refl _
    exact ⟨days, days, days, List.forall_mem_nil _⟩
  obtain ⟨-, fired, past⟩ :=
    flagged_waits 30 events waits [first] [] second (by decide +kernel) first (by decide +kernel)
  exact ⟨first, second, rfl, fired, past .failed (by decide) rfl⟩

end LocalHarness.Reverify
