import Mathlib.Data.List.ProdSigma
import Mathlib.Logic.Embedding.Basic
import LocalHarness.Library.Fallible
import LocalHarness.Reverify.Check
import LocalHarness.Sweeps.Decide

/-! # Sweeping the knobs that bind

A pass settles the sweeps whose jobs have ended and queues one for each binding knob of a lane that is served. For
a knob, a lane, a spec and a machine the newest sweep decides whether another is queued, so one is open at a time,
and none comes after one that chose a value.
-/

namespace LocalHarness.Sweeps.Pass

open LocalHarness.Library LocalHarness.Library.Tally
open LocalHarness.WorkQueue (JobState)
open LocalHarness.Reverify (Item DAY)

inductive Outcome
  | chosen
  | unrun
  | cancelled
  deriving DecidableEq

def Outcome.text : Outcome → String
  | chosen => "chosen"
  | unrun => "unrun"
  | cancelled => "cancelled"

def REQUESTED_BY : String := "sweep"

/-- Below a person's jobs and beside reverify's. -/
def PRIORITY : Int := -10

/-! ## The knobs that bind -/

/-- The share of a lane's rows hitting a knob's limit at which the knob is reported as binding. -/
def BINDING_FRACTION : ℚ := 1 / 10

/-- Fewer hits than this is never binding, whatever the share. -/
def BINDING_MIN_HITS : Nat := 3

/-- A knob. `default` is what its sites hold for a lane. -/
structure Knob where
  name : String
  lanes : List String
  values : List ℚ
  lane_values : List (String × List ℚ)
  limit : String
  receipt : String
  default : String → ℚ

/-- Of two ranges of one lane the later stands. -/
def Knob.values_for (k : Knob) (lane : String) : List ℚ :=
  (k.lane_values.reverse.lookup lane).getD k.values

def Knob.limit_name (k : Knob) (lane : String) : String :=
  let parts := k.limit.splitOn "\x7blane\x7d"
  if parts.length ≤ 1 then k.limit
  else if lane ≠ "" then String.intercalate lane parts
  else (k.limit.splitOn ".\x7blane\x7d").headD ""

def binds (hits of : Nat) : Bool :=
  0 < of ∧ BINDING_MIN_HITS ≤ hits ∧ BINDING_FRACTION ≤ (hits : ℚ) / of

structure Counted where
  knob : Knob
  lane : String
  limit : String
  hits : Nat
  of : Nat
  binding : Bool

/-- `binding.count`, of the hits and the rows that each knob has in a lane. -/
def count (knobs : List Knob) (hits : Knob → String → Nat × Nat) : List Counted :=
  (knobs.filter fun k => k.limit ≠ "").flatMap fun k =>
    (if k.lanes = [] then [""] else k.lanes).map fun lane =>
      let found := hits k lane
      { knob := k, lane, limit := k.limit_name lane, hits := found.1, of := found.2
        binding := binds found.1 found.2 }

/-! ## A pass -/

/-- A value's entry in the table of costs. -/
structure Spent extends Cost where
  run_id : Option Nat

/-- A row of `knob_sweeps`. -/
structure Sweep where
  id : Nat
  knob : String
  lane : String
  spec : String
  candidateId : Option Nat
  machineId : Option Nat
  jobs : List (ℚ × Nat)
  trigger : String × Nat × Nat
  queuedAt : ℚ
  outcome : Option Outcome := none
  chosen : Option ℚ := none
  cost : List (String × Spent) := []
  detail : String := ""
  settledAt : Option ℚ := none

/-- What a sweep is not repeated for. -/
structure Key where
  knob : String
  lane : String
  spec : String
  machineId : Option Nat
  deriving DecidableEq

def Sweep.key (r : Sweep) : Key :=
  ⟨r.knob, r.lane, r.spec, r.machineId⟩

/-- What a pass reads, and how the queue answers. The names of the knobs are the keys of a dictionary, and two
numbers have two texts. -/
structure World (str : ℚ ↪ String) where
  now : ℚ
  days : String → ℚ
  knobs : List Knob
  names : (knobs.map Knob.name).Nodup
  lanes : ∀ k ∈ knobs, k.lanes.Nodup
  hits : Knob → String → Nat × Nat
  served : String → Option Item
  machine : Option Nat
  job : Nat → Option JobState
  runFor : Nat → Option Nat
  rows : Nat → Option Nat → List Row
  alpha : ℚ
  /-- `{:g}` -/
  g : ℚ → String
  route : String → String
  repo : String
  add : Key → ℚ → WorkQueue.JobStore.Request → Nat

section

variable {str : ℚ ↪ String} (w : World str) (sweeps : List Sweep)

/-- The flag that sets a knob. -/
def flag (k : Knob) (value : ℚ) : List String :=
  if k.receipt = "max_tokens" then ["--max-tokens", toString (value.num.tdiv value.den)]
  else ["--knob", k.name ++ "=" ++ w.g value]

def argv (item : Item) (k : Knob) (value : ℚ) : List String :=
  Reverify.argv w.route { item with incumbent := "" } ++ flag w k value

/-- `_key`: the newest sweep of a knob, a lane, a spec and a machine. -/
def latest (key : Key) : Option Sweep :=
  (sweeps.filter fun r => r.key = key).getLast?

/-- A sweep that chose nothing is not repeated for the lane's days. -/
def recent (last : Sweep) (outcome : Outcome) : String :=
  if w.now - last.settledAt.getD 0 < w.days last.lane * DAY then
    "sweep " ++ toString last.id ++ " was " ++ outcome.text ++ ": " ++ last.detail ++ "; retried after " ++
      w.g (w.days last.lane) ++ " days"
  else ""

/-- `_skip`: why a sweep is not queued, or nothing. -/
def skip : Option Sweep → String
  | none => ""
  | some last =>
      match last.outcome with
      | none => "already queued as sweep " ++ toString last.id
      | some .chosen => "swept already for this model and machine: chose " ++ (last.chosen.map str).getD ""
      | some outcome => recent w last outcome

structure Planned where
  key : Key
  candidateId : Option Nat
  trigger : String × Nat × Nat
  argv : List (ℚ × List String)
  skip : String

/-- A binding knob that an eval can set, on a lane that is served. -/
def planned (row : Counted) : Option Planned :=
  let k := row.knob
  if k.receipt = "" then none
  else
    (w.served row.lane).map fun item =>
      let key := { knob := k.name, lane := row.lane, spec := item.spec, machineId := w.machine }
      { key, candidateId := item.candidateId, trigger := (row.limit, row.hits, row.of)
        argv := (firsts (k.values_for row.lane)).map fun v => (v, argv w item k v)
        skip := skip w (latest sweeps key) }

def plan : List Planned :=
  ((count w.knobs w.hits).filter Counted.binding).filterMap (planned w sweeps)

def request (entry : Planned) (value : ℚ) (argv : List String) : WorkQueue.JobStore.Request where
  argv := argv
  title := "sweep " ++ entry.key.knob ++ "=" ++ w.g value ++ " on " ++ entry.key.lane ++ ": " ++ entry.key.spec
  cwd := w.repo
  priority := PRIORITY
  requestedBy := REQUESTED_BY
  now := w.now

/-- `_queue`: a job for each value, and the sweep that names them. -/
def queue (id : Nat) (entry : Planned) : Sweep where
  id := id
  knob := entry.key.knob
  lane := entry.key.lane
  spec := entry.key.spec
  candidateId := entry.candidateId
  machineId := entry.key.machineId
  jobs := entry.argv.map fun (value, argv) => (value, w.add entry.key value (request w entry value argv))
  trigger := entry.trigger
  queuedAt := w.now

/-- The values whose jobs stored a run, each with it; of two jobs of a value the later stands. -/
def ran_ (r : Sweep) : List (ℚ × Nat) :=
  r.jobs.filterMap fun (value, job) => (w.runFor job).map fun run => (value, run)

def outcomes (r : Sweep) (value : ℚ) : List Row :=
  (((ran_ w r).reverse.lookup value).map fun run => w.rows run r.candidateId).getD []

structure Judged where
  outcome : Outcome
  chosen : Option ℚ
  cost : List (String × Spent)
  detail : String

/-- What `decide` recorded of the swept values, with the runs that stored them. -/
def spent (r : Sweep) (values : List ℚ) : List (String × Spent) :=
  let table := (Sweeps.decide str values (outcomes w r) w.alpha).2
  (ran values (outcomes w r)).filterMap fun v =>
    (table.lookup (str v)).map fun cost =>
      (str v, { cost with run_id := (ran_ w r).reverse.lookup v })

/-- What is said of the value that was chosen, beside the best. -/
def said (k : Knob) (r : Sweep) (chosen best : ℚ) (cost : List (String × Spent)) : String :=
  let of v := (cost.lookup (str v)).map fun c =>
    "(" ++ toString c.passed ++ " of " ++ toString c.n ++ ", " ++ w.g c.seconds ++ "s)"
  k.name ++ " on " ++ r.lane ++ " for " ++ r.spec ++ ": chose " ++ w.g chosen ++ " " ++ (of chosen).getD "" ++
    ", tied with the best " ++ w.g best ++ " " ++ (of best).getD "" ++ "; now " ++ w.g (k.default r.lane) ++
    "; the sweep spent " ++ w.g (cost.map fun c => c.2.seconds).sum ++ "s"

/-- `judge`, for one sweep whose jobs have all finished. -/
def judge (r : Sweep) (k : Knob) : Judged :=
  let values := k.values_for r.lane
  match (Sweeps.decide str values (outcomes w r) w.alpha).1 with
  | none => ⟨.unrun, none, [], "none of the " ++ toString r.jobs.length ++ " jobs stored a run"⟩
  | some chosen =>
      let cost := spent w r values
      let best := (Sweeps.best values (outcomes w r)).getD chosen
      ⟨.chosen, some chosen, cost, said w k r chosen best cost⟩

/-- A job of it waits or runs. -/
def busy (r : Sweep) : Bool :=
  r.jobs.any fun entry => w.job entry.2 = some .pending ∨ w.job entry.2 = some .running

/-- A sweep that came to nothing because every job was cancelled was cancelled. -/
def called_off (r : Sweep) (got : Judged) : Judged :=
  if got.outcome = .unrun ∧ r.jobs ≠ [] ∧ ∀ entry ∈ r.jobs, w.job entry.2 = some .cancelled then
    { got with outcome := .cancelled, detail := "every job was cancelled" }
  else got

/-- `settle`, of one row. A knob that is gone is a `KeyError`. -/
def settleOne (r : Sweep) : Except String Sweep :=
  if r.outcome ≠ none ∨ busy w r then .ok r
  else
    match w.knobs.find? fun k => k.name = r.knob with
    | none => .error ("KeyError: " ++ r.knob)
    | some k =>
        let got := called_off w r (judge w r k)
        .ok { r with
          outcome := some got.outcome
          chosen := got.chosen
          cost := got.cost
          detail := .ofList (got.detail.toList.take 500)
          settledAt := some w.now }

def settle : Except String (List Sweep) :=
  sweeps.mapM (settleOne w)

/-- `check`: the table after a pass. A dry one writes nothing, and neither does one that raises. -/
def check (dry_run : Bool) : Except String (List Sweep) := do
  let settled ← settle w sweeps
  let chosen := (plan w settled).filter fun entry => entry.skip = ""
  return if dry_run then sweeps
    else settled ++ (chosen.zipIdx (settled.length + 1)).map fun (entry, id) => queue w id entry

end

structure Event (str : ℚ ↪ String) where
  world : World str
  dry_run : Bool

def step {str : ℚ ↪ String} (sweeps : List Sweep) (event : Event str) : List Sweep :=
  match check event.world sweeps event.dry_run with
  | .ok after => after
  | .error _ => sweeps

def run {str : ℚ ↪ String} (events : List (Event str)) : List Sweep :=
  events.foldl step []

/-! ## What a sweep is not repeated for -/

/-- The ledger of sweeps; `least` are days that every lane waits, where there are. -/
def swept (least : Option ℚ) : Asked Sweep Key where
  kind := Sweep.key
  settled r := r.outcome.isSome
  free a b := a.outcome ≠ some .chosen ∧ ∀ days ∈ least, a.settledAt.getD 0 + days * DAY ≤ b.queuedAt

def Event.Waits {str : ℚ ↪ String} (least : Option ℚ) (event : Event str) : Prop :=
  ∀ days ∈ least, ∀ lane, days ≤ event.world.days lane

section

variable {str : ℚ ↪ String} {w : World str} {sweeps after : List Sweep} {entry : Planned} {least : Option ℚ}
  {r done : Sweep}

/-- Settling a row leaves it, or closes one that was open. -/
theorem settleOne_ok (settled : settleOne w r = .ok done) :
    done = r ∨ r.outcome = none ∧ ∃ k ∈ w.knobs, k.name = r.knob ∧
      let got := called_off w r (judge w r k)
      done = { r with
        outcome := some got.outcome
        chosen := got.chosen
        cost := got.cost
        detail := .ofList (got.detail.toList.take 500)
        settledAt := some w.now } := by
  unfold settleOne at settled
  split at settled
  next => exact .inl (Except.ok.inj settled).symm
  next waits =>
    have open_ : r.outcome = none := by
      by_contra closed
      exact waits (.inl closed)
    split at settled
    next => cases settled
    next k found =>
      refine .inr ⟨open_, k, List.mem_of_find?_eq_some found, ?_, (Except.ok.inj settled).symm⟩
      simpa using List.find?_some found

def settled_ (w : World str) (r : Sweep) : Sweep :=
  (settleOne w r).toOption.getD r

theorem settle_ok (settled : settle w sweeps = .ok after) : after = sweeps.map (settled_ w) := by
  have each := mapM_ok settled
  clear settled
  induction each with
  | nil => rfl
  | cons first rest ih =>
      rw [List.map_cons, ← ih, settled_, first]
      rfl

theorem settled_cases (w : World str) (r : Sweep) : settled_ w r = r ∨ r.outcome = none ∧
    (settled_ w r).key = r.key ∧ (settled_ w r).queuedAt = r.queuedAt := by
  unfold settled_
  cases made : settleOne w r with
  | error why => exact .inl rfl
  | ok done =>
      rcases settleOne_ok made with rfl | ⟨open_, k, -, -, rfl⟩
      · exact .inl rfl
      · exact .inr ⟨open_, rfl, rfl⟩

theorem settles_settled (w : World str) : (swept least).Settles (settled_ w) where
  kind r := by
    rcases settled_cases w r with same | ⟨-, key, -⟩
    · rw [same]
    · exact key
  settled r closed := by
    rcases settled_cases w r with same | ⟨open_, -⟩
    · rwa [same]
    · simp [swept, open_] at closed
  before a b closed free := by
    rcases settled_cases w a with same | ⟨open_, -⟩
    · rwa [same]
    · simp [swept, open_] at closed
  after a b free := by
    rcases settled_cases w b with same | ⟨-, -, queued⟩
    · rwa [same]
    · exact ⟨free.1, fun days given => queued ▸ free.2 days given⟩

theorem over_of_recent {last : Sweep} {outcome : Outcome} (clear : recent w last outcome = "") :
    last.settledAt.getD 0 + w.days last.lane * DAY ≤ w.now := by
  by_contra early
  have young : w.now - last.settledAt.getD 0 < w.days last.lane * DAY := by linarith
  rw [recent, if_pos young] at clear
  simp only [String.append_assoc] at clear
  exact Reverify.append_ne_empty _ (by decide) clear

/-- Where nothing is said against it, the newest sweep is settled, chose nothing, and its days are over. -/
theorem free_of_skip {last : Sweep} (clear : skip w (some last) = "") :
    last.outcome.isSome = true ∧ last.outcome ≠ some .chosen ∧
      last.settledAt.getD 0 + w.days last.lane * DAY ≤ w.now := by
  simp only [skip] at clear
  cases closed : last.outcome with
  | none =>
      rw [closed] at clear
      exact absurd clear (Reverify.append_ne_empty _ (by decide))
  | some outcome =>
      rw [closed] at clear
      cases outcome with
      | chosen => exact absurd clear (Reverify.append_ne_empty _ (by decide))
      | unrun => exact ⟨rfl, by decide, over_of_recent clear⟩
      | cancelled => exact ⟨rfl, by decide, over_of_recent clear⟩

theorem planned_some {row : Counted} (entry_ : planned w sweeps row = some entry) :
    entry.key.knob = row.knob.name ∧ entry.key.lane = row.lane ∧
      entry.skip = skip w (latest sweeps entry.key) := by
  unfold planned at entry_
  dsimp only at entry_
  split at entry_
  next => cases entry_
  next =>
    obtain ⟨item, -, rfl⟩ := Option.map_eq_some_iff.mp entry_
    exact ⟨rfl, rfl, rfl⟩

/-- No knob is counted twice in a lane. -/
theorem nodup_count (w : World str) : ((count w.knobs w.hits).map fun row => (row.knob.name, row.lane)).Nodup := by
  have shape : (count w.knobs w.hits).map (fun row => (row.knob.name, row.lane)) =
      (w.knobs.filter fun k => k.limit ≠ "").flatMap fun k =>
        (if k.lanes = [] then [""] else k.lanes).map fun lane => (k.name, lane) := by
    rw [count, List.map_flatMap]
    simp only [List.map_map]
    rfl
  rw [shape, List.nodup_flatMap]
  constructor
  · intro k member
    have once : (if k.lanes = [] then [""] else k.lanes).Nodup := by
      split
      next => exact List.nodup_singleton _
      next => exact w.lanes k (List.mem_filter.mp member).1
    exact once.map fun _ _ same => (Prod.mk.inj same).2
  · have names : (w.knobs.filter fun k => k.limit ≠ "").Pairwise fun a b => a.name ≠ b.name :=
      (List.pairwise_map.mp w.names).sublist List.filter_sublist
    refine names.imp fun {a b} apart => ?_
    rw [Function.onFun, List.disjoint_left]
    intro pair first second
    obtain ⟨_, -, rfl⟩ := List.mem_map.mp first
    obtain ⟨_, -, same⟩ := List.mem_map.mp second
    exact apart (Prod.mk.inj same).1.symm

theorem nodup_plan (w : World str) (sweeps : List Sweep) : ((plan w sweeps).map Planned.key).Nodup := by
  have pairs : ((count w.knobs w.hits).filter Counted.binding).Pairwise
      fun a b => (a.knob.name, a.lane) ≠ (b.knob.name, b.lane) :=
    (List.pairwise_map.mp (nodup_count w)).sublist List.filter_sublist
  refine List.pairwise_map.mpr (List.pairwise_filterMap.mpr (pairs.imp fun {a b} apart => ?_))
  intro first made second also same
  obtain ⟨knob, lane, -⟩ := planned_some made
  obtain ⟨knob', lane', -⟩ := planned_some also
  exact apart (by rw [← knob, ← lane, ← knob', ← lane', same])

theorem orderly_check {dry_run : Bool} (waits : ∀ days ∈ least, ∀ lane, days ≤ w.days lane)
    (orderly : (swept least).Orderly sweeps) (checked : check w sweeps dry_run = .ok after) :
    (swept least).Orderly after := by
  obtain ⟨settled, first, last⟩ := bind_ok checked
  obtain rfl := settle_ok first
  have settled_orderly := orderly.settle (settles_settled w)
  rw [pure_ok last]
  split
  next => exact orderly
  next =>
    generalize sweeps.map (settled_ w) = settled at settled_orderly
    have distinct : (((((plan w settled).filter fun entry => entry.skip = "").zipIdx (settled.length + 1)).map
        fun (entry, id) => queue w id entry).map (swept least).kind).Nodup := by
      have keys := (nodup_plan w settled).sublist
        (List.Sublist.map Planned.key (List.filter_sublist (p := fun entry => entry.skip = "")))
      rw [← List.zipIdx_map_fst (settled.length + 1) ((plan w settled).filter _), List.map_map] at keys
      rw [List.map_map]
      exact keys
    refine settled_orderly.ask_all distinct fun b asked a newest => ?_
    obtain ⟨⟨entry, id⟩, member, rfl⟩ := List.mem_map.mp asked
    obtain ⟨planned, clear⟩ := List.mem_filter.mp (List.fst_mem_of_mem_zipIdx member)
    obtain ⟨row, -, made⟩ := List.mem_filterMap.mp planned
    have none_ := (planned_some made).2.2.symm.trans (of_decide_eq_true clear)
    have newest' : latest settled entry.key = some a := newest
    rw [newest'] at none_
    obtain ⟨closed, other, past⟩ := free_of_skip none_
    refine ⟨closed, other, fun days given => ?_⟩
    have fewer : days * DAY ≤ w.days a.lane * DAY :=
      mul_le_mul_of_nonneg_right (waits days given a.lane) (by norm_num [DAY])
    change a.settledAt.getD 0 + days * DAY ≤ w.now
    linarith

theorem orderly_run {events : List (Event str)} (waits : ∀ event ∈ events, event.Waits least) :
    (swept least).Orderly (run events) := by
  unfold run
  induction events using List.reverseRecOn with
  | nil => exact Asked.orderly_nil
  | append_singleton earlier event ih =>
      have before := ih fun e member => waits e (List.mem_append_left _ member)
      rw [List.foldl_concat, step]
      cases checked : check event.world (earlier.foldl step []) event.dry_run with
      | error why => exact before
      | ok after => exact orderly_check (waits event (by simp)) before checked

end

/-- Whatever the passes read, of the sweeps of a knob, a lane, a spec and a machine all but the newest came to
nothing: one is open at a time, one at most chose a value, and none was queued after it. -/
theorem newest_decides {str : ℚ ↪ String} (events : List (Event str)) :
    (run events).Pairwise fun a b => a.key = b.key → a.outcome = some .unrun ∨ a.outcome = some .cancelled := by
  have waits : ∀ event ∈ events, event.Waits none := fun event _ days given => by cases given
  have orderly := orderly_run waits
  refine orderly.pairwise fun a b closed free => ?_
  cases settled : a.outcome with
  | none => simp [swept, settled] at closed
  | some outcome =>
      cases outcome with
      | chosen => exact absurd settled free.1
      | unrun => exact .inl rfl
      | cancelled => exact .inr rfl

/-- Where a lane's days are never fewer than `least`, a sweep after one that came to nothing was queued no sooner
than that many days after it was settled. -/
theorem unrun_waits {str : ℚ ↪ String} (least : ℚ) (events : List (Event str))
    (waits : ∀ event ∈ events, event.Waits (some least)) (front back : List Sweep) (b : Sweep)
    (shape : run events = front ++ b :: back) (a : Sweep) (newest : latest front b.key = some a) :
    a.outcome.isSome ∧ a.outcome ≠ some .chosen ∧ a.settledAt.getD 0 + least * DAY ≤ b.queuedAt := by
  obtain ⟨closed, other, past⟩ := orderly_run waits front b back shape a newest
  exact ⟨closed, other, past least rfl⟩

/-! ## What was chosen -/

/-- The choice is one of the values that were swept. Its entry says so: it came from a stored run, it is tied with
the best, and no entry that is tied took fewer seconds; none passed more cells than the best. -/
def Justified (str : ℚ ↪ String) (r : Sweep) : Prop :=
  (r.outcome = some .chosen ↔ r.chosen.isSome) ∧ ∀ v, r.chosen = some v →
    (∃ job, (v, job) ∈ r.jobs) ∧
    ∃ mine, (str v, mine) ∈ r.cost ∧ mine.run_id.isSome ∧ mine.tied ∧
      (∀ other ∈ r.cost, other.2.tied → mine.seconds ≤ other.2.seconds) ∧
      ∃ best ∈ r.cost, best.2.best ∧ ∀ other ∈ r.cost, other.2.passed ≤ best.2.passed

section

variable {str : ℚ ↪ String} {w : World str} {sweeps after : List Sweep} {r done : Sweep} {values : List ℚ} {v : ℚ}

theorem lookup_display {α : Type} {f : ℚ → α} (member : v ∈ values) :
    (Dict.ofItems (values.map fun v => (str v, f v))).lookup (str v) = some (f v) := by
  obtain ⟨found, shown⟩ := Option.ne_none_iff_exists'.mp
    (Dict.lookup_ofItems_of_mem (List.mem_map_of_mem (f := fun v => (str v, f v)) member))
  obtain ⟨other, -, same⟩ := List.mem_map.mp (Dict.mem_of_lookup_ofItems shown)
  obtain ⟨text, rfl⟩ := Prod.mk.inj same
  rw [shown, str.injective text]

/-- A value whose run has rows has a job, and the run is the one that is named. -/
theorem run_of_ran (stored : outcomes w r v ≠ []) :
    (∃ job, (v, job) ∈ r.jobs) ∧ ((ran_ w r).reverse.lookup v).isSome := by
  unfold outcomes at stored
  cases found : (ran_ w r).reverse.lookup v with
  | none => exact absurd (by rw [found]; rfl) stored
  | some run =>
      obtain ⟨front, back, shape, -⟩ := List.lookup_eq_some_iff.mp found
      have member : (v, run) ∈ ran_ w r := List.mem_reverse.mp (shape ▸ List.mem_append_right _ List.mem_cons_self)
      obtain ⟨⟨value, job⟩, inside, made⟩ := List.mem_filterMap.mp member
      obtain ⟨_, -, same⟩ := Option.map_eq_some_iff.mp made
      obtain ⟨rfl, -⟩ := Prod.mk.inj same
      exact ⟨⟨job, inside⟩, rfl⟩

/-- The table has an entry for each value whose run has rows. -/
theorem spent_eq {best : ℚ} (first : Sweeps.best values (outcomes w r) = some best) :
    spent w r values = (ran values (outcomes w r)).map fun v =>
      (str v, { cost w.alpha (outcomes w r) best v with run_id := (ran_ w r).reverse.lookup v }) := by
  unfold spent
  rw [← List.filterMap_eq_map]
  refine List.filterMap_congr fun v inside => ?_
  have listed : v ∈ values.filter fun v => v ∈ ran values (outcomes w r) :=
    List.mem_filter.mpr ⟨(mem_ran.mp inside).1, by simpa using inside⟩
  simp only [Sweeps.decide, first]
  rw [lookup_display (f := fun v => cost w.alpha (outcomes w r) best v) listed]
  rfl

theorem decide_some {outcomes : ℚ → List Row} {alpha : ℚ}
    (made : (Sweeps.decide str values outcomes alpha).1 = some v) :
    ∃ best, Sweeps.best values outcomes = some best ∧ v ∈ ran values outcomes ∧
      Tied alpha (cells (outcomes best)) (cells (outcomes v)) ∧
      ∀ u ∈ ran values outcomes, Tied alpha (cells (outcomes best)) (cells (outcomes u)) →
        seconds (outcomes v) ≤ seconds (outcomes u) := by
  unfold Sweeps.decide at made
  cases first : Sweeps.best values outcomes with
  | none =>
      rw [first] at made
      cases made
  | some best =>
      rw [first] at made
      have inside := List.mem_filter.mp (List.argmin_mem made)
      refine ⟨best, rfl, by simpa using (List.mem_filter.mp inside.1).2, by simpa using inside.2, fun u stored tied => ?_⟩
      have listed : u ∈ (values.filter fun v => v ∈ ran values outcomes).filter
          fun v => Tied alpha (cells (outcomes best)) (cells (outcomes v)) := by
        simpa only [List.mem_filter, decide_eq_true_eq] using ⟨⟨(mem_ran.mp stored).1, stored⟩, tied⟩
      have cheaper := List.le_of_mem_argmin listed made
      rcases Prod.Lex.le_iff.mp cheaper with less | ⟨same, -⟩
      · exact less.le
      · exact same.le

theorem passed_le_of_best {outcomes : ℚ → List Row} {best u : ℚ} (first : Sweeps.best values outcomes = some best)
    (stored : u ∈ ran values outcomes) : passed (outcomes u) ≤ passed (outcomes best) := by
  have least := List.le_of_mem_argmin stored first
  rcases Prod.Lex.le_iff.mp least with less | ⟨same, -⟩
  · have less : -(passed (outcomes best) : ℤ) < -(passed (outcomes u) : ℤ) := less
    omega
  · have same : -(passed (outcomes best) : ℤ) = -(passed (outcomes u) : ℤ) := same
    omega

/-- Nothing is chosen in a sweep that came to nothing, called off or not. -/
theorem called_off_unrun {got : Judged} (unrun : got.outcome = .unrun) (nothing : got.chosen = none) :
    (called_off w r got).outcome ≠ .chosen ∧ (called_off w r got).chosen = none := by
  unfold called_off
  split
  next => exact ⟨by simp, nothing⟩
  next => exact ⟨by simp [unrun], nothing⟩

theorem called_off_chosen {got : Judged} (chosen : got.outcome = .chosen) : called_off w r got = got :=
  if_neg fun off => by
    rw [chosen] at off
    cases off.1

theorem justified_judge (k : Knob) (r : Sweep) (detail : String) (settledAt : Option ℚ) :
    let got := called_off w r (judge w r k)
    Justified str
      { r with outcome := some got.outcome, chosen := got.chosen, cost := got.cost, detail, settledAt } := by
  cases made : (Sweeps.decide str (k.values_for r.lane) (outcomes w r) w.alpha).1 with
  | none =>
      have judged : (judge w r k).outcome = .unrun ∧ (judge w r k).chosen = none := by simp [judge, made]
      obtain ⟨open_, nothing⟩ := called_off_unrun (w := w) (r := r) judged.1 judged.2
      refine ⟨iff_of_false (fun same => open_ (Option.some.inj same)) (by simp [nothing]), fun _ chosen => ?_⟩
      rw [nothing] at chosen
      cases chosen
  | some v =>
      have judged : (judge w r k).outcome = .chosen ∧ (judge w r k).chosen = some v ∧
          (judge w r k).cost = spent w r (k.values_for r.lane) := by simp [judge, made]
      rw [called_off_chosen judged.1]
      generalize judge w r k = got at judged
      obtain ⟨outcome, chosen, costs, detail⟩ := got
      obtain ⟨rfl, rfl, rfl⟩ := judged
      refine ⟨by simp, fun u same => ?_⟩
      obtain rfl := Option.some.inj same
      obtain ⟨best, first, stored, tied, cheapest⟩ := decide_some made
      obtain ⟨job, run⟩ := run_of_ran (mem_ran.mp stored).2
      refine ⟨job, ?_⟩
      dsimp only
      rw [spent_eq first]
      refine ⟨_, List.mem_map_of_mem stored, run, by simpa [cost] using tied, fun other inside also => ?_, ?_⟩
      · obtain ⟨u, ran_u, rfl⟩ := List.mem_map.mp inside
        exact Decimal.rounded_mono 3 (cheapest u ran_u (by simpa [cost] using also))
      · refine ⟨_, List.mem_map_of_mem (List.argmin_mem first), by simp [cost], fun other inside => ?_⟩
        obtain ⟨u, ran_u, rfl⟩ := List.mem_map.mp inside
        exact passed_le_of_best first ran_u

theorem justified_check {dry_run : Bool} (each : ∀ r ∈ sweeps, Justified str r)
    (checked : check w sweeps dry_run = .ok after) : ∀ r ∈ after, Justified str r := by
  obtain ⟨settled, first, last⟩ := bind_ok checked
  rw [pure_ok last]
  split
  next => exact each
  next =>
    refine List.forall_mem_append.mpr ⟨fun r member => ?_, fun r member => ?_⟩
    · obtain ⟨before, inside, made⟩ := mem_mapM first member
      rcases settleOne_ok made with rfl | ⟨-, k, -, -, rfl⟩
      · exact each _ inside
      · exact justified_judge k before _ _
    · obtain ⟨_, -, rfl⟩ := List.mem_map.mp member
      exact ⟨by simp [queue], fun v nothing => by cases nothing⟩

end

/-- In every run each sweep that chose a value holds the table that justifies it. -/
theorem chosen_justified {str : ℚ ↪ String} (events : List (Event str)) : ∀ r ∈ run events, Justified str r := by
  unfold run
  induction events using List.reverseRecOn with
  | nil => exact List.forall_mem_nil _
  | append_singleton earlier event ih =>
      rw [List.foldl_concat, step]
      cases checked : check event.world (earlier.foldl step []) event.dry_run with
      | error why => exact ih
      | ok after => exact justified_check ih checked

/-- A text for each number, with its numerator and its denominator counted out. -/
def tally (q : ℚ) : List Char :=
  List.replicate q.num.natAbs 'n' ++ List.replicate q.den 'd' ++ if q.num < 0 then ['-'] else []

theorem tally_counts (q : ℚ) :
    (tally q).count 'n' = q.num.natAbs ∧ (tally q).count 'd' = q.den ∧ ('-' ∈ tally q ↔ q.num < 0) := by
  by_cases negative : q.num < 0 <;> simp [tally, negative, List.count_replicate, List.mem_replicate]

theorem tally_injective : Function.Injective tally := by
  intro a b same
  obtain ⟨num, den, sign⟩ := tally_counts a
  obtain ⟨num', den', sign'⟩ := tally_counts b
  rw [same] at num den sign
  have sign := sign.symm.trans sign'
  exact Rat.ext (by omega) (den.symm.trans den')

theorem ofList_tally_injective : Function.Injective fun q : ℚ => String.ofList (tally q) :=
  fun _ _ same => tally_injective (String.ofList_injective same)

def display : ℚ ↪ String :=
  ⟨fun q => .ofList (tally q), ofList_tally_injective⟩

/-- A knob that binds is swept at two values. Both pass the case, and the second, which takes less time, is chosen. -/
theorem chosen_quicker : ∃ r : Sweep, r.chosen = some 2 ∧ Justified display r := by
  let knob : Knob :=
    { name := "budget", lanes := ["code"], values := [1, 2], lane_values := [], limit := "max_tokens"
      receipt := "max_tokens", default := fun _ => 1 }
  let world (now : ℚ) (ended : Bool) : World display :=
    { now, days := fun _ => 30, knobs := [knob], names := by decide, lanes := by simp [knob]
      hits := fun _ _ => (5, 10), served := fun _ => some ⟨"code", "m", none, ""⟩, machine := none
      job := fun _ => if ended then some .done else none, runFor := fun id => some id
      rows := fun run _ => [⟨"a", true, some (10 / run)⟩], alpha := 1 / 20, g := fun _ => "", route := fun _ => ""
      repo := "/r", add := fun _ value _ => value.num.natAbs }
  let events : List (Event display) := [⟨world 0 false, false⟩, ⟨world DAY true, false⟩]
  obtain ⟨r, member, chosen⟩ : ∃ r ∈ run events, r.chosen = some 2 := by decide +kernel
  exact ⟨r, chosen, chosen_justified events r member⟩

end LocalHarness.Sweeps.Pass
