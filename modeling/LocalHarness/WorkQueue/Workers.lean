import LocalHarness.Library.Runs
import LocalHarness.WorkQueue.Jobs

/-! # Workers and clients over one jobs table

A worker takes a job from a list it read, and each of its writes is a statement of its
own; so is each step of a cancel that found its job running. Any of them may fall
between two steps of another, and a worker may die between any two of its own.
-/

namespace LocalHarness.WorkQueue

open LocalHarness.Library LocalHarness.Runs

/-- How a cancelled job's process group went. -/
inductive How
  | term | kill | gone
  deriving DecidableEq, Repr

def How.said : How → String
  | term => "stopped on request"
  | kill => "killed after the grace period"
  | gone => "had already exited"

/-- What a worker is at, and the job it holds there. -/
inductive Worker
  | down
  | idle
  | picked (id : Nat) (job : Job)
  | begun (id : Nat) (job : Job)
  | started (id : Nat) (job : Job)
  | exited (id : Nat) (job : Job)
  | judged (id : Nat) (job : Job) (flagged : Bool)
  deriving DecidableEq

/-- The job of a worker, from the moment it is read to the moment its end is stored. -/
def Worker.holds : Worker → Option (Nat × Job)
  | down | idle => none
  | picked id job | begun id job | started id job | exited id job | judged id job _ =>
      some (id, job)

/-- The job of a worker that has stored it as running. -/
def Worker.runs : Worker → Option (Nat × Job)
  | down | idle | picked _ _ => none
  | begun id job | started id job | exited id job | judged id job _ => some (id, job)

/-- A cancel that found its job running, on the machine that runs it. -/
structure Cancel (M : Type) where
  machine : M
  id : Nat
  job : Job
  flagged : Bool
  deriving DecidableEq

/-- What was done, which no row records: the jobs started, the pending ones whose cancel
    succeeded, the priorities set last, and how `run_one` ended each job it has not begun
    again. -/
structure History where
  starts : List Nat
  dropped : List Nat
  asked : List (Nat × Int)
  ended : List (Nat × (JobState × Option Int))
  deriving DecidableEq

/-- The end that is stored on a row that is there. -/
def History.ends (h : History) (stored : Option Job) (id : Nat) (job : Job) : History :=
  { h with
    ended := if stored.isSome then (id, (job.state, job.rc)) :: h.ended else h.ended }

/-- Where the processes run: a machine's fingerprint and log directory, and how a time of
    whole seconds is written. -/
structure Setup (M : Type) where
  fingerprint : M → String
  logDir : M → String
  stamp : Int → String

/-- The shared store, each machine's worker, the processes of a machine that are alive under
    a pid file, its cancel flags, and the cancels under way. -/
structure Queue (M C : Type) where
  store : JobStore
  workers : M → Worker
  children : M → List Nat
  flags : M → List Nat
  cancels : C → Option (Cancel M)
  history : History

inductive Action (M C : Type)
  | add (m : M) (present : String → Bool) (request : JobStore.Request)
  | setPriority (jobId : String) (priority : Int)
  | drop (jobId : String)
  | read (client : C) (m : M) (id : Nat)
  | flag (client : C)
  | settle (client : C) (how : How) (now : Int)
  | abandon (client : C)
  | recover (m : M)
  | pick (m : M)
  | rest (m : M)
  | begin (m : M) (now : Int)
  | start (m : M)
  | cannotStart (m : M)
  | reap (m : M) (rc : Int)
  | look (m : M) (now : Int)
  | store (m : M) (now : Int)
  | crash (m : M)
  | orphanExits (m : M) (id : Nat)

/-- A job as `_settle_cancelled` stores it; `stored` is the row it reads, and `how` is there
    when a client settles. -/
def settled (stamp : Int → String) (stored : Option Job) (how : Option How) (rc : Option Int)
    (now : Int) (job : Job) : Job :=
  let said := (how.map How.said).getD "stopped"
  let note := match how, stored with
    | none, some row =>
        if row.state = .cancelled then row.note
        else "cancelled by soh jobs cancel at " ++ stamp now ++ "; " ++ said
    | _, _ => "cancelled by soh jobs cancel at " ++ stamp now ++ "; " ++ said
  { job with
    state := .cancelled
    finished := some (job.finished.getD now)
    note := note
    rc := if rc = none then job.rc else rc }

variable {M C : Type} [DecidableEq M] [DecidableEq C]

namespace Queue

def work (q : Queue M C) (m : M) (w : Worker) : Queue M C :=
  { q with workers := Function.update q.workers m w }

def call (q : Queue M C) (client : C) (cancel : Option (Cancel M)) : Queue M C :=
  { q with cancels := Function.update q.cancels client cancel }

def add (setup : Setup M) (q : Queue M C) (m : M) (present : String → Bool)
    (request : JobStore.Request) : Queue M C :=
  match addRefused present request.argv with
  | some _ => q
  | none => { q with store := q.store.add (setup.fingerprint m) request }

def setPriority (q : Queue M C) (jobId : String) (priority : Int) : Queue M C :=
  match q.store.setPriority jobId priority, key jobId with
  | .ok store, some id =>
      { q with
        store := store
        history := { q.history with asked := (id, priority) :: q.history.asked } }
  | _, _ => q

def drop (q : Queue M C) (jobId : String) : Queue M C :=
  match q.store.drop jobId, key jobId with
  | .ok store, some id =>
      { q with
        store := store
        history := { q.history with dropped := id :: q.history.dropped } }
  | _, _ => q

/-- `cancel` finds the job running and a live process of it here. -/
def read (q : Queue M C) (client : C) (m : M) (id : Nat) : Option (Queue M C) :=
  match q.cancels client, q.store.find? id with
  | none, some job =>
      if job.state = .running ∧ id ∈ q.children m then
        some (q.call client (some { machine := m, id := id, job := job, flagged := false }))
      else none
  | _, _ => none

def flag (q : Queue M C) (client : C) : Option (Queue M C) :=
  (q.cancels client).map fun cancel =>
    { q.call client (some { cancel with flagged := true }) with
      flags := Function.update q.flags cancel.machine (cancel.id :: q.flags cancel.machine) }

/-- The process group was signalled and waited for; the job is settled from the row that
    the cancel read. -/
def settle (setup : Setup M) (q : Queue M C) (client : C) (how : How) (now : Int) :
    Option (Queue M C) :=
  match q.cancels client with
  | some cancel =>
      if cancel.flagged then
        some { q.call client none with
          store := q.store.write cancel.id
            (settled setup.stamp (q.store.find? cancel.id) (some how) none now cancel.job) }
      else none
  | none => none

/-- A worker takes the lock, which only it may hold here, and recovers. -/
def recover (setup : Setup M) (q : Queue M C) (m : M) : Option (Queue M C) :=
  if q.workers m = .down then
    some { q.work m .idle with store := q.store.recover (setup.fingerprint m) }
  else none

def pick (setup : Setup M) (q : Queue M C) (m : M) : Option (Queue M C) :=
  match q.workers m, q.store.pending (setup.fingerprint m) with
  | .idle, (id, job) :: _ => some (q.work m (.picked id job))
  | _, _ => none

/-- Nothing waits, or the gate is shut: the lock is let go. -/
def rest (q : Queue M C) (m : M) : Option (Queue M C) :=
  match q.workers m with
  | .idle | .picked _ _ => some (q.work m .down)
  | _ => none

/-- The running row is stored, and a flag left by an earlier run is removed. -/
def begin (setup : Setup M) (q : Queue M C) (m : M) (now : Int) : Option (Queue M C) :=
  match q.workers m with
  | .picked id job =>
      let job := { job with
        state := .running
        started := some now
        log := setup.logDir m ++ "/" ++ label id ++ ".log" }
      some { q.work m (.begun id job) with
        store := q.store.write id job
        flags := Function.update q.flags m ((q.flags m).filter (· ≠ id))
        history := { q.history with ended := q.history.ended.filter (·.1 ≠ id) } }
  | _ => none

def start (q : Queue M C) (m : M) : Option (Queue M C) :=
  match q.workers m with
  | .begun id job =>
      some { q.work m (.started id job) with
        children := Function.update q.children m (id :: q.children m)
        history := { q.history with starts := id :: q.history.starts } }
  | _ => none

def cannotStart (q : Queue M C) (m : M) : Option (Queue M C) :=
  match q.workers m with
  | .begun id job => some (q.work m (.exited id { job with rc := some 127 }))
  | _ => none

def reap (q : Queue M C) (m : M) (rc : Int) : Option (Queue M C) :=
  match q.workers m with
  | .started id job =>
      some { q.work m (.exited id { job with rc := some rc }) with
        children := Function.update q.children m ((q.children m).filter (· ≠ id)) }
  | _ => none

/-- Whether a cancel asked for the end is read off its flag, before the end is stored. -/
def look (q : Queue M C) (m : M) (now : Int) : Option (Queue M C) :=
  match q.workers m with
  | .exited id job =>
      some { q.work m (.judged id { job with finished := some now } (id ∈ q.flags m)) with
        flags := Function.update q.flags m ((q.flags m).filter (· ≠ id)) }
  | _ => none

/-- The job as `run_one` ends it. -/
def ending (setup : Setup M) (stored : Option Job) (now : Int) (job : Job) (flagged : Bool) : Job :=
  if flagged then settled setup.stamp stored none job.rc now job
  else { job with state := if job.rc = some 0 then .done else .failed }

def storeEnd (setup : Setup M) (q : Queue M C) (m : M) (now : Int) : Option (Queue M C) :=
  match q.workers m with
  | .judged id job flagged =>
      let closed := ending setup (q.store.find? id) now job flagged
      some { q.work m .idle with
        store := q.store.write id closed
        history := q.history.ends (q.store.find? id) id closed }
  | _ => none

def crash (q : Queue M C) (m : M) : Option (Queue M C) :=
  if q.workers m = .down then none else some (q.work m .down)

/-- The process of a worker that died ends by itself. -/
def orphanExits (q : Queue M C) (m : M) (id : Nat) : Option (Queue M C) :=
  match q.workers m with
  | .started _ _ => none
  | _ => some { q with
      children := Function.update q.children m ((q.children m).filter (· ≠ id)) }

end Queue

/-- One statement, or one step of a process, of some machine. -/
def step (setup : Setup M) (q : Queue M C) : Action M C → Option (Queue M C)
  | .add m present request => some (q.add setup m present request)
  | .setPriority jobId priority => some (q.setPriority jobId priority)
  | .drop jobId => some (q.drop jobId)
  | .read client m id => q.read client m id
  | .flag client => q.flag client
  | .settle client how now => q.settle setup client how now
  | .abandon client => some (q.call client none)
  | .recover m => q.recover setup m
  | .pick m => q.pick setup m
  | .rest m => q.rest m
  | .begin m now => q.begin setup m now
  | .start m => q.start m
  | .cannotStart m => q.cannotStart m
  | .reap m rc => q.reap m rc
  | .look m now => q.look m now
  | .store m now => q.storeEnd setup m now
  | .crash m => q.crash m
  | .orphanExits m id => q.orphanExits m id

/-- Any jobs and machines at the start, no worker up and no cancel under way. -/
def queueing (setup : Setup M) : System (Queue M C) (Action M C) where
  start := fun q => (∀ m, q.workers m = .down) ∧ (∀ client, q.cancels client = none) ∧
    q.history = ⟨[], [], [], []⟩
  step := step setup

end LocalHarness.WorkQueue
