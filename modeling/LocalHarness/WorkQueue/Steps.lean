import LocalHarness.WorkQueue.Workers

/-! # What a step can do

Every step is one of twelve, and what is not named by its case is as it was. The
invariants of the queue are proved over these cases.
-/

namespace LocalHarness.WorkQueue

open LocalHarness.Library LocalHarness.Runs

/-- The job of a worker that has yet to start it. -/
def Worker.unstarted : Worker → Option (Nat × Job)
  | picked id job | begun id job => some (id, job)
  | _ => none

/-- A worker lets its job go, or goes on with one it will not start again. -/
inductive Worker.Onward (w : Worker) : Worker → Prop
  | lets {w' : Worker} : w'.holds = none → Onward w w'
  | keeps {w' : Worker} {id : Nat} {job job' : Job} : w.runs = some (id, job) →
      w'.holds = some (id, job') → w'.runs = some (id, job') → w'.unstarted = none →
      job'.state = job.state → job'.priority = job.priority →
      job'.machineId = job.machineId → Onward w w'

namespace Worker

theorem holds_of_runs {w : Worker} {id : Nat} {job : Job} (runs : w.runs = some (id, job)) :
    w.holds = some (id, job) := by
  cases w with
  | down | idle | picked => cases runs
  | begun | started | exited | judged => exact runs

theorem holds_of_unstarted {w : Worker} {id : Nat} {job : Job}
    (waits : w.unstarted = some (id, job)) : w.holds = some (id, job) := by
  cases w with
  | picked | begun => exact waits
  | down | idle | started | exited | judged => cases waits

/-- A job that a worker holds is only read, or already stored as running. -/
theorem picked_or_runs {w : Worker} {id : Nat} {job : Job} (held : w.holds = some (id, job)) :
    w = .picked id job ∨ w.runs = some (id, job) := by
  cases w with
  | down | idle => cases held
  | picked =>
      cases held
      exact .inl rfl
  | begun | started | exited | judged => exact .inr held

end Worker

variable {M C : Type} [DecidableEq M] [DecidableEq C]

/-- The job a begin stores. -/
def beginning (setup : Setup M) (m : M) (id : Nat) (now : Int) (job : Job) : Job :=
  { job with
    state := .running
    started := some now
    log := setup.logDir m ++ "/" ++ label id ++ ".log" }

/-- What a cancel stores over the row. -/
def settling (setup : Setup M) (q : Queue M C) (cancel : Cancel M) (how : How) (now : Int) : Job :=
  settled setup.stamp (q.store.find? cancel.id) (some how) none now cancel.job

/-- The cases of a step, over what the invariants speak of. -/
inductive Step (setup : Setup M) (q : Queue M C) : Action M C → Queue M C → Prop
  | quiet {a : Action M C} {q' : Queue M C} : q'.store = q.store → q'.workers = q.workers →
      q'.history = q.history →
      (∀ client cancel', q'.cancels client = some cancel' →
        ∃ cancel, q.cancels client = some cancel ∧ cancel.id = cancel'.id ∧
          cancel.job = cancel'.job) → Step setup q a q'
  | added {m present request} : Step setup q (.add m present request)
      { q with store := q.store.add (setup.fingerprint m) request }
  | prioritized {jobId id job} {priority : Int} : key jobId = some id →
      q.store.find? id = some job → job.state = .pending →
      Step setup q (.setPriority jobId priority)
        { q with
          store := q.store.update id fun job => { job with priority := priority }
          history := { q.history with asked := (id, priority) :: q.history.asked } }
  | dropped {jobId id job} : key jobId = some id → q.store.find? id = some job →
      job.state = .pending →
      Step setup q (.drop jobId)
        { q with
          store := q.store.delete id
          history := { q.history with dropped := id :: q.history.dropped } }
  | found {client m id job} : q.store.find? id = some job → job.state = .running →
      Step setup q (.read client m id)
        (q.call client (some { machine := m, id := id, job := job, flagged := false }))
  | settled {client cancel how now} : q.cancels client = some cancel →
      Step setup q (.settle client how now)
        { q.call client none with
          store := q.store.write cancel.id (settling setup q cancel how now) }
  | recovered {m} : q.workers m = .down →
      Step setup q (.recover m)
        { q.work m .idle with store := q.store.recover (setup.fingerprint m) }
  | picked {m id job} : q.workers m = .idle →
      (q.store.pending (setup.fingerprint m)).head? = some (id, job) →
      Step setup q (.pick m) (q.work m (.picked id job))
  | onward {a : Action M C} {q' : Queue M C} {m : M} {w : Worker} : (q.workers m).Onward w →
      q'.store = q.store → q'.workers = Function.update q.workers m w →
      q'.history = q.history → q'.cancels = q.cancels → Step setup q a q'
  | begun {m now id job flags} : q.workers m = .picked id job →
      Step setup q (.begin m now)
        { q.work m (.begun id (beginning setup m id now job)) with
          store := q.store.write id (beginning setup m id now job)
          flags := flags
          history := { q.history with ended := q.history.ended.filter (·.1 ≠ id) } }
  | started {m id job children} : q.workers m = .begun id job →
      Step setup q (.start m)
        { q.work m (.started id job) with
          children := children
          history := { q.history with starts := id :: q.history.starts } }
  | ended {m now id job flagged} : q.workers m = .judged id job flagged →
      Step setup q (.store m now)
        { q.work m .idle with
          store := q.store.write id (Queue.ending setup (q.store.find? id) now job flagged)
          history := q.history.ends (q.store.find? id) id
            (Queue.ending setup (q.store.find? id) now job flagged) }

theorem Step.same {setup : Setup M} {q : Queue M C} {a : Action M C} : Step setup q a q :=
  .quiet rfl rfl rfl fun _ cancel found => ⟨cancel, found, rfl, rfl⟩

theorem step_setPriority (setup : Setup M) (q : Queue M C) (jobId : String) (priority : Int) :
    Step setup q (.setPriority jobId priority) (q.setPriority jobId priority) := by
  unfold Queue.setPriority
  split
  next store id ran named =>
    obtain ⟨id', job, named', found, waits, rfl⟩ := JobStore.setPriority_ok ran
    cases named.symm.trans named'
    exact .prioritized named found waits
  next => exact .same

theorem step_drop (setup : Setup M) (q : Queue M C) (jobId : String) :
    Step setup q (.drop jobId) (q.drop jobId) := by
  unfold Queue.drop
  split
  next store id ran named =>
    obtain ⟨id', job, named', found, waits, rfl⟩ := JobStore.drop_ok ran
    cases named.symm.trans named'
    exact .dropped named found waits
  next => exact .same

theorem step_read {setup : Setup M} {q q' : Queue M C} {client : C} {m : M} {id : Nat}
    (stepped : q.read client m id = some q') : Step setup q (.read client m id) q' := by
  unfold Queue.read at stepped
  split at stepped
  next job _ found =>
    split at stepped
    next running =>
      cases stepped
      exact .found found running.1
    next => cases stepped
  next => cases stepped

theorem step_flag {setup : Setup M} {q q' : Queue M C} {client : C}
    (stepped : q.flag client = some q') : Step setup q (.flag client) q' := by
  obtain ⟨cancel, under, rfl⟩ := Option.map_eq_some_iff.mp stepped
  refine .quiet rfl rfl rfl fun other cancel' found => ?_
  by_cases same : other = client
  · subst same
    simp only [Queue.call, Function.update_self] at found
    cases found
    exact ⟨cancel, under, rfl, rfl⟩
  · simp only [Queue.call, Function.update_of_ne same] at found
    exact ⟨cancel', found, rfl, rfl⟩

theorem step_settle {setup : Setup M} {q q' : Queue M C} {client : C} {how : How} {now : Int}
    (stepped : q.settle setup client how now = some q') :
    Step setup q (.settle client how now) q' := by
  unfold Queue.settle at stepped
  split at stepped
  next cancel under =>
    split at stepped
    next =>
      cases stepped
      exact .settled under
    next => cases stepped
  next => cases stepped

theorem step_abandon (setup : Setup M) (q : Queue M C) (client : C) :
    Step setup q (.abandon client) (q.call client none) := by
  refine .quiet rfl rfl rfl fun other cancel found => ?_
  by_cases same : other = client
  · subst same
    simp [Queue.call] at found
  · simp only [Queue.call, Function.update_of_ne same] at found
    exact ⟨cancel, found, rfl, rfl⟩

theorem step_pick {setup : Setup M} {q q' : Queue M C} {m : M}
    (stepped : q.pick setup m = some q') : Step setup q (.pick m) q' := by
  unfold Queue.pick at stepped
  split at stepped
  next id job _ idle waiting =>
    cases stepped
    exact .picked idle (by simp [waiting])
  next => cases stepped

/-- Every step is one of the cases. -/
theorem step_cases {setup : Setup M} {q q' : Queue M C} {a : Action M C}
    (stepped : step setup q a = some q') : Step setup q a q' := by
  cases a with
  | add m present request =>
      cases stepped
      unfold Queue.add
      split
      · exact .same
      · exact .added
  | setPriority jobId priority =>
      cases stepped
      exact step_setPriority setup q jobId priority
  | drop jobId =>
      cases stepped
      exact step_drop setup q jobId
  | read client m id => exact step_read stepped
  | flag client => exact step_flag stepped
  | settle client how now => exact step_settle stepped
  | abandon client =>
      cases stepped
      exact step_abandon setup q client
  | recover m =>
      simp only [step, Queue.recover] at stepped
      split at stepped
      next down =>
        cases stepped
        exact .recovered down
      next => cases stepped
  | pick m => exact step_pick stepped
  | rest m =>
      simp only [step, Queue.rest] at stepped
      split at stepped <;> cases stepped
      all_goals exact .onward (.lets rfl) rfl rfl rfl rfl
  | begin m now =>
      simp only [step, Queue.begin] at stepped
      split at stepped <;> cases stepped
      next id job held => exact .begun held
  | start m =>
      simp only [step, Queue.start] at stepped
      split at stepped <;> cases stepped
      next id job held => exact .started held
  | cannotStart m =>
      simp only [step, Queue.cannotStart] at stepped
      split at stepped <;> cases stepped
      next id job held =>
        have on : (q.workers m).Onward (.exited id { job with rc := some 127 }) := by
          rw [held]
          exact .keeps rfl rfl rfl rfl rfl rfl rfl
        exact .onward on rfl rfl rfl rfl
  | reap m rc =>
      simp only [step, Queue.reap] at stepped
      split at stepped <;> cases stepped
      next id job held =>
        have on : (q.workers m).Onward (.exited id { job with rc := some rc }) := by
          rw [held]
          exact .keeps rfl rfl rfl rfl rfl rfl rfl
        exact .onward on rfl rfl rfl rfl
  | look m now =>
      simp only [step, Queue.look] at stepped
      split at stepped <;> cases stepped
      next id job held =>
        have on : (q.workers m).Onward 
            (.judged id { job with finished := some now } (id ∈ q.flags m)) := by
          rw [held]
          exact .keeps rfl rfl rfl rfl rfl rfl rfl
        exact .onward on rfl rfl rfl rfl
  | store m now =>
      simp only [step, Queue.storeEnd] at stepped
      split at stepped <;> cases stepped
      next id job flagged held => exact .ended held
  | crash m =>
      simp only [step, Queue.crash] at stepped
      split at stepped <;> cases stepped
      exact .onward (.lets rfl) rfl rfl rfl rfl
  | orphanExits m id =>
      simp only [step, Queue.orphanExits] at stepped
      split at stepped <;> cases stepped
      exact .quiet rfl rfl rfl fun _ cancel found => ⟨cancel, found, rfl, rfl⟩

end LocalHarness.WorkQueue
