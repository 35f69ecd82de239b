import Mathlib.Data.Fintype.Basic
import LocalHarness.WorkQueue.Sound

/-! # What a client asks of a job that waits

A cancel or a new priority that the store accepted is lost when a worker has read the
job and not yet stored it as running. Where none lands there, every one is heeded.
-/

namespace LocalHarness.WorkQueue

open LocalHarness.Library LocalHarness.Runs

/-- The job a worker has read and not yet stored as running. -/
def Worker.picks : Worker → Option Nat
  | picked id _ => some id
  | _ => none

variable {M C : Type}

/-- No cancel and no new priority of a waiting job lands on one that a worker has read and
    not yet stored as running. -/
def Unseen (q : Queue M C) : Action M C → Prop
  | .setPriority jobId _ | .drop jobId => ∀ id ∈ key jobId, ∀ m, (q.workers m).picks ≠ some id
  | _ => True

instance [Fintype M] (q : Queue M C) : (a : Action M C) → Decidable (Unseen q a)
  | .setPriority jobId _ | .drop jobId =>
      inferInstanceAs (Decidable (∀ id ∈ key jobId, ∀ m, (q.workers m).picks ≠ some id))
  | .add .. | .read .. | .flag .. | .settle .. | .abandon .. | .recover .. | .pick .. |
    .rest .. | .begin .. | .start .. | .cannotStart .. | .reap .. | .look .. | .store .. |
    .crash .. | .orphanExits .. => .isTrue trivial

/-- Over the parts of a queue: no dropped job is started or held, and a job in hand has the
    priority of its row, which is the one set last. -/
structure Heeded (store : JobStore) (workers : M → Worker) (cancels : C → Option (Cancel M))
    (history : History) : Prop where
  dropped : ∀ id ∈ history.dropped, id ∉ history.starts ∧
    ∀ m job, (workers m).holds ≠ some (id, job)
  held : ∀ m id job, (workers m).holds = some (id, job) →
    ∀ row, store.find? id = some row → row.priority = job.priority
  cancel : ∀ client cancel, cancels client = some cancel →
    ∀ row, store.find? cancel.id = some row → row.priority = cancel.job.priority
  asked : ∀ id priority, history.asked.lookup id = some priority →
    ∀ row, store.find? id = some row → row.priority = priority

def Queue.Heeded (q : Queue M C) : Prop :=
  WorkQueue.Heeded q.store q.workers q.cancels q.history

namespace Heeded

variable {store : JobStore} {workers : M → Worker} {cancels : C → Option (Cancel M)}
  {history : History}

theorem mem_asked {asked : List (Nat × Int)} {id : Nat} {priority : Int}
    (latest : asked.lookup id = some priority) : (id, priority) ∈ asked := by
  obtain ⟨front, back, rows, _⟩ := List.lookup_eq_some_iff.mp latest
  exact rows ▸ List.mem_append_right front List.mem_cons_self

theorem restore (heeded : Heeded store workers cancels history)
    (sound : Sound store workers cancels history) {store' : JobStore}
    (keeps : JobStore.Keeps Job.priority store store') :
    Heeded store' workers cancels history := by
  refine { heeded with held := ?_, cancel := ?_, asked := ?_ }
  · intro m id job held row found
    obtain ⟨row', found', same⟩ := keeps id (sound.holder m id job held) row found
    exact same.trans (heeded.held m id job held row' found')
  · intro client cancel under row found
    obtain ⟨row', found', same⟩ := keeps _ (sound.cancel client cancel under).1 row found
    exact same.trans (heeded.cancel client cancel under row' found')
  · intro id priority latest row found
    obtain ⟨row', found', same⟩ :=
      keeps id (sound.asked id priority (mem_asked latest)) row found
    exact same.trans (heeded.asked id priority latest row' found')

theorem work [DecidableEq M] (heeded : Heeded store workers cancels history) (m : M) (w : Worker)
    (now : ∀ id job, w.holds = some (id, job) → id ∉ history.dropped ∧
      ∀ row, store.find? id = some row → row.priority = job.priority) :
    Heeded store (Function.update workers m w) cancels history := by
  refine { heeded with dropped := ?_, held := ?_ }
  · intro id gone
    refine ⟨(heeded.dropped id gone).1, fun m' job held => ?_⟩
    by_cases same : m' = m
    · subst same
      rw [Function.update_self] at held
      exact (now id job held).1 gone
    · rw [Function.update_of_ne same] at held
      exact (heeded.dropped id gone).2 m' job held
  · intro m' id job held
    by_cases same : m' = m
    · subst same
      rw [Function.update_self] at held
      exact (now id job held).2
    · rw [Function.update_of_ne same] at held
      exact heeded.held m' id job held

theorem not_dropped (heeded : Heeded store workers cancels history) {m : M} {id : Nat} {job : Job}
    (held : (workers m).holds = some (id, job)) : id ∉ history.dropped :=
  fun gone => (heeded.dropped id gone).2 m job held

theorem onward [DecidableEq M] (heeded : Heeded store workers cancels history) (m : M) {w : Worker}
    (on : (workers m).Onward w) : Heeded store (Function.update workers m w) cancels history := by
  apply heeded.work
  intro id job held
  cases on with
  | lets nothing =>
      rw [nothing] at held
      cases held
  | keeps runs held' _ _ _ priority _ =>
      have before := Worker.holds_of_runs runs
      rw [held'] at held
      cases held
      exact ⟨heeded.not_dropped before, fun row found =>
        (heeded.held m _ _ before row found).trans priority.symm⟩

theorem call [DecidableEq C] (heeded : Heeded store workers cancels history) (client : C)
    (cancel? : Option (Cancel M)) (same : ∀ cancel, cancel? = some cancel →
      ∀ row, store.find? cancel.id = some row → row.priority = cancel.job.priority) :
    Heeded store workers (Function.update cancels client cancel?) history := by
  refine { heeded with cancel := ?_ }
  intro other cancel under
  by_cases here : other = client
  · subst here
    rw [Function.update_self] at under
    exact same cancel under
  · rw [Function.update_of_ne here] at under
    exact heeded.cancel other cancel under

end Heeded

/-- A waiting job that no worker has read is held by none. -/
theorem Sound.not_held {store : JobStore} {workers : M → Worker}
    {cancels : C → Option (Cancel M)} {history : History}
    (sound : Sound store workers cancels history) {id : Nat} {row : Job}
    (found : store.find? id = some row) (waits : row.state = .pending)
    (unseen : ∀ m, (workers m).picks ≠ some id) (m : M) (job : Job) :
    (workers m).holds ≠ some (id, job) := by
  intro held
  cases Worker.picked_or_runs held with
  | inl picked => exact unseen m (by rw [picked]; rfl)
  | inr runs => exact (sound.runner m id job runs).1.2 row found waits

/-- A waiting job is not one that a cancel found running. -/
theorem Sound.not_cancelling {store : JobStore} {workers : M → Worker}
    {cancels : C → Option (Cancel M)} {history : History}
    (sound : Sound store workers cancels history) {id : Nat} {row : Job}
    (found : store.find? id = some row) (waits : row.state = .pending) {client : C}
    {cancel : Cancel M} (under : cancels client = some cancel) : cancel.id ≠ id := by
  intro same
  exact (sound.cancel client cancel under).2 row (same ▸ found) waits

variable [DecidableEq M] [DecidableEq C] {setup : Setup M}

theorem heeded_step {q q' : Queue M C} {a : Action M C} (sound : q.Sound) (heeded : q.Heeded)
    (unseen : Unseen q a) (stepped : Step setup q a q') : q'.Heeded := by
  cases stepped with
  | quiet store workers history cancels =>
      have under : ∀ client cancel, q'.cancels client = some cancel →
          ∀ row, q.store.find? cancel.id = some row → row.priority = cancel.job.priority := by
        intro client cancel found
        obtain ⟨cancel', found', same, job⟩ := cancels client cancel found
        rw [← same, ← job]
        exact heeded.cancel client cancel' found'
      rw [Queue.Heeded, store, workers, history]
      exact { heeded with cancel := under }
  | added => exact heeded.restore sound (q.store.keeps_add _ _ _)
  | @prioritized jobId id row priority named found waits =>
      have free := sound.not_held found waits (unseen id named)
      have other : ∀ id' ≠ id, ∀ row', (q.store.update id fun job =>
          { job with priority := priority }).find? id' = some row' →
          q.store.find? id' = some row' := by
        intro id' different row' found'
        rwa [JobStore.find?_update, if_neg different] at found'
      refine ⟨heeded.dropped, ?_, ?_, ?_⟩
      · intro m id' job held row' found'
        have different : id' ≠ id := fun same => free m job (same ▸ held)
        exact heeded.held m id' job held row' (other id' different row' found')
      · intro client cancel under row' found'
        have different := sound.not_cancelling found waits under
        exact heeded.cancel client cancel under row' (other _ different row' found')
      · intro id' asked latest row' found'
        by_cases same : id' = id
        · subst same
          rw [List.lookup_cons_self, Option.some.injEq] at latest
          rw [JobStore.find?_update, if_pos rfl] at found'
          obtain ⟨_, _, rfl⟩ := Option.map_eq_some_iff.mp found'
          exact latest
        · rw [List.lookup_cons, beq_false_of_ne same] at latest
          exact heeded.asked id' asked latest row' (other id' same row' found')
  | @dropped jobId id row named found waits =>
      have free := sound.not_held found waits (unseen id named)
      have kept := heeded.restore sound (q.store.keeps_delete _ id)
      refine { kept with dropped := ?_ }
      intro other gone
      cases List.mem_cons.mp gone with
      | inl new =>
          rw [new]
          exact ⟨fun started => (sound.starts id started).2 row found waits, free⟩
      | inr old => exact heeded.dropped other old
  | found found running =>
      apply heeded.call
      intro cancel new
      cases new
      intro row found'
      cases found.symm.trans found'
      rfl
  | @settled client cancel how now under =>
      have keeps : JobStore.Keeps Job.priority q.store
          (q.store.write cancel.id (settling setup q cancel how now)) :=
        q.store.keeps_update _ _ fun row found =>
          (heeded.cancel client cancel under row found).symm
      exact (heeded.restore sound keeps).call client none fun _ new => by cases new
  | @recovered m down =>
      exact (heeded.restore sound (q.store.keeps_recover _ _ fun _ => rfl)).onward m
        (.lets (rfl : Worker.idle.holds = none))
  | @picked m id job idle next =>
      obtain ⟨found, _, _⟩ := JobStore.next_pending next
      apply heeded.work
      intro id' job' held
      cases held
      constructor
      · intro gone
        rw [(sound.dropped id gone).2] at found
        cases found
      · intro row found'
        cases found.symm.trans found'
        rfl
  | onward on store workers history cancels =>
      rw [Queue.Heeded, store, workers, history, cancels]
      exact heeded.onward _ on
  | @begun m now id job _ held =>
      have before : (q.workers m).holds = some (id, job) := by rw [held]; rfl
      have keeps : JobStore.Keeps Job.priority q.store
          (q.store.write id (beginning setup m id now job)) :=
        q.store.keeps_update _ _ fun row found => (heeded.held m id job before row found).symm
      have kept := (heeded.restore sound keeps).work m (.begun id (beginning setup m id now job))
        (by
          intro id' job' after
          cases after
          refine ⟨heeded.not_dropped before, fun row found => ?_⟩
          obtain ⟨_, _, rfl⟩ := JobStore.find?_write_self found
          rfl)
      exact { kept with }
  | @started m id job _ held =>
      have runs : (q.workers m).runs = some (id, job) := by rw [held]; rfl
      have on : (q.workers m).Onward (.started id job) := .keeps runs rfl rfl rfl rfl rfl rfl
      have kept := heeded.onward m on
      refine { kept with dropped := ?_ }
      intro other gone
      refine ⟨fun started => ?_, (kept.dropped other gone).2⟩
      cases List.mem_cons.mp started with
      | inl new =>
          rw [new] at gone
          exact heeded.not_dropped (Worker.holds_of_runs runs) gone
      | inr old => exact (heeded.dropped other gone).1 old
  | @ended m now id job flagged held =>
      have before : (q.workers m).holds = some (id, job) := by rw [held]; rfl
      obtain ⟨_, _, priority, _⟩ := ending_over setup (q.store.find? id) now job flagged
      have keeps : JobStore.Keeps Job.priority q.store
          (q.store.write id (Queue.ending setup (q.store.find? id) now job flagged)) :=
        q.store.keeps_update _ _ fun row found =>
          priority.trans (heeded.held m id job before row found).symm
      have kept := (heeded.restore sound keeps).onward m (.lets (rfl : Worker.idle.holds = none))
      exact { kept with }

theorem heeded_start {q : Queue M C} (started : (queueing setup).start q) : q.Heeded := by
  obtain ⟨down, free, fresh⟩ := started
  constructor
  · simp [fresh]
  · intro m id job held
    rw [down m] at held
    cases held
  · intro client cancel under
    rw [free client] at under
    cases under
  · simp [fresh]

theorem queueing_heeded : (queueing setup).InvariantWhen Unseen
    fun q : Queue M C => q.Sound ∧ q.Heeded :=
  (queueing_sound Unseen).and_then (fun _ started => heeded_start started)
    fun _ _ _ sound heeded unseen stepped => heeded_step sound heeded unseen (step_cases stepped)

/-- No job whose cancel succeeded while it waited is started, and the priority of a job is
    the one set last. -/
theorem waiting_heeded (q : Queue M C) (reached : (queueing setup).ReachableWhen Unseen q) :
    (∀ id ∈ q.history.dropped, id ∉ q.history.starts) ∧
      ∀ id priority, q.history.asked.lookup id = some priority →
        ∀ row, q.store.find? id = some row → row.priority = priority := by
  have heeded := (queueing_heeded.holds reached).2
  exact ⟨fun id gone => (heeded.dropped id gone).1, heeded.asked⟩

/-- No jobs, and machines that have not recorded themselves. -/
def nothing {M C : Type} : Queue M C where
  store := ⟨∅, 0, fun _ present => absurd present List.not_mem_nil, ∅⟩
  workers := fun _ => .down
  children := fun _ => []
  flags := fun _ => []
  cancels := fun _ => none
  history := ⟨[], [], [], []⟩

theorem nothing_starts (setup : Setup M) : (queueing setup).start (nothing : Queue M C) :=
  ⟨fun _ => rfl, fun _ => rfl, rfl⟩

def mini : Setup Unit where
  fingerprint := fun _ => "Mac14,12/macOS/arm64"
  logDir := fun _ => "logs/jobs"
  stamp := fun now => toString now

def request : JobStore.Request where
  argv := ["uv", "run", "lh", "loop"]
  cwd := "/srv/localharness"
  now := 0

def enqueue : Action Unit Unit := .add () (fun _ => false) request

/-- A client's cancel, and a client's priority, land on a job the worker has read: the one is
    started and the other is set back. -/
theorem waiting_missed :
    (∃ q : Queue Unit Unit, (queueing mini).Reachable q ∧
        ¬ ∀ id ∈ q.history.dropped, id ∉ q.history.starts) ∧
      ∃ q : Queue Unit Unit, (queueing mini).Reachable q ∧
        ¬ ∀ id priority, q.history.asked.lookup id = some priority →
          ∀ row, q.store.find? id = some row → row.priority = priority := by
  constructor
  · obtain ⟨q, _, reached, started⟩ := System.reached_by_run
      (fun q : Queue Unit Unit => q.history.dropped = [1] ∧ q.history.starts = [1])
      (nothing_starts mini)
      (System.meets_true nothing
        [enqueue, .recover (), .pick (), .drop "0001", .begin () 1, .start ()])
      (by decide +kernel)
    obtain ⟨dropped, starts⟩ := of_decide_eq_true started
    exact ⟨q, reached, fun kept => kept 1 (by simp [dropped]) (by simp [starts])⟩
  · obtain ⟨q, _, reached, back⟩ := System.reached_by_run
      (fun q : Queue Unit Unit => q.history.asked = [(1, 5)] ∧
        (q.store.find? 1).map Job.priority = some 0)
      (nothing_starts mini)
      (System.meets_true nothing
        [enqueue, .recover (), .pick (), .setPriority "0001" 5, .begin () 1])
      (by decide +kernel)
    obtain ⟨asked, priority⟩ := of_decide_eq_true back
    obtain ⟨row, found, low⟩ := Option.map_eq_some_iff.mp priority
    refine ⟨q, reached, fun kept => ?_⟩
    have high := kept 1 5 (by simp [asked]) row found
    rw [low] at high
    exact absurd high (by decide)

/-- Both land before the worker reads the list: the one job is not started and the other
    keeps its priority to its end. -/
theorem waiting_heeded_round : ∃ q : Queue Unit Unit,
    q.history.dropped = [1] ∧ 1 ∉ q.history.starts ∧ q.history.asked = [(2, 5)] ∧
      ∀ row, q.store.find? 2 = some row → row.priority = 5 := by
  obtain ⟨q, _, reached, closed⟩ := System.reached_by_run
    (fun q : Queue Unit Unit => q.history.dropped = [1] ∧ q.history.asked = [(2, 5)])
    (nothing_starts mini)
    (by decide +kernel : (queueing mini).Meets Unseen nothing
      [enqueue, enqueue, .setPriority "0002" 5, .drop "0001", .recover (), .pick (),
        .begin () 1, .start (), .reap () 0, .look () 2, .store () 2])
    (by decide +kernel)
  obtain ⟨dropped, asked⟩ := of_decide_eq_true closed
  obtain ⟨unstarted, kept⟩ := waiting_heeded q reached
  exact ⟨q, dropped, unstarted 1 (by simp [dropped]), asked, kept 2 5 (by simp [asked])⟩

end LocalHarness.WorkQueue
