import LocalHarness.WorkQueue.Waiting

/-! # One store, many machines

A worker takes the jobs of its machine, and those of no machine. While each job taken up
is one that no other machine's worker counts as its own, no job is started twice and no
recovery touches a job that a live worker runs.
-/

namespace LocalHarness.WorkQueue

open LocalHarness.Library LocalHarness.Runs

variable {M C : Type}

/-- No machine but `m` counts the job as its own. -/
def Sole (setup : Setup M) (store : JobStore) (m : M) (job : Job) : Prop :=
  ∀ other ≠ m, store.here (setup.fingerprint other) job = false

instance [Fintype M] [DecidableEq M] (setup : Setup M) (store : JobStore) (m : M) (job : Job) :
    Decidable (Sole setup store m job) :=
  inferInstanceAs (Decidable (∀ other ≠ m, store.here (setup.fingerprint other) job = false))

/-- The job a worker takes up is one that no other machine's worker counts as its own. -/
def Claimed (setup : Setup M) (q : Queue M C) : Action M C → Prop
  | .pick m => ∀ row ∈ (q.store.pending (setup.fingerprint m)).head?, Sole setup q.store m row.2
  | _ => True

instance [Fintype M] [DecidableEq M] (setup : Setup M) (q : Queue M C) (a : Action M C) :
    Decidable (Claimed setup q a) :=
  match a with
  | .pick m =>
      inferInstanceAs (Decidable (∀ row ∈ (q.store.pending (setup.fingerprint m)).head?,
        Sole setup q.store m row.2))
  | .add .. | .setPriority .. | .drop .. | .read .. | .flag .. | .settle .. | .abandon .. |
    .recover .. | .rest .. | .begin .. | .start .. | .cannotStart .. | .reap .. | .look .. |
    .store .. | .crash .. | .orphanExits .. => .isTrue trivial

namespace JobStore

/-- The machine of a job, where it has one, is a machine the store knows. -/
def Known (s : JobStore) (job : Job) : Prop :=
  ∀ mid ∈ job.machineId, mid ∈ s.machines.ids

theorem machineRow_known {s : JobStore} {fingerprint : String} {mid : Nat}
    (row : s.machineRow fingerprint = some mid) : mid ∈ s.machines.ids := by
  obtain ⟨found, here, rfl⟩ := Option.map_eq_some_iff.mp row
  exact Table.mem_ids.mpr ⟨found.2, List.mem_of_find?_eq_some here⟩

/-- A machine that is recorded anew gets a row that no job is of. -/
theorem machineRow_remember (s : JobStore) (fingerprint other : String) :
    (s.remember fingerprint).machineRow other = s.machineRow other ∨
      s.machineRow other = none ∧
        (s.remember fingerprint).machineRow other = some s.machines.nextId := by
  unfold remember
  split
  next => exact .inl rfl
  next absent =>
    cases known : s.machineRow other with
    | some mid =>
        obtain ⟨found, here, rfl⟩ := Option.map_eq_some_iff.mp known
        refine .inl ?_
        simp [machineRow, here]
    | none =>
        have missing := Option.map_eq_none_iff.mp known
        by_cases same : fingerprint = other
        · exact .inr ⟨rfl, by simp [machineRow, missing, same]⟩
        · exact .inl (by simp [machineRow, missing, same])

theorem here_remember {s : JobStore} {job : Job} (known : s.Known job) (fingerprint other : String) :
    (s.remember fingerprint).here other job = s.here other job := by
  cases s.machineRow_remember fingerprint other with
  | inl same => rw [here, here, same]
  | inr new =>
      have fresh : job.machineId ≠ some s.machines.nextId := fun machine =>
        absurd (Table.le_nextId (known _ machine)) (lt_irrefl _)
      rw [here, here, new.1, new.2]
      simp [fresh]

theorem ids_remember {s : JobStore} {fingerprint : String} {mid : Nat}
    (known : mid ∈ s.machines.ids) : mid ∈ (s.remember fingerprint).machines.ids := by
  unfold remember
  split
  next => exact known
  next => exact (Table.mem_ids_insert s.machines.above_nextId).mpr (.inl known)

/-- A job that a machine counts as its own is of a machine the store knows. -/
theorem known_of_here {s : JobStore} {fingerprint : String} {job : Job}
    (mine : s.here fingerprint job = true) : s.Known job := by
  intro mid machine
  unfold here at mine
  split at mine
  next =>
    rw [decide_eq_true_eq] at mine
    rw [mine] at machine
    cases machine
  next own row =>
    rw [decide_eq_true_eq, Option.mem_def.mp machine] at mine
    cases mine with
    | inl same =>
        cases same
        exact machineRow_known row
    | inr none_ => cases none_

theorem here_congr (s : JobStore) (fingerprint : String) {job job' : Job}
    (same : job'.machineId = job.machineId) : s.here fingerprint job' = s.here fingerprint job := by
  rw [here, here, same]

/-- Whose a job is stays as it was, and the machines that were known stay known. -/
def Grown (s s' : JobStore) : Prop :=
  ∀ job, s.Known job → s'.Known job ∧ ∀ fingerprint, s'.here fingerprint job = s.here fingerprint job

theorem Grown.of_machines {s s' : JobStore} (same : s'.machines = s.machines) : s.Grown s' := by
  intro job known
  constructor
  · intro mid machine
    rw [same]
    exact known mid machine
  · intro fingerprint
    rw [here, here, machineRow, machineRow, same]

theorem grown_add (s : JobStore) (fingerprint : String) (r : Request) :
    s.Grown (s.add fingerprint r) :=
  fun _ known => ⟨fun mid machine => ids_remember (known mid machine),
    here_remember known fingerprint⟩

end JobStore

/-- Over the parts of a queue: a job in hand is one machine's alone, and no job is started
    twice. -/
structure Owned (setup : Setup M) (store : JobStore) (workers : M → Worker)
    (history : History) : Prop where
  sole : ∀ m id job, (workers m).holds = some (id, job) →
    Sole setup store m job ∧ store.Known job
  row : ∀ m id job, (workers m).holds = some (id, job) →
    ∀ row, store.find? id = some row → row.machineId = job.machineId
  fresh : ∀ m id job, (workers m).unstarted = some (id, job) → id ∉ history.starts
  lone : ∀ m other id job job', (workers m).holds = some (id, job) →
    (workers other).holds = some (id, job') → other = m
  once : history.starts.Nodup

def Queue.Owned (setup : Setup M) (q : Queue M C) : Prop :=
  WorkQueue.Owned setup q.store q.workers q.history

namespace Owned

variable {setup : Setup M} {store : JobStore} {workers : M → Worker}
  {cancels : C → Option (Cancel M)} {history : History}

theorem restore (owned : Owned setup store workers history)
    (sound : Sound store workers cancels history) {store' : JobStore}
    (keeps : JobStore.Keeps Job.machineId store store') (grown : store.Grown store') : Owned setup store' workers history := by
  refine { owned with sole := ?_, row := ?_ }
  · intro m id job held
    obtain ⟨sole, known⟩ := owned.sole m id job held
    obtain ⟨known', same⟩ := grown job known
    exact ⟨fun other different => (same _).trans (sole other different), known'⟩
  · intro m id job held row found
    obtain ⟨row', found', same⟩ := keeps id (sound.holder m id job held) row found
    exact same.trans (owned.row m id job held row' found')

variable [DecidableEq M]

theorem work (owned : Owned setup store workers history) (m : M) (w : Worker)
    (sole : ∀ id job, w.holds = some (id, job) → Sole setup store m job ∧ store.Known job)
    (row : ∀ id job, w.holds = some (id, job) →
      ∀ row, store.find? id = some row → row.machineId = job.machineId)
    (lone : ∀ id job, w.holds = some (id, job) →
      ∀ other ≠ m, ∀ job', (workers other).holds ≠ some (id, job'))
    (fresh : ∀ id job, w.unstarted = some (id, job) → id ∉ history.starts) :
    Owned setup store (Function.update workers m w) history := by
  refine { owned with sole := ?_, row := ?_, fresh := ?_, lone := ?_ }
  · intro m' id job held
    by_cases same : m' = m
    · subst same
      rw [Function.update_self] at held
      exact sole id job held
    · rw [Function.update_of_ne same] at held
      exact owned.sole m' id job held
  · intro m' id job held
    by_cases same : m' = m
    · subst same
      rw [Function.update_self] at held
      exact row id job held
    · rw [Function.update_of_ne same] at held
      exact owned.row m' id job held
  · intro m' id job waits
    by_cases same : m' = m
    · subst same
      rw [Function.update_self] at waits
      exact fresh id job waits
    · rw [Function.update_of_ne same] at waits
      exact owned.fresh m' id job waits
  · intro first other id job job' held held'
    by_cases one : first = m <;> by_cases two : other = m
    · rw [one, two]
    · rw [one, Function.update_self] at held
      rw [Function.update_of_ne two] at held'
      exact absurd held' (lone id job held other two job')
    · rw [two, Function.update_self] at held'
      rw [Function.update_of_ne one] at held
      exact absurd held (lone id job' held' first one job)
    · rw [Function.update_of_ne one] at held
      rw [Function.update_of_ne two] at held'
      exact owned.lone first other id job job' held held'

/-- A worker goes on with the job it holds. -/
theorem keep (owned : Owned setup store workers history) (m : M) {w : Worker} {id : Nat}
    {job job' : Job} (held : (workers m).holds = some (id, job)) (now : w.holds = some (id, job'))
    (same : job'.machineId = job.machineId)
    (fresh : ∀ id job, w.unstarted = some (id, job) → id ∉ history.starts) :
    Owned setup store (Function.update workers m w) history := by
  obtain ⟨sole, known⟩ := owned.sole m id job held
  apply owned.work m w
  · intro _ _ holds
    rw [now] at holds
    cases holds
    refine ⟨fun other different => ?_, fun mid machine => known mid (same ▸ machine)⟩
    rw [store.here_congr _ same]
    exact sole other different
  · intro _ _ holds row found
    rw [now] at holds
    cases holds
    rw [same]
    exact owned.row m id job held row found
  · intro _ _ holds other different job'' held'
    rw [now] at holds
    cases holds
    exact different (owned.lone m other id job job'' held held')
  · exact fresh

theorem onward (owned : Owned setup store workers history) (m : M) {w : Worker}
    (on : (workers m).Onward w) : Owned setup store (Function.update workers m w) history := by
  cases on with
  | lets nothing =>
      have none_ : ∀ id job, w.holds ≠ some (id, job) := by
        intro id job held
        rw [nothing] at held
        cases held
      exact owned.work m w (fun id job held => absurd held (none_ id job))
        (fun id job held => absurd held (none_ id job))
        (fun id job held => absurd held (none_ id job))
        (fun id job waits => absurd (Worker.holds_of_unstarted waits) (none_ id job))
  | keeps runs held _ started _ _ machine =>
      apply owned.keep m (Worker.holds_of_runs runs) held machine
      intro id job waits
      rw [started] at waits
      cases waits

end Owned

variable [DecidableEq M] [DecidableEq C] {setup : Setup M}

theorem owned_step {q q' : Queue M C} {a : Action M C} (sound : q.Sound) (owned : q.Owned setup)
    (claimed : Claimed setup q a) (stepped : Step setup q a q') : q'.Owned setup := by
  cases stepped with
  | quiet store workers history _ =>
      rw [Queue.Owned, store, workers, history]
      exact owned
  | added => exact owned.restore sound (q.store.keeps_add _ _ _) (q.store.grown_add _ _)
  | @prioritized _ id _ priority _ _ _ =>
      have keeps : JobStore.Keeps Job.machineId q.store
          (q.store.update id fun job => { job with priority := priority }) :=
        q.store.keeps_update _ _ fun _ _ => rfl
      have kept := owned.restore sound keeps (.of_machines rfl)
      exact { kept with }
  | @dropped _ id _ _ _ _ =>
      have kept := owned.restore sound (q.store.keeps_delete _ id) (.of_machines rfl)
      exact { kept with }
  | found => exact owned
  | @settled client cancel how now under =>
      have keeps : JobStore.Keeps Job.machineId q.store
          (q.store.write cancel.id (settling setup q cancel how now)) :=
        q.store.keeps_update _ _ fun _ _ => rfl
      exact owned.restore sound keeps (.of_machines rfl)
  | @recovered m down =>
      have keeps := q.store.keeps_recover Job.machineId (setup.fingerprint m) fun _ => rfl
      exact (owned.restore sound keeps (.of_machines rfl)).onward m
        (.lets (rfl : Worker.idle.holds = none))
  | @picked m id job idle next =>
      obtain ⟨found, waits, mine⟩ := JobStore.next_pending next
      apply owned.work
      · intro _ _ held
        cases held
        exact ⟨claimed (id, job) next, JobStore.known_of_here mine⟩
      · intro _ _ held row found'
        cases held
        cases found.symm.trans found'
        rfl
      · intro _ _ held other different job' held'
        cases held
        have same := owned.row other id job' held' job found
        have theirs := (owned.sole other id job' held').1 m different.symm
        rw [← q.store.here_congr _ same, mine] at theirs
        cases theirs
      · intro _ _ held started
        cases held
        exact (sound.starts id started).2 job found waits
  | onward on store workers history _ =>
      rw [Queue.Owned, store, workers, history]
      exact owned.onward _ on
  | @begun m now id job _ held =>
      have holds : (q.workers m).holds = some (id, job) := by rw [held]; rfl
      have waits : (q.workers m).unstarted = some (id, job) := by rw [held]; rfl
      have keeps : JobStore.Keeps Job.machineId q.store
          (q.store.write id (beginning setup m id now job)) :=
        q.store.keeps_update _ _ fun _ _ => rfl
      have now_ : (Worker.begun id (beginning setup m id now job)).holds =
          some (id, beginning setup m id now job) := rfl
      have kept := (owned.restore sound keeps (.of_machines rfl)).keep m holds now_ rfl (by
        intro _ _ same
        cases same
        exact owned.fresh m id job waits)
      exact { kept with }
  | @started m id job _ held =>
      have holds : (q.workers m).holds = some (id, job) := by rw [held]; rfl
      have waits : (q.workers m).unstarted = some (id, job) := by rw [held]; rfl
      have kept := owned.keep m holds (rfl : (Worker.started id job).holds = some (id, job)) rfl
        (fun _ _ none_ => by cases none_)
      refine { kept with fresh := ?_, once := ?_ }
      · intro other id' job' waits' started
        cases List.mem_cons.mp started with
        | inl same =>
            subst same
            have one := kept.lone m other id' job job' (by simp [Worker.holds])
              (Worker.holds_of_unstarted waits')
            subst one
            simp [Queue.work, Worker.unstarted] at waits'
        | inr old => exact kept.fresh other id' job' waits' old
      · exact List.nodup_cons.mpr ⟨owned.fresh m id job waits, owned.once⟩
  | @ended m now id job flagged held =>
      obtain ⟨_, _, _, machine⟩ := ending_over setup (q.store.find? id) now job flagged
      have keeps : JobStore.Keeps Job.machineId q.store
          (q.store.write id (Queue.ending setup (q.store.find? id) now job flagged)) :=
        q.store.keeps_update _ _ fun _ _ => rfl
      have kept := (owned.restore sound keeps (.of_machines rfl)).onward m
        (.lets (rfl : Worker.idle.holds = none))
      exact { kept with }

theorem owned_start {q : Queue M C} (started : (queueing setup).start q) : q.Owned setup := by
  obtain ⟨down, _, fresh⟩ := started
  have free : ∀ m id job, (q.workers m).holds ≠ some (id, job) := by
    intro m id job held
    rw [down m] at held
    cases held
  constructor
  · exact fun m id job held => absurd held (free m id job)
  · exact fun m id job held => absurd held (free m id job)
  · exact fun m id job waits => absurd (Worker.holds_of_unstarted waits) (free m id job)
  · exact fun m _ id job _ held => absurd held (free m id job)
  · simp [fresh]

theorem queueing_owned : (queueing setup).InvariantWhen (Claimed setup)
    fun q : Queue M C => q.Sound ∧ q.Owned setup :=
  (queueing_sound (Claimed setup)).and_then (fun _ started => owned_start started)
    fun _ _ _ sound owned claimed stepped => owned_step sound owned claimed (step_cases stepped)

/-- No job is started twice, and a recovery changes no job that a live worker runs. -/
theorem machines_own (setup : Setup M) (q : Queue M C)
    (reached : (queueing setup).ReachableWhen (Claimed setup) q) :
    (∀ id, q.history.starts.count id ≤ 1) ∧
      ∀ m q', q.recover setup m = some q' → ∀ id row, q.store.find? id = some row →
        q'.store.find? id ≠ some row → ∀ other job, (q.workers other).runs ≠ some (id, job) := by
  obtain ⟨sound, owned⟩ := queueing_owned.holds reached
  refine ⟨List.nodup_iff_count_le_one.mp owned.once, ?_⟩
  intro m q' recovered id row found changed other job runs
  unfold Queue.recover at recovered
  split at recovered
  next down =>
    cases recovered
    apply changed
    have held := Worker.holds_of_runs runs
    have different : m ≠ other := by
      intro same
      rw [← same, down] at runs
      cases runs
    have theirs : q.store.here (setup.fingerprint m) row = false := by
      rw [q.store.here_congr _ (owned.row other id job held row found)]
      exact (owned.sole other id job held).1 m different
    rw [JobStore.find?_recover, found, Option.map_some, if_neg (by simp [theirs])]
  next => cases recovered

def pair : Setup Bool where
  fingerprint := fun m => if m then "Mac14,12/macOS/arm64" else "Z790/Linux/x86_64"
  logDir := fun _ => "logs/jobs"
  stamp := fun now => toString now

/-- A job that waits since before jobs had machines. -/
def legacy : Queue Bool Unit :=
  { (nothing : Queue Bool Unit) with
    store := (nothing : Queue Bool Unit).store.insert (request.job none) }

theorem legacy_starts : (queueing pair).start legacy :=
  ⟨fun _ => rfl, fun _ => rfl, rfl⟩

/-- Two machines' workers read a job of no machine, and both start it; and one fails the job
    that the other is running. -/
theorem machines_clash :
    (∃ q : Queue Bool Unit, (queueing pair).Reachable q ∧ ¬ ∀ id, q.history.starts.count id ≤ 1) ∧
      ∃ q : Queue Bool Unit, (queueing pair).Reachable q ∧
        ¬ ∀ m q', q.recover pair m = some q' → ∀ id row, q.store.find? id = some row →
          q'.store.find? id ≠ some row → ∀ other job, (q.workers other).runs ≠ some (id, job) := by
  constructor
  · obtain ⟨q, _, reached, twice⟩ := System.reached_by_run
      (fun q : Queue Bool Unit => q.history.starts = [1, 1]) legacy_starts
      (System.meets_true legacy
        [.recover true, .pick true, .recover false, .pick false, .begin true 1, .start true,
          .begin false 1, .start false])
      (by decide)
    have starts := of_decide_eq_true twice
    refine ⟨q, reached, fun once => ?_⟩
    have one := once 1
    rw [starts] at one
    exact absurd one (by decide)
  · obtain ⟨q, _, reached, cut⟩ := System.reached_by_run
      (fun q : Queue Bool Unit => (q.workers true).runs.map Prod.fst = some 1 ∧
        (q.store.find? 1).map Job.state = some .running ∧
        (q.recover pair false).map (fun q' => (q'.store.find? 1).map Job.state) =
          some (some .failed)) legacy_starts
      (System.meets_true legacy [.recover true, .pick true, .begin true 1, .start true])
      (by decide)
    obtain ⟨runs, running, failed⟩ := of_decide_eq_true cut
    obtain ⟨⟨_, job⟩, runs, rfl⟩ := Option.map_eq_some_iff.mp runs
    obtain ⟨row, found, state⟩ := Option.map_eq_some_iff.mp running
    obtain ⟨q', recovered, failed⟩ := Option.map_eq_some_iff.mp failed
    refine ⟨q, reached, fun gone => gone false q' recovered 1 row found ?_ true job runs⟩
    intro same
    rw [same, Option.map_some, state] at failed
    exact absurd failed (by decide)

/-- A worker dies with its job started, and recovers; the other machine recovers as well. -/
theorem machines_own_restart : ∃ q : Queue Bool Unit,
    q.history.starts = [2, 1] ∧ ∀ id, q.history.starts.count id ≤ 1 := by
  obtain ⟨q, _, reached, closed⟩ := System.reached_by_run
    (fun q : Queue Bool Unit => q.history.starts = [2, 1])
    (nothing_starts pair)
    (by decide +kernel : (queueing pair).Meets (Claimed pair) nothing
      [.add true (fun _ => false) request, .add false (fun _ => false) request, .recover true,
        .pick true, .begin true 1, .start true, .recover false, .crash true, .recover true,
        .pick false, .begin false 2, .start false])
    (by decide +kernel)
  exact ⟨q, of_decide_eq_true closed, (machines_own pair q reached).1⟩

end LocalHarness.WorkQueue
