import LocalHarness.WorkQueue.Steps

/-! # What holds of a queue whatever the order of its steps

A job that was ever stored as running does not wait again, so nothing that comes after
that can take it for a pending one; and an id that was given out stays given out.
-/

namespace LocalHarness.WorkQueue

open LocalHarness.Library LocalHarness.Runs

variable {M C : Type}

/-- Over the parts of a queue that its invariants speak of. -/
structure Sound (store : JobStore) (workers : M → Worker) (cancels : C → Option (Cancel M))
    (history : History) : Prop where
  holder : ∀ m id job, (workers m).holds = some (id, job) → id ≤ store.sequence
  runner : ∀ m id job, (workers m).runs = some (id, job) →
    store.Settled id ∧ job.state ≠ .pending
  cancel : ∀ client cancel, cancels client = some cancel → store.Settled cancel.id
  starts : ∀ id ∈ history.starts, store.Settled id
  dropped : ∀ id ∈ history.dropped, id ≤ store.sequence ∧ store.find? id = none
  asked : ∀ id priority, (id, priority) ∈ history.asked → id ≤ store.sequence
  ended : ∀ id ending, (id, ending) ∈ history.ended → store.Settled id

def Queue.Sound (q : Queue M C) : Prop :=
  WorkQueue.Sound q.store q.workers q.cancels q.history

namespace Sound

variable {store : JobStore} {workers : M → Worker} {cancels : C → Option (Cancel M)}
  {history : History}

/-- A statement on the store takes nothing from it. -/
theorem restore (sound : Sound store workers cancels history) {store' : JobStore}
    (steady : store.Steady store') : Sound store' workers cancels history where
  holder := fun m id job held => le_trans (sound.holder m id job held) steady.sequence
  runner := fun m id job runs =>
    ⟨steady.settled id (sound.runner m id job runs).1, (sound.runner m id job runs).2⟩
  cancel := fun client cancel under => steady.settled _ (sound.cancel client cancel under)
  starts := fun id started => steady.settled id (sound.starts id started)
  dropped := fun id gone =>
    ⟨le_trans (sound.dropped id gone).1 steady.sequence,
      steady.gone id (sound.dropped id gone).1 (sound.dropped id gone).2⟩
  asked := fun id priority named => le_trans (sound.asked id priority named) steady.sequence
  ended := fun id ending named => steady.settled id (sound.ended id ending named)

theorem work [DecidableEq M] (sound : Sound store workers cancels history) (m : M) (w : Worker)
    (holder : ∀ id job, w.holds = some (id, job) → id ≤ store.sequence)
    (runner : ∀ id job, w.runs = some (id, job) → store.Settled id ∧ job.state ≠ .pending) :
    Sound store (Function.update workers m w) cancels history := by
  refine { sound with holder := ?_, runner := ?_ }
  · intro m' id job held
    by_cases same : m' = m
    · subst same
      rw [Function.update_self] at held
      exact holder id job held
    · rw [Function.update_of_ne same] at held
      exact sound.holder m' id job held
  · intro m' id job runs
    by_cases same : m' = m
    · subst same
      rw [Function.update_self] at runs
      exact runner id job runs
    · rw [Function.update_of_ne same] at runs
      exact sound.runner m' id job runs

/-- A worker that goes on, or lets go, is as sound as it was. -/
theorem onward [DecidableEq M] (sound : Sound store workers cancels history) (m : M) {w : Worker}
    (on : (workers m).Onward w) : Sound store (Function.update workers m w) cancels history := by
  cases on with
  | lets nothing =>
      apply sound.work m _
      · intro id job held
        rw [nothing] at held
        cases held
      · intro id job runs
        rw [Worker.holds_of_runs runs] at nothing
        cases nothing
  | keeps runs held' runs' _ state _ _ =>
      obtain ⟨settled, begun⟩ := sound.runner m _ _ runs
      apply sound.work m _
      · intro id job held
        rw [held'] at held
        cases held
        exact settled.1
      · intro id job still
        rw [runs'] at still
        cases still
        exact ⟨settled, state ▸ begun⟩

theorem call [DecidableEq C] (sound : Sound store workers cancels history) (client : C)
    {cancel? : Option (Cancel M)} (settled : ∀ cancel, cancel? = some cancel →
      store.Settled cancel.id) :
    Sound store workers (Function.update cancels client cancel?) history := by
  refine { sound with cancel := ?_ }
  intro other cancel under
  by_cases same : other = client
  · subst same
    rw [Function.update_self] at under
    exact settled cancel under
  · rw [Function.update_of_ne same] at under
    exact sound.cancel other cancel under

end Sound

/-- What `run_one` ends a job with. -/
theorem ending_over (setup : Setup M) (stored : Option Job) (now : Int) (job : Job)
    (flagged : Bool) :
    (Queue.ending setup stored now job flagged).state ≠ .pending ∧
      (Queue.ending setup stored now job flagged).state ≠ .running ∧
      (Queue.ending setup stored now job flagged).priority = job.priority ∧
      (Queue.ending setup stored now job flagged).machineId = job.machineId := by
  unfold Queue.ending
  cases flagged with
  | true => exact ⟨JobState.noConfusion, JobState.noConfusion, rfl, rfl⟩
  | false =>
      by_cases well : job.rc = some 0
      · simp [well]
      · simp [well]

variable [DecidableEq M] [DecidableEq C] {setup : Setup M}

theorem sound_step {q q' : Queue M C} {a : Action M C} (sound : q.Sound) (stepped : Step setup q a q') :
    q'.Sound := by
  cases stepped with
  | quiet store workers history cancels =>
      have under : ∀ client cancel, q'.cancels client = some cancel →
          q.store.Settled cancel.id := by
        intro client cancel found
        obtain ⟨cancel', found', same, _⟩ := cancels client cancel found
        exact same ▸ sound.cancel client cancel' found'
      rw [Queue.Sound, store, workers, history]
      exact { sound with cancel := under }
  | added => exact sound.restore (q.store.steady_add _ _)
  | @prioritized _ id _ priority _ found _ =>
      have steady : q.store.Steady (q.store.update id fun job => { job with priority := priority }) :=
        q.store.steady_update id fun _ begun => begun
      have kept := sound.restore steady
      have given : id ≤ q.store.sequence := JobStore.find?_le_sequence found
      refine { kept with asked := ?_ }
      intro other asked named
      cases List.mem_cons.mp named with
      | inl new =>
          cases new
          exact given
      | inr old => exact sound.asked other asked old
  | @dropped _ id _ _ found _ =>
      have kept := sound.restore (q.store.steady_delete id)
      have given : id ≤ q.store.sequence := JobStore.find?_le_sequence found
      refine { kept with dropped := ?_ }
      intro other gone
      cases List.mem_cons.mp gone with
      | inl new =>
          cases new
          exact ⟨given, by rw [JobStore.find?_delete, if_pos rfl]⟩
      | inr old => exact kept.dropped other old
  | found found running =>
      apply sound.call
      intro cancel new
      cases new
      refine ⟨JobStore.find?_le_sequence found, fun job found' => ?_⟩
      cases found.symm.trans found'
      rw [running]
      exact JobState.noConfusion
  | settled under =>
      apply (sound.call _ fun _ new => by cases new).restore
      exact q.store.steady_write _ JobState.noConfusion
  | @recovered m down =>
      have worked := sound.onward m (.lets (rfl : Worker.idle.holds = none))
      exact worked.restore (q.store.steady_recover _)
  | picked idle next =>
      obtain ⟨found, _, _⟩ := JobStore.next_pending next
      apply sound.work
      · intro id job held
        cases held
        exact JobStore.find?_le_sequence found
      · intro id job runs
        cases runs
  | onward on store workers history cancels =>
      rw [Queue.Sound, store, workers, history, cancels]
      exact sound.onward _ on
  | @begun m now id job _ held =>
      have running : (beginning setup m id now job).state ≠ .pending := JobState.noConfusion
      have given : id ≤ q.store.sequence := sound.holder m id job (by rw [held]; rfl)
      have stored := JobStore.settled_write given running
      have kept := (sound.restore (q.store.steady_write id running)).work m
        (.begun id (beginning setup m id now job))
        (fun _ _ same => by cases same; exact stored.1)
        (fun _ _ same => by cases same; exact ⟨stored, running⟩)
      refine { kept with ended := ?_ }
      intro other ending named
      exact kept.ended other ending (List.mem_filter.mp named).1
  | @started m id job _ held =>
      have runs : (q.workers m).runs = some (id, job) := by rw [held]; rfl
      have on : (q.workers m).Onward (.started id job) := .keeps runs rfl rfl rfl rfl rfl rfl
      have kept := sound.onward m on
      refine { kept with starts := ?_ }
      intro other named
      cases List.mem_cons.mp named with
      | inl new => exact new ▸ (sound.runner m id job runs).1
      | inr old => exact sound.starts other old
  | @ended m now id job flagged held =>
      have runs : (q.workers m).runs = some (id, job) := by rw [held]; rfl
      have closed := (ending_over setup (q.store.find? id) now job flagged).1
      have kept := (sound.onward m (.lets (rfl : Worker.idle.holds = none))).restore
        (q.store.steady_write id closed)
      refine { kept with ended := ?_ }
      intro other ending named
      dsimp only [History.ends] at named
      split at named
      · cases List.mem_cons.mp named with
        | inl new =>
            cases new
            exact JobStore.settled_write (sound.runner m id job runs).1.1 closed
        | inr old => exact kept.ended other ending old
      · exact kept.ended other ending named

theorem sound_start {q : Queue M C} (started : (queueing setup).start q) : q.Sound := by
  obtain ⟨down, free, fresh⟩ := started
  constructor
  · intro m id job held
    rw [down m] at held
    cases held
  · intro m id job runs
    rw [down m] at runs
    cases runs
  · intro client cancel under
    rw [free client] at under
    cases under
  all_goals simp [fresh]

/-- Whatever the guard, every state reached is sound. -/
theorem queueing_sound (ok : Queue M C → Action M C → Prop) :
    (queueing setup).InvariantWhen ok Queue.Sound where
  start := fun _ started => sound_start started
  step := fun _ _ _ sound _ stepped => sound_step sound (step_cases stepped)

end LocalHarness.WorkQueue
