import LocalHarness.WorkQueue.Waiting

/-! # What a cancel does to a job that has ended

A cancel that found its job running settles it later from the row it read, whatever the
row says by then. An end that `run_one` stores while no such cancel is under way is final.
-/

namespace LocalHarness.WorkQueue

open LocalHarness.Library LocalHarness.Runs

variable {M C : Type}

/-- A worker stores an end only when no cancel of that job is on its way to settle it. -/
def Alone (q : Queue M C) : Action M C → Prop
  | .store m _ => ∀ client, ∀ cancel ∈ q.cancels client, ∀ job ∈ (q.workers m).runs, cancel.id ≠ job.1
  | _ => True

instance [Fintype C] (q : Queue M C) : (a : Action M C) → Decidable (Alone q a)
  | .store m _ =>
      inferInstanceAs (Decidable (∀ client, ∀ cancel ∈ q.cancels client,
        ∀ job ∈ (q.workers m).runs, cancel.id ≠ job.1))
  | .add .. | .setPriority .. | .drop .. | .read .. | .flag .. | .settle .. | .abandon .. |
    .recover .. | .pick .. | .rest .. | .begin .. | .start .. | .cannotStart .. | .reap .. |
    .look .. | .crash .. | .orphanExits .. => .isTrue trivial

/-- Each end that was stored stands in its row, and no cancel is under way that could
    settle that job. -/
def Final (store : JobStore) (cancels : C → Option (Cancel M)) (history : History) : Prop :=
  ∀ id ending, history.ended.lookup id = some ending →
    (ending.1 ≠ .pending ∧ ending.1 ≠ .running) ∧
      (∃ row, store.find? id = some row ∧ (row.state, row.rc) = ending) ∧
        ∀ client cancel, cancels client = some cancel → cancel.id ≠ id

def Queue.Final (q : Queue M C) : Prop :=
  WorkQueue.Final q.store q.cancels q.history

namespace Final

variable {store : JobStore} {cancels : C → Option (Cancel M)} {history : History}

/-- A statement that leaves the rows of the ended jobs as they are. -/
theorem restore (final : Final store cancels history) {store' : JobStore}
    (stands : ∀ id row, store.find? id = some row → row.state ≠ .pending → row.state ≠ .running →
      (∀ client cancel, cancels client = some cancel → cancel.id ≠ id) →
      ∃ row', store'.find? id = some row' ∧ (row'.state, row'.rc) = (row.state, row.rc)) :
    Final store' cancels history := by
  intro id ending named
  obtain ⟨closed, ⟨row, found, same⟩, free⟩ := final id ending named
  subst same
  obtain ⟨row', found', same'⟩ := stands id row found closed.1 closed.2 free
  exact ⟨closed, ⟨row', found', same'⟩, free⟩

theorem call [DecidableEq C] (final : Final store cancels history) (client : C)
    (cancel? : Option (Cancel M)) (other : ∀ cancel, cancel? = some cancel →
      ∀ id ending, history.ended.lookup id = some ending → cancel.id ≠ id) :
    Final store (Function.update cancels client cancel?) history := by
  intro id ending named
  obtain ⟨closed, stands, free⟩ := final id ending named
  refine ⟨closed, stands, fun caller cancel under => ?_⟩
  by_cases same : caller = client
  · subst same
    rw [Function.update_self] at under
    exact other cancel under id ending named
  · rw [Function.update_of_ne same] at under
    exact free caller cancel under

end Final

/-- What is left of the ends when one job's is forgotten. -/
theorem lookup_filter {α : Type} {ended : List (Nat × α)} {id other : Nat} {ending : α}
    (found : (ended.filter (·.1 ≠ id)).lookup other = some ending) :
    other ≠ id ∧ ended.lookup other = some ending := by
  induction ended with
  | nil => cases found
  | cons head rest ih =>
      by_cases forgotten : head.1 = id
      · rw [List.filter_cons_of_neg (by simp [forgotten])] at found
        obtain ⟨different, kept⟩ := ih found
        have passed : (other == head.1) = false := by simp [forgotten, different]
        exact ⟨different, by rw [List.lookup_cons, passed, kept]⟩
      · rw [List.filter_cons_of_pos (by simp [forgotten])] at found
        rw [List.lookup_cons] at found ⊢
        cases here : other == head.1 with
        | true =>
            rw [here] at found
            exact ⟨beq_iff_eq.mp here ▸ forgotten, found⟩
        | false =>
            rw [here] at found
            exact ih found

/-- A write leaves the row of another job. -/
theorem JobStore.find?_write_of_ne {s : JobStore} {id other : Nat} {dict row : Job}
    (found : s.find? other = some row) (different : other ≠ id) :
    (s.write id dict).find? other = some row := by
  rw [write, find?_update, if_neg different, found]

/-- A stored end is final when no cancel of that job is under way. -/
theorem Final.ends {store : JobStore} {cancels : C → Option (Cancel M)} {history : History}
    (final : Final store cancels history) {id : Nat} {dict : Job} (closed : dict.state ≠ .pending)
    (stopped : dict.state ≠ .running)
    (free : ∀ client cancel, cancels client = some cancel → cancel.id ≠ id) :
    Final (store.write id dict) cancels (history.ends (store.find? id) id dict) := by
  have kept : ∀ other ≠ id, ∀ ending, history.ended.lookup other = some ending →
      (ending.1 ≠ .pending ∧ ending.1 ≠ .running) ∧
        (∃ row, (store.write id dict).find? other = some row ∧ (row.state, row.rc) = ending) ∧
          ∀ client cancel, cancels client = some cancel → cancel.id ≠ other := by
    intro other different ending named
    obtain ⟨closed, ⟨row, found, same⟩, free⟩ := final other ending named
    exact ⟨closed, ⟨row, JobStore.find?_write_of_ne found different, same⟩, free⟩
  intro other ending named
  dsimp only [History.ends] at named
  cases stored : store.find? id with
  | none =>
      rw [stored] at named
      have different : other ≠ id := by
        intro same
        obtain ⟨_, ⟨row, found, _⟩, _⟩ := final other ending named
        rw [same, stored] at found
        cases found
      exact kept other different ending named
  | some row =>
      rw [stored, Option.isSome_some, if_pos rfl, List.lookup_cons] at named
      by_cases same : other = id
      · subst same
        rw [beq_self_eq_true] at named
        cases named
        refine ⟨⟨closed, stopped⟩, ⟨JobStore.written dict row, ?_, rfl⟩, free⟩
        rw [JobStore.write, JobStore.find?_update, if_pos rfl, stored]
        rfl
      · rw [beq_false_of_ne same] at named
        exact kept other same ending named

variable [DecidableEq M] [DecidableEq C] {setup : Setup M}

theorem final_step {q q' : Queue M C} {a : Action M C} (final : q.Final)
    (alone : Alone q a) (stepped : Step setup q a q') : q'.Final := by
  cases stepped with
  | quiet store workers history cancels =>
      rw [Queue.Final, store, history]
      intro id ending named
      obtain ⟨closed, stands, free⟩ := final id ending named
      refine ⟨closed, stands, fun client cancel under => ?_⟩
      obtain ⟨cancel', under', same, _⟩ := cancels client cancel under
      exact same ▸ free client cancel' under'
  | added =>
      apply final.restore
      intro id row found _ _ _
      have given := JobStore.find?_le_sequence found
      exact ⟨row, by rw [JobStore.find?_add, if_neg (by omega), found], rfl⟩
  | @prioritized _ id _ priority _ _ _ =>
      apply Final.restore final
      intro other row found _ _ _
      by_cases same : other = id
      · subst same
        exact ⟨{ row with priority := priority },
          by rw [JobStore.find?_update, if_pos rfl, found]; rfl, rfl⟩
      · exact ⟨row, by rw [JobStore.find?_update, if_neg same, found], rfl⟩
  | @dropped _ id waiting _ found waits =>
      apply Final.restore final
      intro other row found' started _ _
      have different : other ≠ id := by
        intro same
        subst same
        cases found.symm.trans found'
        exact started waits
      exact ⟨row, by rw [JobStore.find?_delete, if_neg different, found'], rfl⟩
  | @found client m id job found running =>
      apply final.call
      intro cancel new other ending named
      cases new
      obtain ⟨closed, ⟨row, found', same⟩, _⟩ := final other ending named
      intro here
      rw [← here, found] at found'
      cases found'
      exact closed.2 (same ▸ running)
  | @settled client cancel how now under =>
      apply (Final.restore final _).call client none fun _ new => by cases new
      intro id row found _ _ free
      exact ⟨row, JobStore.find?_write_of_ne found (free client cancel under).symm, rfl⟩
  | @recovered m down =>
      apply Final.restore final
      intro id row found _ stopped _
      refine ⟨row, ?_, rfl⟩
      rw [JobStore.find?_recover, found, Option.map_some, if_neg (fun cut => stopped cut.1)]
  | picked => exact final
  | onward _ store workers history cancels =>
      rw [Queue.Final, store, history, cancels]
      exact final
  | @begun m now id job _ held =>
      intro other ending named
      obtain ⟨different, named⟩ := lookup_filter named
      obtain ⟨closed, ⟨row, found, same⟩, free⟩ := final other ending named
      exact ⟨closed, ⟨row, JobStore.find?_write_of_ne found different, same⟩, free⟩
  | started => exact final
  | @ended m now id job flagged held =>
      obtain ⟨closed, stopped, _, _⟩ := ending_over setup (q.store.find? id) now job flagged
      have free : ∀ client cancel, q.cancels client = some cancel → cancel.id ≠ id :=
        fun client cancel under => alone client cancel under (id, job) (by rw [held]; rfl)
      exact Final.ends final closed stopped free

theorem final_start {q : Queue M C} (started : (queueing setup).start q) : q.Final := by
  obtain ⟨_, _, fresh⟩ := started
  intro id ending named
  rw [fresh] at named
  cases named

theorem queueing_final : (queueing setup).InvariantWhen Alone fun q : Queue M C => q.Final where
  start := fun _ started => final_start started
  step := fun _ _ _ final alone stepped => final_step final alone (step_cases stepped)

/-- The end that `run_one` stored, and its exit code, stand in the job's row ever after. -/
theorem ends_final (q : Queue M C) (reached : (queueing setup).ReachableWhen Alone q) (id : Nat)
    (state : JobState) (rc : Option Int)
    (ended : q.history.ended.lookup id = some (state, rc)) :
    ∃ row, q.store.find? id = some row ∧ row.state = state ∧ row.rc = rc := by
  obtain ⟨_, ⟨row, found, same⟩, _⟩ := queueing_final.holds reached id (state, rc) ended
  cases same
  exact ⟨row, found, rfl, rfl⟩

/-- One job, taken up and started. -/
def running : List (Action Unit Unit) :=
  [enqueue, .recover (), .pick (), .begin () 1, .start ()]

/-- A job that ended well is relabelled by the cancel that found it running. -/
theorem ends_relabelled : ∃ q : Queue Unit Unit, (queueing mini).Reachable q ∧
    ¬ ∀ id state rc, q.history.ended.lookup id = some (state, rc) →
      ∃ row, q.store.find? id = some row ∧ row.state = state ∧ row.rc = rc := by
  obtain ⟨q, _, reached, closed⟩ := System.reached_by_run
    (fun q : Queue Unit Unit => q.history.ended = [(1, (.done, some 0))] ∧
      (q.store.find? 1).map (fun row => (row.state, row.rc)) = some (.cancelled, none))
    (nothing_starts mini)
    (System.meets_true nothing
      (running ++ [.read () () 1, .reap () 0, .look () 2, .store () 2, .flag (), .settle () .gone 3]))
    (by decide +kernel)
  obtain ⟨ended, relabelled⟩ := of_decide_eq_true closed
  refine ⟨q, reached, fun kept => ?_⟩
  obtain ⟨row, found, done, _⟩ := kept 1 .done (some 0) (by simp [ended])
  rw [found, Option.map_some, Option.some.injEq, Prod.mk.injEq, done] at relabelled
  exact absurd relabelled.1 (by decide)

/-- A cancel that settles before the worker looks: the worker stores the cancelled job with
    its exit code, and that stands. -/
theorem ends_final_stopped : ∃ q : Queue Unit Unit,
    q.history.ended = [(1, (.cancelled, some (-15)))] ∧
      ∃ row, q.store.find? 1 = some row ∧ row.state = .cancelled ∧ row.rc = some (-15) := by
  obtain ⟨q, _, reached, closed⟩ := System.reached_by_run
    (fun q : Queue Unit Unit => q.history.ended = [(1, (.cancelled, some (-15)))])
    (nothing_starts mini)
    (by decide +kernel : (queueing mini).Meets Alone nothing
      (running ++ [.read () () 1, .flag (), .settle () .term 2, .reap () (-15), .look () 3,
        .store () 3]))
    (by decide +kernel)
  have ended := of_decide_eq_true closed
  exact ⟨q, ended, ends_final q reached 1 .cancelled (some (-15)) (by simp [ended])⟩

end LocalHarness.WorkQueue
