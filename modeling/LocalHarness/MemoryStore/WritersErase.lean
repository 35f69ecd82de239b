import LocalHarness.MemoryStore.WritersLedger

/-! # A failed call leaves nothing

Cutting a call out of a run: its steps are dropped and the row it has in flight is
taken away. A call that raised is cut out without a trace, and what is left in a quiet
store is exactly what the calls that returned put there.
-/

namespace LocalHarness.MemoryStore

open LocalHarness.Library LocalHarness.Runs

def Store.cut (store : Store) : Option Nat → Store
  | none => store
  | some vid => store.deleteVerdict vid

namespace World

/-- The row a caller has in flight. -/
def pendingOf (w : World) (caller : Nat) : Option Nat :=
  (w.writers.find? caller).bind fun writer => writer.phase.pending

/-- The same store as if the caller had not begun. -/
def without (w : World) (caller : Nat) : World where
  store := w.store.cut (w.pendingOf caller)
  writers := w.writers.delete caller

theorem pendingOf_rephase {w : World} {caller : Nat} {store : Store} {phase : Phase}
    {writer : Writer} (found : w.writers.find? caller = some writer) :
    (w.rephase caller store phase).pendingOf caller = phase.pending := by
  simp [pendingOf, rephase_self found]

theorem without_rephase {w : World} {caller : Nat} {store : Store} {phase : Phase}
    {writer : Writer} (found : w.writers.find? caller = some writer) :
    (w.rephase caller store phase).without caller =
      ⟨store.cut phase.pending, w.writers.delete caller⟩ := by
  rw [without, pendingOf_rephase found]
  simp [rephase]

end World

/-- The caller's call has succeeded. -/
def World.Succeeded (w : World) (caller : Nat) : Prop :=
  ∃ writer, w.writers.find? caller = some writer ∧ writer.phase.succeeded = true

/-- No step of a call that has succeeded makes it fail. -/
theorem succeeded_stays {pid : Nat} {w w' : World} {caller : Nat} {a : Nat × Move}
    (stepped : World.step pid w a = some w') (succeeded : w.Succeeded caller) :
    w'.Succeeded caller := by
  obtain ⟨writer, found, done⟩ := succeeded
  obtain ⟨actor, move⟩ := a
  cases move with
  | call request =>
      simp only [World.step, Option.dite_none_right_eq_some, Option.some.injEq] at stepped
      obtain ⟨above, rfl⟩ := stepped
      have apart : caller ≠ actor := by
        rintro rfl
        rw [above.find?] at found
        cases found
      exact ⟨writer, by simp [Table.find?_insert, apart, found], done⟩
  | next vid =>
      cases there : w.writers.find? actor with
      | none => simp [World.step, there] at stepped
      | some acting =>
          simp only [World.step, there, Option.map_eq_some_iff, Prod.exists] at stepped
          obtain ⟨store, phase, moved, rfl⟩ := stepped
          by_cases same : caller = actor
          · subst same
            obtain rfl : writer = acting := Option.some.inj (found.symm.trans there)
            refine ⟨_, World.rephase_self found, ?_⟩
            cases at_ : writer.phase <;> simp only [at_, Phase.succeeded, reduceCtorEq] at done
            · simp only [at_, advance] at moved
              cases moved
              rfl
            · simp [at_, advance] at moved
            · simp [at_, advance] at moved
          · exact ⟨writer, (World.rephase_other same).trans found, done⟩

theorem succeeded_to_the_end {pid : Nat} {w w' : World} {caller : Nat}
    {actions : List (Nat × Move)} (ran : (writing pid).run w actions = some w')
    (succeeded : w.Succeeded caller) : w'.Succeeded caller :=
  System.run_relates (fun _ _ => True) (fun s t => s.Succeeded caller → t.Succeeded caller)
    (fun _ done => done) (fun _ _ _ first second done => second (first done))
    (fun _ _ _ _ stepped done => succeeded_stays stepped done)
    (System.meets_true w actions) ran succeeded

/-- A step of the caller itself is no step of the run without it, unless it succeeds. -/
theorem own_step {pid : Nat} {w w' : World} {caller : Nat} {move : Move}
    (stepped : World.step pid w (caller, move) = some w')
    (failing : ∀ writer, w'.writers.find? caller = some writer → writer.phase.succeeded = false) :
    w'.without caller = w.without caller := by
  cases move with
  | call request =>
      simp only [World.step, Option.dite_none_right_eq_some, Option.some.injEq] at stepped
      obtain ⟨above, rfl⟩ := stepped
      simp only [World.without, World.pendingOf, Table.find?_insert_self, Table.delete_insert,
        above.find?, Table.delete_of_not_mem above.not_mem, Option.bind_some, Option.bind_none]
      rfl
  | next vid =>
      cases found : w.writers.find? caller with
      | none => simp [World.step, found] at stepped
      | some writer =>
          simp only [World.step, found, Option.map_eq_some_iff, Prod.exists] at stepped
          obtain ⟨store, phase, moved, rfl⟩ := stepped
          have failed : phase.succeeded = false := failing _ (World.rephase_self found)
          refine (World.without_rephase found).trans ?_
          have before : w.without caller =
              ⟨w.store.cut writer.phase.pending, w.writers.delete caller⟩ := by
            simp [World.without, World.pendingOf, found]
          rw [before, World.mk.injEq]
          refine ⟨?_, rfl⟩
          cases at_ : writer.phase with
          | entering =>
              simp only [at_, advance] at moved
              split at moved <;> cases moved <;> rfl
          | reading left =>
              cases left with
              | zero =>
                  simp only [at_, advance] at moved
                  cases moved
                  rfl
              | succ left =>
                  simp only [at_, advance, Option.map_eq_some_iff] at moved
                  obtain ⟨held, _, moved⟩ := moved
                  cases moved
                  rfl
          | checking left held =>
              simp only [at_, advance] at moved
              split at moved
              next =>
                cases moved
                cases failed
              next =>
                split at moved
                next =>
                  cases moved
                  rfl
                next =>
                  rw [Option.dite_none_right_eq_some] at moved
                  obtain ⟨above, moved⟩ := moved
                  cases moved
                  simp [Phase.pending, Store.cut, Store.deleteVerdict, Store.insertVerdict,
                    Table.delete_insert]
          | swapping left held row =>
              simp only [at_, advance] at moved
              split at moved
              next =>
                cases moved
                cases failed
              next =>
                cases moved
                rfl
          | withdrawing left row =>
              simp only [at_, advance] at moved
              cases moved
              rfl
          | scheduling row =>
              simp only [at_, advance] at moved
              cases moved
              cases failed
          | returned row => simp [at_, advance] at moved
          | matched row => simp [at_, advance] at moved
          | refused e => simp [at_, advance] at moved

/-- Where the cut row is in flight, what the others read and write is as it was. -/
theorem advance_cut {pid vid : Nat} {store store' : Store} {request : Request}
    {phase phase' : Phase} {cut : Option Nat}
    (reads : (store.cut cut).held pid = store.held pid)
    (present : ∀ id, cut = some id → id ∈ store.verdicts.ids)
    (moved : advance pid store request vid phase = some (store', phase')) :
    advance pid (store.cut cut) request vid phase = some (store'.cut cut, phase') := by
  cases cut with
  | none => exact moved
  | some gone =>
      have here := present gone rfl
      simp only [Store.cut] at reads ⊢
      cases phase with
      | entering =>
          simp only [advance] at moved ⊢
          by_cases silent : request.reopen ≠ "" ∧ Text.blank request.why
          · rw [if_pos silent] at moved ⊢
            cases moved
            rfl
          · rw [if_neg silent] at moved ⊢
            cases moved
            rfl
      | reading left =>
          cases left with
          | zero =>
              simp only [advance] at moved ⊢
              cases moved
              rfl
          | succ left =>
              simp only [advance, Option.map_eq_some_iff, reads] at moved ⊢
              obtain ⟨held, read, moved⟩ := moved
              cases moved
              exact ⟨held, read, rfl⟩
      | checking left held =>
          simp only [advance] at moved ⊢
          by_cases restates : held.restated request.row request.reopen = true
          · rw [if_pos restates] at moved ⊢
            cases moved
            rfl
          · rw [if_neg restates] at moved ⊢
            cases allowed : transitionRefused held.state held.tier request.row.outcome
                request.row.tier request.reopen with
            | some refusal =>
                simp only [allowed] at moved ⊢
                cases moved
                rfl
            | none =>
                simp only [allowed, Option.dite_none_right_eq_some] at moved ⊢
                obtain ⟨above, moved⟩ := moved
                cases moved
                have apart : vid ≠ gone := by
                  rintro rfl
                  exact above.1.not_mem here
                have still : (store.deleteVerdict gone).verdicts.Above vid := above.1.delete
                refine ⟨⟨still, above.2⟩, ?_⟩
                simp only [Store.deleteVerdict, Store.insertVerdict,
                  Table.delete_insert_of_ne above.1 apart]
      | swapping left held row =>
          simp only [advance, Store.swap] at moved ⊢
          cases found : store.proposals.find? pid with
          | none =>
              simp only [found, Store.deleteVerdict] at moved ⊢
              cases moved
              rfl
          | some p =>
              simp only [found, Store.deleteVerdict] at moved ⊢
              by_cases won : p.held = held.key
              · simp only [won, if_true] at moved ⊢
                cases moved
                rfl
              · simp only [won, if_false] at moved ⊢
                cases moved
                rfl
      | withdrawing left row =>
          simp only [advance] at moved ⊢
          cases moved
          simp only [Store.deleteVerdict, Table.delete_comm store.verdicts row gone]
      | scheduling row =>
          simp only [advance] at moved ⊢
          cases moved
          rfl
      | returned row => simp [advance] at moved
      | matched row => simp [advance] at moved
      | refused e => simp [advance] at moved

/-- What a caller reads never depends on a row another has in flight. -/
theorem Refines.held_cut {pid : Nat} {w : World} {ledger : Ledger} (refines : Refines pid w ledger)
    (caller : Nat) : (w.store.cut (w.pendingOf caller)).held pid = w.store.held pid := by
  cases pending : w.pendingOf caller with
  | none => rfl
  | some gone =>
      obtain ⟨writer, found, flying⟩ := Option.bind_eq_some_iff.mp pending
      obtain ⟨outside, _⟩ := refines.pending_row found flying
      obtain ⟨p, here, pointer, _⟩ := refines.proposal
      have apart : ∀ id, p.stateVerdictId = some id → id ≠ gone := by
        rintro id at_ rfl
        rw [pointer, Ledger.last] at at_
        rcases ledger.newest with ⟨none, _⟩ | ⟨newest, row, inside, last, _, _⟩
        · simp [none] at at_
        · simp [last] at at_
          exact outside (Ledger.mem_ids.mpr ⟨row, at_ ▸ inside⟩)
      simp only [Store.cut, Store.deleteVerdict, Store.held, here, Option.map_some]
      cases at_ : p.stateVerdictId with
      | none => rfl
      | some id => simp [Table.find?_delete, apart id at_]

/-- A step of another caller is the same step of the run without this one. -/
theorem other_step {pid : Nat} {w w' : World} {ledger : Ledger} {caller : Nat}
    {a : Nat × Move} (refines : Refines pid w ledger) (different : a.1 ≠ caller)
    (stepped : World.step pid w a = some w') :
    World.step pid (w.without caller) a = some (w'.without caller) := by
  obtain ⟨actor, move⟩ := a
  cases move with
  | call request =>
      simp only [World.step, Option.dite_none_right_eq_some, Option.some.injEq] at stepped ⊢
      obtain ⟨above, rfl⟩ := stepped
      have still : (w.without caller).writers.Above actor := above.delete
      refine ⟨still, ?_⟩
      simp only [World.without, World.pendingOf, Table.find?_insert, Ne.symm different, if_false,
        Table.delete_insert_of_ne above different]
  | next vid =>
      cases there : w.writers.find? actor with
      | none => simp [World.step, there] at stepped
      | some acting =>
          simp only [World.step, there, Option.map_eq_some_iff, Prod.exists] at stepped
          obtain ⟨store, phase, moved, rfl⟩ := stepped
          have present : ∀ id, w.pendingOf caller = some id → id ∈ w.store.verdicts.ids := by
            intro id pending
            obtain ⟨writer, found, flying⟩ := Option.bind_eq_some_iff.mp pending
            obtain ⟨_, row, here⟩ := refines.pending_row found flying
            exact Table.mem_ids_of_find? here
          have same := advance_cut (refines.held_cut caller) present moved
          have found : (w.without caller).writers.find? actor = some acting := by
            simp [World.without, Table.find?_delete, different, there]
          have pending : (w.rephase actor store phase).pendingOf caller = w.pendingOf caller := by
            rw [World.pendingOf, World.rephase_other (Ne.symm different)]
            rfl
          simp only [World.step, found, Option.map_eq_some_iff, Prod.exists]
          refine ⟨_, _, same, ?_⟩
          refine Eq.trans ?_ (congrArg (fun cut => (⟨store.cut cut,
            (w.rephase actor store phase).writers.delete caller⟩ : World)) pending).symm
          simp only [World.without, World.rephase, Table.delete_update]

/-- Dropping the steps of a call that raised gives a run to the same end without it. -/
theorem erased_run {pid caller : Nat} {actions : List (Nat × Move)} {w w' : World}
    {ledger : Ledger} {writer : Writer} {e : Error} (refines : Refines pid w ledger)
    (ran : (writing pid).run w actions = some w')
    (found : w'.writers.find? caller = some writer) (raised : writer.phase = .refused e) :
    (writing pid).run (w.without caller) (actions.filter fun a => a.1 != caller) =
      some (w'.without caller) := by
  induction actions generalizing w ledger with
  | nil =>
      rw [System.run_nil, Option.some.injEq] at ran
      rw [ran]
      rfl
  | cons a rest ih =>
      obtain ⟨next, stepped, ran⟩ := System.run_cons_some _ ran
      obtain ⟨ledger', refines', _⟩ := step_refines refines stepped
      have tail := ih refines' ran
      by_cases own : a.1 = caller
      · rw [List.filter_cons_of_neg (by simp [own]), tail.symm]
        congr 1
        subst own
        refine (own_step stepped ?_).symm
        intro midway there
        by_contra done
        rw [Bool.not_eq_false] at done
        obtain ⟨final, at_, succeeded⟩ := succeeded_to_the_end ran ⟨midway, there, done⟩
        obtain rfl : writer = final := Option.some.inj (found.symm.trans at_)
        rw [raised] at succeeded
        cases succeeded
      · rw [List.filter_cons_of_pos (by simp [own])]
        rw [System.run_cons]
        refine Option.bind_eq_some_iff.mpr ⟨_, other_step refines own stepped, tail⟩

theorem untouched_refines {pid : Nat} {start : Store} (untouched : start.Untouched pid) :
    Refines pid ⟨start, ∅⟩ Ledger.empty where
  proposal := by
    obtain ⟨⟨p, found, state, pointer⟩, _⟩ := untouched
    exact ⟨p, found, pointer, state⟩
  positive := by simp [Ledger.ids, Ledger.empty]
  kept := by simp [Ledger.empty]
  settled := fun id row present mine => absurd mine (untouched.2 id row present)
  alone := by simp
  owned := by simp [Ledger.ids, Ledger.empty]
  carried := by simp

theorem run_refines {pid : Nat} {w w' : World} {ledger : Ledger} {actions : List (Nat × Move)}
    (refines : Refines pid w ledger) (ran : (writing pid).run w actions = some w') :
    ∃ ledger', Refines pid w' ledger' := by
  induction actions generalizing w ledger with
  | nil =>
      rw [System.run_nil, Option.some.injEq] at ran
      exact ⟨ledger, ran ▸ refines⟩
  | cons a rest ih =>
      obtain ⟨next, stepped, ran⟩ := System.run_cons_some _ ran
      obtain ⟨ledger', refines', _⟩ := step_refines refines stepped
      exact ih refines' ran

theorem Refines.quiet_rows {pid : Nat} {w : World} {ledger : Ledger}
    (refines : Refines pid w ledger) (quiet : w.Quiet) {id : Nat} {row : Verdict}
    (present : w.store.verdicts.find? id = some row) (mine : row.proposalId = some pid) :
    (id, row) ∈ ledger.entries := by
  rcases refines.settled id row present mine with entry | ⟨caller, writer, found, pending⟩
  · exact entry
  · have finished := quiet caller writer found
    cases at_ : writer.phase <;> simp [at_, Phase.finished] at finished <;>
      simp [at_, Phase.pending] at pending

/-- With no call in flight the surviving rows are the ledger, in id order. -/
theorem Refines.quiet_events {pid : Nat} {w : World} {ledger : Ledger}
    (refines : Refines pid w ledger) (quiet : w.Quiet) :
    fold (w.store.events pid) = ledger.standing := by
  have rows : w.store.verdicts.rows.filter (fun row => row.2.proposalId == some pid) =
      ledger.entries := by
    apply Table.eq_of_ascending _ ledger.ascending
    · rintro ⟨id, row⟩
      simp only [List.mem_filter, beq_iff_eq]
      constructor
      · rintro ⟨inside, mine⟩
        exact refines.quiet_rows quiet (Table.find?_eq_some.mpr inside) mine
      · intro entry
        obtain ⟨present, mine⟩ := refines.kept id row entry
        exact ⟨Table.find?_eq_some.mp present, mine⟩
    · exact w.store.verdicts.ordered.sublist (List.filter_sublist.map _)
  rw [Store.events, rows, Ledger.standing]

/-- What a matched call and the row it matched have in common. -/
theorem Held.restated_same {held : Held} {row verdict : Verdict} {reopen : String}
    (same : held.restated row reopen = true) (joined : held.verdict = some verdict) :
    reopen = "" ∧ row.bare = true ∧ verdict.bare = true ∧ verdict.tier = row.tier ∧
      verdict.outcome = row.outcome ∧ verdict.detail = row.detail := by
  simp only [Held.restated, joined, Option.any_some, Bool.and_eq_true, beq_iff_eq] at same
  obtain ⟨⟨⟨_, plain⟩, bare⟩, ⟨⟨tier, outcome⟩, detail⟩, heldBare⟩ := same
  exact ⟨plain, bare, heldBare, tier, outcome, detail⟩

/-- Over every interleaving of writers of one proposal: a quiet store stands where its
    surviving verdicts fold to; a call that returned left one row, its own, or matched one;
    and a call that raised can be cut out of the run, which then ends in the same store. -/
theorem writers_settle (pid : Nat) (start : Store) (untouched : start.Untouched pid)
    (actions : List (Nat × Move)) (w : World)
    (ran : (writing pid).run ⟨start, ∅⟩ actions = some w) :
    (w.Quiet → (w.store.held pid).map Held.standing = some (fold (w.store.events pid))) ∧
    (∀ caller writer vid, w.writers.find? caller = some writer →
      writer.phase = .returned vid →
      (∃ held, w.store.verdicts.find? vid =
        some (columns pid writer.request.row writer.request.reopen held)) ∧
      ∀ other writer', w.writers.find? other = some writer' → writer'.phase = .returned vid →
        other = caller) ∧
    (w.Quiet → ∀ id row, w.store.verdicts.find? id = some row → row.proposalId = some pid →
      ∃ caller writer, w.writers.find? caller = some writer ∧ writer.phase = .returned id) ∧
    (∀ caller writer vid, w.writers.find? caller = some writer →
      writer.phase = .matched vid →
      writer.request.reopen = "" ∧ writer.request.row.bare = true ∧
      ∃ verdict, w.store.verdicts.find? vid = some verdict ∧ verdict.proposalId = some pid ∧
        verdict.bare = true ∧ verdict.tier = writer.request.row.tier ∧
        verdict.outcome = writer.request.row.outcome ∧
        verdict.detail = writer.request.row.detail) ∧
    (∀ caller writer e, w.writers.find? caller = some writer → writer.phase = .refused e →
      ∃ erased, (writing pid).run ⟨start, ∅⟩ (actions.filter fun a => a.1 != caller) =
        some erased ∧ erased.store = w.store ∧ erased.writers = w.writers.delete caller) := by
  obtain ⟨ledger, refines⟩ := run_refines (untouched_refines untouched) ran
  refine ⟨?_, ?_, ?_, ?_, ?_⟩
  · intro quiet
    rw [refines.held, Option.map_some, refines.quiet_events quiet, Ledger.held_standing]
  · intro caller writer vid found returned
    have carried := refines.carried caller writer found
    simp only [returned, Carried] at carried
    obtain ⟨held, entry⟩ := carried
    refine ⟨⟨held, (refines.kept _ _ entry).1⟩, ?_⟩
    intro other writer' there same
    exact refines.alone other caller writer' writer vid there found (by rw [same]; rfl)
      (by rw [returned]; rfl)
  · intro quiet id row present mine
    have entry := refines.quiet_rows quiet present mine
    obtain ⟨caller, writer, found, landed⟩ := refines.owned id (Ledger.mem_ids.mpr ⟨row, entry⟩)
    refine ⟨caller, writer, found, ?_⟩
    have finished := quiet caller writer found
    cases at_ : writer.phase <;> simp [at_, Phase.finished, Phase.landed] at finished landed
    exact congrArg Phase.returned landed
  · intro caller writer vid found matched
    have carried := refines.carried caller writer found
    simp only [matched, Carried] at carried
    obtain ⟨held, verdict, entry, joined, restates⟩ := carried
    obtain ⟨plain, bare, heldBare, tier, outcome, detail⟩ := Held.restated_same restates joined
    obtain ⟨present, mine⟩ := refines.kept _ _ entry
    exact ⟨plain, bare, verdict, present, mine, heldBare, tier, outcome, detail⟩
  · intro caller writer e found raised
    refine ⟨_, erased_run (untouched_refines untouched) ran found raised, ?_, rfl⟩
    have none : w.pendingOf caller = none := by simp [World.pendingOf, found, raised, Phase.pending]
    rw [World.without, none]
    rfl

theorem World.quiet_of_rows {w : World}
    (finished : ∀ row ∈ w.writers.rows, row.2.phase.finished = true) : w.Quiet :=
  fun _ _ found => finished _ (Table.find?_eq_some.mp found)

theorem fresh_untouched (name : String) : (Store.fresh name).Untouched 1 :=
  ⟨⟨_, rfl, rfl, rfl⟩, fun _ _ present => by cases present⟩

def verdictRow (outcome : Outcome) (tier : String) : Verdict :=
  ({ name := "org/model", outcome := outcome.text, tier } : Decision).fields outcome

/-- Two callers read the same state. The one that inserts second swaps first; the other
    withdraws its row, reads again and is refused. -/
def race : List (Nat × Move) :=
  [(1, .call ⟨"org/model", verdictRow .declined measure, "", ""⟩),
    (2, .call ⟨"org/model", verdictRow .queued inspect, "", ""⟩),
    (1, .next 0), (2, .next 0), (1, .next 0), (2, .next 0), (2, .next 1), (1, .next 2),
    (1, .next 0), (2, .next 0), (2, .next 0), (1, .next 0), (2, .next 0), (2, .next 0)]

def raced : World :=
  ((writing 1).run ⟨Store.fresh "org/model", ∅⟩ race).getD ⟨Store.fresh "org/model", ∅⟩

theorem writers_settle_race :
    (raced.store.held 1).map Held.standing = some (fold (raced.store.events 1)) ∧
    (∃ held, raced.store.verdicts.find? 2 =
      some (columns 1 (verdictRow .declined measure) "" held)) ∧
    ∃ erased, (writing 1).run ⟨Store.fresh "org/model", ∅⟩ (race.filter fun a => a.1 != 2) =
      some erased ∧ erased.store = raced.store := by
  have ran : (writing 1).run ⟨Store.fresh "org/model", ∅⟩ race = some raced := by
    decide +kernel
  obtain ⟨stands, left, _, _, erases⟩ :=
    writers_settle 1 (Store.fresh "org/model") (fresh_untouched _) race raced ran
  have quiet : raced.Quiet := World.quiet_of_rows (by decide)
  have won : raced.writers.find? 1 =
      some ⟨⟨"org/model", verdictRow .declined measure, "", ""⟩, .returned 2⟩ := by
    decide
  have lost : raced.writers.find? 2 =
      some ⟨⟨"org/model", verdictRow .queued inspect, "", ""⟩, .refused (.illegalTransition
        "org/model" (.wouldReopen .queued inspect .declined measure))⟩ := by
    decide
  obtain ⟨erased, again, same, _⟩ := erases 2 _ _ lost rfl
  exact ⟨stands quiet, (left 1 _ 2 won rfl).1, erased, again, same⟩

end LocalHarness.MemoryStore
