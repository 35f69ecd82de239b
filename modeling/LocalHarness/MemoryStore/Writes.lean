import LocalHarness.MemoryStore.Transitions

/-! # What one write can do

Inversion lemmas for the writer and for `decide`. A call either leaves the store
as it found it, adds a verdict no proposal owns, or moves exactly one proposal under
one new verdict; every result about runs of calls starts from this case analysis.
-/

namespace LocalHarness.MemoryStore

open LocalHarness.Library

namespace Store

theorem above_nextVerdict (s : Store) : s.verdicts.Above s.verdicts.nextId :=
  s.verdicts.above_nextId

/-- The store after a write that moved: one verdict more, and the proposal under it. -/
def moved (s : Store) (pid : Nat) (row : Verdict) (reopen : String) (held : Held) : Store where
  verdicts := s.verdicts.insert s.verdicts.nextId (columns pid row reopen held)
    s.above_nextVerdict
  proposals := s.proposals.update pid fun p =>
    rescheduled row reopen
      { p with state := some row.outcome, stateVerdictId := some s.verdicts.nextId }

theorem held_eq_some {s : Store} {pid : Nat} {held : Held} :
    s.held pid = some held ↔ ∃ p, s.proposals.find? pid = some p ∧
      held = { state := p.state, id := p.stateVerdictId
               verdict := p.stateVerdictId.bind s.verdicts.find? } := by
  rw [Store.held, Option.map_eq_some_iff]
  exact exists_congr fun p => and_congr_right fun _ => eq_comm

theorem held_key {s : Store} {pid : Nat} {held : Held} (read : s.held pid = some held) :
    ∃ p, s.proposals.find? pid = some p ∧ p.held = held.key ∧ p.state = held.state := by
  obtain ⟨p, found, rfl⟩ := held_eq_some.mp read
  exact ⟨p, found, rfl, rfl⟩

/-- Nothing moves the state between a read and a swap of one call alone, so the swap wins. -/
theorem swap_of_held {s : Store} {pid : Nat} {held : Held} (vid : Nat) (outcome : Outcome)
    (read : s.held pid = some held) :
    s.swap pid vid outcome held.key = some (s.updateProposal pid fun p =>
      { p with state := some outcome, stateVerdictId := some vid }) := by
  obtain ⟨p, found, same, _⟩ := held_key read
  simp [swap, found, same]

theorem held_insertVerdict_key {s : Store} {pid vid : Nat} {held : Held} (row : Verdict)
    (above : s.verdicts.Above vid) (read : s.held pid = some held) :
    ∃ later, (s.insertVerdict vid row above).held pid = some later ∧ later.key = held.key := by
  obtain ⟨p, found, rfl⟩ := held_eq_some.mp read
  exact ⟨_, held_eq_some.mpr ⟨p, found, rfl⟩, rfl⟩

end Store

@[simp] theorem rescheduled_name (row : Verdict) (reopen : String) (p : Proposal) :
    (rescheduled row reopen p).name = p.name := by
  unfold rescheduled
  split <;> rfl

@[simp] theorem rescheduled_state (row : Verdict) (reopen : String) (p : Proposal) :
    (rescheduled row reopen p).state = p.state := by
  unfold rescheduled
  split <;> rfl

@[simp] theorem rescheduled_stateVerdictId (row : Verdict) (reopen : String) (p : Proposal) :
    (rescheduled row reopen p).stateVerdictId = p.stateVerdictId := by
  unfold rescheduled
  split <;> rfl

/-- What a call of the writer comes to: refused, restating what it holds, or moved. -/
inductive Written (s : Store) (pid : Nat) (row : Verdict) (reopen why : String) :
    Except Error Nat × Store → Prop
  | refused (e : Error) : Written s pid row reopen why (.error e, s)
  | restated (held : Held) : s.held pid = some held → held.restated row reopen = true →
      Written s pid row reopen why (.ok held.key, s)
  | moved (held : Held) : s.held pid = some held → held.restated row reopen = false →
      transitionRefused held.state held.tier row.outcome row.tier reopen = none →
      (reopen ≠ "" → Text.blank why = false) →
      Written s pid row reopen why (.ok s.verdicts.nextId, s.moved pid row reopen held)

theorem write_written (s : Store) (pid : Nat) (name : String) (row : Verdict)
    (reopen why : String) :
    Written s pid row reopen why (write s pid name row reopen why) := by
  unfold write
  split
  next => exact .refused _
  next said =>
    unfold attempts
    cases read : s.held pid with
    | none => exact .refused _
    | some held =>
        dsimp only
        cases same : held.restated row reopen with
        | true => exact .restated held read same
        | false =>
            cases allowed : transitionRefused held.state held.tier row.outcome row.tier reopen with
            | some refusal => exact .refused _
            | none =>
                obtain ⟨later, reread, key⟩ := Store.held_insertVerdict_key
                  (columns pid row reopen held) s.verdicts.above_nextId read
                simp only [Bool.false_eq_true, if_false, ← key, Store.swap_of_held _ _ reread]
                have spoken : reopen ≠ "" → Text.blank why = false := by
                  intro named
                  simpa using fun silent => said ⟨named, silent⟩
                have done : Written s pid row reopen why _ :=
                  .moved held read same allowed spoken
                simpa only [Store.moved, scheduleRetest, Store.updateProposal,
                  Store.insertVerdict, Table.update_update] using done

/-- What a call of `decide` comes to. -/
inductive Decided (s : Store) (d : Decision) : Except Error Nat × Store → Prop
  | refused (e : Error) : Decided s d (.error e, s)
  | restated (vid : Nat) : s.named d.name = none → d.candidateId.getD 0 ≠ 0 →
      Decided s d (.ok vid, s)
  | loose (outcome : Outcome) : Outcome.ofText? d.outcome = some outcome →
      s.named d.name = none → d.candidateId.getD 0 ≠ 0 →
      Decided s d (.ok s.verdicts.nextId,
        s.insertVerdict s.verdicts.nextId (d.fields outcome) s.verdicts.above_nextId)
  | written (outcome : Outcome) (pid : Nat) (after : Except Error Nat × Store) :
      Outcome.ofText? d.outcome = some outcome → s.named d.name = some pid →
      Written s pid (d.fields outcome) d.reopen d.reopenWhy after → Decided s d after

theorem decide_decided (s : Store) (d : Decision) : Decided s d (decide s d) := by
  unfold decide
  cases known : Outcome.ofText? d.outcome with
  | none => exact .refused _
  | some outcome =>
      dsimp only
      split
      next => exact .refused _
      next =>
        split
        next => exact .refused _
        next =>
          cases here : s.named d.name with
          | some pid => exact .written outcome pid _ known here (write_written _ _ _ _ _ _)
          | none =>
              dsimp only
              split
              next => exact .refused _
              next owned =>
                have candidate : d.candidateId.getD 0 ≠ 0 := fun zero => owned (.inl zero)
                split
                next vid _ => exact .restated vid here candidate
                next => exact .loose outcome known here candidate

/-- A call that raises leaves every row of the store as it was. -/
theorem decide_error {s : Store} {d : Decision} {e : Error} (raised : (decide s d).1 = .error e) :
    (decide s d).2 = s := by
  have cases := decide_decided s d
  generalize decide s d = after at cases raised
  cases cases with
  | refused e => rfl
  | restated vid => rfl
  | loose outcome => cases raised
  | written outcome pid after _ _ wrote =>
      cases wrote with
      | refused e => rfl
      | restated held => rfl
      | moved held => cases raised

/-- The verdict `decide` answers with in place of writing one. -/
def restatedBy (s : Store) (d : Decision) : Option Nat :=
  (Outcome.ofText? d.outcome).bind fun outcome =>
    match s.named d.name with
    | some pid =>
        ((s.held pid).filter fun held => held.restated (d.fields outcome) d.reopen).map Held.key
    | none => if (d.fields outcome).bare then d.restates outcome s else none

theorem Held.restated_found {s : Store} {pid : Nat} {held : Held} {row : Verdict}
    {reopen : String} (read : s.held pid = some held) (same : held.restated row reopen = true) :
    ∃ verdict, s.verdicts.find? held.key = some verdict := by
  obtain ⟨p, _, rfl⟩ := Store.held_eq_some.mp read
  simp only [Held.restated, Bool.and_eq_true, Option.any_eq_true] at same
  obtain ⟨_, verdict, found, _⟩ := same
  obtain ⟨vid, pointer, found⟩ := Option.bind_eq_some_iff.mp found
  exact ⟨verdict, by rw [Held.key, pointer]; exact found⟩

theorem Decision.restates_found {s : Store} {d : Decision} {outcome : Outcome} {vid : Nat}
    (same : d.restates outcome s = some vid) : ∃ verdict, s.verdicts.find? vid = some verdict := by
  obtain ⟨row, found, said⟩ := Option.bind_eq_some_iff.mp same
  split at said
  next =>
    cases said
    exact ⟨row.2, Table.find?_eq_some.mpr
      (List.mem_reverse.mp (List.mem_of_find?_eq_some found))⟩
  next => cases said

/-- A call that returns restated a verdict that is there, or wrote one that was not. -/
inductive Answered (s : Store) (d : Decision) (vid : Nat) : Store → Prop
  | restated (row : Verdict) : restatedBy s d = some vid → s.verdicts.find? vid = some row →
      Answered s d vid s
  | wrote (after : Store) (row : Verdict) (above : s.verdicts.Above s.verdicts.nextId) :
      restatedBy s d = none → vid = s.verdicts.nextId → row.machineId = d.machineId →
      after.verdicts = s.verdicts.insert s.verdicts.nextId row above → Answered s d vid after

theorem decide_answered {s after : Store} {d : Decision} {vid : Nat}
    (ran : decide s d = (.ok vid, after)) : Answered s d vid after := by
  unfold decide at ran
  cases known : Outcome.ofText? d.outcome with
  | none => rw [known] at ran; cases ran
  | some outcome =>
      rw [known] at ran
      dsimp only at ran
      split at ran
      next => cases ran
      split at ran
      next => cases ran
      have restated : restatedBy s d = (match s.named d.name with
        | some pid =>
            ((s.held pid).filter fun held =>
              held.restated (d.fields outcome) d.reopen).map Held.key
        | none => if (d.fields outcome).bare then d.restates outcome s else none) := by
        rw [restatedBy, known, Option.bind_some]
      cases here : s.named d.name with
      | some pid =>
          rw [here] at ran restated
          have wrote := write_written s pid d.name (d.fields outcome) d.reopen d.reopenWhy
          dsimp only at ran restated
          rw [ran] at wrote
          cases wrote with
          | restated held read same =>
              obtain ⟨row, found⟩ := Held.restated_found read same
              refine .restated row ?_ found
              rw [restated, read, Option.filter_some, if_pos same, Option.map_some]
          | moved held read same =>
              refine .wrote _ _ s.verdicts.above_nextId ?_ rfl ?_ rfl
              · rw [restated, read, Option.filter_some, same]
                rfl
              · rfl
      | none =>
          rw [here] at ran restated
          dsimp only at ran restated
          split at ran
          next => cases ran
          split at ran
          next found =>
            cases ran
            split at found
            next bare =>
              obtain ⟨row, present⟩ := Decision.restates_found found
              refine .restated row ?_ present
              rw [restated, if_pos bare, found]
            next => cases found
          next none_ =>
            cases ran
            refine .wrote _ (d.fields outcome) s.verdicts.above_nextId ?_ rfl rfl rfl
            rw [restated]
            exact none_

/-- A call keeps every verdict and adds none but one of the machine that asks. -/
theorem decide_verdicts (s : Store) (d : Decision) :
    (decide s d).2.verdicts = s.verdicts ∨
      ∃ row, row.machineId = d.machineId ∧ (decide s d).2.verdicts =
        s.verdicts.insert s.verdicts.nextId row s.verdicts.above_nextId := by
  have cases := decide_decided s d
  generalize decide s d = after at cases
  cases cases with
  | refused e => exact .inl rfl
  | restated vid => exact .inl rfl
  | loose outcome => exact .inr ⟨_, rfl, rfl⟩
  | written outcome pid after _ _ wrote =>
      cases wrote with
      | refused e => exact .inl rfl
      | restated held => exact .inl rfl
      | moved held => exact .inr ⟨_, rfl, rfl⟩

namespace Store

@[simp] theorem moved_named (s : Store) (pid : Nat) (row : Verdict) (reopen : String)
    (held : Held) (name : String) : (s.moved pid row reopen held).named name = s.named name :=
  named_updateProposal s pid _ (fun _ => by simp) name

theorem moved_find? (s : Store) (pid other : Nat) (row : Verdict) (reopen : String)
    (held : Held) :
    (s.moved pid row reopen held).proposals.find? other =
      if other = pid then (s.proposals.find? pid).map fun p => rescheduled row reopen
        { p with state := some row.outcome, stateVerdictId := some s.verdicts.nextId }
      else s.proposals.find? other := by
  simp only [moved, Table.find?_update]
  split
  next same => rw [same]
  next => rfl

/-- The proposal moved now holds the verdict just inserted. -/
theorem held_moved {s : Store} {pid : Nat} {read : Held} (row : Verdict) (reopen : String)
    (held : Held) (was : s.held pid = some read) :
    (s.moved pid row reopen held).held pid = some
      { state := some row.outcome, id := some s.verdicts.nextId
        verdict := some (columns pid row reopen held) } := by
  obtain ⟨p, found, _⟩ := held_eq_some.mp was
  apply held_eq_some.mpr
  refine ⟨_, by rw [moved_find?, if_pos rfl, found, Option.map_some], ?_⟩
  simp [moved]

/-- A verdict inserted for another proposal changes what a proposal holds only by
    filling a pointer that named no verdict. -/
theorem held_inserted {s : Store} {pid vid : Nat} {held : Held} (row : Verdict)
    (above : s.verdicts.Above vid) (read : s.held pid = some held) :
    (s.insertVerdict vid row above).held pid = some held ∨
      held.verdict = none ∧
        (s.insertVerdict vid row above).held pid = some { held with verdict := some row } := by
  obtain ⟨p, found, rfl⟩ := held_eq_some.mp read
  cases pointer : p.stateVerdictId with
  | none => exact .inl (held_eq_some.mpr ⟨p, found, by simp [pointer]⟩)
  | some at_ =>
      by_cases here : at_ = vid
      · right
        refine ⟨by simp [here, above.find?], held_eq_some.mpr ⟨p, found, ?_⟩⟩
        simp [insertVerdict, pointer, here]
      · left
        refine held_eq_some.mpr ⟨p, found, ?_⟩
        simp [insertVerdict, pointer, Table.find?_insert, here]

theorem held_moved_other {s : Store} {pid other : Nat} {row : Verdict} {reopen : String}
    {held : Held} (different : other ≠ pid) :
    (s.moved pid row reopen held).held other =
      (s.insertVerdict s.verdicts.nextId (columns pid row reopen held)
        s.verdicts.above_nextId).held other := by
  simp [Store.held, moved, insertVerdict, Table.find?_update, different]

end Store

end LocalHarness.MemoryStore
