import Mathlib.Data.List.Sort
import Mathlib.Algebra.Order.Ring.Rat
import LocalHarness.Library.Runs
import LocalHarness.MemoryStore.Writes

/-! # Retests

Which rejections are due another look, and the pass that reopens them. The retest
columns of a proposal are a function of the verdict it holds: its due date is the date
that verdict gives it, whatever decisions, retractions and passes came before.
-/

namespace LocalHarness.MemoryStore

open LocalHarness.Library LocalHarness.Runs

/-- A row of the due list. -/
structure Due where
  name : String
  state : Option Outcome
  retestCount : Nat
  nextRetestAt : ℚ
  tier : String
  untilText : String
  deriving DecidableEq

/-- The row the query gives for a proposal, when it is due at `now`. -/
def dueRow (s : Store) (now : ℚ) (p : Proposal) : Option Due :=
  match p.stateVerdictId.bind s.verdicts.find?, p.nextRetestAt with
  | some verdict, some next =>
      if next ≤ now ∧ p.retestCount < retests then
        some { name := p.name, state := p.state, retestCount := p.retestCount
               nextRetestAt := next, tier := verdict.tier, untilText := verdict.untilText }
      else none
  | _, _ => none

/-- Rejections whose next retest has come due, oldest first. -/
def dueRetests (s : Store) (now : ℚ) : List Due :=
  ((s.proposals.rows.filterMap fun row => dueRow s now row.2).insertionSort
      fun r other => r.nextRetestAt ≤ other.nextRetestAt).filter fun r =>
    retestEligible r.state r.tier r.untilText

/-- `decide_or_skip`: a refused move says so and is passed over. -/
def decideOrSkip (s : Store) (d : Decision) : Except Error (Option Nat) × Store :=
  match decide s d with
  | (.ok vid, s') => (.ok (some vid), s')
  | (.error (.mustSayWhy _ _), s') => (.ok none, s')
  | (.error (.illegalTransition _ _), s') => (.ok none, s')
  | (.error e, s') => (.error e, s')

/-- What a pass writes for one due row, naming the attempt. -/
def reopening (r : Due) (now : ℚ) : Decision :=
  let why := "retest " ++ toString (r.retestCount + 1) ++ "/" ++ toString retests ++ ": " ++
    (r.state.map Outcome.text).getD "" ++ " at " ++ r.tier
  { name := r.name, outcome := "queued", tier := inspect, at? := some now, detail := why
    reopen := retest, reopenWhy := why }

def reopenEach (now : ℚ) : List Due → Store → Except Error (List String) × Store
  | [], s => (.ok [], s)
  | r :: rest, s =>
      match decideOrSkip s (reopening r now) with
      | (.error e, s') => (.error e, s')
      | (.ok done, s') =>
          match reopenEach now rest s' with
          | (.error e, s'') => (.error e, s'')
          | (.ok names, s'') => (.ok (if done.isSome then r.name :: names else names), s'')

/-- Reopen each due retest to queued at inspect. -/
def reopenDueRetests (s : Store) (now : ℚ) : Except Error (List String) × Store :=
  reopenEach now (dueRetests s now) s

/-- A proposal holds nothing, or the verdict it points at and the due date that gives. -/
def Scheduled (s : Store) (pid : Nat) (p : Proposal) : Prop :=
  match p.stateVerdictId with
  | none => p.state = none ∧ p.nextRetestAt = none
  | some vid => ∃ verdict, s.verdicts.find? vid = some verdict ∧
      verdict.proposalId = some pid ∧ p.state = some verdict.outcome ∧
      p.nextRetestAt = dueAt verdict p.retestCount

/-- Every proposal of the store is scheduled by the verdict it holds. -/
def AllScheduled (s : Store) : Prop :=
  ∀ pid p, s.proposals.find? pid = some p → Scheduled s pid p

theorem dueAt_columns (pid : Nat) (row : Verdict) (reopen : String) (held : Held) (spent : Nat) :
    dueAt (columns pid row reopen held) spent = dueAt row spent := rfl

/-- A row that is no rejection never falls due. -/
theorem dueAt_queued {row : Verdict} (queued : row.outcome = .queued) (spent : Nat) :
    dueAt row spent = none := by
  simp [dueAt, retestEligible, queued]

theorem dueAt_isSome {row : Verdict} {spent : Nat} :
    dueAt row spent ≠ none ↔
      retestEligible (some row.outcome) row.tier row.untilText = true ∧ spent < retests := by
  unfold dueAt
  split
  next both => simpa using both
  next neither => simpa using neither

theorem Scheduled.inserted {s : Store} {pid vid : Nat} {p : Proposal} (row : Verdict)
    (above : s.verdicts.Above vid) (scheduled : Scheduled s pid p) :
    Scheduled (s.insertVerdict vid row above) pid p := by
  unfold Scheduled at *
  cases pointer : p.stateVerdictId with
  | none => simpa only [pointer] using scheduled
  | some held =>
      simp only [pointer] at scheduled ⊢
      obtain ⟨verdict, present, mine, state, due⟩ := scheduled
      have apart : held ≠ vid := by
        rintro rfl
        rw [above.find?] at present
        cases present
      refine ⟨verdict, ?_, mine, state, due⟩
      rw [Store.insertVerdict, Table.find?_insert, if_neg apart, present]

theorem scheduled_moved {s : Store} {pid : Nat} {row : Verdict} {reopen : String} {held : Held}
    (scheduled : AllScheduled s) (queues : reopen = retest → row.outcome = .queued) :
    AllScheduled (s.moved pid row reopen held) := by
  intro other p found
  rw [Store.moved_find?] at found
  by_cases here : other = pid
  · rw [if_pos here, Option.map_eq_some_iff] at found
    obtain ⟨before, _, rfl⟩ := found
    simp only [Scheduled, rescheduled_stateVerdictId, rescheduled_state]
    refine ⟨columns pid row reopen held, by simp [Store.moved], by rw [here]; rfl, rfl, ?_⟩
    rw [dueAt_columns]
    by_cases again : reopen = retest
    · rw [dueAt_queued (queues again), rescheduled, if_pos again]
    · rw [rescheduled, if_neg again]
  · rw [if_neg here] at found
    exact (scheduled other p found).inserted (columns pid row reopen held)
      s.verdicts.above_nextId

/-- A call of `decide` keeps every proposal scheduled, a retest when it queues. -/
theorem decide_scheduled {s : Store} {d : Decision} (scheduled : AllScheduled s)
    (queues : d.reopen = retest → d.outcome = "queued") : AllScheduled (decide s d).2 := by
  have cases := decide_decided s d
  generalize decide s d = after at cases
  cases cases with
  | refused e => exact scheduled
  | restated vid => exact scheduled
  | loose outcome => exact fun pid p found =>
      (scheduled pid p found).inserted (d.fields outcome) s.verdicts.above_nextId
  | written outcome pid after known _ wrote =>
      cases wrote with
      | refused e => exact scheduled
      | restated held => exact scheduled
      | moved held =>
          apply scheduled_moved scheduled
          intro again
          rw [queues again] at known
          exact (Option.some.inj known).symm

theorem decideOrSkip_store (s : Store) (d : Decision) :
    (decideOrSkip s d).2 = (decide s d).2 := by
  unfold decideOrSkip
  split <;> simp_all

theorem reopenEach_scheduled (now : ℚ) (due : List Due) (s : Store) (scheduled : AllScheduled s) :
    AllScheduled (reopenEach now due s).2 := by
  induction due generalizing s with
  | nil => exact scheduled
  | cons r rest ih =>
      have first : AllScheduled (decideOrSkip s (reopening r now)).2 := by
        rw [decideOrSkip_store]
        exact decide_scheduled scheduled fun _ => rfl
      unfold reopenEach
      generalize decideOrSkip s (reopening r now) = done at first
      obtain ⟨result, next⟩ := done
      cases result with
      | error e => exact first
      | ok done =>
          have after := ih next first
          dsimp only
          generalize reopenEach now rest next = later at after
          obtain ⟨names, final⟩ := later
          cases names <;> exact after

/-- What may happen to the store between two looks at a proposal. -/
inductive Operation
  | decide (d : Decision) (plain : d.reopen ≠ retest)
  | retract (name why outcome tier untilText : String) (now : ℚ)
  | reopenDue (now : ℚ)

/-- Decisions, retractions and retest passes, from proposals nothing has decided. Only a
    pass names a retest. -/
def retesting : System Store Operation where
  start := fun s => ∀ pid p, s.proposals.find? pid = some p →
    p.state = none ∧ p.stateVerdictId = none ∧ p.nextRetestAt = none
  step := fun s => fun
    | .decide d _ => some (decide s d).2
    | .retract name why outcome tier untilText now =>
        some (retract s name why outcome tier untilText now).2
    | .reopenDue now => some (reopenDueRetests s now).2

theorem retesting_scheduled : retesting.InvariantWhen (fun _ _ => True) AllScheduled where
  start := by
    intro s untouched pid p found
    obtain ⟨state, pointer, due⟩ := untouched pid p found
    simp [Scheduled, pointer, state, due]
  step := by
    intro s a s' scheduled _ stepped
    cases a with
    | decide d plain =>
        cases stepped
        exact decide_scheduled scheduled fun again => absurd again plain
    | retract name why outcome tier untilText now =>
        cases stepped
        apply decide_scheduled scheduled
        intro again
        have apart : retraction ≠ retest := by decide
        exact absurd again apart
    | reopenDue now =>
        cases stepped
        exact reopenEach_scheduled now _ s scheduled

/-- A proposal is given a due date exactly when the verdict it holds may be retested and
    an attempt is left. -/
theorem due_iff_retestable (s : Store) (reached : retesting.Reachable s) (pid : Nat)
    (p : Proposal) (found : s.proposals.find? pid = some p) :
    p.nextRetestAt ≠ none ↔ (∃ vid verdict, p.stateVerdictId = some vid ∧
      s.verdicts.find? vid = some verdict ∧
      retestEligible p.state verdict.tier verdict.untilText = true) ∧ p.retestCount < retests := by
  have scheduled := retesting_scheduled.holds reached pid p found
  unfold Scheduled at scheduled
  cases pointer : p.stateVerdictId with
  | none =>
      rw [pointer] at scheduled
      simp [scheduled.2]
  | some vid =>
      rw [pointer] at scheduled
      obtain ⟨verdict, present, _, state, due⟩ := scheduled
      rw [due, dueAt_isSome, ← state]
      constructor
      · rintro ⟨eligible, left⟩
        exact ⟨⟨vid, verdict, rfl, present, eligible⟩, left⟩
      · rintro ⟨⟨same, row, pointed, found, eligible⟩, left⟩
        obtain rfl := Option.some.inj pointed
        obtain rfl : verdict = row := Option.some.inj (present.symm.trans found)
        exact ⟨eligible, left⟩

/-- A screen turns the proposal down. -/
def turnedDown : Decision :=
  { name := "org/model", outcome := "declined", tier := screen }

theorem due_iff_retestable_turnedDown :
    ∃ p, (decide (Store.fresh "org/model") turnedDown).2.proposals.find? 1 = some p ∧
      p.nextRetestAt ≠ none ∧ ∃ vid verdict, p.stateVerdictId = some vid ∧
        (decide (Store.fresh "org/model") turnedDown).2.verdicts.find? vid = some verdict ∧
        retestEligible p.state verdict.tier verdict.untilText = true := by
  have start : retesting.Reachable (Store.fresh "org/model") := by
    apply System.ReachableWhen.start
    intro pid p found
    by_cases here : pid = 1
    · subst here
      cases found
      exact ⟨rfl, rfl, rfl⟩
    · simp [Store.fresh, Table.find?_insert, here] at found
  have plain : turnedDown.reopen ≠ retest := by decide
  have reached : retesting.Reachable (decide (Store.fresh "org/model") turnedDown).2 :=
    .step start trivial (by exact rfl : retesting.step _ (.decide turnedDown plain) = some _)
  have due := due_iff_retestable _ reached 1 _ rfl
  refine ⟨_, rfl, ?_, (due.mp ?_).1⟩ <;> decide

end LocalHarness.MemoryStore
