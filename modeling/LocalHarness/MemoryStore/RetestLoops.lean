import LocalHarness.MemoryStore.Retests

/-! # Retest loops beside one another

Any number of loops, each of which reads its due list once and then reopens what it
listed, with other decisions and the passing of time between their steps. The write of a
reopen checks that the proposal is a rejection and nothing else of what the list said.
-/

namespace LocalHarness.MemoryStore

open LocalHarness.Library LocalHarness.Runs

namespace Store

/-- The verdict a name's proposal holds. -/
def heldId (s : Store) (name : String) : Option Nat :=
  (s.named name).bind fun pid => (s.proposals.find? pid).bind Proposal.stateVerdictId

def dueOf (s : Store) (name : String) : Option ℚ :=
  (s.named name).bind fun pid => (s.proposals.find? pid).bind Proposal.nextRetestAt

def stateOf (s : Store) (name : String) : Option Outcome :=
  (s.named name).bind fun pid => (s.proposals.find? pid).bind Proposal.state

/-- The schema's `name TEXT NOT NULL UNIQUE`. -/
def UniqueNames (s : Store) : Prop :=
  ∀ pid other p p', s.proposals.find? pid = some p → s.proposals.find? other = some p' →
    p.name = p'.name → pid = other

end Store

/-- A due row a loop has read, with the verdict its proposal held then. -/
structure Listed where
  due : Due
  listedAt : ℚ
  verdict : Option Nat

/-- A retest that took effect: the verdict it reopened, its due date and the time. -/
structure Reopened where
  verdict : Option Nat
  due : Option ℚ
  writtenAt : ℚ

structure Loops where
  store : Store
  clock : ℚ
  loops : Nat → List Listed
  reopened : List Reopened

inductive LoopStep
  | tick (later : ℚ)
  | list (loop : Nat)
  | reopen (loop : Nat)
  | decide (d : Decision)

namespace Loops

def listing (w : Loops) : List Listed :=
  (dueRetests w.store w.clock).map fun due => ⟨due, w.clock, w.store.heldId due.name⟩

/-- One loop reopens the first row it still has. -/
def reopenNext (w : Loops) (loop : Nat) (first : Listed) (rest : List Listed) : Loops :=
  let after := MemoryStore.decide w.store (reopening first.due first.listedAt)
  { w with
    store := after.2
    loops := Function.update w.loops loop rest
    reopened := match after.1 with
      | .ok _ =>
          ⟨w.store.heldId first.due.name, w.store.dueOf first.due.name, w.clock⟩ :: w.reopened
      | .error _ => w.reopened }

def step (w : Loops) : LoopStep → Option Loops
  | .tick later => if w.clock ≤ later then some { w with clock := later } else none
  | .list loop => some { w with loops := Function.update w.loops loop w.listing }
  | .reopen loop =>
      match w.loops loop with
      | [] => none
      | first :: rest => some (w.reopenNext loop first rest)
  | .decide d =>
      -- Only a retest loop names a retest.
      if d.reopen = retest then none
      else some { w with store := (MemoryStore.decide w.store { d with now := w.clock }).2 }

/-- No more reopens than allowed, none twice for one rejection, none before it is due. -/
def Kept (w : Loops) : Prop :=
  (∀ pid p, w.store.proposals.find? pid = some p → p.retestCount ≤ retests) ∧
    (w.reopened.map Reopened.verdict).Nodup ∧
    ∀ r ∈ w.reopened, ∃ due, r.due = some due ∧ due ≤ r.writtenAt

/-- A retest about to be written on a rejection finds the verdict its list was read from. -/
def Fresh (w : Loops) : LoopStep → Prop
  | .reopen loop => ∀ first ∈ (w.loops loop).head?,
      (w.store.stateOf first.due.name = some .broken ∨
        w.store.stateOf first.due.name = some .declined) →
      w.store.heldId first.due.name = first.verdict
  | _ => True

instance (w : Loops) : (a : LoopStep) → Decidable (w.Fresh a)
  | .reopen loop => inferInstanceAs (Decidable (∀ first ∈ (w.loops loop).head?,
      (w.store.stateOf first.due.name = some .broken ∨
        w.store.stateOf first.due.name = some .declined) →
      w.store.heldId first.due.name = first.verdict))
  | .tick _ | .list _ | .decide _ => inferInstanceAs (Decidable True)

end Loops

/-- Retest loops over a store nothing has been decided in. -/
def looping : System Loops LoopStep where
  start := fun w => w.store.UniqueNames ∧ (∀ loop, w.loops loop = []) ∧ w.reopened = [] ∧
    ∀ pid p, w.store.proposals.find? pid = some p →
      p.state = none ∧ p.stateVerdictId = none ∧ p.nextRetestAt = none ∧ p.retestCount = 0
  step := Loops.step

/-- What a decision does to one proposal's row. -/
theorem decide_proposal {s : Store} {d : Decision} {pid : Nat} {p : Proposal}
    (found : (decide s d).2.proposals.find? pid = some p) :
    s.proposals.find? pid = some p ∨
      p.stateVerdictId = some s.verdicts.nextId ∧ ∃ before, s.proposals.find? pid = some before ∧
        p.name = before.name ∧ (d.reopen ≠ retest → p.retestCount = before.retestCount) := by
  have cases := decide_decided s d
  generalize decide s d = after at cases found
  cases cases with
  | refused e => exact .inl found
  | restated vid => exact .inl found
  | loose outcome => exact .inl found
  | written outcome moving after _ _ wrote =>
      cases wrote with
      | refused e => exact .inl found
      | restated held => exact .inl found
      | moved held =>
          rw [Store.moved_find?] at found
          by_cases here : pid = moving
          · rw [if_pos here, Option.map_eq_some_iff] at found
            obtain ⟨before, was, rfl⟩ := found
            refine .inr ⟨rescheduled_stateVerdictId _ _ _, before, here ▸ was, ?_, ?_⟩
            · exact rescheduled_name _ _ _
            · intro plain
              rw [rescheduled, if_neg plain]
          · rw [if_neg here] at found
            exact .inl found

theorem decide_ids {s : Store} {d : Decision} {id : Nat} (present : id ∈ s.verdicts.ids) :
    id ∈ (decide s d).2.verdicts.ids := by
  have cases := decide_decided s d
  generalize decide s d = after at cases
  cases cases with
  | refused e => exact present
  | restated vid => exact present
  | loose outcome =>
      exact (Table.mem_ids_insert s.verdicts.above_nextId).mpr (.inl present)
  | written outcome moving after _ _ wrote =>
      cases wrote with
      | refused e => exact present
      | restated held => exact present
      | moved held => exact (Table.mem_ids_insert s.verdicts.above_nextId).mpr (.inl present)

theorem decide_named (s : Store) (d : Decision) (name : String) :
    (decide s d).2.named name = s.named name := by
  have cases := decide_decided s d
  generalize decide s d = after at cases
  cases cases with
  | refused e => rfl
  | restated vid => rfl
  | loose outcome => rfl
  | written outcome moving after _ _ wrote =>
      cases wrote with
      | refused e => rfl
      | restated held => rfl
      | moved held => exact Store.moved_named _ _ _ _ _ _

/-- A reopen is refused, or it moves a rejection. -/
theorem decide_reopening (s : Store) (r : Due) (now : ℚ) :
    (∃ e, decide s (reopening r now) = (.error e, s)) ∨
      ∃ pid p held, s.named r.name = some pid ∧ s.proposals.find? pid = some p ∧
        (p.state = some .broken ∨ p.state = some .declined) ∧
        decide s (reopening r now) = (.ok s.verdicts.nextId,
          s.moved pid ((reopening r now).fields .queued) retest held) := by
  have cases := decide_decided s (reopening r now)
  have known : Outcome.ofText? (reopening r now).outcome = some .queued := rfl
  generalize decide s (reopening r now) = after at cases
  cases cases with
  | refused e => exact .inl ⟨e, rfl⟩
  | restated vid _ candidate => exact absurd rfl candidate
  | loose outcome _ _ candidate => exact absurd rfl candidate
  | written outcome pid after decoded found wrote =>
      obtain rfl : outcome = .queued := Option.some.inj (decoded.symm.trans known)
      cases wrote with
      | refused e => exact .inl ⟨e, rfl⟩
      | restated held _ same =>
          simp [Held.restated, reopening, retest] at same
      | moved held read _ allowed =>
          obtain ⟨p, present, _, state⟩ := Store.held_key read
          refine .inr ⟨pid, p, held, found, present, ?_, rfl⟩
          rw [state]
          simp only [transitionRefused, reopening, retest, reopens, retraction] at allowed
          by_contra neither
          simp [not_or.mp neither] at allowed

/-- What a listed row still says as long as its proposal holds the verdict it held then. -/
def Listed.Current (s : Store) (clock : ℚ) (l : Listed) : Prop :=
  l.listedAt ≤ clock ∧ ∃ vid, l.verdict = some vid ∧ vid ∈ s.verdicts.ids ∧
    ∀ pid p, s.named l.due.name = some pid → s.proposals.find? pid = some p →
      p.stateVerdictId = some vid →
      p.retestCount < retests ∧ ∃ next, p.nextRetestAt = some next ∧ next ≤ l.listedAt

/-- No proposal holds a verdict a retest has reopened. -/
def Reopened.Spent (s : Store) (r : Reopened) : Prop :=
  ∃ vid, r.verdict = some vid ∧ vid ∈ s.verdicts.ids ∧
    ∀ pid p, s.proposals.find? pid = some p → p.stateVerdictId ≠ some vid

structure Loops.Steady (w : Loops) : Prop where
  unique : w.store.UniqueNames
  scheduled : AllScheduled w.store
  counts : ∀ pid p, w.store.proposals.find? pid = some p → p.retestCount ≤ retests
  listed : ∀ loop, ∀ l ∈ w.loops loop, l.Current w.store w.clock
  spent : ∀ r ∈ w.reopened, r.Spent w.store
  once : (w.reopened.map Reopened.verdict).Nodup
  due : ∀ r ∈ w.reopened, ∃ due, r.due = some due ∧ due ≤ r.writtenAt

theorem nextId_absent {s : Store} {vid : Nat} (present : vid ∈ s.verdicts.ids) :
    vid ≠ s.verdicts.nextId := by
  rintro rfl
  exact s.verdicts.above_nextId.not_mem present

theorem uniqueNames_decide {s : Store} {d : Decision} (unique : s.UniqueNames) :
    (decide s d).2.UniqueNames := by
  have before : ∀ {pid p}, (decide s d).2.proposals.find? pid = some p →
      ∃ was, s.proposals.find? pid = some was ∧ p.name = was.name := by
    intro pid p found
    rcases decide_proposal found with same | ⟨_, was, there, name, _⟩
    · exact ⟨p, same, rfl⟩
    · exact ⟨was, there, name⟩
  intro pid other p p' found found' same
  obtain ⟨was, there, name⟩ := before found
  obtain ⟨was', there', name'⟩ := before found'
  exact unique pid other was was' there there' (by rw [← name, ← name', same])

/-- A listed row survives any decision: its proposal is as it was, or has moved on. -/
theorem Listed.Current.decide {s : Store} {clock : ℚ} {l : Listed} (current : l.Current s clock)
    (d : Decision) : l.Current (MemoryStore.decide s d).2 clock := by
  obtain ⟨past, vid, verdict, present, still⟩ := current
  refine ⟨past, vid, verdict, decide_ids present, ?_⟩
  intro pid p named found holds
  rw [decide_named] at named
  rcases decide_proposal found with same | ⟨moved, _⟩
  · exact still pid p named same holds
  · rw [moved, Option.some.injEq] at holds
    exact absurd holds.symm (nextId_absent present)

theorem Reopened.Spent.decide {s : Store} {r : Reopened} (spent : r.Spent s) (d : Decision) :
    r.Spent (MemoryStore.decide s d).2 := by
  obtain ⟨vid, verdict, present, unheld⟩ := spent
  refine ⟨vid, verdict, decide_ids present, ?_⟩
  intro pid p found holds
  rcases decide_proposal found with same | ⟨moved, _⟩
  · exact unheld pid p same holds
  · rw [moved, Option.some.injEq] at holds
    exact nextId_absent present holds.symm

/-- A row of the due list is what its proposal says at that moment. -/
theorem dueRetests_current {s : Store} {now : ℚ} {r : Due} (unique : s.UniqueNames)
    (member : r ∈ dueRetests s now) :
    Listed.Current s now ⟨r, now, s.heldId r.name⟩ := by
  rw [dueRetests, List.mem_filter, List.mem_insertionSort, List.mem_filterMap] at member
  obtain ⟨⟨⟨pid, p⟩, inside, row⟩, _⟩ := member
  have found : s.proposals.find? pid = some p := Table.find?_eq_some.mpr inside
  unfold dueRow at row
  split at row
  next verdict next joined falls =>
    rw [Option.ite_none_right_eq_some, Option.some.injEq] at row
    obtain ⟨⟨past, left⟩, rfl⟩ := row
    obtain ⟨vid, pointer, present⟩ := Option.bind_eq_some_iff.mp joined
    have names : ∀ {other q}, s.named p.name = some other → s.proposals.find? other = some q →
        other = pid ∧ q = p := by
      intro other q named there
      obtain ⟨q', there', same⟩ := Store.named_present named
      obtain rfl : q = q' := Option.some.inj (there.symm.trans there')
      obtain rfl := unique other pid q p there found same
      exact ⟨rfl, Option.some.inj (there.symm.trans found)⟩
    obtain ⟨other, named⟩ : ∃ other, s.named p.name = some other := by
      rw [← Option.isSome_iff_exists, Store.named, Option.isSome_map, List.find?_isSome]
      exact ⟨(pid, p), inside, by simp⟩
    obtain ⟨q, there, _⟩ := Store.named_present named
    obtain ⟨rfl, rfl⟩ := names named there
    refine ⟨le_rfl, vid, ?_, Table.mem_ids_of_find? present, ?_⟩
    · simpa [Store.heldId, named, found] using pointer
    · intro third p' named' found' _
      obtain ⟨rfl, rfl⟩ := names named' found'
      exact ⟨left, next, falls, past⟩
  next => cases row

namespace Loops.Steady

variable {w : Loops}

/-- Time passing makes nothing less past. -/
theorem tick (steady : w.Steady) {later : ℚ} (onward : w.clock ≤ later) :
    Loops.Steady { w with clock := later } where
  unique := steady.unique
  scheduled := steady.scheduled
  counts := steady.counts
  listed := fun loop l member =>
    ⟨(steady.listed loop l member).1.trans onward, (steady.listed loop l member).2⟩
  spent := steady.spent
  once := steady.once
  due := steady.due

theorem list (steady : w.Steady) (loop : Nat) :
    Loops.Steady { w with loops := Function.update w.loops loop w.listing } where
  unique := steady.unique
  scheduled := steady.scheduled
  counts := steady.counts
  listed := by
    intro other l member
    by_cases here : other = loop
    · subst here
      simp only [Function.update_self, Loops.listing, List.mem_map] at member
      obtain ⟨r, due, rfl⟩ := member
      exact dueRetests_current steady.unique due
    · simp only [Function.update_of_ne here] at member
      exact steady.listed other l member
  spent := steady.spent
  once := steady.once
  due := steady.due

theorem decide (steady : w.Steady) (d : Decision) (plain : d.reopen ≠ retest) :
    Loops.Steady { w with store := (MemoryStore.decide w.store d).2 } where
  unique := uniqueNames_decide steady.unique
  scheduled := decide_scheduled steady.scheduled fun again => absurd again plain
  counts := by
    intro pid p found
    rcases decide_proposal found with same | ⟨_, before, there, _, count⟩
    · exact steady.counts pid p same
    · rw [count plain]
      exact steady.counts pid before there
  listed := fun loop l member => (steady.listed loop l member).decide d
  spent := fun r member => (steady.spent r member).decide d
  once := steady.once
  due := steady.due

/-- A listed row is taken off and its reopen refused. -/
theorem skip (steady : w.Steady) {loop : Nat} {first : Listed} {rest : List Listed}
    (at_ : w.loops loop = first :: rest) :
    Loops.Steady { w with loops := Function.update w.loops loop rest } where
  unique := steady.unique
  scheduled := steady.scheduled
  counts := steady.counts
  listed := by
    intro other l member
    by_cases here : other = loop
    · subst here
      simp only [Function.update_self] at member
      exact steady.listed other l (by rw [at_]; exact List.mem_cons_of_mem _ member)
    · simp only [Function.update_of_ne here] at member
      exact steady.listed other l member
  spent := steady.spent
  once := steady.once
  due := steady.due

/-- A reopen that finds the verdict its list was read from finds everything the list said. -/
theorem reopen (steady : w.Steady) {loop : Nat} {first : Listed} {rest : List Listed}
    (at_ : w.loops loop = first :: rest) (fresh : w.Fresh (.reopen loop)) :
    (w.reopenNext loop first rest).Steady := by
  have rested := steady.skip at_
  rcases decide_reopening w.store first.due first.listedAt with
    ⟨e, refused⟩ | ⟨pid, p, held, named, found, rejected, moved⟩
  · have same : w.reopenNext loop first rest =
        { w with loops := Function.update w.loops loop rest } := by
      simp only [Loops.reopenNext, refused]
    exact same ▸ rested
  · have holds : w.store.heldId first.due.name = first.verdict := by
      apply fresh first (by simp [at_])
      simpa [Store.stateOf, named, found] using rejected
    obtain ⟨past, vid, verdict, present, still⟩ :=
      steady.listed loop first (by rw [at_]; exact List.mem_cons_self)
    have pointer : p.stateVerdictId = some vid := by
      rw [verdict] at holds
      simpa [Store.heldId, named, found] using holds
    obtain ⟨left, next, falls, before⟩ := still pid p named found pointer
    have after : w.reopenNext loop first rest =
        { w with
          store := (MemoryStore.decide w.store (reopening first.due first.listedAt)).2
          loops := Function.update w.loops loop rest
          reopened := ⟨some vid, some next, w.clock⟩ :: w.reopened } := by
      have dueNow : w.store.dueOf first.due.name = some next := by
        simpa [Store.dueOf, named, found] using falls
      simp only [Loops.reopenNext, moved, holds, verdict, dueNow]
    have unheld : ∀ other q, (MemoryStore.decide w.store
        (reopening first.due first.listedAt)).2.proposals.find? other = some q →
        q.stateVerdictId ≠ some vid := by
      intro other q there pointed
      rcases decide_proposal there with same | ⟨new, _⟩
      · -- Only the proposal a verdict was written for holds it, and that one has moved.
        have mine := steady.scheduled pid p found
        have theirs := steady.scheduled other q same
        simp only [Scheduled, pointer, pointed] at mine theirs
        obtain ⟨row, here, owner, _⟩ := mine
        obtain ⟨row', here', owner', _⟩ := theirs
        obtain rfl : row = row' := Option.some.inj (here.symm.trans here')
        obtain rfl := Option.some.inj (owner.symm.trans owner')
        rw [moved, Store.moved_find?, if_pos rfl, found, Option.map_some,
          Option.some.injEq] at there
        rw [← there, rescheduled_stateVerdictId, Option.some.injEq] at pointed
        exact nextId_absent present pointed.symm
      · rw [new, Option.some.injEq] at pointed
        exact nextId_absent present pointed.symm
    rw [after]
    refine ⟨uniqueNames_decide steady.unique, decide_scheduled steady.scheduled fun _ => rfl,
      ?_, ?_, ?_, ?_, ?_⟩
    · intro other q there
      rw [moved, Store.moved_find?] at there
      by_cases here : other = pid
      · rw [if_pos here, found, Option.map_some, Option.some.injEq] at there
        rw [← there, rescheduled, if_pos rfl]
        exact left
      · rw [if_neg here] at there
        exact steady.counts other q there
    · exact fun other l member => (rested.listed other l member).decide _
    · intro r member
      rcases List.mem_cons.mp member with rfl | earlier
      · exact ⟨vid, rfl, decide_ids present, unheld⟩
      · exact (steady.spent r earlier).decide _
    · rw [List.map_cons, List.nodup_cons]
      refine ⟨?_, steady.once⟩
      intro twice
      obtain ⟨r, member, same⟩ := List.mem_map.mp twice
      obtain ⟨other, was, _, gone⟩ := steady.spent r member
      rw [same, Option.some.injEq] at was
      exact gone pid p found (was ▸ pointer)
    · intro r member
      rcases List.mem_cons.mp member with rfl | earlier
      · exact ⟨next, rfl, before.trans past⟩
      · exact steady.due r earlier

end Loops.Steady

theorem looping_steady : looping.InvariantWhen Loops.Fresh Loops.Steady where
  start := by
    rintro w ⟨unique, idle, unreopened, untouched⟩
    refine ⟨unique, ?_, ?_, ?_, ?_, ?_, ?_⟩
    · intro pid p found
      obtain ⟨state, pointer, due, _⟩ := untouched pid p found
      simp [Scheduled, pointer, state, due]
    · intro pid p found
      rw [(untouched pid p found).2.2.2]
      exact Nat.zero_le _
    · intro loop l member
      rw [idle loop] at member
      cases member
    all_goals simp [unreopened]
  step := by
    intro w a w' steady fresh stepped
    cases a with
    | tick later =>
        simp only [looping, Loops.step, Option.ite_none_right_eq_some, Option.some.injEq]
          at stepped
        obtain ⟨onward, rfl⟩ := stepped
        exact steady.tick onward
    | list loop =>
        cases stepped
        exact steady.list loop
    | reopen loop =>
        cases at_ : w.loops loop with
        | nil => simp [looping, Loops.step, at_] at stepped
        | cons first rest =>
            simp only [looping, Loops.step, at_, Option.some.injEq] at stepped
            exact stepped ▸ steady.reopen at_ fresh
    | decide d =>
        simp only [looping, Loops.step, Option.ite_none_left_eq_some, Option.some.injEq]
          at stepped
        obtain ⟨plain, rfl⟩ := stepped
        exact steady.decide _ plain

/-- While every retest written on a rejection finds the verdict its list was read from, no
    count passes the limit, no rejection is reopened twice and none before it is due. -/
theorem loops_kept (w : Loops) (reached : looping.ReachableWhen Loops.Fresh w) : w.Kept :=
  have steady := looping_steady.holds reached
  ⟨steady.counts, steady.once, steady.due⟩

def started : Loops where
  store := Store.fresh "org/model"
  clock := 0
  loops := fun _ => []
  reopened := []

theorem started_starts : looping.start started := by
  refine ⟨?_, fun _ => rfl, rfl, ?_⟩
  · intro pid other p p' found found' _
    have one : ∀ {id q}, started.store.proposals.find? id = some q → id = 1 := by
      intro id q there
      by_contra different
      simp [started, Store.fresh, Table.find?_insert, different] at there
    rw [one found, one found']
  · intro pid p found
    by_cases here : pid = 1
    · subst here
      cases found
      exact ⟨rfl, rfl, rfl, rfl⟩
    · simp [started, Store.fresh, Table.find?_insert, here] at found

/-- A rejection, a week's wait and a reopen by the first loop. -/
def round (weeks : ℚ) : List LoopStep :=
  [.decide turnedDown, .tick (weeks * retestAfterSeconds), .list 1, .reopen 1]

/-- Two loops list the third retest. One spends it, the proposal is turned down once more,
    and the other reopens that rejection from its old list. -/
def overrun : List LoopStep :=
  round 1 ++ round 2 ++
    [.decide turnedDown, .tick (3 * retestAfterSeconds), .list 1, .list 2, .reopen 1,
      .decide turnedDown, .reopen 2]

/-- Four retests of one proposal, the last of them on a rejection that has no due date. -/
theorem loops_overrun : ∃ w, looping.Reachable w ∧ ¬ w.Kept := by
  have spent : (looping.run started overrun).map (fun w =>
      (w.store.proposals.find? 1).map Proposal.retestCount) = some (some 4) := by
    decide +kernel
  obtain ⟨w, ran, four⟩ := Option.map_eq_some_iff.mp spent
  refine ⟨w, (System.ReachableWhen.start started_starts).run (System.meets_true _ _) ran, ?_⟩
  rintro ⟨counts, _⟩
  obtain ⟨p, found, count⟩ := Option.map_eq_some_iff.mp four
  have within := counts 1 p found
  rw [count] at within
  exact absurd within (by decide)

/-- One loop alone reopens a rejection a week after it. -/
theorem loops_kept_round : ∃ w, looping.run started (round 1) = some w ∧ w.Kept ∧
    w.reopened.map Reopened.verdict = [some 1] := by
  have ran : (looping.run started (round 1)).map (fun w => w.reopened.map Reopened.verdict) =
      some [some 1] := by
    decide +kernel
  obtain ⟨w, ran, once⟩ := Option.map_eq_some_iff.mp ran
  have met : looping.Meets Loops.Fresh started (round 1) := by
    decide +kernel
  exact ⟨w, ran, loops_kept w ((System.ReachableWhen.start started_starts).run met ran), once⟩

end LocalHarness.MemoryStore
