import LocalHarness.Library.Runs
import LocalHarness.MemoryStore.Writes

/-! # Answers stay answers

Runs of `decide` over one store. A call that names no reopen never takes a proposal
out of a terminal state and never moves it down the ladder; every way out of a
terminal state is a named reopen that succeeded.
-/

namespace LocalHarness.MemoryStore

open LocalHarness.Runs

/-- One call of `decide` after another; a call that raises leaves what it found. -/
def deciding : System Store Decision where
  start := fun _ => True
  step := fun s d => some (decide s d).2

namespace Store

/-- The proposal's state is terminal. -/
def Answered (s : Store) (pid : Nat) : Prop :=
  ∃ held, s.held pid = some held ∧ ∃ outcome ∈ terminal, held.state = some outcome

/-- The state is neither empty nor queued, so the table guards it. -/
def Guarded (s : Store) (pid : Nat) : Prop :=
  ∃ held, s.held pid = some held ∧ ∃ outcome, held.state = some outcome ∧ outcome ≠ .queued

/-- The rank of the tier that decided the proposal. -/
def rank (s : Store) (pid : Nat) : Nat :=
  ((s.held pid).map fun held => ladder held.tier).getD 0

theorem rank_of_held {s : Store} {pid : Nat} {held : Held} (read : s.held pid = some held) :
    s.rank pid = ladder held.tier := by
  simp [rank, read]

theorem Answered.guarded {s : Store} {pid : Nat} (answered : s.Answered pid) :
    s.Guarded pid := by
  obtain ⟨held, read, outcome, final, state⟩ := answered
  refine ⟨held, read, outcome, state, ?_⟩
  intro queued
  rw [queued] at final
  exact absurd final (by decide)

/-- Terminal before, terminal after and no lower on the ladder. -/
def Climbs (pid : Nat) (s s' : Store) : Prop :=
  s.Answered pid → s'.Answered pid ∧ s.rank pid ≤ s'.rank pid

theorem Climbs.refl (pid : Nat) (s : Store) : Climbs pid s s :=
  fun answered => ⟨answered, le_rfl⟩

theorem Climbs.trans {pid : Nat} {s t u : Store} (first : Climbs pid s t)
    (second : Climbs pid t u) : Climbs pid s u := by
  intro answered
  obtain ⟨midway, low⟩ := first answered
  obtain ⟨final, high⟩ := second midway
  exact ⟨final, low.trans high⟩

/-- A verdict that moves another proposal, or none, takes nothing from this one. -/
theorem climbs_of_inserted {s s' : Store} {pid vid : Nat} {row : Verdict}
    {above : s.verdicts.Above vid}
    (same : s'.held pid = (s.insertVerdict vid row above).held pid) : Climbs pid s s' := by
  rintro ⟨held, read, outcome, final, state⟩
  rcases held_inserted row above read with kept | ⟨dangling, filled⟩
  · rw [← same] at kept
    exact ⟨⟨held, kept, outcome, final, state⟩, by rw [rank_of_held read, rank_of_held kept]⟩
  · rw [← same] at filled
    refine ⟨⟨_, filled, outcome, final, state⟩, ?_⟩
    have bottom : s.rank pid = 0 := by
      rw [rank_of_held read, Held.tier, dangling]
      decide
    exact bottom ▸ Nat.zero_le _

end Store

/-- A move the table allows without a reopen does not go down the ladder, and does not
    replace an answer by a waypoint. -/
theorem allowed_climbs {state outcome : Outcome} {heldTier tier : String}
    (allowed : transitionRefused (some state) heldTier outcome tier "" = none)
    (guarded : state ≠ .queued) :
    ladder heldTier ≤ ladder tier ∧ (state ∈ terminal → outcome ∈ terminal) := by
  simp only [transitionRefused, ne_eq, not_true_eq_false, if_false, guarded] at allowed
  split at allowed
  next => cases allowed
  next keeps =>
    split at allowed
    next => cases allowed
    next level =>
      refine ⟨Nat.le_of_not_lt level, ?_⟩
      intro answered
      rw [terminal_iff_not_waypoint]
      exact fun waypoint => keeps ⟨answered, waypoint⟩

/-- A reopen the table allows is one of the two it names. -/
theorem allowed_reopen {state : Option Outcome} {outcome : Outcome} {heldTier tier reopen : String}
    (allowed : transitionRefused state heldTier outcome tier reopen = none)
    (named : reopen ≠ "") : reopen = retraction ∨ reopen = retest := by
  by_cases first : reopen = retraction
  · exact .inl first
  · by_cases second : reopen = retest
    · exact .inr second
    · simp [transitionRefused, reopens, named, first, second] at allowed

theorem Held.restated_tier {held : Held} {row : Verdict} {reopen : String}
    (same : held.restated row reopen = true) : held.tier = row.tier := by
  simp only [Held.restated, Bool.and_eq_true, Option.any_eq_true, beq_iff_eq] at same
  obtain ⟨_, verdict, joined, ⟨⟨tier, _⟩, _⟩, _⟩ := same
  rw [Held.tier, joined, Option.map_some, Option.getD_some, tier]

/-- The step of a run: a call that names no reopen climbs. -/
theorem decide_climbs (pid : Nat) (s : Store) (d : Decision) (noReopen : d.reopen = "") :
    Store.Climbs pid s (decide s d).2 := by
  have cases := decide_decided s d
  generalize decide s d = after at cases
  cases cases with
  | refused e => exact .refl pid s
  | restated vid => exact .refl pid s
  | loose outcome => exact Store.climbs_of_inserted rfl
  | written outcome moving after _ _ wrote =>
      cases wrote with
      | refused e => exact .refl pid s
      | restated held => exact .refl pid s
      | moved held read _ allowed =>
          by_cases here : pid = moving
          · subst here
            rintro ⟨held', reread, state, final, standing⟩
            obtain rfl : held' = held := Option.some.inj (reread.symm.trans read)
            rw [noReopen, standing] at allowed
            have guarded : state ≠ .queued := by
              rintro rfl
              exact absurd final (by decide)
            obtain ⟨level, answers⟩ := allowed_climbs allowed guarded
            have now := Store.held_moved (d.fields outcome) d.reopen held' reread
            refine ⟨⟨_, now, outcome, answers final, rfl⟩, ?_⟩
            rw [Store.rank_of_held reread, Store.rank_of_held now]
            exact level
          · exact Store.climbs_of_inserted (Store.held_moved_other here)

/-- A call that would go down the ladder raises. -/
theorem decide_below (pid : Nat) (s : Store) (d : Decision) (noReopen : d.reopen = "")
    (names : s.named d.name = some pid) (guarded : s.Guarded pid)
    (below : ladder d.tier < s.rank pid) : ∃ e, (decide s d).1 = .error e := by
  obtain ⟨held, read, state, standing, unqueued⟩ := guarded
  rw [Store.rank_of_held read] at below
  have cases := decide_decided s d
  generalize decide s d = after at cases
  cases cases with
  | refused e => exact ⟨e, rfl⟩
  | restated vid absent => rw [names] at absent; cases absent
  | loose outcome _ absent => rw [names] at absent; cases absent
  | written outcome moving after _ found wrote =>
      obtain rfl : pid = moving := Option.some.inj (names.symm.trans found)
      cases wrote with
      | refused e => exact ⟨e, rfl⟩
      | restated held' reread same =>
          obtain rfl : held' = held := Option.some.inj (reread.symm.trans read)
          have level := Held.restated_tier same
          rw [level] at below
          exact absurd below (Nat.lt_irrefl _)
      | moved held' reread _ allowed =>
          obtain rfl : held' = held := Option.some.inj (reread.symm.trans read)
          rw [noReopen, standing] at allowed
          exact absurd below (Nat.not_lt.mpr (allowed_climbs allowed unqueued).1)

/-- A call that takes a proposal out of a terminal state is a named reopen of it. -/
theorem decide_leaves (pid : Nat) (s : Store) (d : Decision) (answered : s.Answered pid)
    (left : ¬ (decide s d).2.Answered pid) :
    (d.reopen = retraction ∨ d.reopen = retest) ∧ s.named d.name = some pid ∧
      ∃ vid, (decide s d).1 = .ok vid := by
  have named : d.reopen ≠ "" := fun noReopen => left (decide_climbs pid s d noReopen answered).1
  have cases := decide_decided s d
  generalize decide s d = after at cases left
  cases cases with
  | refused e => exact absurd answered left
  | restated vid => exact absurd answered left
  | loose outcome => exact absurd (Store.climbs_of_inserted rfl answered).1 left
  | written outcome moving after _ found wrote =>
      cases wrote with
      | refused e => exact absurd answered left
      | restated held => exact absurd answered left
      | moved held read _ allowed =>
          by_cases here : pid = moving
          · exact ⟨allowed_reopen allowed named, here ▸ found, _, rfl⟩
          · exact absurd (Store.climbs_of_inserted (Store.held_moved_other here) answered).1 left

/-- Over any run of calls: without a reopen a terminal state stays terminal and climbs,
    a call that would go down the ladder is refused and changes nothing, and only a named
    reopen ever leaves a terminal state. -/
theorem answers_climb (pid : Nat) (s : Store) :
    (∀ calls s', deciding.run s calls = some s' → (∀ d ∈ calls, d.reopen = "") →
      s.Answered pid → s'.Answered pid ∧ s.rank pid ≤ s'.rank pid) ∧
    (∀ d, d.reopen = "" → s.named d.name = some pid → s.Guarded pid →
      ladder d.tier < s.rank pid →
      (∃ e, (decide s d).1 = .error e) ∧ (decide s d).2.held pid = s.held pid ∧
        (decide s d).2.verdicts = s.verdicts) ∧
    (∀ calls s', deciding.run s calls = some s' → s.Answered pid → ¬ s'.Answered pid →
      ∃ before d after mid vid, calls = before ++ d :: after ∧
        deciding.run s before = some mid ∧ mid.Answered pid ∧
        ¬ (decide mid d).2.Answered pid ∧ mid.named d.name = some pid ∧
        (d.reopen = retraction ∨ d.reopen = retest) ∧ (decide mid d).1 = .ok vid) := by
  refine ⟨?_, ?_, ?_⟩
  · intro calls s' ran noReopen
    refine System.run_relates (fun _ d => d.reopen = "") (Store.Climbs pid) (Store.Climbs.refl pid)
      (fun _ _ _ => Store.Climbs.trans) ?_ (System.meets_of_forall noReopen s) ran
    intro mid d next plain stepped
    cases stepped
    exact decide_climbs pid mid d plain
  · intro d noReopen names guarded below
    obtain ⟨e, raised⟩ := decide_below pid s d noReopen names guarded below
    rw [decide_error raised]
    exact ⟨⟨e, raised⟩, rfl, rfl⟩
  · intro calls s' ran answered left
    obtain ⟨before, d, after, mid, next, shape, reached, stepped, here, gone⟩ :=
      System.run_loses (fun t => t.Answered pid) ran answered left
    cases stepped
    obtain ⟨kind, names, vid, succeeded⟩ := decide_leaves pid mid d here gone
    exact ⟨before, d, after, mid, vid, shape, reached, here, gone, names, kind, succeeded⟩

/-- A proposal the screen declined. -/
def screenedOut : Store :=
  (decide (Store.fresh "org/model") { name := "org/model", outcome := "declined", tier := screen }).2

/-- Inspect queues it, which is refused, and then a measurement follows. -/
def askedAgain : List Decision :=
  [{ name := "org/model", outcome := "queued", tier := inspect },
    { name := "org/model", outcome := "measured", tier := adopt }]

theorem answers_climb_screened :
    (∃ e, (decide screenedOut { name := "org/model", outcome := "queued" }).1 = .error e) ∧
      ∃ s', deciding.run screenedOut askedAgain = some s' ∧
        s'.Answered 1 ∧ screenedOut.rank 1 ≤ s'.rank 1 := by
  obtain ⟨stays, refuses, _⟩ := answers_climb 1 screenedOut
  have answered : screenedOut.Answered 1 :=
    ⟨_, rfl, .declined, by decide, rfl⟩
  refine ⟨(refuses { name := "org/model", outcome := "queued" } rfl (by decide)
    answered.guarded (by decide)).1, _, rfl, ?_⟩
  exact stays askedAgain _ rfl (by decide) answered

end LocalHarness.MemoryStore
