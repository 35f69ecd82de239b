import LocalHarness.MemoryStore.Writers

/-! # Concurrent writers refine the ledger

The settled rows of the proposal are a ledger, the state columns are where that ledger
stands, and a row in flight is one above it. A won swap appends to the ledger; every
other step is no step of it.
-/

namespace LocalHarness.MemoryStore

open LocalHarness.Library LocalHarness.Runs

/-- A call that read `held` read an entry, and either the ledger still stands there or
    the call will lose its swap. -/
def Seen (ledger : Ledger) (held : Held) : Prop :=
  (held.key = 0 ∨ ∃ verdict, held.verdict = some verdict ∧ (held.key, verdict) ∈ ledger.entries) ∧
    (ledger.held.key = held.key → held = ledger.held)

theorem Seen.key {ledger : Ledger} {held : Held} (saw : Seen ledger held) :
    held.key = 0 ∨ held.key ∈ ledger.ids := by
  rcases saw.1 with zero | ⟨verdict, _, inside⟩
  · exact .inl zero
  · exact .inr (Ledger.mem_ids.mpr ⟨verdict, inside⟩)

/-- What a call in a phase knows of the store and of the ledger. -/
def Carried (pid : Nat) (store : Store) (ledger : Ledger) (request : Request) : Phase → Prop
  | .checking _ held => Seen ledger held
  | .swapping _ held vid =>
      (Seen ledger held ∧ held.key < vid ∧
        transitionRefused held.state held.tier request.row.outcome request.row.tier
          request.reopen = none) ∧
      vid ∉ ledger.ids ∧
      store.verdicts.find? vid = some (columns pid request.row request.reopen held)
  | .withdrawing _ vid => vid ∉ ledger.ids ∧ ∃ row, store.verdicts.find? vid = some row
  | .scheduling vid | .returned vid =>
      ∃ held, (vid, columns pid request.row request.reopen held) ∈ ledger.entries
  | .matched vid => ∃ (held : Held) (verdict : Verdict), (vid, verdict) ∈ ledger.entries ∧
      held.verdict = some verdict ∧ held.restated request.row request.reopen = true
  | .entering | .reading _ | .refused _ => True

/-- The store and its writers, seen as a ledger. -/
structure Refines (pid : Nat) (w : World) (ledger : Ledger) : Prop where
  proposal : ∃ p, w.store.proposals.find? pid = some p ∧ p.stateVerdictId = ledger.last ∧
    p.state = ledger.standing.1
  positive : ∀ id ∈ ledger.ids, 0 < id
  kept : ∀ id row, (id, row) ∈ ledger.entries →
    w.store.verdicts.find? id = some row ∧ row.proposalId = some pid
  settled : ∀ id row, w.store.verdicts.find? id = some row → row.proposalId = some pid →
    (id, row) ∈ ledger.entries ∨ ∃ caller writer, w.writers.find? caller = some writer ∧
      writer.phase.pending = some id
  alone : ∀ caller other writer writer' vid, w.writers.find? caller = some writer →
    w.writers.find? other = some writer' → writer.phase.vid = some vid →
    writer'.phase.vid = some vid → caller = other
  owned : ∀ id ∈ ledger.ids, ∃ caller writer, w.writers.find? caller = some writer ∧
    writer.phase.landed = some id
  carried : ∀ caller writer, w.writers.find? caller = some writer →
    Carried pid w.store ledger writer.request writer.phase

/-- One caller moves to a new phase, over a new store. -/
def World.rephase (w : World) (caller : Nat) (store : Store) (phase : Phase) : World where
  store := store
  writers := w.writers.update caller fun writer => { writer with phase }

theorem World.find?_rephase {w : World} {caller other : Nat} {store : Store} {phase : Phase}
    {writer now : Writer} (here : w.writers.find? caller = some writer)
    (found : (w.rephase caller store phase).writers.find? other = some now) :
    other = caller ∧ now = { writer with phase } ∨
      other ≠ caller ∧ w.writers.find? other = some now := by
  rw [rephase, Table.find?_update] at found
  split at found
  next same =>
    subst same
    rw [here, Option.map_some, Option.some.injEq] at found
    exact .inl ⟨rfl, found.symm⟩
  next different => exact .inr ⟨different, found⟩

theorem World.rephase_self {w : World} {caller : Nat} {store : Store} {phase : Phase}
    {writer : Writer} (here : w.writers.find? caller = some writer) :
    (w.rephase caller store phase).writers.find? caller = some { writer with phase } := by
  simp [rephase, here]

theorem World.rephase_other {w : World} {caller other : Nat} {store : Store} {phase : Phase}
    (different : other ≠ caller) :
    (w.rephase caller store phase).writers.find? other = w.writers.find? other :=
  Table.find?_update_of_ne _ different

namespace Phase

theorem pending_vid {phase : Phase} {id : Nat} (pending : phase.pending = some id) :
    phase.vid = some id := by
  cases phase <;> simp_all [Phase.pending, Phase.vid]

theorem landed_vid {phase : Phase} {id : Nat} (landed : phase.landed = some id) :
    phase.vid = some id := by
  cases phase <;> simp_all [Phase.landed, Phase.vid]

end Phase

namespace Refines

variable {pid : Nat} {w : World} {ledger : Ledger} {caller : Nat} {writer : Writer}

/-- What a caller reads is where the ledger stands. -/
theorem held (refines : Refines pid w ledger) : w.store.held pid = some ledger.held := by
  obtain ⟨p, found, pointer, state⟩ := refines.proposal
  refine Store.held_eq_some.mpr ⟨p, found, ?_⟩
  rw [pointer, state, Ledger.held]
  rcases ledger.newest with ⟨none, _⟩ | ⟨id, row, inside, newest, _, _⟩
  · simp [Ledger.last, none]
  · simp [Ledger.last, newest, (refines.kept id row inside).1]

theorem seen_now (ledger : Ledger) : Seen ledger ledger.held := by
  refine ⟨?_, fun _ => rfl⟩
  rcases ledger.newest with ⟨none, _⟩ | ⟨id, row, inside, newest, _, _⟩
  · exact .inl (by simp [Held.key, Ledger.held, Ledger.last, none])
  · refine .inr ⟨row, by simp [Ledger.held, newest], ?_⟩
    simpa [Held.key, Ledger.held, Ledger.last, newest] using inside

/-- A row in flight is in the table and above no ledger entry's place. -/
theorem pending_row (refines : Refines pid w ledger)
    (found : w.writers.find? caller = some writer) {id : Nat}
    (pending : writer.phase.pending = some id) :
    id ∉ ledger.ids ∧ ∃ row, w.store.verdicts.find? id = some row := by
  have carried := refines.carried caller writer found
  cases phase : writer.phase <;> simp only [phase, Phase.pending, Option.some.injEq,
    reduceCtorEq] at pending <;> subst pending <;> simp only [phase, Carried] at carried
  · exact ⟨carried.2.1, _, carried.2.2⟩
  · exact carried

/-- Every row a call has written is in the table. -/
theorem vid_row (refines : Refines pid w ledger) (found : w.writers.find? caller = some writer)
    {id : Nat} (written : writer.phase.vid = some id) :
    ∃ row, w.store.verdicts.find? id = some row := by
  have carried := refines.carried caller writer found
  cases phase : writer.phase <;> simp only [phase, Phase.vid, Option.some.injEq,
    reduceCtorEq] at written <;> subst written <;> simp only [phase, Carried] at carried
  · exact ⟨_, carried.2.2⟩
  · exact carried.2
  · obtain ⟨held, inside⟩ := carried
    exact ⟨_, (refines.kept _ _ inside).1⟩
  · obtain ⟨held, inside⟩ := carried
    exact ⟨_, (refines.kept _ _ inside).1⟩

end Refines

/-- A call keeps what it knows while the ledger only grows, what it saw stays seen, and
    its own row stays where it is. -/
theorem Carried.mono {pid : Nat} {store store' : Store} {ledger ledger' : Ledger}
    {request : Request} {phase : Phase} (carried : Carried pid store ledger request phase)
    (grows : ∀ entry ∈ ledger.entries, entry ∈ ledger'.entries)
    (seen : ∀ held, Seen ledger held → Seen ledger' held)
    (row : ∀ id, phase.pending = some id →
      id ∉ ledger'.ids ∧ store'.verdicts.find? id = store.verdicts.find? id) :
    Carried pid store' ledger' request phase := by
  cases phase with
  | checking left held => exact seen held carried
  | swapping left held vid =>
      obtain ⟨⟨saw, below, allowed⟩, _, inserted⟩ := carried
      obtain ⟨outside, same⟩ := row vid rfl
      exact ⟨⟨seen held saw, below, allowed⟩, outside, same.trans inserted⟩
  | withdrawing left vid =>
      obtain ⟨outside, same⟩ := row vid rfl
      exact ⟨outside, same ▸ carried.2⟩
  | scheduling vid =>
      obtain ⟨held, inside⟩ := carried
      exact ⟨held, grows _ inside⟩
  | returned vid =>
      obtain ⟨held, inside⟩ := carried
      exact ⟨held, grows _ inside⟩
  | matched vid =>
      obtain ⟨held, verdict, inside, restates⟩ := carried
      exact ⟨held, verdict, grows _ inside, restates⟩
  | entering => trivial
  | reading left => trivial
  | refused e => trivial

namespace Refines

variable {pid : Nat} {w : World} {ledger : Ledger} {caller : Nat} {writer : Writer}

/-- One caller's step keeps the refinement when it keeps the caller's own row in view and
    leaves the rows of the others alone. -/
theorem next (refines : Refines pid w ledger) (found : w.writers.find? caller = some writer)
    {store : Store} {phase : Phase} {ledger' : Ledger}
    (grows : ∀ entry ∈ ledger.entries, entry ∈ ledger'.entries)
    (seen : ∀ held, Seen ledger held → Seen ledger' held)
    (others : ∀ id, writer.phase.pending ≠ some id → (∃ row, w.store.verdicts.find? id = some row) →
      store.verdicts.find? id = w.store.verdicts.find? id ∧ (id ∈ ledger'.ids → id ∈ ledger.ids))
    (proposal : ∃ p, store.proposals.find? pid = some p ∧ p.stateVerdictId = ledger'.last ∧
      p.state = ledger'.standing.1)
    (positive : ∀ id ∈ ledger'.ids, 0 < id)
    (kept : ∀ id row, (id, row) ∈ ledger'.entries →
      store.verdicts.find? id = some row ∧ row.proposalId = some pid)
    (settled : ∀ id row, store.verdicts.find? id = some row → (id, row) ∈ ledger'.entries ∨
      phase.pending = some id ∨
        w.store.verdicts.find? id = some row ∧ writer.phase.pending ≠ some id)
    (alone : ∀ id, phase.vid = some id →
      writer.phase.vid = some id ∨ w.store.verdicts.find? id = none)
    (owned : ∀ id ∈ ledger'.ids, phase.landed = some id ∨
      id ∈ ledger.ids ∧ writer.phase.landed ≠ some id)
    (carried : Carried pid store ledger' writer.request phase) :
    Refines pid (w.rephase caller store phase) ledger' where
  proposal := proposal
  positive := positive
  kept := kept
  settled := by
    intro id row present mine
    rcases settled id row present with entry | pending | ⟨before, notOwn⟩
    · exact .inl entry
    · exact .inr ⟨caller, _, World.rephase_self found, pending⟩
    · rcases refines.settled id row before mine with entry | ⟨other, writer', there, pending⟩
      · exact .inl (grows _ entry)
      · have different : other ≠ caller := by
          rintro rfl
          rw [found, Option.some.injEq] at there
          exact notOwn (there ▸ pending)
        exact .inr ⟨other, writer', (World.rephase_other different).trans there, pending⟩
  alone := by
    -- A row is new, or it is one that only this caller had.
    have clash : ∀ other writer' id, other ≠ caller → w.writers.find? other = some writer' →
        writer'.phase.vid = some id → phase.vid ≠ some id := by
      intro other writer' id different there written now
      rcases alone id now with before | missing
      · exact different (refines.alone other caller writer' writer id there found written before)
      · obtain ⟨row, present⟩ := refines.vid_row there written
        rw [missing] at present
        cases present
    intro first second writer₁ writer₂ id left right written₁ written₂
    rcases World.find?_rephase found left with ⟨rfl, rfl⟩ | ⟨apart₁, there₁⟩
    · rcases World.find?_rephase found right with ⟨rfl, rfl⟩ | ⟨apart₂, there₂⟩
      · rfl
      · exact absurd written₁ (clash second writer₂ id apart₂ there₂ written₂)
    · rcases World.find?_rephase found right with ⟨rfl, rfl⟩ | ⟨apart₂, there₂⟩
      · exact absurd written₂ (clash first writer₁ id apart₁ there₁ written₁)
      · exact refines.alone first second writer₁ writer₂ id there₁ there₂ written₁ written₂
  owned := by
    intro id member
    rcases owned id member with now | ⟨before, notOwn⟩
    · exact ⟨caller, _, World.rephase_self found, now⟩
    · obtain ⟨other, writer', there, landed⟩ := refines.owned id before
      have different : other ≠ caller := by
        rintro rfl
        rw [found, Option.some.injEq] at there
        exact notOwn (there ▸ landed)
      exact ⟨other, writer', (World.rephase_other different).trans there, landed⟩
  carried := by
    intro other writer' there
    rcases World.find?_rephase found there with ⟨rfl, rfl⟩ | ⟨different, there⟩
    · exact carried
    · apply (refines.carried other writer' there).mono grows seen
      intro id pending
      obtain ⟨outside, row, present⟩ := refines.pending_row there pending
      have notOwn : writer.phase.pending ≠ some id := by
        intro own
        exact different (refines.alone other caller writer' writer id there found
          (Phase.pending_vid pending) (Phase.pending_vid own))
      obtain ⟨same, back⟩ := others id notOwn ⟨row, present⟩
      exact ⟨fun inside => outside (back inside), same⟩

/-- A step that leaves the store, the ledger and the caller's own row alone. -/
theorem quietly (refines : Refines pid w ledger) (found : w.writers.find? caller = some writer)
    {phase : Phase} (vid : phase.vid = writer.phase.vid)
    (pending : phase.pending = writer.phase.pending) (landed : phase.landed = writer.phase.landed)
    (carried : Carried pid w.store ledger writer.request phase) :
    Refines pid (w.rephase caller w.store phase) ledger := by
  refine refines.next found (fun _ inside => inside) (fun _ saw => saw)
    (fun _ _ _ => ⟨rfl, fun inside => inside⟩) refines.proposal refines.positive refines.kept
    ?_ ?_ ?_ carried
  · intro id row present
    by_cases own : writer.phase.pending = some id
    · exact .inr (.inl (pending ▸ own))
    · exact .inr (.inr ⟨present, own⟩)
  · intro id now
    exact .inl (vid ▸ now)
  · intro id member
    by_cases own : writer.phase.landed = some id
    · exact .inl (landed ▸ own)
    · exact .inr ⟨member, own⟩

/-- The verdict row of an accepted move goes in above every row, beside the ledger. -/
theorem insert (refines : Refines pid w ledger) (found : w.writers.find? caller = some writer)
    {left vid : Nat} {held : Held} (at_ : writer.phase = .checking left held)
    (above : w.store.verdicts.Above vid) (positive : 0 < vid)
    (allowed : transitionRefused held.state held.tier writer.request.row.outcome
      writer.request.row.tier writer.request.reopen = none) :
    Refines pid (w.rephase caller
      (w.store.insertVerdict vid (columns pid writer.request.row writer.request.reopen held) above)
      (.swapping left held vid)) ledger := by
  have saw : Seen ledger held := by
    simpa only [at_, Carried] using refines.carried caller writer found
  have outside : ∀ {id row}, w.store.verdicts.find? id = some row → id ≠ vid := by
    rintro id row present rfl
    rw [above.find?] at present
    cases present
  have ahead : ∀ id ∈ ledger.ids, id < vid := by
    intro id member
    obtain ⟨row, inside⟩ := Ledger.mem_ids.mp member
    exact above id (Table.mem_ids_of_find? (refines.kept id row inside).1)
  refine refines.next found (fun _ inside => inside) (fun _ saw => saw) ?_ refines.proposal
    refines.positive ?_ ?_ ?_ ?_ ⟨⟨saw, ?_, allowed⟩, ?_, ?_⟩
  · rintro id _ ⟨row, present⟩
    exact ⟨by simp [Store.insertVerdict, Table.find?_insert, outside present], fun inside => inside⟩
  · intro id row inside
    obtain ⟨present, mine⟩ := refines.kept id row inside
    exact ⟨by simp [Store.insertVerdict, Table.find?_insert, outside present, present], mine⟩
  · intro id row present
    by_cases new : id = vid
    · exact .inr (.inl (by simp [Phase.pending, new]))
    · rw [Store.insertVerdict, Table.find?_insert, if_neg new] at present
      exact .inr (.inr ⟨present, by simp [at_, Phase.pending]⟩)
  · intro id now
    rw [Phase.vid, Option.some.injEq] at now
    exact .inr (now ▸ above.find?)
  · intro id member
    exact .inr ⟨member, by simp [at_, Phase.landed]⟩
  · rcases saw.key with zero | member
    · exact zero ▸ positive
    · exact ahead _ member
  · intro member
    exact absurd (ahead vid member) (Nat.lt_irrefl _)
  · simp [Store.insertVerdict]

/-- A row withdrawn after a lost swap is gone, and it was never in the ledger. -/
theorem withdraw (refines : Refines pid w ledger) (found : w.writers.find? caller = some writer)
    {left vid : Nat} (at_ : writer.phase = .withdrawing left vid) :
    Refines pid (w.rephase caller (w.store.deleteVerdict vid) (.reading left)) ledger := by
  have outside : vid ∉ ledger.ids :=
    (refines.pending_row found (by rw [at_]; rfl)).1
  refine refines.next found (fun _ inside => inside) (fun _ saw => saw) ?_ refines.proposal
    refines.positive ?_ ?_ ?_ ?_ trivial
  · intro id notOwn _
    have other : id ≠ vid := by
      rintro rfl
      exact notOwn (by rw [at_]; rfl)
    exact ⟨by simp [Store.deleteVerdict, Table.find?_delete, other], fun inside => inside⟩
  · intro id row inside
    have other : id ≠ vid := by
      rintro rfl
      exact outside (Ledger.mem_ids.mpr ⟨row, inside⟩)
    obtain ⟨present, mine⟩ := refines.kept id row inside
    exact ⟨by simp [Store.deleteVerdict, Table.find?_delete, other, present], mine⟩
  · intro id row present
    rw [Store.deleteVerdict, Table.find?_delete] at present
    split at present
    next => cases present
    next other =>
      refine .inr (.inr ⟨present, ?_⟩)
      simpa [at_, Phase.pending] using Ne.symm other
  · intro id now
    cases now
  · intro id member
    exact .inr ⟨member, by simp [at_, Phase.landed]⟩

/-- A swap wins only over the state its caller read, and the row it names is then the
    newest entry of the ledger. -/
theorem swap (refines : Refines pid w ledger) (found : w.writers.find? caller = some writer)
    {left vid : Nat} {held : Held} (at_ : writer.phase = .swapping left held vid) {moved : Store}
    (won : w.store.swap pid vid writer.request.row.outcome held.key = some moved) :
    ∃ above allowed, Refines pid (w.rephase caller moved (.scheduling vid))
      (ledger.append vid (columns pid writer.request.row writer.request.reopen held)
        above allowed) := by
  have carried := refines.carried caller writer found
  simp only [at_, Carried] at carried
  obtain ⟨⟨saw, below, allowed⟩, outside, inserted⟩ := carried
  obtain ⟨p, here, pointer, _⟩ := refines.proposal
  simp only [Store.swap, here, Option.ite_none_right_eq_some, Option.some.injEq] at won
  obtain ⟨same, rfl⟩ := won
  have key : ledger.held.key = held.key := by
    rw [← same, Proposal.held, pointer]
    rfl
  have now : held = ledger.held := saw.2 key
  have ahead : ∀ old ∈ ledger.ids, old < vid := by
    intro old member
    exact Nat.lt_of_le_of_lt (ledger.held_key.2 old member) (key ▸ below)
  have accepted : (eventOf (columns pid writer.request.row writer.request.reopen held)).refused
      ledger.standing = none := by
    apply eventOf_accepted
    rw [← Ledger.held_standing, ← now]
    exact allowed
  refine ⟨ahead, accepted, refines.next found ?_ ?_ ?_ ?_ ?_ ?_ ?_ ?_ ?_ ?_⟩
  · intro entry inside
    simp [inside]
  · intro other read
    refine ⟨?_, fun equal => ?_⟩
    · rcases read.1 with zero | ⟨verdict, joined, inside⟩
      · exact .inl zero
      · exact .inr ⟨verdict, joined, by simp [inside]⟩
    · have fresh : (ledger.append vid (columns pid writer.request.row writer.request.reopen held)
          ahead accepted).held.key = vid := by
        simp [Held.key, Ledger.held]
      rw [fresh] at equal
      rcases read.key with zero | member
      · omega
      · exact absurd (ahead _ (equal ▸ member)) (Nat.lt_irrefl _)
  · intro id notOwn _
    refine ⟨rfl, fun inside => ?_⟩
    rcases Ledger.mem_ids_append.mp inside with old | new
    · exact old
    · exact absurd (by simp [at_, Phase.pending, new]) notOwn
  · refine ⟨_, by simp [here]; rfl, ?_, ?_⟩
    · simp
    · simp [columns]
  · intro id member
    rcases Ledger.mem_ids_append.mp member with old | new
    · exact refines.positive id old
    · exact new ▸ Nat.zero_lt_of_lt below
  · intro id row inside
    rw [Ledger.entries_append, List.mem_append, List.mem_singleton] at inside
    rcases inside with old | new
    · exact refines.kept id row old
    · cases new
      exact ⟨inserted, rfl⟩
  · intro id row present
    by_cases new : id = vid
    · subst new
      have equal := inserted.symm.trans present
      cases equal
      exact .inl (by simp)
    · exact .inr (.inr ⟨present, by simpa [at_, Phase.pending] using Ne.symm new⟩)
  · intro id now
    exact .inl (by simpa [at_, Phase.vid] using now)
  · intro id member
    rcases Ledger.mem_ids_append.mp member with old | new
    · exact .inr ⟨old, by simp [at_, Phase.landed]⟩
    · exact .inl (by simp [Phase.landed, new])
  · exact ⟨held, by simp⟩

/-- Keeping the retest columns in step touches neither the state nor a verdict. -/
theorem schedule (refines : Refines pid w ledger) (found : w.writers.find? caller = some writer)
    {vid : Nat} (at_ : writer.phase = .scheduling vid) (row : Verdict) (reopen : String) :
    Refines pid (w.rephase caller (scheduleRetest w.store pid row reopen) (.returned vid))
      ledger := by
  have carried := refines.carried caller writer found
  rw [at_] at carried
  refine refines.next found (fun _ inside => inside) (fun _ saw => saw)
    (fun _ _ _ => ⟨rfl, fun inside => inside⟩) ?_ refines.positive refines.kept ?_ ?_ ?_ carried
  · obtain ⟨p, here, pointer, state⟩ := refines.proposal
    refine ⟨rescheduled row reopen p, by simp [scheduleRetest, here], ?_, ?_⟩
    · rw [rescheduled_stateVerdictId, pointer]
    · rw [rescheduled_state, state]
  · intro id row present
    exact .inr (.inr ⟨present, by simp [at_, Phase.pending]⟩)
  · intro id now
    exact .inl (by simpa [at_, Phase.vid] using now)
  · intro id member
    by_cases own : vid = id
    · exact .inl (by simp [Phase.landed, own])
    · exact .inr ⟨member, by simpa [at_, Phase.landed] using own⟩

/-- A call that begins knows nothing yet. -/
theorem call (refines : Refines pid w ledger) (request : Request)
    (above : w.writers.Above caller) :
    Refines pid { w with writers := w.writers.insert caller ⟨request, .entering⟩ above }
      ledger := by
  have apart : ∀ {other writer'}, w.writers.find? other = some writer' → other ≠ caller := by
    rintro other writer' there rfl
    rw [above.find?] at there
    cases there
  have still : ∀ {other writer'}, w.writers.find? other = some writer' →
      (w.writers.insert caller ⟨request, .entering⟩ above).find? other = some writer' := by
    intro other writer' there
    rw [Table.find?_insert, if_neg (apart there), there]
  have was : ∀ {other writer'},
      (w.writers.insert caller ⟨request, .entering⟩ above).find? other = some writer' →
      writer' = ⟨request, .entering⟩ ∨ w.writers.find? other = some writer' := by
    intro other writer' there
    rw [Table.find?_insert] at there
    split at there
    next => exact .inl (Option.some.inj there).symm
    next => exact .inr there
  refine ⟨refines.proposal, refines.positive, refines.kept, ?_, ?_, ?_, ?_⟩
  · intro id row present mine
    rcases refines.settled id row present mine with entry | ⟨other, writer', there, pending⟩
    · exact .inl entry
    · exact .inr ⟨other, writer', still there, pending⟩
  · intro first second writer₁ writer₂ id left right written₁ written₂
    rcases was left with rfl | there₁
    · cases written₁
    · rcases was right with rfl | there₂
      · cases written₂
      · exact refines.alone first second writer₁ writer₂ id there₁ there₂ written₁ written₂
  · intro id member
    obtain ⟨other, writer', there, landed⟩ := refines.owned id member
    exact ⟨other, writer', still there, landed⟩
  · intro other writer' there
    rcases was there with rfl | there
    · trivial
    · exact refines.carried other writer' there

end Refines

/-- One step of one caller appends to the ledger or leaves it as it was. -/
theorem step_refines {pid : Nat} {w w' : World} {ledger : Ledger} {a : Nat × Move}
    (refines : Refines pid w ledger) (stepped : World.step pid w a = some w') :
    ∃ ledger', Refines pid w' ledger' ∧ ledger.entries <+: ledger'.entries := by
  obtain ⟨caller, move⟩ := a
  cases move with
  | call request =>
      simp only [World.step, Option.dite_none_right_eq_some, Option.some.injEq] at stepped
      obtain ⟨above, rfl⟩ := stepped
      exact ⟨ledger, refines.call request above, List.prefix_refl _⟩
  | next vid =>
      cases found : w.writers.find? caller with
      | none => simp [World.step, found] at stepped
      | some writer =>
          simp only [World.step, found, Option.map_eq_some_iff, Prod.exists] at stepped
          obtain ⟨store, phase, moved, rfl⟩ := stepped
          suffices result : ∃ ledger', Refines pid (w.rephase caller store phase) ledger' ∧
              ledger.entries <+: ledger'.entries from result
          cases at_ : writer.phase with
          | entering =>
              simp only [at_, advance] at moved
              split at moved <;> cases moved <;>
                exact ⟨ledger, refines.quietly found (by rw [at_]; rfl) (by rw [at_]; rfl)
                  (by rw [at_]; rfl) trivial, List.prefix_refl _⟩
          | reading left =>
              cases left with
              | zero =>
                  simp only [at_, advance] at moved
                  cases moved
                  exact ⟨ledger, refines.quietly found (by rw [at_]; rfl) (by rw [at_]; rfl)
                    (by rw [at_]; rfl) trivial, List.prefix_refl _⟩
              | succ left =>
                  simp only [at_, advance, refines.held, Option.map_some] at moved
                  cases moved
                  exact ⟨ledger, refines.quietly found (by rw [at_]; rfl) (by rw [at_]; rfl)
                    (by rw [at_]; rfl) (Refines.seen_now ledger), List.prefix_refl _⟩
          | checking left held =>
              simp only [at_, advance] at moved
              split at moved
              next restates =>
                cases moved
                refine ⟨ledger, refines.quietly found (by rw [at_]; rfl) (by rw [at_]; rfl)
                  (by rw [at_]; rfl) ?_, List.prefix_refl _⟩
                have saw : Seen ledger held := by
                  simpa only [at_, Carried] using refines.carried caller writer found
                rcases saw.1 with zero | ⟨verdict, joined, inside⟩
                · simp [Held.restated, zero] at restates
                · exact ⟨held, verdict, inside, joined, restates⟩
              next =>
                split at moved
                next =>
                  cases moved
                  exact ⟨ledger, refines.quietly found (by rw [at_]; rfl) (by rw [at_]; rfl)
                    (by rw [at_]; rfl) trivial, List.prefix_refl _⟩
                next allowed =>
                  rw [Option.dite_none_right_eq_some] at moved
                  obtain ⟨above, moved⟩ := moved
                  cases moved
                  exact ⟨ledger, refines.insert found at_ above.1 above.2 allowed,
                    List.prefix_refl _⟩
          | swapping left held row =>
              simp only [at_, advance] at moved
              split at moved
              next won =>
                cases moved
                obtain ⟨above, allowed, later⟩ := refines.swap found at_ won
                exact ⟨_, later, List.prefix_append _ _⟩
              next =>
                cases moved
                refine ⟨ledger, refines.quietly found (by rw [at_]; rfl) (by rw [at_]; rfl)
                  (by rw [at_]; rfl) ?_, List.prefix_refl _⟩
                obtain ⟨outside, present⟩ := refines.pending_row found (by rw [at_]; rfl)
                exact ⟨outside, present⟩
          | withdrawing left row =>
              simp only [at_, advance] at moved
              cases moved
              exact ⟨ledger, refines.withdraw found at_, List.prefix_refl _⟩
          | scheduling row =>
              simp only [at_, advance] at moved
              cases moved
              exact ⟨ledger, refines.schedule found at_ _ _, List.prefix_refl _⟩
          | returned row => simp [at_, advance] at moved
          | matched row => simp [at_, advance] at moved
          | refused e => simp [at_, advance] at moved

end LocalHarness.MemoryStore
