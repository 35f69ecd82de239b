import LocalHarness.Library.Runs
import LocalHarness.MemoryStore.Ledger

/-! # Concurrent writers of one proposal

Any number of calls of `_write` on one proposal, each taken apart into its reads and
its statements, in any order. The verdict rows a swap has legitimised form a ledger
that only grows at its end; every other step leaves that ledger as it was, and a call
that fails can be cut out of the run without changing where the run ends.
-/

namespace LocalHarness.MemoryStore

open LocalHarness.Library LocalHarness.Runs

/-- The arguments of one call of `_write`. -/
structure Request where
  name : String
  row : Verdict
  reopen : String
  why : String
  deriving DecidableEq

/-- Where a call stands; `left` is how many attempts it still has. -/
inductive Phase
  | entering
  | reading (left : Nat)
  | checking (left : Nat) (held : Held)
  | swapping (left : Nat) (held : Held) (vid : Nat)
  | withdrawing (left : Nat) (vid : Nat)
  | scheduling (vid : Nat)
  | returned (vid : Nat)
  | matched (vid : Nat)
  | refused (e : Error)
  deriving DecidableEq

namespace Phase

/-- The verdict row this call has in the table. -/
def vid : Phase → Option Nat
  | .swapping _ _ vid => some vid
  | .withdrawing _ vid => some vid
  | .scheduling vid => some vid
  | .returned vid => some vid
  | _ => none

/-- The row no swap has legitimised yet, or one already withdrawn. -/
def pending : Phase → Option Nat
  | .swapping _ _ vid => some vid
  | .withdrawing _ vid => some vid
  | _ => none

/-- The verdict this call moved the state to. -/
def landed : Phase → Option Nat
  | .scheduling vid => some vid
  | .returned vid => some vid
  | _ => none

/-- The call has returned or raised. -/
def finished : Phase → Bool
  | .returned _ | .matched _ | .refused _ => true
  | _ => false

/-- The call has moved the state or matched a row, so it will not raise. -/
def succeeded : Phase → Bool
  | .scheduling _ | .returned _ | .matched _ => true
  | _ => false

end Phase

structure Writer where
  request : Request
  phase : Phase
  deriving DecidableEq

structure World where
  store : Store
  writers : Table Writer
  deriving DecidableEq

/-- A call begins, or takes its next step; `vid` is the id the database would give a row. -/
inductive Move
  | call (request : Request)
  | next (vid : Nat)
  deriving DecidableEq

/-- One step of one call of `_write` against the store. -/
def advance (pid : Nat) (store : Store) (request : Request) (vid : Nat) :
    Phase → Option (Store × Phase)
  | .entering =>
      if request.reopen ≠ "" ∧ Text.blank request.why then
        some (store, .refused (.mustSayWhy request.name request.reopen))
      else some (store, .reading 8)
  | .reading 0 => some (store, .refused (.keptMoving request.name))
  | .reading (left + 1) => (store.held pid).map fun held => (store, .checking left held)
  | .checking left held =>
      if held.restated request.row request.reopen then some (store, .matched held.key)
      else
        match transitionRefused held.state held.tier request.row.outcome request.row.tier
            request.reopen with
        | some refusal => some (store, .refused (.illegalTransition request.name refusal))
        | none =>
            -- An id is above every id in the table, reused after a withdrawal or not.
            if above : store.verdicts.Above vid ∧ 0 < vid then
              some (store.insertVerdict vid (columns pid request.row request.reopen held) above.1,
                .swapping left held vid)
            else none
  | .swapping left held vid =>
      match store.swap pid vid request.row.outcome held.key with
      | some moved => some (moved, .scheduling vid)
      | none => some (store, .withdrawing left vid)
  | .withdrawing left vid => some (store.deleteVerdict vid, .reading left)
  | .scheduling vid =>
      some (scheduleRetest store pid request.row request.reopen, .returned vid)
  | .returned _ | .matched _ | .refused _ => none

namespace World

def step (pid : Nat) (w : World) : Nat × Move → Option World
  | (caller, .call request) =>
      if above : w.writers.Above caller then
        some { w with writers := w.writers.insert caller ⟨request, .entering⟩ above }
      else none
  | (caller, .next vid) =>
      match w.writers.find? caller with
      | none => none
      | some writer =>
          (advance pid w.store writer.request vid writer.phase).map fun (store, phase) =>
            { store, writers := w.writers.update caller fun writer => { writer with phase } }

/-- No call is in flight. -/
def Quiet (w : World) : Prop :=
  ∀ caller writer, w.writers.find? caller = some writer → writer.phase.finished = true

end World

/-- The proposal is there and no verdict has been written for it. -/
def Store.Untouched (s : Store) (pid : Nat) : Prop :=
  (∃ p, s.proposals.find? pid = some p ∧ p.state = none ∧ p.stateVerdictId = none) ∧
    ∀ id row, s.verdicts.find? id = some row → row.proposalId ≠ some pid

/-- The calls of `_write` on one proposal, over any rows of the others. -/
def writing (pid : Nat) : System World (Nat × Move) where
  start := fun w => w.writers = ∅ ∧ w.store.Untouched pid
  step := World.step pid

/-- One caller with nobody beside it. -/
def World.lone (s : Store) (request : Request) (phase : Phase) : World where
  store := s
  writers := (∅ : Table Writer).insert 1 ⟨request, phase⟩ (by decide)

theorem World.step_lone (pid vid : Nat) (s : Store) (request : Request) (phase : Phase) :
    World.step pid (.lone s request phase) (1, .next vid) =
      (advance pid s request vid phase).map fun after => .lone after.1 request after.2 := by
  simp only [World.step, World.lone, Table.find?_insert_self]
  congr 1

/-- The result a finished call hands its caller. -/
def Phase.result : Phase → Option (Except Error Nat)
  | .returned vid | .matched vid => some (.ok vid)
  | .refused e => some (.error e)
  | _ => none

/-- The lone caller gets from one phase to another by steps of its own. -/
def Gets (pid : Nat) (request : Request) (s : Store) (phase : Phase) (s' : Store)
    (phase' : Phase) : Prop :=
  ∃ actions, (writing pid).run (.lone s request phase) actions = some (.lone s' request phase')

theorem Gets.refl {pid : Nat} {request : Request} {s : Store} {phase : Phase} :
    Gets pid request s phase s phase :=
  ⟨[], rfl⟩

theorem Gets.head {pid : Nat} {request : Request} {s mid s' : Store} {phase next phase' : Phase}
    (vid : Nat) (first : advance pid s request vid phase = some (mid, next))
    (rest : Gets pid request mid next s' phase') : Gets pid request s phase s' phase' := by
  obtain ⟨actions, ran⟩ := rest
  refine ⟨(1, .next vid) :: actions, ?_⟩
  rw [System.run_cons]
  refine Option.bind_eq_some_iff.mpr ⟨.lone mid request next, ?_, ran⟩
  exact (World.step_lone pid vid s request phase).trans (by rw [first]; rfl)

/-- The attempts of `write` are the steps of a lone caller. -/
theorem attempts_alone {pid : Nat} {s : Store} (request : Request) (left : Nat)
    (present : ∃ held, s.held pid = some held) :
    ∃ phase, phase.result =
        some (attempts pid request.name request.row request.reopen left s).1 ∧
      Gets pid request s (.reading left)
        (attempts pid request.name request.row request.reopen left s).2 phase := by
  cases left with
  | zero => exact ⟨.refused (.keptMoving request.name), rfl, .head 0 rfl .refl⟩
  | succ left =>
      obtain ⟨held, read⟩ := present
      have reads : advance pid s request 0 (.reading (left + 1)) =
          some (s, .checking left held) := by
        simp [advance, read]
      simp only [attempts, read]
      by_cases restates : held.restated request.row request.reopen = true
      · rw [if_pos restates]
        exact ⟨.matched held.key, rfl, .head 0 reads
          (.head 0 (by simp only [advance, restates, if_true]) .refl)⟩
      · rw [if_neg restates]
        cases allowed : transitionRefused held.state held.tier request.row.outcome
            request.row.tier request.reopen with
        | some refusal =>
            exact ⟨.refused (.illegalTransition request.name refusal), rfl, .head 0 reads
              (.head 0 (by simp only [advance, restates, allowed]; rfl) .refl)⟩
        | none =>
            obtain ⟨later, reread, key⟩ := Store.held_insertVerdict_key
              (columns pid request.row request.reopen held) s.verdicts.above_nextId read
            have won := Store.swap_of_held s.verdicts.nextId request.row.outcome reread
            rw [key] at won
            obtain ⟨moved, won⟩ : ∃ moved, _ = some moved := ⟨_, won⟩
            simp only [won]
            have inserts : advance pid s request s.verdicts.nextId (.checking left held) =
                some (s.insertVerdict s.verdicts.nextId
                  (columns pid request.row request.reopen held) s.verdicts.above_nextId,
                  .swapping left held s.verdicts.nextId) := by
              simp only [advance, allowed]
              rw [if_neg restates, dif_pos ⟨s.verdicts.above_nextId, s.verdicts.nextId_pos⟩]
            have swaps : ∀ vid, advance pid (s.insertVerdict s.verdicts.nextId
                (columns pid request.row request.reopen held) s.verdicts.above_nextId) request vid
                (.swapping left held s.verdicts.nextId) =
                  some (moved, .scheduling s.verdicts.nextId) := by
              intro vid
              simp only [advance, won]
            exact ⟨.returned s.verdicts.nextId, rfl, .head 0 reads
              (.head s.verdicts.nextId inserts (.head 0 (swaps 0) (.head 0 rfl .refl)))⟩

/-- `write` is the run of one caller with nobody beside it. -/
theorem write_alone {pid : Nat} {request : Request} {s : Store}
    (present : ∃ held, s.held pid = some held) :
    ∃ phase, phase.result = some (write s pid request.name request.row request.reopen request.why).1 ∧
      Gets pid request s .entering
        (write s pid request.name request.row request.reopen request.why).2 phase := by
  unfold write
  by_cases silent : request.reopen ≠ "" ∧ Text.blank request.why
  · rw [if_pos silent]
    exact ⟨_, rfl, .head 0 (by simp only [advance]; rw [if_pos silent]) .refl⟩
  · rw [if_neg silent]
    obtain ⟨phase, result, gets⟩ := attempts_alone request 8 present
    exact ⟨phase, result, .head 0 (by simp only [advance]; rw [if_neg silent]) gets⟩

end LocalHarness.MemoryStore
