import Mathlib.Data.Int.Notation
import Mathlib.Data.List.DropRight
import Mathlib.Data.List.Nodup
import Mathlib.Data.List.Sort
import Mathlib.Order.Nat
import LocalHarness.Library.Runs

/-! # The writer of the usage log

`put` hands an event to a bounded queue and never waits. One thread takes the events from the queue
in batches and stores each batch in one transaction; what cannot be queued or stored is counted.
-/

namespace LocalHarness.Usage

open LocalHarness.Runs

def BATCH_MAX : Nat := 500

/-- What a call of `put` is made with, and which call it was. -/
structure Event (ρ : Type) where
  seq : Nat
  row : ρ

/-- Where the thread stands. -/
inductive Thread (ρ : Type)
  | absent
  /-- At the head of the loop. -/
  | top
  | drains (stopping : Bool) (got : List (Event ρ))
  /-- The batch is drained. -/
  | looks (stopping : Bool) (batch : List (Event ρ))
  | opens (batch : List (Event ρ))
  | writes (batch : List (Event ρ))
  /-- An exception was caught and the batch counted. -/
  | failed
  | ended

/-- The events in its hands. -/
def Thread.hand {ρ : Type} : Thread ρ → List (Event ρ)
  | drains _ got => got
  | looks _ batch | opens batch | writes batch => batch
  | absent | top | failed | ended => []

/-- What a writer is made with, and what `_specs` makes of a row. -/
structure Setup (ρ κ : Type) where
  /-- A queue of size zero or less has no bound. -/
  maxsize : ℤ
  fill : κ → ρ → ρ

/-- A `Writer`, with its queue and the store. -/
structure Writer (ρ κ : Type) where
  queue : List (Event ρ)
  stop : Bool
  thread : Thread ρ
  conn : Bool
  warned : Bool
  disabled : Bool
  dropped : Nat
  specs : κ
  stored : List (Event ρ)
  /-- How often `put` was called. -/
  calls : Nat

/-- What comes of `_open`. -/
inductive Opened (κ : Type)
  | opened (specs : κ)
  | raised
  /-- This process may not write the live store. -/
  | disables

inductive Action (ρ κ : Type)
  | put (row : ρ)
  | start
  | close
  | wake
  /-- The thread takes one event from the queue. -/
  | get
  /-- It finds the queue empty, or has enough. -/
  | drained
  | look
  | open_ (result : Opened κ)
  /-- The batch is stored whole, or not at all. -/
  | insert (stores : Bool)
  /-- It reports the first failure, where the log may raise, and closes the connection. -/
  | recover (logs : Bool)

namespace Writer

variable {ρ κ : Type} (setup : Setup ρ κ) (w : Writer ρ κ)

def Full : Prop :=
  0 < setup.maxsize ∧ setup.maxsize ≤ w.queue.length

instance : Decidable (w.Full setup) :=
  inferInstanceAs (Decidable (0 < setup.maxsize ∧ setup.maxsize ≤ w.queue.length))

def put (row : ρ) : Writer ρ κ :=
  if w.Full setup then { w with dropped := w.dropped + 1, calls := w.calls + 1 }
  else { w with queue := w.queue ++ [⟨w.calls, row⟩], calls := w.calls + 1 }

/-- The batch is counted and let go. -/
def drop (batch : List (Event ρ)) (thread : Thread ρ) : Writer ρ κ :=
  { w with dropped := w.dropped + batch.length, thread }

def step : Action ρ κ → Option (Writer ρ κ)
  | .put row => some (w.put setup row)
  | .start =>
      match w.thread with
      | .absent => some { w with thread := .top }
      | _ => some w
  | .close => some { w with stop := true }
  | .wake =>
      match w.thread with
      | .top => some { w with thread := .drains w.stop [] }
      | _ => none
  | .get =>
      match w.thread, w.queue with
      | .drains stopping got, event :: rest =>
          if got = [] ∨ got.length < BATCH_MAX then
            some { w with queue := rest, thread := .drains stopping (got ++ [event]) }
          else none
      | _, _ => none
  | .drained =>
      match w.thread with
      | .drains stopping got =>
          if w.queue = [] ∨ BATCH_MAX ≤ got.length then some { w with thread := .looks stopping got }
          else none
      | _ => none
  | .look =>
      match w.thread with
      | .looks true [] => some { w with thread := .ended, conn := false }
      | .looks false [] => some { w with thread := .top }
      | .looks _ batch =>
          if w.disabled then some (w.drop batch .top)
          else if w.conn then some { w with thread := .writes batch }
          else some { w with thread := .opens batch }
      | _ => none
  | .open_ result =>
      match w.thread with
      | .opens batch =>
          match result with
          | .opened specs => some { w with thread := .writes batch, conn := true, specs }
          | .raised => some (w.drop batch .failed)
          | .disables => some { w.drop batch .failed with disabled := true }
      | _ => none
  | .insert stores =>
      match w.thread with
      | .writes batch =>
          if stores then
            some { w with
              thread := .top
              stored := w.stored ++ batch.map fun e => { e with row := setup.fill w.specs e.row } }
          else some (w.drop batch .failed)
      | _ => none
  | .recover logs =>
      match w.thread with
      | .failed =>
          if w.warned ∨ logs then some { w with thread := .top, warned := true, conn := false }
          else some { w with thread := .ended }
      | _ => none

end Writer

/-- A writer with nothing put in it. -/
structure Writer.Fresh {ρ κ : Type} (w : Writer ρ κ) : Prop where
  queue : w.queue = []
  stop : w.stop = false
  thread : w.thread = .absent
  conn : w.conn = false
  warned : w.warned = false
  disabled : w.disabled = false
  dropped : w.dropped = 0
  stored : w.stored = []
  calls : w.calls = 0

variable {ρ κ : Type}

def writer (setup : Setup ρ κ) : System (Writer ρ κ) (Action ρ κ) where
  start := Writer.Fresh
  step := Writer.step setup

/-- How a step moves events. -/
inductive Move (w w' : Writer ρ κ) : Prop
  | quiet : w'.queue = w.queue → w'.thread.hand = w.thread.hand → w'.stored = w.stored →
      w'.dropped = w.dropped → w'.calls = w.calls → Move w w'
  | queued (event : Event ρ) : event.seq = w.calls → w'.queue = w.queue ++ [event] →
      w'.thread.hand = w.thread.hand → w'.stored = w.stored → w'.dropped = w.dropped →
      w'.calls = w.calls + 1 → Move w w'
  | overflowed : w'.queue = w.queue → w'.thread.hand = w.thread.hand → w'.stored = w.stored →
      w'.dropped = w.dropped + 1 → w'.calls = w.calls + 1 → Move w w'
  | taken (event : Event ρ) : w.queue = event :: w'.queue →
      w'.thread.hand = w.thread.hand ++ [event] → w'.stored = w.stored → w'.dropped = w.dropped →
      w'.calls = w.calls → Move w w'
  | given_up : w'.queue = w.queue → w'.thread.hand = [] → w'.stored = w.stored →
      w'.dropped = w.dropped + w.thread.hand.length → w'.calls = w.calls → Move w w'
  | stored (rows : List (Event ρ)) : rows.map Event.seq = w.thread.hand.map Event.seq →
      w'.queue = w.queue → w'.thread.hand = [] → w'.stored = w.stored ++ rows →
      w'.dropped = w.dropped → w'.calls = w.calls → Move w w'

theorem step_moves {setup : Setup ρ κ} {w w' : Writer ρ κ} {a : Action ρ κ}
    (stepped : w.step setup a = some w') : Move w w' := by
  cases a with
  | put row =>
      obtain rfl := Option.some.inj stepped
      unfold Writer.put
      split
      next => exact .overflowed rfl rfl rfl rfl rfl
      next => exact .queued _ rfl rfl rfl rfl rfl rfl
  | start =>
      simp only [Writer.step] at stepped
      split at stepped
      next absent =>
        obtain rfl := Option.some.inj stepped
        exact .quiet rfl (by rw [absent]; rfl) rfl rfl rfl
      next =>
        obtain rfl := Option.some.inj stepped
        exact .quiet rfl rfl rfl rfl rfl
  | close =>
      obtain rfl := Option.some.inj stepped
      exact .quiet rfl rfl rfl rfl rfl
  | wake =>
      simp only [Writer.step] at stepped
      split at stepped
      next top =>
        obtain rfl := Option.some.inj stepped
        exact .quiet rfl (by rw [top]; rfl) rfl rfl rfl
      next => cases stepped
  | get =>
      simp only [Writer.step] at stepped
      split at stepped
      next stopping got event rest drains queue =>
        split at stepped
        next =>
          obtain rfl := Option.some.inj stepped
          exact .taken event queue (by rw [drains]; rfl) rfl rfl rfl
        next => cases stepped
      next => cases stepped
  | drained =>
      simp only [Writer.step] at stepped
      split at stepped
      next drains =>
        split at stepped
        next =>
          obtain rfl := Option.some.inj stepped
          exact .quiet rfl (by rw [drains]; rfl) rfl rfl rfl
        next => cases stepped
      next => cases stepped
  | look =>
      simp only [Writer.step] at stepped
      split at stepped
      next looks =>
        obtain rfl := Option.some.inj stepped
        exact .quiet rfl (by rw [looks]; rfl) rfl rfl rfl
      next looks =>
        obtain rfl := Option.some.inj stepped
        exact .quiet rfl (by rw [looks]; rfl) rfl rfl rfl
      next looks =>
        split at stepped
        next =>
          obtain rfl := Option.some.inj stepped
          exact .given_up rfl rfl rfl (by rw [looks]; rfl) rfl
        next =>
          split at stepped
          all_goals
            obtain rfl := Option.some.inj stepped
            exact .quiet rfl (by rw [looks]; rfl) rfl rfl rfl
      next => cases stepped
  | open_ result =>
      simp only [Writer.step] at stepped
      split at stepped
      next opens =>
        split at stepped
        next =>
          obtain rfl := Option.some.inj stepped
          exact .quiet rfl (by rw [opens]; rfl) rfl rfl rfl
        all_goals
          obtain rfl := Option.some.inj stepped
          exact .given_up rfl rfl rfl (by rw [opens]; rfl) rfl
      next => cases stepped
  | insert stores =>
      simp only [Writer.step] at stepped
      split at stepped
      next writes =>
        split at stepped
        next =>
          obtain rfl := Option.some.inj stepped
          exact .stored _ (by rw [writes, List.map_map]; rfl) rfl rfl rfl rfl rfl
        next =>
          obtain rfl := Option.some.inj stepped
          exact .given_up rfl rfl rfl (by rw [writes]; rfl) rfl
      next => cases stepped
  | recover logs =>
      simp only [Writer.step] at stepped
      split at stepped
      next failed =>
        split at stepped
        all_goals
          obtain rfl := Option.some.inj stepped
          exact .quiet rfl (by rw [failed]; rfl) rfl rfl rfl
      next => cases stepped

/-- Every event put is in the store, in the thread's hands, in the queue, or counted. -/
structure Conserved (w : Writer ρ κ) : Prop where
  counted : w.stored.length + w.dropped + w.queue.length + w.thread.hand.length = w.calls
  once : ((w.stored ++ w.thread.hand ++ w.queue).map Event.seq).Nodup
  numbered : ∀ event ∈ w.stored ++ w.thread.hand ++ w.queue, event.seq < w.calls

/-- What is taken from the events there are leaves them numbered as they were. -/
theorem Conserved.fewer {w w' : Writer ρ κ} (conserved : Conserved w)
    (counted : w'.stored.length + w'.dropped + w'.queue.length + w'.thread.hand.length = w'.calls)
    (fewer : ((w'.stored ++ w'.thread.hand ++ w'.queue).map Event.seq).Sublist
      ((w.stored ++ w.thread.hand ++ w.queue).map Event.seq))
    (calls : w.calls ≤ w'.calls) : Conserved w' := by
  refine ⟨counted, conserved.once.sublist fewer, fun event member => ?_⟩
  obtain ⟨before, inside, same⟩ := List.mem_map.mp (fewer.subset (List.mem_map_of_mem member))
  have below := conserved.numbered before inside
  omega

theorem Move.conserved {w w' : Writer ρ κ} (move : Move w w') (conserved : Conserved w) :
    Conserved w' := by
  have counted := conserved.counted
  cases move with
  | quiet queue hand stored dropped calls =>
      refine conserved.fewer ?_ ?_ (Nat.le_of_eq calls.symm)
      · rw [queue, hand, stored, dropped, calls, counted]
      · rw [queue, hand, stored]
  | queued event seq queue hand stored dropped calls =>
      have new : ∀ other ∈ w.stored ++ w.thread.hand ++ w.queue, other.seq ≠ event.seq := by
        intro other member same
        have below := conserved.numbered other member
        omega
      refine ⟨?_, ?_, ?_⟩
      · rw [queue, hand, stored, dropped, calls, List.length_append, List.length_singleton]
        omega
      · rw [queue, hand, stored, ← List.append_assoc, List.map_append, List.map_singleton]
        refine conserved.once.append (List.nodup_singleton _) ?_
        rw [List.disjoint_singleton]
        intro inside
        obtain ⟨other, member, same⟩ := List.mem_map.mp inside
        exact new other member same
      · rw [queue, hand, stored, calls, ← List.append_assoc]
        intro other member
        rcases List.mem_append.mp member with before | here
        · exact Nat.lt_succ_of_lt (conserved.numbered other before)
        · rw [List.mem_singleton.mp here, seq]
          exact Nat.lt_succ_self _
  | overflowed queue hand stored dropped calls =>
      refine conserved.fewer ?_ ?_ (by omega)
      · rw [queue, hand, stored, dropped, calls]
        omega
      · rw [queue, hand, stored]
  | taken event queue hand stored dropped calls =>
      rw [queue, List.length_cons] at counted
      refine conserved.fewer ?_ ?_ (Nat.le_of_eq calls.symm)
      · rw [hand, stored, dropped, calls, List.length_append, List.length_singleton]
        omega
      · rw [hand, stored, queue, ← List.append_assoc, List.append_assoc _ [event],
          List.singleton_append]
  | given_up queue hand stored dropped calls =>
      refine conserved.fewer ?_ ?_ (Nat.le_of_eq calls.symm)
      · rw [queue, hand, stored, dropped, calls, List.length_nil]
        omega
      · rw [queue, hand, stored, List.append_nil]
        exact ((List.sublist_append_left _ _).append_right _).map _
  | stored rows same queue hand stored dropped calls =>
      have length : rows.length = w.thread.hand.length := by
        simpa only [List.length_map] using congrArg List.length same
      refine conserved.fewer ?_ ?_ (Nat.le_of_eq calls.symm)
      · rw [queue, hand, stored, dropped, calls, List.length_append, length, List.length_nil]
        omega
      · rw [queue, hand, stored, List.append_nil]
        simp only [List.map_append, same]
        exact List.Sublist.refl _

/-- In every state of every run nothing is lost but what is counted, and nothing is stored twice. -/
theorem events_conserved (setup : Setup ρ κ) {w : Writer ρ κ}
    (reached : (writer setup).Reachable w) :
    w.stored.length + w.dropped + w.queue.length + w.thread.hand.length = w.calls ∧
      (w.thread.hand = [] → w.stored.length + w.dropped + w.queue.length = w.calls) ∧
      (w.stored.map Event.seq).Nodup := by
  have invariant : (writer setup).InvariantWhen (fun _ _ => True) Conserved := by
    refine ⟨fun w fresh => ⟨?_, ?_, ?_⟩, fun w a w' conserved _ stepped =>
      (step_moves stepped).conserved conserved⟩
    · simp [fresh.stored, fresh.dropped, fresh.queue, fresh.thread, fresh.calls, Thread.hand]
    · simp [fresh.stored, fresh.queue, fresh.thread, Thread.hand]
    · simp [fresh.stored, fresh.queue, fresh.thread, Thread.hand]
  have conserved := invariant.holds reached
  refine ⟨conserved.counted, fun none_ => ?_, ?_⟩
  · have counted := conserved.counted
    rwa [none_, List.length_nil, Nat.add_zero] at counted
  · have once := conserved.once
    rw [List.append_assoc, List.map_append] at once
    exact once.of_append_left

/-- A writer as it is made. -/
def made : Writer Unit Unit where
  queue := []
  stop := false
  thread := .absent
  conn := false
  warned := false
  disabled := false
  dropped := 0
  specs := ()
  stored := []
  calls := 0

/-- One event of three is stored, one is dropped from a full queue and one is still queued. -/
theorem one_each :
    ∃ w, (writer ⟨1, fun _ row => row⟩).run made
        [.put (), .put (), .start, .wake, .get, .drained, .look, .open_ (.opened ()), .insert true,
          .put ()] = some w ∧
      w.stored.length + w.dropped + w.queue.length + w.thread.hand.length = w.calls ∧
      (w.stored.length = 1 ∧ w.dropped = 1 ∧ w.queue.length = 1) := by
  have fresh : (writer ⟨1, fun (_ : Unit) (row : Unit) => row⟩).start made :=
    ⟨rfl, rfl, rfl, rfl, rfl, rfl, rfl, rfl, rfl⟩
  obtain ⟨w, ran, reached, test⟩ := System.reached_by_run
    (fun w : Writer Unit Unit => w.stored.length = 1 ∧ w.dropped = 1 ∧ w.queue.length = 1)
    fresh (System.meets_true made [.put (), .put (), .start, .wake, .get, .drained, .look,
      .open_ (.opened ()), .insert true, .put ()]) (by decide)
  exact ⟨w, ran, (events_conserved ⟨1, fun _ row => row⟩ reached).1, of_decide_eq_true test⟩

/-! ## What is kept of the texts

A batch is stored with the texts of its requests while a person wants them, and then all but the newest are deleted.
Whatever was wanted when, the texts that are left are the newest of all that were ever stored.
-/

namespace Samples

/-- Newest samples kept when text is on. -/
def SAMPLE_ROWS : Nat := 2000

/-- `gateway_requests`, where the row of the id `n + 1` is at `n`, `gateway_samples` and whether text is on. -/
structure Log (ρ τ : Type) where
  requests : List ρ := []
  samples : List (Nat × τ) := []
  text : Bool := false

variable {ρ τ : Type}

/-- The rows of a batch, each with its sample. -/
def write (keep : Bool) : List (ρ × Option τ) → Log ρ τ → Log ρ τ
  | [], log => log
  | (row, sample) :: rest, log =>
      let id := log.requests.length + 1
      write keep rest { log with
        requests := log.requests ++ [row]
        samples := log.samples ++ if keep then (sample.map fun text => (id, text)).toList else [] }

/-- `ORDER BY request_id DESC LIMIT ?` -/
def newest (samples : List (Nat × τ)) : List Nat :=
  ((samples.map Prod.fst).insertionSort (· ≥ ·)).take SAMPLE_ROWS

def delete (samples : List (Nat × τ)) : List (Nat × τ) :=
  samples.filter fun sample => sample.1 ∈ newest samples

/-- Write a batch; with text on, its samples too, keeping the newest. -/
def insert (rows : List (ρ × Option τ)) (log : Log ρ τ) : Log ρ τ :=
  let written := write log.text rows log
  if log.text then { written with samples := delete written.samples } else written

inductive Act (ρ τ : Type)
  | set_text (on : Bool)
  | insert (rows : List (ρ × Option τ))

def after (log : Log ρ τ) : Act ρ τ → Log ρ τ
  | .set_text on => { log with text := on }
  | .insert rows => insert rows log

/-- The texts of a batch whose first row has the id `n + 1`. -/
def texts : Nat → List (ρ × Option τ) → List (Nat × τ)
  | _, [] => []
  | n, (_, sample) :: rest => (sample.map fun text => (n + 1, text)).toList ++ texts (n + 1) rest

/-- All that is ever stored of texts, by the ids of their requests. -/
def told : Bool → Nat → List (Act ρ τ) → List (Nat × τ)
  | _, _, [] => []
  | _, n, .set_text on :: rest => told on n rest
  | text, n, .insert rows :: rest => (if text then texts n rows else []) ++ told text (n + rows.length) rest

theorem write_eq {keep : Bool} {rows : List (ρ × Option τ)} {log : Log ρ τ} :
    write keep rows log =
      { log with
        requests := log.requests ++ rows.map Prod.fst
        samples := log.samples ++ if keep then texts log.requests.length rows else [] } := by
  induction rows generalizing log with
  | nil => cases keep <;> simp [write, texts]
  | cons first rest ih =>
      rw [write, ih]
      cases keep <;> simp [texts]

/-- Ids that ascend, none above `n`. -/
def Ascends (n : Nat) (samples : List (Nat × τ)) : Prop :=
  (samples.map Prod.fst).Pairwise (· < ·) ∧ ∀ sample ∈ samples, sample.1 ≤ n

theorem texts_above (n : Nat) (rows : List (ρ × Option τ)) :
    Ascends (n + rows.length) (texts n rows) ∧ ∀ sample ∈ texts n rows, n < sample.1 := by
  induction rows generalizing n with
  | nil => exact ⟨⟨List.Pairwise.nil, fun _ member => by cases member⟩, fun _ member => by cases member⟩
  | cons first rest ih =>
      obtain ⟨⟨sorted, below⟩, above⟩ := ih (n + 1)
      obtain ⟨row, sample⟩ := first
      rw [texts, List.length_cons]
      cases sample with
      | none =>
          refine ⟨⟨sorted, fun sample member => ?_⟩, fun sample member => ?_⟩
          · have := below sample member
            omega
          · have := above sample member
            omega
      | some text =>
          refine ⟨⟨List.Pairwise.cons (fun id member => ?_) sorted, fun sample member => ?_⟩, fun sample member => ?_⟩
          · obtain ⟨sample, inside, rfl⟩ := List.mem_map.mp member
            exact above sample inside
          · rcases List.mem_cons.mp member with rfl | later
            · simp
            · have := below sample later
              omega
          · rcases List.mem_cons.mp member with rfl | later
            · exact Nat.lt_succ_self n
            · have := above sample later
              omega

theorem Ascends.append {n : Nat} {samples : List (Nat × τ)} (ascends : Ascends n samples)
    (rows : List (ρ × Option τ)) : Ascends (n + rows.length) (samples ++ texts n rows) := by
  obtain ⟨⟨sorted, below⟩, above⟩ := texts_above n rows
  refine ⟨?_, fun sample member => ?_⟩
  · rw [List.map_append, List.pairwise_append]
    refine ⟨ascends.1, sorted, fun a a_member b b_member => ?_⟩
    obtain ⟨first, inside, rfl⟩ := List.mem_map.mp a_member
    obtain ⟨second, there, rfl⟩ := List.mem_map.mp b_member
    exact Nat.lt_of_le_of_lt (ascends.2 first inside) (above second there)
  · rcases List.mem_append.mp member with before | new
    · exact Nat.le_add_right_of_le (ascends.2 sample before)
    · exact below sample new

theorem mem_newest {samples : List (Nat × τ)} (sorted : (samples.map Prod.fst).Pairwise (· < ·)) {id : Nat} :
    id ∈ newest samples ↔ id ∈ (samples.rtake SAMPLE_ROWS).map Prod.fst := by
  have turned : (samples.map Prod.fst).insertionSort (· ≥ ·) = (samples.map Prod.fst).reverse := by
    refine List.Perm.eq_of_pairwise' (r := (· ≥ ·)) (List.pairwise_insertionSort _ _) ?_
      ((List.perm_insertionSort _ _).trans (List.reverse_perm _).symm)
    rw [List.pairwise_reverse]
    exact sorted.imp Nat.le_of_lt
  have last : (samples.rtake SAMPLE_ROWS).map Prod.fst = (samples.map Prod.fst).rtake SAMPLE_ROWS := by
    rw [List.rtake, List.rtake, List.map_drop, List.length_map]
  rw [newest, turned, last, List.rtake_eq_reverse_take_reverse, List.mem_reverse]

/-- Of ascending ids the newest are the last. -/
theorem delete_eq {n : Nat} {samples : List (Nat × τ)} (ascends : Ascends n samples) :
    delete samples = samples.rtake SAMPLE_ROWS := by
  let older := samples.take (samples.length - SAMPLE_ROWS)
  have split : older ++ samples.rtake SAMPLE_ROWS = samples := List.take_append_drop _ samples
  have sorted := ascends.1
  rw [← split, List.map_append, List.pairwise_append] at sorted
  have held : ∀ sample ∈ samples.rtake SAMPLE_ROWS, decide (sample.1 ∈ newest samples) = true :=
    fun sample member => decide_eq_true ((mem_newest ascends.1).mpr (List.mem_map_of_mem member))
  have gone : ∀ sample ∈ older, ¬ decide (sample.1 ∈ newest samples) = true := by
    intro sample member kept
    have there := (mem_newest ascends.1).mp (of_decide_eq_true kept)
    exact Nat.lt_irrefl _ (sorted.2.2 sample.1 (List.mem_map_of_mem member) sample.1 there)
  calc delete samples
      = (older ++ samples.rtake SAMPLE_ROWS).filter fun sample => sample.1 ∈ newest samples := by rw [delete, split]
    _ = samples.rtake SAMPLE_ROWS := by
        rw [List.filter_append, List.filter_eq_nil_iff.mpr gone, List.filter_eq_self.mpr held, List.nil_append]

/-- The last of the last and of what came then are the last of all. -/
theorem rtake_append {α : Type} (n : Nat) (before now : List α) :
    (before.rtake n ++ now).rtake n = (before ++ now).rtake n := by
  simp only [List.rtake_eq_reverse_take_reverse, List.reverse_append, List.reverse_reverse, List.take_append,
    List.take_take]
  congr 3
  omega

/-- The samples are the newest of those that were stored before. -/
theorem after_samples {log : Log ρ τ} {earlier : List (Nat × τ)} (ascends : Ascends log.requests.length earlier)
    (kept : log.samples = earlier.rtake SAMPLE_ROWS) (rows : List (ρ × Option τ)) :
    (insert rows log).samples =
      (earlier ++ if log.text then texts log.requests.length rows else []).rtake SAMPLE_ROWS := by
  have shorter : ∀ {n : Nat} {samples : List (Nat × τ)}, Ascends n samples →
      Ascends n (samples.rtake SAMPLE_ROWS) := by
    intro n samples ascends
    have part : (samples.rtake SAMPLE_ROWS).Sublist samples := List.drop_sublist _ _
    exact ⟨ascends.1.sublist (part.map _), fun sample member => ascends.2 sample (part.subset member)⟩
  rw [insert, write_eq]
  cases text : log.text with
  | false => simp [kept]
  | true =>
      simp only [if_true, kept]
      rw [delete_eq ((shorter ascends).append rows), rtake_append]

/-- Whatever was wanted when, the texts that are left are the newest of all that were ever stored, each under the id
    of its request. -/
theorem samples_newest (acts : List (Act ρ τ)) :
    (acts.foldl after {}).samples = (told false 0 acts).rtake SAMPLE_ROWS := by
  have whole : ∀ (acts : List (Act ρ τ)) (log : Log ρ τ) (earlier : List (Nat × τ)),
      Ascends log.requests.length earlier → log.samples = earlier.rtake SAMPLE_ROWS →
        (acts.foldl after log).samples = (earlier ++ told log.text log.requests.length acts).rtake SAMPLE_ROWS := by
    intro acts
    induction acts with
    | nil =>
        intro log earlier _ kept
        rw [List.foldl_nil, told, List.append_nil, kept]
    | cons act rest ih =>
        intro log earlier ascends kept
        rw [List.foldl_cons]
        cases act with
        | set_text on => exact ih { log with text := on } earlier ascends kept
        | insert rows =>
            have stored := after_samples ascends kept rows
            have requests : (insert rows log).requests = log.requests ++ rows.map Prod.fst := by
              rw [insert, write_eq]
              split <;> rfl
            have text : (insert rows log).text = log.text := by
              rw [insert, write_eq]
              split <;> rfl
            have length : (insert rows log).requests.length = log.requests.length + rows.length := by
              rw [requests, List.length_append, List.length_map]
            rw [after, ih (insert rows log) _ (length ▸ ?_) stored, text, length, told, List.append_assoc]
            split
            · exact ascends.append rows
            · rw [List.append_nil]
              exact ⟨ascends.1, fun sample member => Nat.le_add_right_of_le (ascends.2 sample member)⟩
  have run := whole acts {} [] ⟨List.Pairwise.nil, fun _ member => by cases member⟩ (by rw [List.rtake_nil])
  rwa [List.nil_append] at run

end Samples

end LocalHarness.Usage
