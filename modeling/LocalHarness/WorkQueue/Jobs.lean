import Mathlib.Algebra.Order.Field.Rat
import Mathlib.Data.List.Sort
import LocalHarness.Library.Table
import LocalHarness.Library.Text

/-! # The jobs table

Each statement a client or a worker runs against the shared `jobs` table. Ids come from
a sequence that outlives the rows, so the id of a deleted job is not given out again.
-/

namespace LocalHarness.WorkQueue

open LocalHarness.Library

inductive JobState
  | pending | running | done | failed | cancelled
  deriving DecidableEq, Repr

def JobState.text : JobState → String
  | pending => "pending"
  | running => "running"
  | done => "done"
  | failed => "failed"
  | cancelled => "cancelled"

structure Job where
  title : String
  kind : String := "command"
  output : String := ""
  priority : Int := 0
  argv : List String
  cwd : String
  state : JobState
  created : ℚ
  started : Option Int := none
  finished : Option Int := none
  rc : Option Int := none
  log : String := ""
  note : String := ""
  requestedBy : String := ""
  machineId : Option Nat
  deriving DecidableEq

/-- The `jobs` and `machines` tables, and the last id the sequence gave out. -/
structure JobStore where
  jobs : Table Job
  sequence : Nat
  assigned : ∀ id ∈ jobs.ids, id ≤ sequence
  machines : Table String

/-- A job's id as it is shown. -/
def label (id : Nat) : String :=
  .ofList (List.replicate (4 - (Nat.toDigits 10 id).length) '0' ++ Nat.toDigits 10 id)

/-- The id a caller means. -/
def key (jobId : String) : Option Nat :=
  let digits := (Text.strip jobId).toList
  if digits ≠ [] ∧ digits.all Char.isDigit then some (Nat.ofDigitChars 10 digits 0) else none

/-- Why an `add` is refused; `present` is whether a path exists. -/
def addRefused (present : String → Bool) (argv : List String) : Option String :=
  match argv with
  | [] => some "a job needs a command"
  | first :: _ =>
      if first.startsWith "-" then
        some ("the command starts with " ++ Text.quoted first ++ ": an option this " ++
          "soh did not recognise was taken as the command")
      else if first.toList.any Text.isSpace ∧ ¬ present first then
        some (Text.quoted first ++ " is a whole command line in one argument; " ++
          "split it into words (zsh does not word-split $VAR). #363")
      else none

inductive QueueError
  | noJob (jobId : String)
  | notPending (jobId : String) (state : JobState) (verb : String)
  deriving DecidableEq

def QueueError.text : QueueError → String
  | noJob jobId => "no job " ++ jobId
  | notPending jobId state verb =>
      "job " ++ jobId ++ " is " ++ state.text ++ "; only a pending job can be " ++ verb

/-- Run order: higher priority first, then the order added. -/
def before (a b : Nat × Job) : Prop :=
  b.2.priority < a.2.priority ∨ b.2.priority = a.2.priority ∧ a.1 ≤ b.1

instance (a b : Nat × Job) : Decidable (before a b) :=
  inferInstanceAs (Decidable (_ ∨ _))

def order (got : List (Nat × Job)) : List (Nat × Job) :=
  got.insertionSort before

namespace JobStore

def find? (s : JobStore) (id : Nat) : Option Job :=
  s.jobs.find? id

/-- The row of the machine with this fingerprint. -/
def machineRow (s : JobStore) (fingerprint : String) : Option Nat :=
  (s.machines.rows.find? fun row => row.2 == fingerprint).map Prod.fst

/-- Insert the machine's row where it has none. -/
def remember (s : JobStore) (fingerprint : String) : JobStore :=
  match s.machineRow fingerprint with
  | some _ => s
  | none =>
      { s with machines := s.machines.insert s.machines.nextId fingerprint s.machines.above_nextId }

/-- The jobs a machine's worker owns: its own, and those of no machine. -/
def here (s : JobStore) (fingerprint : String) (job : Job) : Bool :=
  match s.machineRow fingerprint with
  | none => job.machineId = none
  | some mid => job.machineId = some mid ∨ job.machineId = none

def pending (s : JobStore) (fingerprint : String) : List (Nat × Job) :=
  order (s.jobs.rows.filter fun row => row.2.state = .pending ∧ s.here fingerprint row.2)

/-- What `add` inserts. -/
structure Request where
  argv : List String
  title : String := ""
  cwd : String
  kind : String := "command"
  output : String := ""
  priority : Int := 0
  requestedBy : String := ""
  now : ℚ

theorem above_sequence (s : JobStore) : s.jobs.Above (s.sequence + 1) :=
  fun id present => Nat.lt_succ_of_le (s.assigned id present)

def insert (s : JobStore) (job : Job) : JobStore where
  jobs := s.jobs.insert (s.sequence + 1) job s.above_sequence
  sequence := s.sequence + 1
  assigned := by
    intro id present
    rw [Table.mem_ids_insert] at present
    cases present with
    | inl old => exact Nat.le_succ_of_le (s.assigned id old)
    | inr new => exact new.le
  machines := s.machines

/-- The row of a request made on a machine. -/
def Request.job (r : Request) (machine : Option Nat) : Job where
  title := if r.title = "" then " ".intercalate r.argv else r.title
  kind := r.kind
  output := r.output
  priority := r.priority
  argv := r.argv
  cwd := r.cwd
  state := .pending
  created := r.now
  requestedBy := r.requestedBy
  machineId := machine

def add (s : JobStore) (fingerprint : String) (r : Request) : JobStore :=
  (s.remember fingerprint).insert (r.job ((s.remember fingerprint).machineRow fingerprint))

def update (s : JobStore) (id : Nat) (change : Job → Job) : JobStore where
  jobs := s.jobs.update id change
  sequence := s.sequence
  assigned := by simpa using s.assigned
  machines := s.machines

def delete (s : JobStore) (id : Nat) : JobStore where
  jobs := s.jobs.delete id
  sequence := s.sequence
  assigned := fun other present => s.assigned other (Table.mem_ids_delete.mp present).1
  machines := s.machines

/-- Run a statement on a pending job; the state test is in the same statement. -/
def onlyPending (s : JobStore) (jobId : String) (statement : Nat → JobStore) (verb : String) :
    Except QueueError JobStore :=
  match key jobId with
  | none => .error (.noJob jobId)
  | some id =>
      match s.find? id with
      | none => .error (.noJob jobId)
      | some job =>
          if job.state = .pending then .ok (statement id)
          else .error (.notPending jobId job.state verb)

def setPriority (s : JobStore) (jobId : String) (priority : Int) : Except QueueError JobStore :=
  s.onlyPending jobId (fun id => s.update id fun job => { job with priority := priority })
    "reordered"

/-- What `cancel` does to a job it did not find running. -/
def drop (s : JobStore) (jobId : String) : Except QueueError JobStore :=
  s.onlyPending jobId s.delete "cancelled"

/-- A job's mutable fields, stored over those of its row. -/
def written (dict row : Job) : Job :=
  { row with
    state := dict.state
    started := dict.started
    finished := dict.finished
    rc := dict.rc
    log := dict.log
    note := dict.note
    priority := dict.priority }

def write (s : JobStore) (id : Nat) (dict : Job) : JobStore :=
  s.update id (written dict)

def interrupted (job : Job) : Job :=
  { job with state := .failed, note := "interrupted; add it again to retry" }

/-- A job of this machine that is still marked running was cut off. -/
def recover (s : JobStore) (fingerprint : String) : JobStore where
  jobs := s.jobs.updateAll fun job =>
    if job.state = .running ∧ s.here fingerprint job then interrupted job else job
  sequence := s.sequence
  assigned := by simpa using s.assigned
  machines := s.machines

/-- The id is given out, and not to a job that waits. -/
def Settled (s : JobStore) (id : Nat) : Prop :=
  id ≤ s.sequence ∧ ∀ job, s.find? id = some job → job.state ≠ .pending

/-- What every statement keeps: a job that does not wait never waits again, and a row that
    is gone does not return. -/
structure Steady (s s' : JobStore) : Prop where
  sequence : s.sequence ≤ s'.sequence
  settled : ∀ id, s.Settled id → s'.Settled id
  gone : ∀ id, id ≤ s.sequence → s.find? id = none → s'.find? id = none

theorem Steady.refl (s : JobStore) : s.Steady s where
  sequence := Nat.le_refl _
  settled := fun _ settled => settled
  gone := fun _ _ gone => gone

theorem find?_remember (s : JobStore) (fingerprint : String) (id : Nat) :
    (s.remember fingerprint).find? id = s.find? id := by
  unfold remember
  split <;> rfl

theorem sequence_remember (s : JobStore) (fingerprint : String) :
    (s.remember fingerprint).sequence = s.sequence := by
  unfold remember
  split <;> rfl

theorem find?_insert (s : JobStore) (job : Job) (id : Nat) :
    (s.insert job).find? id = if id = s.sequence + 1 then some job else s.find? id := by
  rw [find?, insert, Table.find?_insert]
  rfl

theorem find?_update (s : JobStore) (id other : Nat) (change : Job → Job) :
    (s.update id change).find? other =
      if other = id then (s.find? other).map change else s.find? other :=
  Table.find?_update s.jobs id other change

theorem find?_delete (s : JobStore) (id other : Nat) :
    (s.delete id).find? other = if other = id then none else s.find? other :=
  Table.find?_delete s.jobs id other

theorem find?_recover (s : JobStore) (fingerprint : String) (id : Nat) :
    (s.recover fingerprint).find? id = (s.find? id).map fun job =>
      if job.state = .running ∧ s.here fingerprint job then interrupted job else job :=
  Table.find?_updateAll s.jobs _ id

theorem find?_le_sequence {s : JobStore} {id : Nat} {job : Job} (found : s.find? id = some job) :
    id ≤ s.sequence :=
  s.assigned id (Table.mem_ids_of_find? found)

theorem onlyPending_ok {s s' : JobStore} {jobId verb : String} {statement : Nat → JobStore}
    (ran : s.onlyPending jobId statement verb = .ok s') :
    ∃ id job, key jobId = some id ∧ s.find? id = some job ∧ job.state = .pending ∧
      s' = statement id := by
  unfold onlyPending at ran
  split at ran
  next => cases ran
  next id named =>
    split at ran
    next => cases ran
    next job found =>
      split at ran
      next waiting =>
        cases ran
        exact ⟨id, job, named, found, waiting, rfl⟩
      next => cases ran

theorem setPriority_ok {s s' : JobStore} {jobId : String} {priority : Int}
    (ran : s.setPriority jobId priority = .ok s') :
    ∃ id job, key jobId = some id ∧ s.find? id = some job ∧ job.state = .pending ∧
      s' = s.update id fun job => { job with priority := priority } :=
  onlyPending_ok ran

theorem drop_ok {s s' : JobStore} {jobId : String} (ran : s.drop jobId = .ok s') :
    ∃ id job, key jobId = some id ∧ s.find? id = some job ∧ job.state = .pending ∧
      s' = s.delete id :=
  onlyPending_ok ran

theorem find?_add (s : JobStore) (fingerprint : String) (r : Request) (id : Nat) :
    (s.add fingerprint r).find? id =
      if id = s.sequence + 1 then some (r.job ((s.remember fingerprint).machineRow fingerprint))
      else s.find? id := by
  rw [add, find?_insert, sequence_remember, find?_remember]

theorem sequence_add (s : JobStore) (fingerprint : String) (r : Request) :
    (s.add fingerprint r).sequence = s.sequence + 1 :=
  congrArg (· + 1) (s.sequence_remember fingerprint)

theorem steady_add (s : JobStore) (fingerprint : String) (r : Request) :
    s.Steady (s.add fingerprint r) := by
  have grown := s.sequence_add fingerprint r
  constructor
  · omega
  · intro id settled
    obtain ⟨old, begun⟩ := settled
    refine ⟨by omega, fun row found => ?_⟩
    rw [find?_add, if_neg (by omega)] at found
    exact begun row found
  · intro id old gone
    rw [find?_add, if_neg (by omega), gone]

/-- A change of one row that does not make it wait. -/
theorem steady_update (s : JobStore) (id : Nat) {change : Job → Job}
    (keeps : ∀ job, job.state ≠ .pending → (change job).state ≠ .pending) :
    s.Steady (s.update id change) := by
  constructor
  · exact Nat.le_refl _
  · intro other settled
    refine ⟨settled.1, fun row found => ?_⟩
    rw [find?_update] at found
    split at found
    · obtain ⟨job, here, rfl⟩ := Option.map_eq_some_iff.mp found
      exact keeps job (settled.2 job here)
    · exact settled.2 row found
  · intro other _ gone
    rw [find?_update, gone]
    split <;> rfl

theorem steady_delete (s : JobStore) (id : Nat) : s.Steady (s.delete id) := by
  constructor
  · exact Nat.le_refl _
  · intro other settled
    refine ⟨settled.1, fun row found => ?_⟩
    rw [find?_delete] at found
    split at found
    · cases found
    · exact settled.2 row found
  · intro other _ gone
    rw [find?_delete, gone]
    split <;> rfl

theorem steady_recover (s : JobStore) (fingerprint : String) :
    s.Steady (s.recover fingerprint) := by
  constructor
  · exact Nat.le_refl _
  · intro other settled
    refine ⟨settled.1, fun row found => ?_⟩
    rw [find?_recover] at found
    obtain ⟨job, here, rfl⟩ := Option.map_eq_some_iff.mp found
    split
    · exact JobState.noConfusion
    · exact settled.2 job here
  · intro other _ gone
    rw [find?_recover, gone]
    rfl

/-- Storing a job that does not wait. -/
theorem steady_write (s : JobStore) (id : Nat) {dict : Job} (begun : dict.state ≠ .pending) :
    s.Steady (s.write id dict) :=
  s.steady_update id fun _ _ => begun

theorem steady_setPriority {s s' : JobStore} {jobId : String} {priority : Int}
    (ran : s.setPriority jobId priority = .ok s') : s.Steady s' := by
  obtain ⟨id, _, _, _, _, rfl⟩ := setPriority_ok ran
  exact s.steady_update id fun _ started => started

theorem steady_drop {s s' : JobStore} {jobId : String} (ran : s.drop jobId = .ok s') :
    s.Steady s' := by
  obtain ⟨id, _, _, _, _, rfl⟩ := drop_ok ran
  exact s.steady_delete id

theorem find?_write_self {s : JobStore} {id : Nat} {dict row : Job}
    (found : (s.write id dict).find? id = some row) :
    ∃ job, s.find? id = some job ∧ row = written dict job := by
  rw [write, find?_update, if_pos rfl] at found
  obtain ⟨job, here, same⟩ := Option.map_eq_some_iff.mp found
  exact ⟨job, here, same.symm⟩

/-- The row a write lands on does not wait afterwards. -/
theorem settled_write {s : JobStore} {id : Nat} {dict : Job} (given : id ≤ s.sequence)
    (begun : dict.state ≠ .pending) : (s.write id dict).Settled id := by
  refine ⟨given, fun row found => ?_⟩
  obtain ⟨job, _, rfl⟩ := find?_write_self found
  exact begun

/-- A statement leaves a column of the rows it does not remove as it was. -/
def Keeps {α : Type} (column : Job → α) (s s' : JobStore) : Prop :=
  ∀ id ≤ s.sequence, ∀ row', s'.find? id = some row' →
    ∃ row, s.find? id = some row ∧ column row' = column row

section Columns

variable {α : Type} (column : Job → α) (s : JobStore)

theorem keeps_add (fingerprint : String) (r : Request) :
    Keeps column s (s.add fingerprint r) := by
  intro id old row found
  rw [find?_add, if_neg (by omega)] at found
  exact ⟨row, found, rfl⟩

theorem keeps_update (id : Nat) {change : Job → Job}
    (same : ∀ row, s.find? id = some row → column (change row) = column row) :
    Keeps column s (s.update id change) := by
  intro other _ row found
  rw [find?_update] at found
  split at found
  next here =>
    obtain ⟨job, here', rfl⟩ := Option.map_eq_some_iff.mp found
    exact ⟨job, here', same job (here ▸ here')⟩
  next => exact ⟨row, found, rfl⟩

theorem keeps_delete (id : Nat) : Keeps column s (s.delete id) := by
  intro other _ row found
  rw [find?_delete] at found
  split at found
  next => cases found
  next => exact ⟨row, found, rfl⟩

theorem keeps_recover (fingerprint : String)
    (same : ∀ job, column (interrupted job) = column job) :
    Keeps column s (s.recover fingerprint) := by
  intro id _ row found
  rw [find?_recover] at found
  obtain ⟨job, here, rfl⟩ := Option.map_eq_some_iff.mp found
  refine ⟨job, here, ?_⟩
  split
  · exact same job
  · rfl

end Columns

/-- The job a worker takes up waits, and is its machine's or nobody's. -/
theorem next_pending {s : JobStore} {fingerprint : String} {id : Nat} {job : Job}
    (next : (s.pending fingerprint).head? = some (id, job)) :
    s.find? id = some job ∧ job.state = .pending ∧ s.here fingerprint job = true := by
  obtain ⟨row, chosen⟩ := List.mem_filter.mp ((List.mem_insertionSort before).mp (List.mem_of_head? next))
  rw [decide_eq_true_eq] at chosen
  exact ⟨Table.find?_eq_some.mpr row, chosen⟩

end JobStore

end LocalHarness.WorkQueue
