import LocalHarness.Library.Runs
import LocalHarness.Library.Table
import Mathlib.Logic.Relation

/-! # One large working set at a time

`held` takes a lock that the kernel releases when its process dies. While it is held a variable
in the environment of the process says so, and a call that finds the variable enters without the
lock. A child starts with a copy of its parent's environment; the threads of a process share one.
-/

namespace LocalHarness.Exclusive

open LocalHarness.Library LocalHarness.Runs

/-- Lanes that need the whole machine. -/
def EXCLUSIVE : List String := ["image", "video"]

/-- Batch runs that load models on any engine. -/
def BATCH : List String := ["eval", "ramp", "external", "chaos"]

/-- Where a call of `held` stands. -/
inductive Phase
  /-- It polls for the lock. -/
  | waiting
  /-- It has the lock and has not set the variable. -/
  | taken
  /-- Its block runs, with the lock. -/
  | inside
  /-- Its block has ended and the variable is unset; the lock is still its own. -/
  | leaving
  /-- Its block runs because the variable was set. -/
  | nested
  /-- Its block runs, and its kind does not need the machine. -/
  | passed
  | ended
  deriving DecidableEq

structure Call where
  process : Nat
  phase : Phase
  deriving DecidableEq

/-- `marked` is whether `LH_GPU_LOCK_HELD` is `1` in its environment. -/
structure Process where
  parent : Option Nat
  alive : Bool
  marked : Bool
  deriving DecidableEq

/-- The processes and calls of a machine since it started, and the call whose handle has the
    lock. -/
structure Host where
  processes : Table Process
  calls : Table Call
  lock : Option Nat

inductive Action
  /-- A process of its own, such as a shell's. -/
  | launch
  /-- A child; `stripped` when it is started without the variable. -/
  | spawn (parent : Nat) (stripped : Bool)
  /-- A thread of a process calls `held`. -/
  | enter (process : Nat) (kind : String)
  | take (call : Nat)
  | mark (call : Nat)
  | unmark (call : Nat)
  | release (call : Nat)
  /-- A block that never had the lock ends. -/
  | leave (call : Nat)
  /-- A process ends, however it does; the kernel closes its handles. -/
  | die (process : Nat)
  deriving DecidableEq

namespace Host

def addProcess (h : Host) (process : Process) : Host :=
  { h with processes := h.processes.insert h.processes.nextId process h.processes.above_nextId }

def addCall (h : Host) (call : Call) : Host :=
  { h with calls := h.calls.insert h.calls.nextId call h.calls.above_nextId }

def moved (h : Host) (call : Nat) (phase : Phase) : Host :=
  { h with calls := h.calls.update call fun row => { row with phase := phase } }

def setMarked (h : Host) (process : Nat) (marked : Bool) : Host :=
  { h with processes := h.processes.update process fun row => { row with marked := marked } }

/-- The call, when it stands there. -/
def at? (h : Host) (call : Nat) (phase : Phase) : Option Call :=
  (h.calls.find? call).filter fun row => row.phase = phase

def living (h : Host) (process : Nat) : Option Process :=
  (h.processes.find? process).filter Process.alive

/-- The process whose call has the lock. -/
def owner (h : Host) : Option Nat :=
  (h.lock.bind h.calls.find?).map Call.process

/-- The machine once a process has ended: its calls are gone, and the lock if it was theirs. -/
def without (h : Host) (process : Nat) : Host where
  processes := h.processes.update process fun row => { row with alive := false }
  calls := h.calls.updateAll fun row =>
    if row.process = process then { row with phase := .ended } else row
  lock := if h.owner = some process then none else h.lock

end Host

open Host

/-- Where the first test of `held` leaves a call. -/
def admitted (process : Process) (kind : String) : Phase :=
  if kind ∉ EXCLUSIVE ++ BATCH then .passed
  else if process.marked then .nested
  else .waiting

def step (h : Host) : Action → Option Host
  | .launch => some (h.addProcess ⟨none, true, false⟩)
  | .spawn parent stripped =>
      (h.living parent).map fun row => h.addProcess ⟨some parent, true, row.marked && !stripped⟩
  | .enter process kind =>
      (h.living process).map fun row => h.addCall ⟨process, admitted row kind⟩
  | .take call =>
      if h.lock = none then
        (h.at? call .waiting).map fun _ => { h.moved call .taken with lock := some call }
      else none
  | .mark call =>
      (h.at? call .taken).map fun row => (h.moved call .inside).setMarked row.process true
  | .unmark call =>
      (h.at? call .inside).map fun row => (h.moved call .leaving).setMarked row.process false
  | .release call =>
      (h.at? call .leaving).map fun _ => { h.moved call .ended with lock := none }
  | .leave call =>
      ((h.at? call .nested).or (h.at? call .passed)).map fun _ => h.moved call .ended
  | .die process =>
      (h.living process).map fun _ => h.without process

/-- No process yet, and the lock free. -/
def machine : System Host Action where
  start := fun h => h = ⟨∅, ∅, none⟩
  step := step

end LocalHarness.Exclusive
