import LocalHarness.Library.Dict
import LocalHarness.Library.Text
import Mathlib.Data.Finset.Basic

/-! # Stopping what reads a volume, and starting it again

A stop pauses the queue, boots the services out one by one and writes what it has done to a state
file as it goes. A start brings back what the file names. Either may end between any two of the
things it does.
-/

namespace LocalHarness.Volume

open LocalHarness.Library

def PREFIX : String := "com.unxmaal.localharness"

/-- Services that load weights from the volume on demand, stopped even when idle. -/
def READERS : List String := ["mlx", "eval", "tts", "discover"]

structure Saved where
  volume : String
  stopped : List String
  wasPaused : Bool
  deriving DecidableEq

/-- What a state file holds: what was written, or nothing that can be read. -/
inductive StateFile
  | torn
  | saved (saved : Saved)
  deriving DecidableEq

/-- The labels that are loaded, the queue's flag and the state file. -/
structure World where
  services : Finset String
  paused : Bool
  file : Option StateFile := none
  deriving DecidableEq

/-- What `launchctl list`, `lsof` and `ps` say. -/
structure Machine where
  pid : String → Option Nat := fun _ => none
  files : List (Nat × String × String) := []
  parents : List (Nat × Nat) := []
  own : Nat := 0

/-! ## Who holds the volume -/

/-- This project's labels among the loaded ones. -/
def units (services : Finset String) : List String :=
  Dict.sortedKeys (services.filter fun label => Text.starts label (PREFIX ++ "."))

/-- Every process with a file open on the volume. -/
def holders (m : Machine) (vol : String) : List (Nat × String × String) :=
  let below := Text.rstrip vol '/' ++ "/"
  m.files.filter fun h => h.1 ≠ m.own && (h.2.2 = vol || Text.starts h.2.2 below)

def root (m : Machine) (services : Finset String) (cur : Nat) : Option String :=
  ((units services).filter fun label => m.pid label = some cur && cur ≠ 0).getLast?

/-- Up the parents, until there are no more steps than processes. -/
def ownerWithin (m : Machine) (services : Finset String) : Nat → List Nat → Nat → Option String
  | 0, _, _ => none
  | steps + 1, seen, cur =>
      if cur ∈ seen then none
      else
        match root m services cur with
        | some label => some label
        | none =>
            if cur = 0 ∨ cur = 1 then none
            else
              match m.parents.lookup cur with
              | some next => ownerWithin m services steps (cur :: seen) next
              | none => none

/-- No process is met twice, so once there is a step for each it changes nothing to allow more. -/
theorem ownerWithin_enough (m : Machine) (services : Finset String) {steps : Nat} {seen : List Nat}
    (cur : Nat) (enough : (m.parents.filter fun entry => entry.1 ∉ seen).length < steps) :
    ownerWithin m services (steps + 1) seen cur = ownerWithin m services steps seen cur := by
  induction steps generalizing seen cur with
  | zero => exact absurd enough (Nat.not_lt_zero _)
  | succ steps ih =>
      rw [ownerWithin, ownerWithin]
      by_cases known : cur ∈ seen
      · rw [if_pos known, if_pos known]
      rw [if_neg known, if_neg known]
      cases root m services cur with
      | some label => rfl
      | none =>
          cases above : m.parents.lookup cur with
          | none => rfl
          | some next =>
              have fewer : (m.parents.filter fun entry => entry.1 ∉ cur :: seen).length < steps := by
                obtain ⟨front, back, shape, -⟩ := List.lookup_eq_some_iff.mp above
                have member : (cur, next) ∈ m.parents := by
                  rw [shape]
                  exact List.mem_append_right _ List.mem_cons_self
                have split : (m.parents.filter fun entry => entry.1 ∉ cur :: seen) =
                    (m.parents.filter fun entry => entry.1 ∉ seen).filter fun entry =>
                      entry.1 ≠ cur := by
                  rw [List.filter_filter]
                  exact List.filter_congr fun entry _ => by simp [not_or]
                have lost : (m.parents.filter fun entry => entry.1 ∉ cur :: seen).length <
                    (m.parents.filter fun entry => entry.1 ∉ seen).length := by
                  rw [split]
                  exact List.length_filter_lt_length_iff_exists.mpr
                    ⟨(cur, next), List.mem_filter.mpr ⟨member, by simpa using known⟩, by simp⟩
                omega
              dsimp only
              rw [ih next fewer]

def owner (m : Machine) (services : Finset String) (pid : Nat) : Option String :=
  ownerWithin m services (m.parents.length + 1) [] pid

def holdingServices (m : Machine) (services : Finset String) (vol : String) : List String :=
  (holders m vol).filterMap fun h => owner m services h.1

/-! ## Stop -/

/-- The things a stop does, each of which may raise instead. A file is emptied before it is
    written. -/
inductive Op
  | pause
  | running
  | list
  | lsof
  | ps
  | bootout (label : String)
  | print (label : String)
  | truncate
  | write (stopped : List String)
  deriving DecidableEq

def save (stopped : List String) : List Op :=
  [.truncate, .write stopped]

def targets (m : Machine) (vol : String) (services : Finset String) : List String :=
  (units services).filter fun label =>
    label ∈ holdingServices m services vol || label ∈ READERS.map fun s => PREFIX ++ "." ++ s

/-- Each service in turn, and what is gone so far on file after it. -/
def bootouts (gone : List String) : List String → List Op
  | [] => []
  | label :: rest =>
      .bootout label :: .print label :: save (gone ++ [label]) ++ bootouts (gone ++ [label]) rest

def stopOps (wanted : List String) : List Op :=
  [.pause, .running, .list, .lsof, .ps] ++ bootouts [] wanted ++ save wanted ++ [.lsof]

def perform (vol : String) (wasPaused : Bool) (w : World) : Op → World
  | .pause => { w with paused := true }
  | .bootout label => { w with services := w.services.erase label }
  | .truncate => { w with file := some .torn }
  | .write stopped => { w with file := some (.saved ⟨vol, stopped, wasPaused⟩) }
  | .running | .list | .lsof | .ps | .print _ => w

structure Stopped where
  volume : String
  stopped : List String
  wasPaused : Bool
  remaining : List (Nat × String × String)

inductive StopError
  | alreadyRecorded
  | raised (op : Op)
  deriving DecidableEq

/-- Quiesce the queue, boot out every service that reads the volume, then check `lsof`. It gets to
    do `k` things; if there are more, the next raises. -/
def stop (m : Machine) (vol : String) (w : World) (k : Nat) : Except StopError Stopped × World :=
  if w.file.isSome then (.error .alreadyRecorded, w)
  else
    let wanted := targets m vol w.services
    let ops := stopOps wanted
    let after := (ops.take k).foldl (perform vol w.paused) w
    match ops[k]? with
    | some op => (.error (.raised op), after)
    | none => (.ok ⟨vol, wanted, w.paused, holders m vol⟩, after)

/-! ## Start -/

/-- What a start meets: whether the volume is mounted, and the services that would not load. -/
structure Attempt where
  mounted : Bool := true
  broken : List String := []

inductive StartError
  | nothing
  | unreadable
  | notMounted (vol : String)
  | couldNotLoad (failed : List String)
  deriving DecidableEq

def StartError.text (statePath stateName : String) : StartError → String
  | .nothing => "nothing to start: no " ++ stateName ++ " from `soh volume stop`"
  | .unreadable => "Expecting value: line 1 column 1 (char 0)"
  | .notMounted vol => vol ++ " is not mounted; mount it, then run `soh volume start`"
  | .couldNotLoad failed =>
      "could not load " ++ ", ".intercalate failed ++ "; " ++ statePath ++ " is kept, fix and re-run"

structure Started where
  volume : String
  started : List String
  resumed : Bool
  deriving DecidableEq

/-- A label that is loaded already is refused, as one whose plist is broken is. -/
def bootstraps (services : Finset String) (label : String) (a : Attempt) : Bool :=
  label ∉ services && label ∉ a.broken

/-- The labels in turn: what is loaded after them, and those that were refused. -/
def bootstrapAll (a : Attempt) (services : Finset String) :
    List String → Finset String × List String
  | [] => (services, [])
  | label :: rest =>
      if bootstraps services label a then bootstrapAll a (insert label services) rest
      else
        let later := bootstrapAll a services rest
        (later.1, label :: later.2)

/-- Bring back exactly what stop stopped; resume the queue only if it was running. -/
def start (w : World) (a : Attempt) : Except StartError Started × World :=
  match w.file with
  | none => (.error .nothing, w)
  | some .torn => (.error .unreadable, w)
  | some (.saved saved) =>
      if !a.mounted then (.error (.notMounted saved.volume), w)
      else
        let got := bootstrapAll a w.services saved.stopped
        if got.2 ≠ [] then (.error (.couldNotLoad got.2), { w with services := got.1 })
        else
          (.ok ⟨saved.volume, saved.stopped, !saved.wasPaused⟩,
            { services := got.1
              paused := if saved.wasPaused then w.paused else false
              file := none })

end LocalHarness.Volume
