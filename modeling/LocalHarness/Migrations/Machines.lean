import Mathlib.Algebra.Order.Ring.Unbundled.Rat
import Mathlib.Data.List.Sort
import Mathlib.Data.Rat.Defs
import LocalHarness.Library.Ordered
import LocalHarness.Library.Table
import LocalHarness.Library.Text

/-! # Machines that are one machine

A machine's fingerprint was its hardware, its platform and its architecture; it now has the family of the
platform only, so that two rows may be of one machine. The rows of one machine are folded into the oldest.
-/

namespace LocalHarness.Migrations.Machines

open LocalHarness.Library

/-! ## The identity of a machine -/

/-- `_OS_FAMILY` -/
def OS_FAMILY : List (String × String) :=
  [("darwin", "macOS"), ("macos", "macOS"), ("linux", "Linux"), ("windows", "Windows")]

/-- `os_family` -/
def osFamily (os : String) : String :=
  let head := (Text.partition (Text.strip os) '-').1
  (OS_FAMILY.lookup (Text.lower head)).getD head

/-- The parts that are not empty. -/
def joinParts (parts : List String) : String :=
  let text := Text.join '/' (parts.filter (· ≠ ""))
  if text = "" then "unknown" else text

def fingerprint (hwModel os arch : String) : String :=
  joinParts [hwModel, osFamily os, arch]

/-- The fingerprint that was stored before. -/
def older (hwModel os arch : String) : String :=
  joinParts [hwModel, os, arch]

structure Machine where
  fingerprint : String
  hwModel : String := ""
  os : String := ""
  arch : String := ""
  memoryGb : ℚ := 0
  accelerator : String := ""
  runtimes : String := ""
  ceilingGb : ℚ := 0
  firstSeen : ℚ
  lastSeen : ℚ
  versions : String := "\x7b\x7d"
  deriving DecidableEq

/-- A row under its id. -/
abbrev Row := Nat × Machine

/-- The fingerprint of a row's own fields, or the stored one where they are all empty. -/
def Machine.identity (m : Machine) : String :=
  if m.hwModel ≠ "" ∨ m.os ≠ "" ∨ m.arch ≠ "" then Machines.fingerprint m.hwModel m.os m.arch
  else m.fingerprint

/-! ## The rows of one machine -/

/-- A fingerprint, and the rows of its machine by id. -/
abbrev Group := String × List Row

def grouped (rows : List Row) : List Group :=
  (Ordered.groupBy (fun row => row.2.identity) rows).items

/-- The board and the architecture of the first row. -/
def board (members : List Row) : Option (String × String) :=
  members.head?.map fun row => (row.2.hwModel, row.2.arch)

/-- A receipt that named no OS. -/
def bare (members : List Row) : Bool :=
  members.head?.any fun row => row.2.hwModel ≠ "" && osFamily row.2.os = ""

/-- The other groups with the same board. -/
def homes (groups : List Group) (group : Group) : List Group :=
  groups.filter fun other => other.1 ≠ group.1 ∧ board other.2 = board group.2

def byId (members : List Row) : List Row :=
  members.insertionSort fun a b => a.1 ≤ b.1

/-- The second loop: a group joins the one machine with its board, if there is only one. -/
def join (groups : List Group) (fp : String) : List Group :=
  match groups.find? fun group => group.1 = fp with
  | none => groups
  | some group =>
      match homes groups group with
      | [home] =>
          (groups.filter fun other => other.1 ≠ fp).map fun other =>
            if other.1 = home.1 then (other.1, byId (other.2 ++ group.2)) else other
      | _ => groups

/-- The groups of rows that are folded together. -/
def machinesOf (rows : List Row) : List Group :=
  let groups := grouped rows
  ((groups.filter fun group => bare group.2).map Prod.fst).foldl join groups

/-! ## The store -/

/-- A row of `machine_merges`. -/
structure Merge where
  fromId : Nat
  fromFingerprint : String
  intoId : Nat
  repointed : List (String × Nat)
  mergedAt : ℚ
  deriving DecidableEq

/-- The machines, no two with one fingerprint; the `machine_id` of each row of each table that has that
column; and the machines that were merged. -/
structure Store where
  machines : Table Machine
  unique : (machines.rows.map fun row => row.2.fingerprint).Nodup
  refs : List (String × List (Option Nat))
  merges : List Merge

inductive Raised
  /-- A row that is deleted is referred to. -/
  | foreignKey
  /-- A fingerprint that is stored is another row's. -/
  | unique
  deriving DecidableEq

namespace Store

/-- `UPDATE … SET machine_id` of each table. -/
def repoint (s : Store) (old new : Nat) : Store :=
  { s with refs := s.refs.map fun table =>
    (table.1, table.2.map fun id => if id = some old then some new else id) }

/-- The rows of each table that are repointed. -/
def moved (s : Store) (old : Nat) : List (String × Nat) :=
  s.refs.map fun table => (table.1, table.2.count (some old))

/-- A row that refers to a machine: by `machine_id`, or by the machine it was merged into. -/
def Refers (s : Store) (id : Nat) : Prop :=
  (∃ table ∈ s.refs, some id ∈ table.2) ∨ ∃ merge ∈ s.merges, merge.intoId = id

instance (s : Store) (id : Nat) : Decidable (s.Refers id) :=
  inferInstanceAs (Decidable (_ ∨ _))

theorem unique_delete (s : Store) (id : Nat) :
    ((s.machines.delete id).rows.map fun row => row.2.fingerprint).Nodup :=
  s.unique.sublist (List.filter_sublist.map _)

/-- `DELETE FROM machines` -/
def remove (s : Store) (id : Nat) : Except Raised Store :=
  if s.Refers id then .error .foreignKey
  else .ok { s with machines := s.machines.delete id, unique := s.unique_delete id }

/-- No other row has the fingerprint. -/
def Free (s : Store) (id : Nat) (fp : String) : Prop :=
  ∀ row ∈ s.machines.rows, row.1 ≠ id → row.2.fingerprint ≠ fp

instance (s : Store) (id : Nat) (fp : String) : Decidable (s.Free id fp) :=
  inferInstanceAs (Decidable (∀ row ∈ s.machines.rows, _))

theorem unique_update (s : Store) (id : Nat) (m : Machine) (free : s.Free id m.fingerprint) :
    ((s.machines.update id fun _ => m).rows.map fun row => row.2.fingerprint).Nodup := by
  have ordered := List.pairwise_map.mp s.machines.ordered
  have unique := List.pairwise_map.mp s.unique
  rw [Table.update, List.map_map]
  refine List.pairwise_map.mpr ((ordered.and unique).imp_of_mem fun {a b} left right apart => ?_)
  rw [Function.comp_apply, Function.comp_apply]
  split
  next same =>
    have other : b.1 ≠ id := fun same' => absurd apart.1 (by rw [same, same']; exact lt_irrefl id)
    rw [if_neg other]
    exact (free b right other).symm
  next other =>
    split
    next => exact free a left other
    next => exact apart.2

/-- `UPDATE machines` of one row. -/
def put (s : Store) (id : Nat) (m : Machine) : Except Raised Store :=
  if free : s.Free id m.fingerprint then
    .ok { s with machines := s.machines.update id fun _ => m, unique := s.unique_update id m free }
  else .error .unique

end Store

/-! ## Folding -/

/-- The store, how many rows were folded, and how many were repointed of each table. -/
structure Folded where
  store : Store
  merged : Nat
  repointed : List (String × Nat)

def tallied (total moved : List (String × Nat)) : List (String × Nat) :=
  List.zipWith (fun a b => (a.1, a.2 + b.2)) total moved

/-- The row of `machine_merges`, and the rows that refer to the machine. -/
def Store.merge (s : Store) (now : ℚ) (row keep : Row) : Store :=
  { s.repoint row.1 keep.1 with
    merges := s.merges ++ [Merge.mk row.1 row.2.fingerprint keep.1 (s.moved row.1) now] }

/-- One row is folded into another. -/
def foldRow (now : ℚ) (keep : Row) (folded : Folded) (row : Row) : Except Raised Folded :=
  ((folded.store.merge now row keep).remove row.1).map fun store =>
    ⟨store, folded.merged + 1, tallied folded.repointed (folded.store.moved row.1)⟩

/-- The rows by the time of their last probe, the newest first. -/
def recent (members : List Row) : List Row :=
  members.insertionSort fun a b =>
    b.2.lastSeen < a.2.lastSeen ∨ b.2.lastSeen = a.2.lastSeen ∧ b.1 ≤ a.1

/-- `latest`: what the newest probe said that said anything. -/
def latest {α : Type} [DecidableEq α] (blank : α) (column : Machine → α) (members : List Row) : α :=
  (((recent members).map fun row => column row.2).find? (· ≠ blank)).getD blank

/-- What the oldest row says once its group is folded into it. -/
def settled (fp : String) (keep : Row) (rest : List Row) : Machine :=
  let members := keep :: rest
  { keep.2 with
    fingerprint := fp
    os := latest "" Machine.os members
    firstSeen := (rest.map fun row => row.2.firstSeen).foldl min keep.2.firstSeen
    lastSeen := ((recent members).head?.getD keep).2.lastSeen
    memoryGb := latest 0 Machine.memoryGb members
    accelerator := latest "" Machine.accelerator members
    runtimes := latest "" Machine.runtimes members
    ceilingGb := latest 0 Machine.ceilingGb members
    versions := (((recent members).map fun row => row.2.versions).find?
      fun versions => versions ≠ "" ∧ versions ≠ "\x7b\x7d").getD "\x7b\x7d" }

/-- The rows of a group are folded into its oldest. -/
def foldGroup (now : ℚ) (folded : Folded) (group : Group) : Except Raised Folded :=
  match group.2 with
  | [] => .ok folded
  | keep :: rest => do
      let folded ← rest.foldlM (foldRow now keep) folded
      if keep.2.fingerprint ≠ group.1 ∨ rest ≠ [] then
        (folded.store.put keep.1 (settled group.1 keep rest)).map fun store => { folded with store }
      else .ok folded

/-- `merge_duplicate_machines` -/
def mergeDuplicateMachines (now : ℚ) (s : Store) : Except Raised Folded :=
  (machinesOf s.machines.rows).foldlM (foldGroup now) ⟨s, 0, s.refs.map fun table => (table.1, 0)⟩

end LocalHarness.Migrations.Machines
