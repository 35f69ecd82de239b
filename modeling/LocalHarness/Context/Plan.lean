import LocalHarness.Context.Choose
import LocalHarness.Context.Header

/-! # The plan of all the model files of a machine

Each file is read and sized by itself, and what is raised is caught and written down as a refusal. Not all of
what may be raised is: some of it goes past the loop, and then no file has a plan.
-/

namespace LocalHarness.Context

open Library

/-- What becomes of an exception in the loop: its text, where it is of a kind that is caught. -/
def Fault.caught? : Fault → Option String
  | value text => some text
  | os text => some text
  | key text => some text
  | type => none
  | overflow => none
  | recursion => none
  | memory => none

/-- What is at a path. -/
inductive Found where
  | absent
  /-- Whether it is there cannot be asked. -/
  | hidden (why : Fault)
  /-- It cannot be opened. -/
  | locked (text : String)
  | file (content : Bytes)

/-- A live row of the downloads. -/
structure Row where
  id : ℤ
  path : String
  /-- `Path(row["path"]).name` -/
  name : String

structure Planned where
  stem : String
  path : String
  ctx : ℤ
  slots : ℤ
  why : String
  deriving DecidableEq

/-- What is written to a row. -/
structure Recorded where
  id : ℤ
  ctx : ℤ
  trained : ℤ
  kvPerToken : ℤ
  slots : ℤ
  why : String
  kvCap : ℤ
  coresident : ℤ
  deriving DecidableEq

def eval7bStem : String := "Qwen2.5-7B-Instruct-Q4_K_M"

def eval7bSlots : ℤ := 8

def eval7bSlotCtx : ℤ := 4096

def minSlotCtx : ℤ := 3072

/-- The slots and the context of each that a stem is served at by name. -/
def slotPlan (stem : String) : Except Fault (Option (ℤ × ℤ)) :=
  if stem ≠ eval7bStem then .ok none
  else if eval7bSlotCtx < minSlotCtx then
    .error (.value (s!"{stem}: {eval7bSlotCtx} tokens per slot is under the " ++
      s!"{minSlotCtx}-token floor a claims request needs"))
  else .ok (some (max eval7bSlots 1, eval7bSlotCtx))

/-- What `plan` is called with, and what is there when it is. -/
structure Planning where
  py : Interpreter
  files : String → Found
  budget : ℤ
  slots : ℤ
  cacheType : String
  kvCap : ℤ
  /-- What stays resident beside the models. -/
  beside : ℤ

namespace Row

variable (row : Row)

def stem : String :=
  .ofList (row.name.toList.take (row.name.length - ".gguf".length))

end Row

namespace Planning

variable (run : Planning)

/-- `path.exists()` -/
def present (row : Row) : Except Fault Bool :=
  match run.files row.path with
  | .absent => .ok false
  | .hidden why => .error why
  | .locked _ => .ok true
  | .file _ => .ok true

/-- The choice for a header, by name or by the memory there is. -/
def size (fixed : Option (ℤ × ℤ)) (header : Meta) (weights : ℤ) : Except Fault Choice :=
  match fixed with
  | some (slots, slotCtx) =>
      chooseSlots run.py header weights (run.budget - run.beside) slots slotCtx run.cacheType (some run.kvCap)
  | none =>
      choose run.py header weights (run.budget - run.beside) run.slots run.cacheType floor (some run.kvCap)

/-- What is tried for a file. -/
def attempt (row : Row) (fixed : Option (ℤ × ℤ)) : Except Fault Choice :=
  match run.files row.path with
  | .absent => .error (.os s!"[Errno 2] No such file or directory: {run.py.quoted row.path}")
  | .hidden why => .error why
  | .locked text => .error (.os text)
  | .file content =>
      Reading.readMeta run.py row.name ⟨content, 0⟩ >>= fun read => run.size fixed read.1 content.length

/-- The choice, or the refusal in its place. -/
def rescued (attempt : Except Fault Choice) : Except Fault Choice :=
  match attempt with
  | .ok choice => .ok choice
  | .error fault =>
      match fault.caught? with
      | some text => .ok ⟨0, 0, 0, s!"refused: unreadable GGUF header ({text})"⟩
      | none => .error fault

/-- A number that a column can hold. -/
def Stored (n : ℤ) : Prop :=
  -2 ^ 63 ≤ n ∧ n < 2 ^ 63

instance (n : ℤ) : Decidable (Stored n) :=
  inferInstanceAs (Decidable (_ ∧ _))

/-- The update of a row, which takes no number that is too large. -/
def update (recorded : Recorded) : Except Fault Recorded :=
  if Stored recorded.ctx ∧ Stored recorded.trained ∧ Stored recorded.kvPerToken ∧ Stored recorded.slots ∧
      Stored recorded.kvCap ∧ Stored recorded.coresident then .ok recorded
  else .error .overflow

/-- One turn of the loop, for a file that is there. -/
def planFile (row : Row) : Except Fault (Planned × Recorded) := do
  let fixed ← slotPlan row.stem
  let n := (fixed.map Prod.fst).getD run.slots
  let got ← rescued (run.attempt row fixed)
  let recorded ← update ⟨row.id, got.ctx, got.trained, got.kvPerToken, n, got.why, run.kvCap, run.beside⟩
  return (⟨row.stem, row.path, got.ctx, n, got.why⟩, recorded)

def planRow (row : Row) : Except Fault (Option (Planned × Recorded)) :=
  run.present row >>= fun here => if here then (run.planFile row).map some else pure none

/-- The entries, and what is committed with them. -/
def plan (rows : List Row) : Except Fault (List Planned × List Recorded) := do
  let planned ← rows.mapM run.planRow
  return (planned.reduceOption).unzip

end Planning

end LocalHarness.Context
