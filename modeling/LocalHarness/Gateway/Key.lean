import LocalHarness.Library.Runs
import LocalHarness.Library.Text

/-! # The gateway's key

The key is one line of a file that only its owner can read. `ensure` hands out what the file
holds; where it holds nothing it generates a key, writes it to a second file and renames that
over the first. The second file has one name, whichever process writes it.
-/

namespace LocalHarness.Gateway

open LocalHarness.Library LocalHarness.Runs

/-- What `secrets.token_urlsafe` gives each call: letters, digits, dashes and underscores, and no
    two calls the same. -/
structure Secrets where
  token : Nat → List Char
  urlSafe : ∀ call, ∀ c ∈ token call, c.isAlphanum ∨ c = '-' ∨ c = '_'
  distinct : Function.Injective token

def Secrets.generate (secrets : Secrets) (call : Nat) : String :=
  .ofList ("sk-".toList ++ secrets.token call)

/-- The files of the store: what each holds, and which of them has the name of the key and which
    the name it is first written under. -/
structure Disk where
  files : List (List Char)
  tmp : Option Nat := none
  path : Option Nat := none
  deriving DecidableEq

namespace Disk

def text (d : Disk) (file : Nat) : List Char :=
  d.files[file]?.getD []

/-- `get`: the key file's text, nothing where there is none. -/
def get (d : Disk) : String :=
  (d.path.map fun file => Text.strip (.ofList (d.text file))).getD ""

/-- The file under the second name, emptied, or a new one there. -/
def openTmp (d : Disk) : Disk × Nat :=
  match d.tmp with
  | some file => ({ d with files := d.files.set file [] }, file)
  | none => ({ d with files := d.files ++ [[]], tmp := some d.files.length }, d.files.length)

/-- What was buffered for an open file, written over the front of what it holds. -/
def write (d : Disk) (file : Nat) (line : List Char) : Disk :=
  { d with files := d.files.set file (line ++ (d.text file).drop line.length) }

end Disk

/-- How far a call of `ensure` is. -/
inductive Phase
  | started
  /-- It found no key. -/
  | missing
  | generated (key : String)
  /-- The second file is open and empty. -/
  | opened (key : String) (file : Nat)
  | written (key : String)
  /-- The second file is its owner's alone. -/
  | hidden (key : String)
  | replaced (key : String)
  | returned (key : String)
  | raised
  deriving DecidableEq

/-- On its way to a key of its own. -/
def Phase.creating : Phase → Bool
  | .missing | .generated _ | .opened .. | .written _ | .hidden _ => true
  | _ => false

structure World where
  disk : Disk
  calls : List Phase
  deriving DecidableEq

inductive Event
  /-- A call takes its next step. -/
  | go (call : Nat)
  /-- It raises instead, or its process ends. -/
  | fail (call : Nat)
  deriving DecidableEq

/-- What a call's next step leaves on disk, and how far it is then. -/
def advance (secrets : Secrets) (call : Nat) (d : Disk) : Phase → Option (Disk × Phase)
  | .started => some (d, if d.get = "" then .missing else .returned d.get)
  | .missing => some (d, .generated (secrets.generate call))
  | .generated key => some (d.openTmp.1, .opened key d.openTmp.2)
  | .opened key file => some (d.write file (key.toList ++ ['\n']), .written key)
  | .written key => some (d, if d.tmp.isSome then .hidden key else .raised)
  | .hidden key =>
      some (if d.tmp.isSome then ({ d with tmp := none, path := d.tmp }, .replaced key)
        else (d, .raised))
  | .replaced key => some (d, .returned key)
  | .returned _ | .raised => none

def step (secrets : Secrets) (w : World) : Event → Option World
  | .go call =>
      w.calls[call]?.bind fun phase => (advance secrets call w.disk phase).map fun (disk, next) =>
        { disk, calls := w.calls.set call next }
  | .fail call =>
      w.calls[call]?.bind fun phase => (advance secrets call w.disk phase).map fun _ =>
        { w with calls := w.calls.set call .raised }

/-- No two names for one file, and a file for each. -/
structure Disk.Named (d : Disk) : Prop where
  tmp : ∀ file, d.tmp = some file → file < d.files.length
  path : ∀ file, d.path = some file → file < d.files.length
  apart : ∀ file, d.tmp = some file → d.path ≠ some file

/-- Any number of calls, before any of them has begun, on a store without a key. -/
def system (secrets : Secrets) : System World Event where
  start := fun w => w.disk.Named ∧ w.disk.get = "" ∧ ∀ phase ∈ w.calls, phase = .started
  step := step secrets

/-- Every call that returned, returned one key, and the store holds it. -/
structure Agreed (w : World) : Prop where
  same : ∀ key key', .returned key ∈ w.calls → .returned key' ∈ w.calls → key = key'
  stored : ∀ key, .returned key ∈ w.calls → w.disk.get = key

/-- A call finds no key only while no other is on its way to one. -/
def Alone (w : World) : Event → Prop
  | .go call => w.calls[call]? = some .started → w.disk.get = "" →
      ∀ phase ∈ w.calls, phase.creating = false
  | .fail _ => True

instance (w : World) (e : Event) : Decidable (Alone w e) :=
  match e with
  | .go call => inferInstanceAs (Decidable (w.calls[call]? = some .started → w.disk.get = "" →
      ∀ phase ∈ w.calls, phase.creating = false))
  | .fail _ => .isTrue trivial

end LocalHarness.Gateway
