import Mathlib.Logic.Function.Basic
import LocalHarness.Library.Decimal
import LocalHarness.Library.Runs
import LocalHarness.Library.Text

/-! # Publishing a machine's report

Every machine writes one file on one branch of one repository, through an API that takes one
request at a time. The file is named for the machine's hardware. The first to publish creates
the branch with its file alone; the others replace a file they name by what it held when they
read it.
-/

namespace LocalHarness.Publish

open LocalHarness.Library LocalHarness.Runs

/-- A machine's row, in the columns its label is made of, and the name of its accelerator. -/
structure Hardware where
  hwModel : String
  os : String
  arch : String
  memoryGb : ℚ
  accelerator : String
  acceleratorName : String := ""

def MAC_MODELS : List (String × String) :=
  [("Macmini9,1", "Mac mini M1"), ("Mac14,3", "Mac mini M2"), ("Mac14,12", "Mac mini M2 Pro"),
    ("Mac16,10", "Mac mini M4"), ("Mac16,11", "Mac mini M4 Pro"), ("Mac13,1", "Mac Studio M1 Max"),
    ("Mac13,2", "Mac Studio M1 Ultra"), ("Mac14,13", "Mac Studio M2 Max"),
    ("Mac14,14", "Mac Studio M2 Ultra"), ("Mac15,14", "Mac Studio M3 Ultra"),
    ("Mac16,9", "Mac Studio M4 Max"), ("Mac17,15", "Mac Studio M5 Ultra")]

def OS_FAMILY : List (String × String) :=
  [("darwin", "macOS"), ("macos", "macOS"), ("linux", "Linux"), ("windows", "Windows")]

def osFamily (os : String) : String :=
  let head := (Text.partition (Text.strip os) '-').1
  ((OS_FAMILY.find? fun entry => entry.1 = Text.lower head).map Prod.snd).getD head

/-- A word at the front and the spaces after it, where there are any. -/
private def dropWord (word : String) (cs : List Char) : List Char :=
  let rest := cs.drop word.toList.length
  if word.toList.isPrefixOf cs && (rest.head?.map Text.isSpace).getD false then
    rest.dropWhile Text.isSpace
  else cs

def card (name : String) : String :=
  .ofList (dropWord "GeForce" (dropWord "NVIDIA" (Text.strip name).toList))

def machineLabel (h : Hardware) : String :=
  let family := osFamily h.os
  if Text.starts h.accelerator "discrete" && h.acceleratorName != "" then
    if family ≠ "" then card h.acceleratorName ++ " (" ++ family ++ ")" else card h.acceleratorName
  else
    let known := (MAC_MODELS.find? fun entry => entry.1 = h.hwModel).map Prod.snd
    let base := known.getD (if h.hwModel ≠ "" then h.hwModel
      else if h.arch ≠ "" then h.arch else "unknown machine")
    let label := if h.memoryGb ≠ 0 then base ++ " " ++ Decimal.fixed 0 h.memoryGb ++ " GB" else base
    if family = "macOS" ∨ family = "" then label else label ++ " (" ++ family ++ ")"

/-- Every run of other characters than small letters and digits as one dash. -/
private def dashed (gap : Bool) : List Char → List Char
  | [] => []
  | c :: cs =>
      if c.isLower || c.isDigit then c :: dashed false cs
      else if gap then dashed true cs
      else '-' :: dashed true cs

def slug (label : String) : String :=
  let cs := ((dashed false (Text.lower label).toList).dropWhile (· = '-')).rdropWhile (· = '-')
  if cs = [] then "machine" else .ofList cs

def pathOf (h : Hardware) : String :=
  "machines/" ++ slug (machineLabel h) ++ ".json"

/-- A call of `publish`: the checked export as text, and whether the page is built after. -/
structure Call where
  text : String
  dispatch : Bool := true
  deriving DecidableEq

/-- What a call asks next. -/
inductive Phase
  | idle
  | branch (call : Call)
  | blob (call : Call)
  | tree (call : Call)
  | commit (call : Call)
  | ref (call : Call)
  | contents (call : Call) (attempt : Nat)
  /-- It has the sha of the file, or read that there is none. -/
  | put (call : Call) (attempt : Nat) (sha : Option String)
  | page (call : Call)
  | returned (call : Call)
  | raised
  deriving DecidableEq

/-- A call may begin: there is none, or the last has ended. -/
def Phase.free : Phase → Bool
  | .idle | .returned _ | .raised => true
  | _ => false

/-- A file on the branch, and the machine whose request put it there. -/
structure Blob (M : Type) where
  text : String
  author : M

/-- The branch's files, once there is a branch, and what every machine is about to ask. -/
structure World (M : Type) where
  branch : Option (String → Option (Blob M))
  phase : M → Phase

inductive Event (M : Type)
  | begin_ (m : M) (call : Call)
  /-- The request is served, or refused for what it says. -/
  | served (m : M)
  /-- A write is refused because the branch was moved meanwhile. -/
  | moved (m : M)
  /-- The request comes to nothing. -/
  | failed (m : M)
  /-- The request is served and its answer lost. -/
  | lost (m : M)

def Event.machine {M : Type} : Event M → M
  | .begin_ m _ | .served m | .moved m | .failed m | .lost m => m

variable {M : Type} [DecidableEq M]

namespace World

def file (w : World M) (path : String) : Option (Blob M) :=
  w.branch.bind (· path)

def at_ (w : World M) (m : M) (phase : Phase) : World M :=
  { w with phase := Function.update w.phase m phase }

/-- The machine's file is there, and the page is asked for next. -/
def wrote (w : World M) (m : M) (call : Call) (files : String → Option (Blob M)) (path : String) :
    World M :=
  { branch := some (Function.update files path (some ⟨call.text, m⟩))
    phase := Function.update w.phase m (if call.dispatch then .page call else .returned call) }

/-- A write that was refused is tried three times in all. -/
def again (w : World M) (m : M) (call : Call) (attempt : Nat) : World M :=
  w.at_ m (if attempt < 2 then .contents call (attempt + 1) else .raised)

end World

/-- What a request does, and what its machine asks next. A machine whose call is over asks
    nothing. -/
def serve (sha : String → String) (hardware : M → Hardware) (w : World M) (m : M) :
    Option (World M) :=
  let path := pathOf (hardware m)
  match w.phase m with
  | .branch call => some (w.at_ m (if w.branch.isSome then .contents call 0 else .blob call))
  | .blob call => some (w.at_ m (.tree call))
  | .tree call => some (w.at_ m (.commit call))
  | .commit call => some (w.at_ m (.ref call))
  | .ref call =>
      some (if w.branch.isSome then w.at_ m .raised else w.wrote m call (fun _ => none) path)
  | .contents call attempt =>
      some (w.at_ m (.put call attempt ((w.file path).map fun blob => sha blob.text)))
  | .put call attempt known =>
      some (match w.branch with
        | none => w.at_ m .raised
        | some files =>
            match files path, known with
            | none, none => w.wrote m call files path
            | none, some _ => w.again m call attempt
            | some _, none => w.at_ m .raised
            | some blob, some known =>
                if sha blob.text = known then w.wrote m call files path else w.again m call attempt)
  | .page call => some (w.at_ m (.returned call))
  | .idle | .returned _ | .raised => none

def step (sha : String → String) (hardware : M → Hardware) (w : World M) :
    Event M → Option (World M)
  | .begin_ m call => if (w.phase m).free then some (w.at_ m (.branch call)) else none
  | .served m => serve sha hardware w m
  | .moved m =>
      match w.phase m with
      | .put call attempt _ => some (w.again m call attempt)
      | _ => none
  | .failed m => if (w.phase m).free then none else some (w.at_ m .raised)
  | .lost m => (serve sha hardware w m).map fun w' => w'.at_ m .raised

/-- No branch yet, and no call. -/
def system (sha : String → String) (hardware : M → Hardware) : System (World M) (Event M) where
  start := fun w => w.branch = none ∧ ∀ m, w.phase m = .idle
  step := step sha hardware

end LocalHarness.Publish
