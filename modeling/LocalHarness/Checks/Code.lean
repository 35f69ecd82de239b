import LocalHarness.Checks.Extract
import LocalHarness.Library.JsonDumps
import LocalHarness.Library.Lines

/-! # Generated code

`harness/checks/code.py`. The code is run with a harness of assertions below it. The harness reports to
standard error, where the code may write too, and the report is taken from the first line that begins
with its marker.
-/

namespace LocalHarness.Checks.Code

open LocalHarness.Library
open LocalHarness.Library.JsonText

/-- The code, out of whatever prose the model wrapped it in. -/
def recover (u : Unicode) (text : List Char) : List Char :=
  Extract.extract u text []

structure CodeResult where
  ok : Bool
  reason : Str
  passed : Nat
  total : Nat
  deriving DecidableEq

/-- What is raised: the check's own `ValueError`, and what a result that no harness wrote may cause. -/
inductive Fault
  | value (message : String)
  | json
  | recursion
  | unpack
  | type
  | key
  | index
  deriving DecidableEq

/-- How the child process ends. -/
inductive Ran
  | timedOut
  /-- With what it has written to standard error. -/
  | finished (stderr : Str) (returncode : Int)

/-- The parts of Python that are not spelled out here. -/
structure Python where
  /-- How many arrays and objects `json.loads` opens in one another. -/
  room : Nat
  /-- The characters above ASCII that `repr` leaves as they are. -/
  printable : CodePoint → Bool
  /-- `float(lexeme) != 0` -/
  nonzero : Str → Bool
  /-- `str(value)`, of a value that is no text. -/
  shown : Json → Str

/-! ## The program -/

/-- The lines of `_HARNESS` ahead of the assertions. -/
def HARNESS_HEAD : String :=
  "\n".intercalate [
    "",
    "import json as _json, sys as _sys",
    "",
    "def raises(_fn, *_args, exc=Exception, **_kwargs):",
    "    \"\"\"True if calling _fn raises `exc`. Available to every check expression.",
    "",
    "    \"It raises ValueError on bad input\" is a normal thing to assert and there",
    "    is no readable way to write it as a bare expression. Note it re-raises",
    "    anything that is NOT `exc`, so a NameError in the generated code cannot",
    "    pass as correct error handling.",
    "    \"\"\"",
    "    try:",
    "        _fn(*_args, **_kwargs)",
    "    except exc:",
    "        return True",
    "    return False",
    "",
    "_results = []",
    "for _i, _src in enumerate("]

def HARNESS_TAIL : String :=
  "\n".intercalate [
    "):",
    "    try:",
    "        _ok = bool(eval(_src))",
    "        _results.append([_i, _ok, \"\" if _ok else \"returned False\"])",
    "    except Exception as _e:",
    "        _results.append([_i, False, f\"\x7btype(_e).__name__\x7d: \x7b_e\x7d\"])",
    "_sys.stderr.write(\"\\n__RESULTS__\" + _json.dumps(_results) + \"\\n\")",
    ""]

/-- `_HARNESS.format(checks=checks)` -/
def harness (python : Python) (checks : List Str) : Str :=
  text HARNESS_HEAD ++ point '[' ::
    ((text ", ").intercalate (checks.map (Str.quoted python.printable)) ++ point ']' :: text HARNESS_TAIL)

def program (python : Python) (body : List Char) (checks : List Str) (preamble : Str) : Str :=
  (if preamble = [] then [] else preamble ++ [point '\n']) ++ body.map point ++ point '\n' ::
    harness python checks

/-! ## What the harness reports -/

/-- What an assertion comes to: a truth value, or `f"{type(_e).__name__}: {_e}"` of what it raised. -/
abbrev Verdict := Except String Bool

def Verdict.detail : Verdict → Str
  | .ok true => []
  | .ok false => text "returned False"
  | .error raised => text raised

def Verdict.passed : Verdict → Bool
  | .ok b => b
  | .error _ => false

def row (i : Nat) (verdict : Verdict) : Json :=
  .array [.number (whole i), .bool verdict.passed, .string verdict.detail]

/-- `_results`, from the `n`-th on. -/
def rows (n : Nat) : List Verdict → List Json
  | [] => []
  | verdict :: rest => row n verdict :: rows (n + 1) rest

def MARKER : Str := text "__RESULTS__"

/-- What the harness writes to standard error. -/
def report (verdicts : List Verdict) : Str :=
  point '\n' :: (MARKER ++ dumps (.array (rows 0 verdicts)) ++ [point '\n'])

/-! ## What is made of a result -/

/-- `int(lexeme)`, of a number without a point or an exponent. -/
def integer (lexeme : Str) : Option Int :=
  let digits (s : Str) : Option Nat :=
    if s ≠ [] ∧ s.all CodePoint.isDigit then some (s.foldl (fun n c => n * 10 + (c.val - 0x30)) 0)
    else none
  match lexeme with
  | [] => none
  | c :: rest => if c = point '-' then (digits rest).map fun n => -(n : Int) else
      (digits lexeme).map Int.ofNat

/-- `bool(value)` -/
def truthy (python : Python) : Json → Bool
  | .null => false
  | .bool b => b
  | .number lexeme =>
      match integer lexeme with
      | some n => n ≠ 0
      | none => python.nonzero lexeme
  | .string s => s ≠ []
  | .array items => !items.isEmpty
  | .object members => !members.isEmpty

/-- `iter(value)`: an object goes through its keys. -/
def items : Json → Except Fault (List Json)
  | .array items => .ok items
  | .string s => .ok (s.map fun c => .string [c])
  | .object members => .ok ((members.map Prod.fst).eraseDups.map .string)
  | _ => .error .type

/-- `_, ok, _ = value` -/
def unpack (value : Json) : Except Fault Json := do
  match ← items value with
  | [_, ok, _] => .ok ok
  | _ => .error .unpack

/-- `value[i]` -/
def subscript (value : Json) (i : Nat) : Except Fault Json :=
  match value with
  | .array items => (items[i]?).elim (.error .index) .ok
  | .string s => (s[i]?).elim (.error .index) fun c => .ok (.string [c])
  | .object _ => .error .key
  | _ => .error .type

/-- `checks[i]` -/
def checkAt (checks : List Str) (i : Json) : Except Fault Str :=
  let position (n : Int) : Except Fault Str :=
    let n := if n < 0 then n + checks.length else n
    if n < 0 then .error .index else (checks[n.toNat]?).elim (.error .index) .ok
  match i with
  | .bool b => position b.toNat
  | .number lexeme => (integer lexeme).elim (.error .type) position
  | _ => .error .type

/-- `next((r for r in results if not r[1]), None)` -/
def firstFailed (python : Python) : List Json → Except Fault (Option Json)
  | [] => .ok none
  | r :: rest => do
      if truthy python (← subscript r 1) then firstFailed python rest else .ok (some r)

/-- `f"{value}"` -/
def formatted (python : Python) : Json → Str
  | .string s => s
  | value => python.shown value

def detailOf (python : Python) (checks : List Str) : Option Json → Except Fault Str
  | none => .ok []
  | some first => do
      let check ← checkAt checks (← subscript first 0)
      .ok (check ++ text " -> " ++ formatted python (← subscript first 2))

/-- What a result that was read comes to. -/
def grade (python : Python) (checks : List Str) (results : Json) : Except Fault CodeResult := do
  let listed ← items results
  let passed := (← listed.mapM unpack).countP (truthy python)
  if passed = checks.length then .ok ⟨true, [], passed, checks.length⟩
  else
    let detail ← detailOf python checks (← firstFailed python listed)
    .ok ⟨false, whole passed ++ point '/' :: (whole checks.length ++ text " checks passed; " ++ detail),
      passed, checks.length⟩

/-- The reason of a child without a result. -/
def failure (stderr : Str) (returncode : Int) : Str :=
  let summary := (Str.splitlines (Str.strip stderr)).getLast?.getD
    (text "exit " ++ text (toString returncode))
  let kind := if text "SyntaxError" <:+: stderr then text "syntax error" else text "failed to run"
  kind ++ text ": " ++ summary

/-- The line the result is taken from. -/
def resultLine (stderr : Str) : Option Str :=
  (Str.splitlines stderr).find? (MARKER.isPrefixOf ·)

/-- The result of the JSON after the marker. -/
def scoreLine (python : Python) (checks : List Str) (line : Str) : Except Fault CodeResult :=
  match loads python.room (line.drop MARKER.length) with
  | .error .notJson => .error .json
  | .error .tooDeep => .error .recursion
  | .ok results => grade python checks results

def check (u : Unicode) (python : Python) (run : Str → Ran) (source : List Char) (checks : List Str)
    (timeout preamble : Str) : Except Fault CodeResult :=
  if checks = [] then .error (.value "a code check needs at least one assertion to run")
  else
    let body := recover u source
    if Extract.strip body = [] then .ok ⟨false, text "no code in the response", 0, checks.length⟩
    else
      match run (program python body checks preamble) with
      | .timedOut => .ok ⟨false, text "timed out after " ++ timeout ++ text "s", 0, checks.length⟩
      | .finished written returncode =>
          -- read as text, with its line ends made one kind
          let stderr := Str.newlines written
          match resultLine stderr with
          | none => .ok ⟨false, failure stderr returncode, 0, checks.length⟩
          | some line => scoreLine python checks line

end LocalHarness.Checks.Code
