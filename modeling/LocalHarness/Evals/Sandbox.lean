import Mathlib.Data.List.Sort
import LocalHarness.Library.Checked
import LocalHarness.Library.FileTree
import LocalHarness.Library.JsonText
import LocalHarness.Library.Ordered

/-! # The agent's sandbox

Four tools over a directory. A path is taken apart as text, probed name by name for links, and resolved
once more; then the tool asks, reads, lists, makes or writes there. A call decodes the arguments, binds
them to the tool and gives back its result or the error as text.
-/

namespace LocalHarness.Evals.Sandbox

open LocalHarness.Library

abbrev Tree := FileTree Str Bytes

abbrev Path := FilePath Str

def READ_CAP : Nat := 200000

def WRITE_CAP : Nat := 256000

def OUTPUT_CAP : Nat := 6000

def HIDDEN_DIR : Str := text "_hidden_tests"

def decimal (n : Nat) : Str :=
  (Nat.toDigits 10 n).map point

inductive Raised
  | refused (why : Str)
  | osError (why : Str)
  | unicodeEncode
  | recursion
  | typeError
  deriving DecidableEq

/-- What the system is asked to do. -/
inductive Op
  | lstat (path : Path)
  | stat (path : Path)
  | read (path : Path)
  | list (path : Path)
  | mkdir (path : Path)
  | create (path : Path)
  deriving DecidableEq

/-- What becomes of a run of the tests. -/
inductive Child
  | failed (why : Str)
  | timedOut (left : Tree)
  | done (code : Int) (out : Str) (left : Tree)

/-- What a call meets: what the system refuses during it beyond what the tree explains, how much of a
    write it takes, what the tests do, and how deep calls may go. -/
structure Os where
  fault : Op → Option Str
  short : Path → Bytes → Option (Str × Nat)
  /-- The text of an error that the tree explains. -/
  explain : Op → Str
  child : Tree → List Str → Child
  /-- So many arrays and objects are decoded in one another. -/
  room : Nat
  /-- So many calls of `_mkdirs` are made in one another. -/
  frames : Nat
  printable : CodePoint → Bool
  notJson : Str → Str

inductive Tool
  | read_file
  | write_file
  | list_dir
  | run_tests
  deriving DecidableEq

namespace Tool

def name : Tool → Str
  | read_file => text "read_file"
  | write_file => text "write_file"
  | list_dir => text "list_dir"
  | run_tests => text "run_tests"

/-- The arguments that must be there, all of them strings. -/
def required : Tool → List Str
  | read_file => [text "path"]
  | write_file => [text "path", text "content"]
  | list_dir | run_tests => []

def properties : Tool → List Str
  | read_file | list_dir | run_tests => [text "path"]
  | write_file => [text "path", text "content"]

end Tool

/-- Its root was resolved when it was made, so every name of it can be given to the system. -/
structure Box where
  root : Path
  tools : List Tool
  /-- The time limit of the tests as it is printed. -/
  timeout : Str
  named : ∀ name ∈ root, Str.isName name = true

/-- What a tool has done to a path, once every link is followed. -/
inductive Deed
  | asked
  | opened
  deriving DecidableEq

structure World where
  tree : Tree
  touched : List (Deed × Path) := []

abbrev Act := Checked Raised World

def refuse {α : Type} (why : Str) : Act α :=
  throw (.refused why)

/-- A path that the system can be given at all. -/
def named (path : Path) : Bool :=
  path.all Str.isName

/-! ## The system -/

variable (os : Os)

def isSymlink (path : Path) : Act Bool := fun w =>
  if named path = false then (.ok false, w)
  else
    match os.fault (.lstat path) with
    | some why => (.error (.osError why), w)
    | none => (.ok (w.tree.isSymlink path), w)

/-- What the tree has at the end of a path. -/
def look {α : Type} (op : Op) (deed : Deed) (get : Tree → Path → Option α) (path : Path) : Act α := fun w =>
  match os.fault op with
  | some why => (.error (.osError why), w)
  | none =>
      match get w.tree path with
      | some a => (.ok a, { w with touched := (deed, w.tree.realpath path) :: w.touched })
      | none => (.error (.osError (os.explain op)), w)

/-- What a path leads to. -/
def ask (kind : Tree → Path → Bool) (path : Path) : Act Bool :=
  if named path = false then pure false
  else look os (.stat path) .asked (fun tree path => some (kind tree path)) path

def isDir : Path → Act Bool :=
  ask os FileTree.isDir

def isFile : Path → Act Bool :=
  ask os FileTree.isFile

def realpath (path : Path) : Act Path := fun w =>
  if named path = false then (.error .unicodeEncode, w) else (.ok (w.tree.realpath path), w)

def contents (tree : Tree) (path : Path) : Option Bytes :=
  match tree.stat path with
  | some (.file data) => some data
  | _ => none

/-- The names in a directory, in order. -/
def listing (tree : Tree) (path : Path) : Option (List Str) :=
  if tree.isDir path then some ((tree.names (tree.realpath path)).insertionSort (· ≤ ·)) else none

def size (path : Path) : Act Nat :=
  look os (.stat path) .asked (fun tree path => (contents tree path).map List.length) path

def read (path : Path) : Act Bytes :=
  look os (.read path) .opened contents path

def iterdir (path : Path) : Act (List Str) :=
  look os (.list path) .opened listing path

/-- Something is put where a path names, if the system lets it. -/
def place (op : Op) (path : Path) (free : Option (FileNode Str Bytes) → Bool)
    (node : FileNode Str Bytes) : Act Unit := fun w =>
  match os.fault op with
  | some why => (.error (.osError why), w)
  | none =>
      let at_ := w.tree.place path
      if free (w.tree.node? at_) = false then (.error (.osError (os.explain op)), w)
      else if fits : w.tree.Fits at_ then
        (.ok (), { tree := w.tree.put at_ node fits, touched := (.opened, at_) :: w.touched })
      else (.error (.osError (os.explain op)), w)

def mkdir (path : Path) : Act Unit :=
  place os (.mkdir path) path Option.isNone .dir

/-- A file that is created or emptied, and no link. -/
def create (path : Path) : Act Unit :=
  place os (.create path) path (fun found => !found.any FileNode.isLink) (.file [])

/-- What an open file is given. A write that fails leaves what was taken of it. -/
def write (path : Path) (data : Bytes) : Act Unit := fun w =>
  let at_ := w.tree.place path
  let given (taken : Bytes) : World :=
    if fits : w.tree.Fits at_ then { w with tree := w.tree.put at_ (.file taken) fits } else w
  match os.short path data with
  | some (why, n) => (.error (.osError why), given (data.take n))
  | none => (.ok (), given data)

/-! ## Paths -/

def absolute (rel : Str) : Bool :=
  rel.head?.any (fun c => c ∈ [point '/', point '\\', point '~']) || rel[1]? = some (point ':')

/-- A path as it is read. -/
def tidy (rel : Str) : Str :=
  if Str.strip rel = [] then text "." else Str.strip rel

/-- The names of a path, unless it is refused as it is written. -/
def parts (rel : Str) : Except Str (List Str) :=
  if point '\x00' ∈ rel then .error (text "path contains a NUL byte")
  else if absolute rel then .error (text "absolute paths are not allowed: " ++ rel)
  else
    let parts := (Str.split (fun c => c = point '/' || c = point '\\') rel).filter fun part =>
      part ∉ [[], text "."]
    if text ".." ∈ parts then .error (text "'..' is not allowed: " ++ rel) else .ok parts

/-- Name by name, none is a link. -/
def probe (rel : Str) : Path → List Str → Act Unit
  | _, [] => pure ()
  | here, part :: rest => do
      let linked ← isSymlink os (here ++ [part])
      if linked then refuse (text "symlinks are not followed: " ++ rel)
      else probe rel (here ++ [part]) rest

variable (box : Box)

/-- The path a text names inside the root. -/
def resolve (rel : Str) : Act Path :=
  match parts (tidy rel) with
  | .error why => refuse why
  | .ok parts => do
      probe os (tidy rel) box.root parts
      let real ← realpath (box.root ++ parts)
      if box.root.isPrefixOf real then pure real
      else refuse (text "outside the repository: " ++ tidy rel)

/-- A path from the root, as it is printed. -/
def rel (path : Path) : Str :=
  let below := path.drop box.root.length
  if below = [] then text "." else (text "/").intercalate below

/-! ## The tools -/

def read_file (path : Str) : Act Str := do
  let p ← resolve os box path
  let there ← isFile os p
  if there = false then refuse (text "no such file: " ++ path)
  else do
    let size ← size os p
    if READ_CAP < size then
      refuse (text "file is larger than " ++ decimal READ_CAP ++ text " bytes: " ++ path)
    else do
      let data ← read os p
      match Str.decode data with
      | none => refuse (text "not a UTF-8 text file: " ++ path)
      | some content => pure (Str.newlines content)

/-- The root, or a directory. -/
def standing (path : Path) : Act Bool :=
  if path = box.root then pure true else isDir os path

/-- The directories above a file, made from the top. -/
def mkdirs : Nat → Path → Act Unit
  | 0, _ => throw .recursion
  | frames + 1, d => do
      let there ← standing os box d
      if there then do
        let linked ← isSymlink os d
        if linked then refuse (text "symlinks are not followed") else pure ()
      else do
        mkdirs frames d.dropLast
        mkdir os d

def write_file (path content : Str) : Act Str :=
  match Str.encode content with
  | none => throw .unicodeEncode
  | some data =>
      if WRITE_CAP < data.length then
        refuse (text "content is larger than " ++ decimal WRITE_CAP ++ text " bytes")
      else do
        let p ← resolve os box path
        let taken ← standing os box p
        if taken then refuse (text "is a directory: " ++ path)
        else do
          mkdirs os box os.frames p.dropLast
          create os p
          write os p data
          pure (text "wrote " ++ decimal data.length ++ text " bytes to " ++ rel box p)

/-- One line of a listing. -/
def entry (p : Path) (name : Str) : Act Str := do
  let dir ← isDir os (p ++ [name])
  if dir then do
    let linked ← isSymlink os (p ++ [name])
    pure (if linked then name else name ++ text "/")
  else pure name

def list_dir (path : Str) : Act Str := do
  let p ← resolve os box path
  let there ← isDir os p
  if there = false then refuse (text "no such directory: " ++ path)
  else do
    let names ← iterdir os p
    let out ← (names.filter fun name => name ∉ [text "__pycache__", HIDDEN_DIR]).mapM (entry os p)
    let lines := (text "\n").intercalate out
    pure (if lines = [] then text "(empty)" else lines)

def word (c : CodePoint) : Bool :=
  c.isDigit || (0x41 ≤ c.val && c.val ≤ 0x5A) || (0x61 ≤ c.val && c.val ≤ 0x7A) || c = point '_'

/-- `_TEST_FILE`. -/
def testFile (path : Str) : Bool :=
  let body := if path.getLast? = some (point '\n') then path.dropLast else path
  let middle := (body.drop 6).take (body.length - 9)
  (text "tests/").isPrefixOf body && (text ".py").isSuffixOf body &&
    (Str.split (· = point '/') middle).all fun part => part ≠ [] && part.all word

def execute (args : List Str) : Act (Int × Str) := fun w =>
  match os.child w.tree args with
  | .failed why => (.error (.osError why), w)
  | .timedOut left => (.ok (124, text "timed out after " ++ box.timeout ++ text "s"), { w with tree := left })
  | .done code out left =>
      let cut := if OUTPUT_CAP < out.length then text "...\n" ++ out.drop (out.length - OUTPUT_CAP) else out
      (.ok (code, cut), { w with tree := left })

def signed (n : Int) : Str :=
  if n < 0 then point '-' :: decimal n.natAbs else decimal n.natAbs

def report (ran : Int × Str) : Str :=
  text "exit code " ++ signed ran.1 ++ text "\n" ++ ran.2

def run_tests (path : Option Str) : Act Str :=
  match path with
  | none => report <$> execute os box [text "discover", text "-s", text "tests"]
  | some path =>
      if path ∈ [[], text ".", text "tests", text "tests/"] then
        report <$> execute os box [text "discover", text "-s", text "tests"]
      else if testFile path = false then refuse (text "path must name a test file like tests/test_x.py")
      else do
        let p ← resolve os box path
        let there ← isFile os p
        if there = false then refuse (text "no such test file: " ++ path)
        else
          let module_ := (path.take (path.length - 3)).map fun c => if c = point '/' then point '.' else c
          report <$> execute os box [module_]

/-! ## A call -/

/-- One tool call as the model made it, and what the sandbox made of it. -/
structure Call where
  name : Str
  raw : Str
  parsed : Bool := false
  schema_ok : Bool := false
  real : Bool := false
  ok : Bool := false
  why : Str := []

/-- Why the arguments do not fit, or nothing. -/
def schema_problem (printable : CodePoint → Bool) (tool : Tool) (args : Ordered Str Json) : Str :=
  match tool.required.find? fun key => key ∉ args.keys with
  | some key => text "missing required argument " ++ Str.quoted printable key
  | none =>
      (args.items.findSome? fun item =>
        if item.1 ∉ tool.properties then
          some (text "unexpected argument " ++ Str.quoted printable item.1)
        else
          match item.2 with
          | .string _ => none
          | _ => some (text "argument " ++ Str.quoted printable item.1 ++ text " must be a string")).getD []

/-- What the arguments are, where they are an object or nothing. -/
def bindings : Json → Option (Ordered Str Json)
  | .null | .string [] => some ∅
  | .object members => some (.fill members)
  | _ => none

/-- The argument of a tool under a name. -/
def argument (args : Ordered Str Json) (name : String) : Option Str :=
  match args.get? (text name) with
  | some (.string s) => some s
  | _ => none

/-- A tool with its arguments. -/
inductive Request
  | read_file (path : Str)
  | write_file (path content : Str)
  | list_dir (path : Str)
  | run_tests (path : Option Str)

def Tool.request (tool : Tool) (args : Ordered Str Json) : Option Request :=
  match tool with
  | .read_file => (argument args "path").map .read_file
  | .write_file =>
      match argument args "path", argument args "content" with
      | some path, some content => some (.write_file path content)
      | _, _ => none
  | .list_dir => some (.list_dir ((argument args "path").getD (text ".")))
  | .run_tests => some (.run_tests (argument args "path"))

def Request.run : Request → Act Str
  | .read_file path => Sandbox.read_file os box path
  | .write_file path content => Sandbox.write_file os box path content
  | .list_dir path => Sandbox.list_dir os box path
  | .run_tests path => Sandbox.run_tests os box path

/-- A call that comes to nothing. -/
def failed (call : Call) (why : Str) : Act (Call × Str) :=
  pure ({ call with why }, text "error: " ++ why)

/-- The tool is run, and its errors caught. -/
def perform (call : Call) (request : Option Request) : Act (Call × Str) := fun w =>
  match request with
  | none => (.error .typeError, w)
  | some request =>
      match request.run os box w with
      | (.ok result, w) => (.ok ({ call with ok := true }, result), w)
      | (.error (.refused why), w) => failed call why w
      | (.error (.osError why), w) => failed call why w
      | (.error why, w) => (.error why, w)

def call (name arguments : Str) : Act (Call × Str) :=
  let call : Call := { name, raw := arguments }
  match box.tools.find? fun tool => tool.name = name with
  | none =>
      failed call (text "unknown tool " ++ Str.quoted os.printable name ++ text "; available: " ++
        (text ", ").intercalate (box.tools.map Tool.name))
  | some tool =>
      let call := { call with real := true }
      match JsonText.loads os.room arguments with
      | .error .tooDeep => throw .recursion
      | .error .notJson => failed call (text "arguments are not JSON: " ++ os.notJson arguments)
      | .ok value =>
          match bindings value with
          | none => failed call (text "arguments must be a JSON object")
          | some args =>
              let call := { call with parsed := true }
              let problem := schema_problem os.printable tool args
              if problem ≠ [] then failed call problem
              else perform os box { call with schema_ok := true } (tool.request args)

end LocalHarness.Evals.Sandbox
