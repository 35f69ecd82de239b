import Mathlib.Data.List.Lex
import Mathlib.Data.List.Sort
import LocalHarness.Evals.Jsonl
import LocalHarness.Library.Ordered

/-! # Importing claims

The rows of an export become case files, in place of all that their directory held. The rows are looked at
first, but not whether a file can have a row's name nor whether its case can be loaded.
-/

namespace LocalHarness.Evals.ClaimsImport

open LocalHarness.Library LocalHarness.Library.JsonText

variable {β : Type}

/-! ## Values -/

mutual

/-- A value with dicts for its objects: the last member of a name stands in the place of the first. -/
def dicts : Json → Json
  | .array items => .array (dictsItems items)
  | .object members => .object (Ordered.fill (dictsMembers members)).items
  | value => value

def dictsItems : List Json → List Json
  | [] => []
  | item :: rest => dicts item :: dictsItems rest

def dictsMembers : List (Str × Json) → List (Str × Json)
  | [] => []
  | (name, value) :: rest => (name, dicts value) :: dictsMembers rest

end

def get? (members : List (Str × Json)) (name : Str) : Option Json :=
  (members.find? fun member => member.1 = name).map Prod.snd

def isString : Json → Bool
  | .string _ => true
  | _ => false

/-- `isinstance(value, int)`, which a bool is too. -/
def isInt : Json → Bool
  | .bool _ => true
  | .number lexeme => lexeme.all fun c => c.isDigit || c == point '-'
  | _ => false

/-- What Python prints of a value and takes for nothing. -/
structure Python where
  /-- `str` of a value that is no text. -/
  str : Json → Str
  /-- The number that is written so is zero. -/
  zero : Str → Bool
  /-- A number as `json.dumps` writes it. -/
  number : Str → Str

namespace Python

variable (py : Python)

/-- `f"{value}"` -/
def format : Json → Str
  | .string s => s
  | value => py.str value

def truthy : Json → Bool
  | .null => false
  | .bool b => b
  | .number lexeme => !py.zero lexeme
  | .string s => !s.isEmpty
  | .array items => !items.isEmpty
  | .object members => !members.isEmpty

mutual

/-- With the names in order, as `sort_keys` has them. -/
def inOrder : Json → Json
  | .number lexeme => .number (py.number lexeme)
  | .array items => .array (inOrderItems items)
  | .object members => .object ((inOrderMembers members).insertionSort fun a b => a.1 ≤ b.1)
  | value => value

def inOrderItems : List Json → List Json
  | [] => []
  | item :: rest => inOrder item :: inOrderItems rest

def inOrderMembers : List (Str × Json) → List (Str × Json)
  | [] => []
  | (name, value) :: rest => (name, inOrder value) :: inOrderMembers rest

end

end Python

/-! ## Cases -/

/-- What is wrong with a case. -/
inductive Invalid
  | noSystem
  | noSchema
  | notSchema
  | noReviews
  | noUserOrClaim (n : Nat)
  | verdict (n : Nat)
  | refs (n : Nat)
  | interface (n : Nat)
  | emptyWithReviews
  | nothingSaid

inductive Refused
  | inGit
  | repeated
  | schemas (distinct : Nat)

inductive Error
  | read (why : Jsonl.Error)
  | notDict
  | noKey (name : Str)
  | notIterable
  | refused (why : Refused)
  | invalid (why : Invalid)
  | notDumped
  | notOpened (name : Str)

def VERDICTS : List Str :=
  [text "good", text "not_useful", text "made_up", text "wrong"]

def LEGACY : Str :=
  text "legacy"

def INTERFACES : List Str :=
  [text "cited-only", text "conversation", LEGACY]

def LANE : Str :=
  text "claims"

def SCHEMA_FILE : Str :=
  text "schema.json"

/-- The keys of a case. -/
def KEYS : List Str :=
  ["id", "modality", "prompt", "params", "assert"].map text

def fields (id modality prompt params assertions : Json) : List (Str × Json) :=
  KEYS.zip [id, modality, prompt, params, assertions]

/-- A case of an import, which is a dict of these. -/
structure Case where
  /-- What is after `claims-` in its id. -/
  name : Str
  prompt : Json
  system : Json
  schema : Json
  reviews : List Json
  expectEmpty : Bool
  basis : Option Json
  origin : Option Json

namespace Case

variable (c : Case)

def id : Str :=
  LANE ++ point '-' :: c.name

def params : List (Str × Json) :=
  [(text "system", c.system), (text "schema", c.schema)]

/-- `expect_empty`, where the case has it. -/
def expect_empty : Option Json :=
  if c.expectEmpty then some (.bool true) else none

def assertions : List (Str × Json) :=
  (text "reviews", .array c.reviews) :: ((c.expect_empty.map (text "expect_empty", ·)).toList ++
    (c.basis.map (text "basis", ·)).toList ++ (c.origin.map (text "origin", ·)).toList)

def value : Json :=
  .object (fields (.string c.id) (.string LANE) c.prompt (.object c.params) (.object c.assertions))

def file : Str :=
  c.id ++ text ".yaml"

end Case

section

variable (py : Python)

/-- `list(value)` -/
def listed : Json → Except Error (List Json)
  | .array items => .ok items
  | .string s => .ok (s.map fun c => .string [c])
  | .object members => .ok (members.map fun member => .string member.1)
  | _ => .error .notIterable

/-- `row[name]` -/
def item (row : List (Str × Json)) (name : Str) : Except Error Json :=
  match get? row name with
  | some value => .ok value
  | none => .error (.noKey name)

/-- `case_of` -/
def case_of : Json → Except Error Case
  | .object row => do
      let given (name : String) := (get? row (text name)).filter py.truthy
      let empty := (given "expect_empty").isSome
      let reviews ← listed ((given "reviews").getD (.array []))
      let id ← item row (text "id")
      let prompt ← item row (text "transcript")
      let system ← item row (text "system")
      let schema ← item row (text "schema")
      return {
        name := py.format id
        prompt := prompt
        system := system
        schema := schema
        reviews := reviews
        expectEmpty := empty
        basis := if empty then given "basis" else none
        origin := if empty then given "origin" else none }
  | _ => .error .notDict

/-- One round of `validate_case`. -/
def validateReview (n : Nat) : Json → Except Invalid Unit
  | .object review =>
      let verdict := get? review (text "verdict")
      let interface := ((get? review (text "interface")).filter py.truthy).getD (.string LEGACY)
      let known (names : List Str) : Json → Bool
        | .string s => s ∈ names
        | _ => false
      let refs : Json → Bool
        | .array items => !items.isEmpty && items.all isInt
        | _ => false
      if !((get? review (text "user")).any isString && (get? review (text "claim")).any isString) then
        .error (.noUserOrClaim n)
      else if !verdict.any (known VERDICTS) then .error (.verdict n)
      else if !(get? review (text "refs")).any refs then .error (.refs n)
      else if !known INTERFACES interface then .error (.interface n)
      else .ok ()
  | _ => .error (.noUserOrClaim n)

/-- `validate_case`, where `isSchema` is what `jsonschema` says of a dict. -/
def validate_case (isSchema : Json → Bool) (system schema reviews expect_empty : Option Json) :
    Except Invalid Unit := do
  match system with
  | some (.string s) => if s.strip = [] then throw .noSystem
  | _ => throw .noSystem
  match schema with
  | some (.object members) => if !isSchema (.object members) then throw .notSchema
  | _ => throw .noSchema
  match reviews with
  | some (.array items) =>
      for (review, n) in items.zipIdx do
        validateReview py n review
      if expect_empty.any py.truthy && !items.isEmpty then throw .emptyWithReviews
      if !expect_empty.any py.truthy && items.isEmpty then throw .nothingSaid
  | _ => throw .noReviews

end

/-! ## Loading a case -/

/-- A name that YAML takes for a text as it stands. -/
def isPlain (name : Str) : Bool :=
  !name.isEmpty && name.all fun c => point 'a' ≤ c && c ≤ point 'z'

/-- What files hold of values: `yaml.safe_dump` and `yaml.load`, where they return, and `json.dumps` with an
indent. -/
structure Formats (β : Type) where
  dump : Json → Option β
  load : β → Option Json
  indented : Json → β
  /-- A mapping stays one of the same keys. -/
  mapping : ∀ (members : List (Str × Json)) (loaded : Json), (∀ name ∈ members.map Prod.fst, isPlain name = true) →
    (members.map Prod.fst).Nodup → (dump (.object members)).bind load = some loaded →
      ∃ members', loaded = .object members' ∧ members'.map Prod.fst = members.map Prod.fst

inductive LoadError
  | yaml
  | notDict
  | missing (name : Str)
  /-- A case of another lane, which is not looked at. -/
  | otherLane (modality : Json)
  | unknownKeys (block : Str) (keys : List Str)
  | invalid (why : Invalid)

def PARAM_KEYS : List Str :=
  ["width", "height", "steps", "seed", "guidance", "frames", "seconds", "voice", "speed", "layers", "reuse",
    "ssd_streaming", "lyrics", "bpm", "duration", "keyscale", "timesignature", "instrumental", "task", "ref",
    "cover_strength", "schema", "system", "repo", "tools", "max_steps", "pad_tokens", "timeout_s"].map text

/-- `ASSERTION_KEYS["claims"]` -/
def ASSERTION_KEYS : List Str :=
  ["reviews", "expect_empty", "basis", "origin"].map text

/-- A case as it is loaded. -/
structure Loaded where
  id : Json
  prompt : Json
  params : List (Str × Json)
  assertions : List (Str × Json)
  /-- What else the file has, such as a context or a language. -/
  more : List (Str × Json)

section

variable (py : Python) (isSchema : Json → Bool) (y : Formats β)

/-- `raw.get(name) or {}` -/
def block (raw : List (Str × Json)) (name : Str) : Except LoadError (List (Str × Json)) :=
  match ((get? raw name).filter py.truthy).getD (.object []) with
  | .object members => .ok members
  | _ => .error .notDict

/-- `_reject_unknown` -/
def rejectUnknown (name : Str) (given allowed : List Str) : Except LoadError Unit :=
  match given.filter (· ∉ allowed) with
  | [] => .ok ()
  | unknown => .error (.unknownKeys name unknown)

/-- `raw[name]`, which there is. -/
def required (raw : List (Str × Json)) (name : Str) : Except LoadError Json :=
  match (get? raw name).filter py.truthy with
  | some value => .ok value
  | none => .error (.missing name)

def ownLane : Json → Except LoadError Unit
  | .string lane => if lane = LANE then .ok () else .error (.otherLane (.string lane))
  | modality => .error (.otherLane modality)

/-- `load_case`, of a dict of this lane. -/
def caseOfRaw (raw : List (Str × Json)) : Except LoadError Loaded := do
  let id ← required py raw (text "id")
  let modality ← required py raw (text "modality")
  let prompt ← required py raw (text "prompt")
  ownLane modality
  let params ← block py raw (text "params")
  let assertions ← block py raw (text "assert")
  rejectUnknown (text "params") (params.map Prod.fst) PARAM_KEYS
  rejectUnknown (text "assert") (assertions.map Prod.fst) ASSERTION_KEYS
  (validate_case py isSchema (get? params (text "system")) (get? params (text "schema"))
    (get? assertions (text "reviews")) (get? assertions (text "expect_empty"))).mapError LoadError.invalid
  return {
    id := id
    prompt := prompt
    params := params
    assertions := assertions
    more := raw.filter (·.1 ∉ KEYS) }

/-- `load_case` -/
def load_case (data : β) : Except LoadError Loaded :=
  match y.load data with
  | none => .error .yaml
  | some raw =>
      match if py.truthy raw then raw else .object [] with
      | .object members => caseOfRaw py isSchema members
      | _ => .error .notDict

end

/-! ## Writing -/

inductive Node (β : Type)
  | file (data : β)
  | directory (entries : List (Str × Node β))

abbrev Directory (β : Type) := List (Str × Node β)

/-- What the file system makes of names. -/
structure Disk where
  /-- Longer than a name may be. -/
  long : Str → Bool
  /-- Two names are one to it when this is the same, as those that differ in case are to some. -/
  fold : Str → Str

namespace Disk

variable (disk : Disk)

/-- A file can be opened under the name, in a directory that has no other in it. -/
def opens (name : Str) : Bool :=
  name.all (fun c => c ≠ point '/' ∧ c ≠ 0) && name.isName && !disk.long name

/-- What the names in a directory are told apart by. -/
def folds (dir : Directory β) : List Str :=
  dir.map fun entry => disk.fold entry.1

/-- The directory once a file is written: one that it takes for the same keeps its name. -/
def put (dir : Directory β) (name : Str) (data : β) : Directory β :=
  if disk.fold name ∈ disk.folds dir then
    dir.map fun entry => if disk.fold entry.1 = disk.fold name then (entry.1, .file data) else entry
  else dir ++ [(name, .file data)]

end Disk

section

variable (py : Python) (isSchema : Json → Bool) (y : Formats β) (disk : Disk)

/-- The files are written one after another until one cannot be. -/
def writeCases (dir : Directory β) : List Case → Except Error (List Str) × Directory β
  | [] => (.ok [], dir)
  | c :: rest =>
      match y.dump c.value with
      | none => (.error .notDumped, dir)
      | some data =>
          if !disk.opens c.file then (.error (.notOpened c.file), dir)
          else
            let (written, after) := writeCases (disk.put dir c.file data) rest
            (written.map (c.file :: ·), after)

/-- `write_schema`, of the schema they share. -/
def writeSchema (dir : Directory β) (cases : List Case) : Directory β :=
  cases.head?.elim dir fun c => disk.put dir SCHEMA_FILE (y.indented (py.inOrder c.schema))

variable (room : Nat) (export_ negatives : Jsonl.File)

/-- The rows of the export and of the negatives. -/
def readRows : Except Error (List Json) :=
  match Jsonl.rows room export_, Jsonl.rows room negatives with
  | .ok rows, .ok more => .ok ((rows ++ more).map dicts)
  | .error why, _ => .error (.read why)
  | _, .error why => .error (.read why)

def unrepeated (cases : List Case) : Except Error Unit :=
  if (cases.map Case.id).Nodup then .ok () else .error (.refused .repeated)

/-- The cases agree on the schema, as `json.dumps` writes it. -/
def oneSchema (cases : List Case) : Except Error Unit :=
  let schemas := (cases.map fun c => dumps (py.inOrder c.schema)).dedup
  if 1 < schemas.length then .error (.refused (.schemas schemas.length)) else .ok ()

/-- The cases, once everything has been looked at that is. -/
def checked : Except Error (List Case) := do
  let rows ← readRows room export_ negatives
  let cases ← rows.mapM (case_of py)
  unrepeated cases
  oneSchema py cases
  cases.forM fun c =>
    (validate_case py isSchema (some c.system) (some c.schema) (some (.array c.reviews))
      c.expect_empty).mapError Error.invalid
  return cases

/-- `run`, and the directory after it, which may be none. -/
def run (inGit : Bool) (out : Option (Directory β)) : Except Error (List Str) × Option (Directory β) :=
  if inGit then (.error (.refused .inGit), out)
  else
    match checked py isSchema room export_ negatives with
    | .error why => (.error why, out)
    | .ok cases =>
        let (written, after) := writeCases y disk (writeSchema py y disk [] cases)
          (cases.insertionSort fun a b => a.id ≤ b.id)
        (written, some after)

end

/-! ## Loading what was dumped -/

section

variable {py : Python} {isSchema : Json → Bool} {y : Formats β} {c : Case} {data : β}

/-- A row's case as it is to be loaded. -/
def Case.loaded (c : Case) : Loaded where
  id := .string c.id
  prompt := c.prompt
  params := c.params
  assertions := c.assertions
  more := []

/-- What is looked at before the directory is. -/
def Case.Valid (py : Python) (isSchema : Json → Bool) (c : Case) : Prop :=
  validate_case py isSchema (some c.system) (some c.schema) (some (.array c.reviews)) c.expect_empty = .ok ()

theorem get?_here (name : Str) (value : Json) (rest : List (Str × Json)) :
    get? ((name, value) :: rest) name = some value := by
  simp [get?]

theorem get?_past {name other : Str} (value : Json) (rest : List (Str × Json)) (apart : other ≠ name) :
    get? ((other, value) :: rest) name = get? rest name := by
  simp [get?, apart]

theorem required_ok {raw : List (Str × Json)} {name : Str} {value : Json} :
    required py raw name = .ok value ↔ get? raw name = some value ∧ py.truthy value = true := by
  rw [required, ← Option.filter_eq_some_iff]
  cases (get? raw name).filter py.truthy with
  | none => simp
  | some _ => simp

theorem rejectUnknown_ok {name : Str} {given allowed : List Str} :
    rejectUnknown name given allowed = .ok () ↔ ∀ key ∈ given, key ∈ allowed := by
  have none_ : given.filter (· ∉ allowed) = [] ↔ ∀ key ∈ given, key ∈ allowed := by
    simp [List.filter_eq_nil_iff]
  rw [← none_, rejectUnknown]
  cases given.filter (· ∉ allowed) with
  | nil => simp
  | cons => simp

theorem bind_ok_iff {ε α β : Type} {x : Except ε α} {f : α → Except ε β} {b : β} :
    (x >>= f) = .ok b ↔ ∃ a, x = .ok a ∧ f a = .ok b :=
  ⟨bind_ok, fun ⟨_, made, rest⟩ => made ▸ rest⟩

theorem mapError_ok {ε ε' α : Type} {x : Except ε α} {f : ε → ε'} {a : α} :
    x.mapError f = .ok a ↔ x = .ok a := by
  cases x <;> simp [Except.mapError]

theorem ownLane_ok {modality : Json} : ownLane modality = .ok () ↔ modality = .string LANE := by
  cases modality with
  | string lane =>
      rw [ownLane]
      split
      next same => simp [same]
      next other => simpa using other
  | _ => simp [ownLane]

theorem caseOfRaw_ok {raw : List (Str × Json)} {loaded : Loaded} :
    caseOfRaw py isSchema raw = .ok loaded ↔
      required py raw (text "id") = .ok loaded.id ∧
      required py raw (text "modality") = .ok (.string LANE) ∧
      required py raw (text "prompt") = .ok loaded.prompt ∧
      block py raw (text "params") = .ok loaded.params ∧
      block py raw (text "assert") = .ok loaded.assertions ∧
      (∀ key ∈ loaded.params.map Prod.fst, key ∈ PARAM_KEYS) ∧
      (∀ key ∈ loaded.assertions.map Prod.fst, key ∈ ASSERTION_KEYS) ∧
      validate_case py isSchema (get? loaded.params (text "system")) (get? loaded.params (text "schema"))
        (get? loaded.assertions (text "reviews")) (get? loaded.assertions (text "expect_empty")) = .ok () ∧
      loaded.more = raw.filter (·.1 ∉ KEYS) := by
  obtain ⟨id, prompt, params, assertions, more⟩ := loaded
  simp only [caseOfRaw, bind_ok_iff, mapError_ok]
  constructor
  · rintro ⟨_, first, lane, second, _, third, ⟨⟩, own, _, fourth, _, fifth, ⟨⟩, known, ⟨⟩, known', ⟨⟩, valid, made⟩
    cases made
    rw [ownLane_ok.mp own] at second
    exact ⟨first, second, third, fourth, fifth, rejectUnknown_ok.mp known, rejectUnknown_ok.mp known', valid, rfl⟩
  · rintro ⟨first, second, third, fourth, fifth, known, known', valid, rfl⟩
    exact ⟨_, first, _, second, _, third, (), ownLane_ok.mpr rfl, _, fourth, _, fifth, (),
      rejectUnknown_ok.mpr known, (), rejectUnknown_ok.mpr known', (), valid, rfl⟩

theorem block_ok {raw members : List (Str × Json)} {name : Str} (some_ : members ≠ []) :
    block py raw name = .ok members ↔ get? raw name = some (.object members) := by
  have truthy : py.truthy (.object members) = true := by simpa [Python.truthy] using some_
  constructor
  · intro made
    rw [block] at made
    cases found : get? raw name with
    | none =>
        rw [found] at made
        exact absurd (Except.ok.inj made).symm some_
    | some value =>
        rw [found] at made
        by_cases holds : py.truthy value = true
        · rw [Option.filter_some_pos holds, Option.getD_some] at made
          cases value with
          | object => exact congrArg (some ∘ Json.object) (Except.ok.inj made)
          | _ => cases made
        · rw [Option.filter_some_neg (Bool.eq_false_iff.mpr holds)] at made
          exact absurd (Except.ok.inj made).symm some_
  · intro found
    rw [block, found, Option.filter_some_pos truthy]
    rfl

section

variable {id modality prompt params assertions : Json}

theorem get?_fields : get? (fields id modality prompt params assertions) (text "id") = some id ∧
    get? (fields id modality prompt params assertions) (text "modality") = some modality ∧
    get? (fields id modality prompt params assertions) (text "prompt") = some prompt ∧
    get? (fields id modality prompt params assertions) (text "params") = some params ∧
    get? (fields id modality prompt params assertions) (text "assert") = some assertions := by
  have apart : KEYS.Pairwise (· ≠ ·) := by decide
  simp only [KEYS, List.map_cons, List.map_nil, List.pairwise_cons, List.mem_cons, List.not_mem_nil, or_false,
    forall_eq_or_imp, forall_eq] at apart
  obtain ⟨⟨first, second, third, fourth⟩, ⟨fifth, sixth, seventh⟩, ⟨eighth, ninth⟩, last, -⟩ := apart
  unfold fields KEYS
  simp [get?, *]

theorem fields_of_keys {members : List (Str × Json)} (same : members.map Prod.fst = KEYS) :
    ∃ id modality prompt params assertions, members = fields id modality prompt params assertions := by
  simp only [KEYS, List.map_cons, List.map_nil, List.map_eq_cons_iff, List.map_eq_nil_iff] at same
  obtain ⟨⟨_, id⟩, _, rfl, rfl, ⟨_, modality⟩, _, rfl, rfl, ⟨_, prompt⟩, _, rfl, rfl, ⟨_, params⟩, _, rfl, rfl,
    ⟨_, assertions⟩, _, rfl, rfl, rfl⟩ := same
  exact ⟨id, modality, prompt, params, assertions, rfl⟩

end

theorem mem_named {given : Option Json} {name key : Str}
    (member : key ∈ ((given.map (name, ·)).toList).map Prod.fst) : key = name := by
  cases given with
  | none => cases member
  | some value => exact List.mem_singleton.mp member

theorem Case.known_keys (c : Case) : (∀ key ∈ c.params.map Prod.fst, key ∈ PARAM_KEYS) ∧
    ∀ key ∈ c.assertions.map Prod.fst, key ∈ ASSERTION_KEYS := by
  have params : [text "system", text "schema"].all (· ∈ PARAM_KEYS) = true := by decide
  refine ⟨fun key member => of_decide_eq_true (List.all_eq_true.mp params key member), fun key member => ?_⟩
  rw [Case.assertions, List.map_cons, List.map_append, List.map_append, List.mem_cons, List.mem_append,
    List.mem_append] at member
  rcases member with rfl | (empty | basis) | origin
  · exact List.mem_cons_self
  · rw [mem_named empty]
    exact List.mem_cons_of_mem _ List.mem_cons_self
  · rw [mem_named basis]
    exact List.mem_cons_of_mem _ (List.mem_cons_of_mem _ List.mem_cons_self)
  · rw [mem_named origin]
    exact List.mem_cons_of_mem _ (List.mem_cons_of_mem _ (List.mem_cons_of_mem _ List.mem_cons_self))

theorem Case.validated (c : Case) :
    (get? c.params (text "system") = some c.system ∧ get? c.params (text "schema") = some c.schema) ∧
      get? c.assertions (text "reviews") = some (.array c.reviews) ∧
      get? c.assertions (text "expect_empty") = c.expect_empty := by
  have apart : text "system" ≠ text "schema" ∧ text "reviews" ≠ text "expect_empty" ∧
      text "basis" ≠ text "expect_empty" ∧ text "origin" ≠ text "expect_empty" := by decide
  refine ⟨⟨get?_here _ _ _, (get?_past _ _ apart.1).trans (get?_here _ _ _)⟩, get?_here _ _ _, ?_⟩
  refine (get?_past _ _ apart.2.1).trans ?_
  cases c.expect_empty with
  | some value => exact get?_here _ _ _
  | none =>
      cases c.basis with
      | some value =>
          refine (get?_past _ _ apart.2.2.1).trans ?_
          cases c.origin with
          | some value => exact get?_past _ _ apart.2.2.2
          | none => rfl
      | none =>
          cases c.origin with
          | some value => exact get?_past _ _ apart.2.2.2
          | none => rfl

/-- What is loaded of a case's file is the case where it has something to ask and its dict is loaded. -/
theorem load_iff (valid : c.Valid py isSchema) (dumped : y.dump c.value = some data) :
    load_case py isSchema y data = .ok c.loaded ↔
      py.truthy c.prompt = true ∧ y.load data = some c.value := by
  have solid : c.params ≠ [] ∧ c.assertions ≠ [] := ⟨List.cons_ne_nil _ _, List.cons_ne_nil _ _⟩
  have names (id modality prompt params assertions : Json) :
      (fields id modality prompt params assertions).map Prod.fst = KEYS := rfl
  constructor
  · intro loaded
    rw [load_case] at loaded
    cases read : y.load data with
    | none =>
        rw [read] at loaded
        cases loaded
    | some raw =>
        have back : (y.dump c.value).bind y.load = some raw := by rw [dumped, Option.bind_some, read]
        obtain ⟨members, rfl, same⟩ := y.mapping _ raw
          (names _ _ _ _ _ ▸ List.all_eq_true.mp (by decide : KEYS.all isPlain = true))
          (names _ _ _ _ _ ▸ (by decide : KEYS.Nodup)) back
        obtain ⟨id, modality, prompt, params, assertions, rfl⟩ := fields_of_keys same
        rw [read] at loaded
        obtain ⟨first, second, third, fourth, fifth, -⟩ := caseOfRaw_ok.mp loaded
        obtain ⟨id', modality', prompt', params', assertions'⟩ := @get?_fields id modality prompt params assertions
        rw [required_ok, id'] at first
        rw [required_ok, modality'] at second
        rw [required_ok, prompt'] at third
        have fourth := params'.symm.trans ((block_ok solid.1).mp fourth)
        have fifth := assertions'.symm.trans ((block_ok solid.2).mp fifth)
        rw [Option.some.inj first.1, Option.some.inj second.1, Option.some.inj third.1, Option.some.inj fourth,
          Option.some.inj fifth]
        exact ⟨third.2, rfl⟩
  · rintro ⟨asked, read⟩
    rw [load_case, read]
    obtain ⟨id, modality, prompt, params, assertions⟩ := @get?_fields (.string c.id) (.string LANE) c.prompt
      (.object c.params) (.object c.assertions)
    obtain ⟨⟨system, schema⟩, reviews, empty⟩ := c.validated
    refine caseOfRaw_ok.mpr ⟨required_ok.mpr ⟨id, rfl⟩, required_ok.mpr ⟨modality, rfl⟩,
      required_ok.mpr ⟨prompt, asked⟩, (block_ok solid.1).mpr params, (block_ok solid.2).mpr assertions,
      c.known_keys.1, c.known_keys.2, ?_, ?_⟩
    · change validate_case py isSchema (get? c.params _) (get? c.params _) (get? c.assertions _)
        (get? c.assertions _) = _
      rw [system, schema, reviews, empty]
      exact valid
    · refine (List.filter_eq_nil_iff.mpr fun member inside => ?_).symm
      have known : member.1 ∈ KEYS := names _ _ _ _ _ ▸ List.mem_map_of_mem inside
      simpa using known

end

/-! ## What a directory holds -/

section

variable {y : Formats β} {disk : Disk} {dir after : Directory β} {cases : List Case} {written : List Str} {c : Case}

def caseFiles (dir : Directory β) : Directory β :=
  dir.filter fun entry => (text ".yaml").isSuffixOf entry.1

/-- What a case is written as. -/
def Case.data (y : Formats β) (c : Case) : β :=
  (y.dump c.value).getD (y.indented .null)

/-- A directory once all of the cases are written. -/
def placed (y : Formats β) (disk : Disk) (dir : Directory β) (cases : List Case) : Directory β :=
  cases.foldl (fun dir c => disk.put dir c.file (c.data y)) dir

/-- A case can be written. -/
def Case.CanWrite (y : Formats β) (disk : Disk) (c : Case) : Prop :=
  disk.opens c.file = true ∧ ∃ data, y.dump c.value = some data

theorem writeCases_placed (each : ∀ c ∈ cases, c.CanWrite y disk) :
    writeCases y disk dir cases = (.ok (cases.map Case.file), placed y disk dir cases) := by
  induction cases generalizing dir with
  | nil => rfl
  | cons c rest ih =>
      obtain ⟨⟨opens, data, dumped⟩, later⟩ := List.forall_mem_cons.mp each
      have own_data : c.data y = data := by rw [Case.data, dumped, Option.getD_some]
      rw [writeCases, dumped, placed, List.foldl_cons, own_data, ← placed]
      simp only [opens, Bool.not_true, Bool.false_eq_true, if_false, ih later]
      rfl

theorem canWrite_of_ok (done : writeCases y disk dir cases = (.ok written, after)) :
    ∀ c ∈ cases, c.CanWrite y disk := by
  induction cases generalizing dir written after with
  | nil => exact List.forall_mem_nil _
  | cons c rest ih =>
      rw [writeCases] at done
      split at done
      next => cases done
      next data dumped =>
        split at done
        next => cases done
        next opens =>
          have opens : disk.opens c.file = true := by simpa using opens
          refine List.forall_mem_cons.mpr ⟨⟨opens, data, dumped⟩, ?_⟩
          cases more : writeCases y disk (disk.put dir c.file data) rest with
          | mk written' after' =>
              cases written' with
              | error why =>
                  rw [more] at done
                  cases done
              | ok written' => exact ih more

theorem file_suffix (c : Case) : (text ".yaml").isSuffixOf c.file = true :=
  List.isSuffixOf_iff_suffix.mpr ⟨c.id, rfl⟩

theorem file_inj {c c' : Case} (same : c.file = c'.file) : c.id = c'.id :=
  List.append_cancel_right same

section

variable {name : Str} {data : β}

theorem put_present (present : disk.fold name ∈ disk.folds dir) :
    (caseFiles (disk.put dir name data)).length = (caseFiles dir).length := by
  rw [Disk.put, if_pos present, caseFiles, caseFiles, ← List.countP_eq_length_filter,
    ← List.countP_eq_length_filter, List.countP_map]
  refine List.countP_congr fun entry _ => ?_
  rw [Function.comp_apply]
  split <;> rfl

theorem put_absent (absent : disk.fold name ∉ disk.folds dir) :
    disk.put dir name data = dir ++ [(name, .file data)] :=
  if_neg absent

end

theorem length_caseFiles_concat (dir : Directory β) (c : Case) (data : β) :
    (caseFiles (dir ++ [(c.file, .file data)])).length = (caseFiles dir).length + 1 := by
  rw [caseFiles, List.filter_append, List.filter_singleton, List.length_append]
  rw [file_suffix]
  rfl

theorem length_placed_le (dir : Directory β) (cases : List Case) :
    (caseFiles (placed y disk dir cases)).length ≤ (caseFiles dir).length + cases.length := by
  induction cases generalizing dir with
  | nil => exact Nat.le_refl _
  | cons c rest ih =>
      have later := ih (disk.put dir c.file (c.data y))
      rw [placed, List.foldl_cons, ← placed, List.length_cons]
      by_cases present : disk.fold c.file ∈ disk.folds dir
      · rw [put_present present] at later
        omega
      · rw [put_absent present, length_caseFiles_concat] at later
        rw [put_absent present]
        omega

/-- There is a file for each case only where none is taken for another. -/
theorem apart_of_length (once : (disk.folds dir).Nodup)
    (all : (caseFiles (placed y disk dir cases)).length = (caseFiles dir).length + cases.length) :
    (disk.folds dir ++ cases.map fun c => disk.fold c.file).Nodup := by
  induction cases generalizing dir with
  | nil => rwa [List.map_nil, List.append_nil]
  | cons c rest ih =>
      have later : (caseFiles (placed y disk (disk.put dir c.file (c.data y)) rest)).length ≤
          (caseFiles (disk.put dir c.file (c.data y))).length + rest.length :=
        length_placed_le _ rest
      rw [placed, List.foldl_cons, ← placed, List.length_cons] at all
      by_cases present : disk.fold c.file ∈ disk.folds dir
      · rw [put_present present] at later
        omega
      · rw [put_absent present] at all
        have folds : disk.folds (dir ++ [(c.file, .file (c.data y))]) = disk.folds dir ++ [disk.fold c.file] :=
          List.map_append
        have still : (disk.folds dir ++ [disk.fold c.file]).Nodup :=
          once.append (List.nodup_singleton _) (List.disjoint_singleton.mpr present)
        have rest_ := ih (folds ▸ still) (by rw [all, length_caseFiles_concat]; omega)
        rwa [folds, List.append_assoc, List.singleton_append] at rest_

theorem placed_apart (apart : (disk.folds dir ++ cases.map fun c => disk.fold c.file).Nodup) :
    placed y disk dir cases = dir ++ cases.map fun c => (c.file, .file (c.data y)) := by
  induction cases generalizing dir with
  | nil => exact (List.append_nil dir).symm
  | cons c rest ih =>
      have absent : disk.fold c.file ∉ disk.folds dir := fun present =>
        (List.nodup_append.mp apart).2.2 _ present _ List.mem_cons_self rfl
      have folds : disk.folds (dir ++ [(c.file, .file (c.data y))]) = disk.folds dir ++ [disk.fold c.file] :=
        List.map_append
      rw [placed, List.foldl_cons, ← placed, put_absent absent, ih, List.append_assoc]
      · rfl
      · rwa [folds, List.append_assoc, List.singleton_append]

end

/-! ## An import -/

section

variable (py : Python) (isSchema : Json → Bool) (y : Formats β) (disk : Disk)

/-- The directory has one case file for each case, and the file of each is loaded as it. -/
structure Holds (dir : Directory β) (cases : List Case) : Prop where
  one : (caseFiles dir).length = cases.length
  each : ∀ c ∈ cases, ∃ data, (c.file, Node.file data) ∈ dir ∧ load_case py isSchema y data = .ok c.loaded

/-- Each of the cases can be written in a file of its own and is loaded again. -/
structure Writable (cases : List Case) : Prop where
  opens : ∀ c ∈ cases, disk.opens c.file = true
  apart : (disk.fold SCHEMA_FILE :: cases.map fun c => disk.fold c.file).Nodup
  asked : ∀ c ∈ cases, py.truthy c.prompt = true
  kept : ∀ c ∈ cases, (y.dump c.value).bind y.load = some c.value

variable (room : Nat) (export_ negatives : Jsonl.File)

/-- Whatever was in it, the directory holds the cases of the rows where they are returned, and else is as it
was. -/
structure Imports (inGit : Bool) : Prop where
  returned : ∀ out written after, run py isSchema y disk room export_ negatives inGit out = (.ok written, after) →
    ∃ rows cases dir, readRows room export_ negatives = .ok rows ∧
      rows.mapM (case_of py) = .ok cases ∧ after = some dir ∧ Holds py isSchema y dir cases
  raised : ∀ out why after, run py isSchema y disk room export_ negatives inGit out = (.error why, after) →
    after = out

variable {py isSchema y disk room export_ negatives} {cases : List Case}

theorem checked_ok (ok : checked py isSchema room export_ negatives = .ok cases) :
    (∃ rows, readRows room export_ negatives = .ok rows ∧ rows.mapM (case_of py) = .ok cases) ∧
      (cases.map Case.id).Nodup ∧ ∀ c ∈ cases, c.Valid py isSchema := by
  obtain ⟨rows, read, ok⟩ := bind_ok ok
  obtain ⟨made, mapped, ok⟩ := bind_ok ok
  obtain ⟨⟨⟩, once, ok⟩ := bind_ok ok
  obtain ⟨⟨⟩, shared, ok⟩ := bind_ok ok
  obtain ⟨⟨⟩, valid, ok⟩ := bind_ok ok
  obtain rfl := pure_ok ok
  refine ⟨⟨rows, read, mapped⟩, ?_, fun c member => mapError_ok.mp (forM_ok valid c member)⟩
  by_contra repeated
  rw [unrepeated, if_neg repeated] at once
  cases once

theorem folds_schema (cases : List Case) :
    disk.folds (writeSchema py y disk [] cases) = if cases = [] then [] else [disk.fold SCHEMA_FILE] := by
  cases cases <;> rfl

theorem caseFiles_schema (cases : List Case) : caseFiles (writeSchema py y disk [] cases) = [] := by
  have other : (text ".yaml").isSuffixOf SCHEMA_FILE = false := by decide
  cases cases with
  | nil => rfl
  | cons c rest =>
      refine List.filter_eq_nil_iff.mpr fun entry member => ?_
      rw [List.mem_singleton.mp member, other]
      exact Bool.false_ne_true

/-- The cases in the order in which they are written. -/
theorem sorted_perm (cases : List Case) : (cases.insertionSort fun a b => a.id ≤ b.id).Perm cases :=
  List.perm_insertionSort _ _

/-- The names in the directory are told apart, in whichever order they are written. -/
theorem sorted_apart_iff (cases : List Case) :
    (disk.folds (writeSchema py y disk [] cases) ++
      (cases.insertionSort fun a b => a.id ≤ b.id).map fun c => disk.fold c.file).Nodup ↔
      (disk.fold SCHEMA_FILE :: cases.map fun c => disk.fold c.file).Nodup := by
  have perm := (List.Perm.refl (disk.folds (writeSchema py y disk [] cases))).append
    ((sorted_perm cases).map fun c => disk.fold c.file)
  rw [perm.nodup_iff]
  cases cases with
  | nil => exact iff_of_true List.nodup_nil (List.nodup_singleton _)
  | cons => exact Iff.rfl

theorem holds_of_writable (writable : Writable py y disk cases) (valid : ∀ c ∈ cases, c.Valid py isSchema) :
    Holds py isSchema y (writeSchema py y disk [] cases ++
      (cases.insertionSort fun a b => a.id ≤ b.id).map fun c => (c.file, .file (c.data y))) cases where
  one := by
    have every : ((cases.insertionSort fun a b => a.id ≤ b.id).map fun c =>
        (c.file, Node.file (c.data y))).filter (fun entry => (text ".yaml").isSuffixOf entry.1) =
        (cases.insertionSort fun a b => a.id ≤ b.id).map fun c => (c.file, Node.file (c.data y)) :=
      List.filter_eq_self.mpr fun entry member => by
        obtain ⟨c, -, rfl⟩ := List.mem_map.mp member
        exact file_suffix c
    rw [caseFiles, List.filter_append, ← caseFiles, caseFiles_schema, List.nil_append, every, List.length_map,
      (sorted_perm cases).length_eq]
  each c member := by
    obtain ⟨data, dumped, back⟩ := Option.bind_eq_some_iff.mp (writable.kept c member)
    have own_data : c.data y = data := by rw [Case.data, dumped, Option.getD_some]
    refine ⟨data, List.mem_append_right _ (List.mem_map.mpr ⟨c, (sorted_perm cases).mem_iff.mpr member, ?_⟩), ?_⟩
    · rw [own_data]
    · exact (load_iff (valid c member) dumped).mpr ⟨writable.asked c member, back⟩

/-- Where all of the cases were written and are there again, they could be written. -/
theorem writable_of_holds {written : List Str} {after : Directory β} (once : (cases.map Case.id).Nodup)
    (valid : ∀ c ∈ cases, c.Valid py isSchema)
    (done : writeCases y disk (writeSchema py y disk [] cases) (cases.insertionSort fun a b => a.id ≤ b.id) =
      (.ok written, after))
    (holds : Holds py isSchema y after cases) : Writable py y disk cases := by
  have sorted := sorted_perm cases
  have each := canWrite_of_ok done
  rw [writeCases_placed each] at done
  cases done
  have schema : (disk.folds (writeSchema py y disk [] cases)).Nodup := by
    rw [folds_schema]
    split
    · exact List.nodup_nil
    · exact List.nodup_singleton _
  have apart := apart_of_length schema (by
    rw [holds.one, caseFiles_schema, List.length_nil, Nat.zero_add, sorted.length_eq])
  have loads (c : Case) (member : c ∈ cases) :
      py.truthy c.prompt = true ∧ (y.dump c.value).bind y.load = some c.value := by
    obtain ⟨data, here, loaded⟩ := holds.each c member
    obtain ⟨-, data', dumped⟩ := each c (sorted.mem_iff.mpr member)
    rw [placed_apart apart] at here
    rcases List.mem_append.mp here with schema | written
    · have none_ : (c.file, Node.file data) ∉ caseFiles (writeSchema py y disk [] cases) := by
        rw [caseFiles_schema]
        exact List.not_mem_nil
      exact absurd (List.mem_filter.mpr ⟨schema, file_suffix c⟩) none_
    · obtain ⟨c', member', same⟩ := List.mem_map.mp written
      obtain ⟨name, node⟩ := Prod.mk.inj same
      have own := List.inj_on_of_nodup_map once (sorted.mem_iff.mp member') member (file_inj name)
      subst own
      have own_data : c'.data y = data' := by rw [Case.data, dumped, Option.getD_some]
      have data_ : data' = data := own_data.symm.trans (Node.file.inj node)
      rw [dumped, Option.bind_some, data_]
      exact (load_iff (valid c' member) (data_ ▸ dumped)).mp loaded
  exact ⟨fun c member => (each c (sorted.mem_iff.mpr member)).1, (sorted_apart_iff cases).mp apart,
    fun c member => (loads c member).1, fun c member => (loads c member).2⟩

/-- Rows that are not refused can be written: the directory is not left as none where none was. -/
theorem writable_of_imports (imports : Imports py isSchema y disk room export_ negatives false)
    (ok : checked py isSchema room export_ negatives = .ok cases) : Writable py y disk cases := by
  obtain ⟨⟨rows, read, mapped⟩, once, valid⟩ := checked_ok ok
  cases done : writeCases y disk (writeSchema py y disk [] cases) (cases.insertionSort fun a b => a.id ≤ b.id) with
  | mk written after =>
      have ran : run py isSchema y disk room export_ negatives false none = (written, some after) := by
        simp only [run, Bool.false_eq_true, if_false, ok, done]
      cases written with
      | error why => cases imports.raised _ _ _ ran
      | ok written =>
          obtain ⟨rows', cases', dir, read', mapped', same, holds⟩ := imports.returned _ _ _ ran
          cases read.symm.trans read'
          cases mapped.symm.trans mapped'
          cases same
          exact writable_of_holds once valid done holds

/-- An import that is refused leaves the directory alone, and one that can write its cases holds them. -/
theorem run_outcome {inGit : Bool} (fits : inGit = true ∨
    ∀ cases, checked py isSchema room export_ negatives = .ok cases → Writable py y disk cases)
    (out : Option (Directory β)) :
    (∃ why, run py isSchema y disk room export_ negatives inGit out = (.error why, out)) ∨
      ∃ rows cases written dir, readRows room export_ negatives = .ok rows ∧ rows.mapM (case_of py) = .ok cases ∧
        Holds py isSchema y dir cases ∧
        run py isSchema y disk room export_ negatives inGit out = (.ok written, some dir) := by
  cases inGit with
  | true => exact .inl ⟨_, if_pos rfl⟩
  | false =>
      have writable := fits.resolve_left Bool.false_ne_true
      rw [run, if_neg Bool.false_ne_true]
      cases ok : checked py isSchema room export_ negatives with
      | error why => exact .inl ⟨why, rfl⟩
      | ok cases =>
          obtain ⟨⟨rows, read, mapped⟩, -, valid⟩ := checked_ok ok
          have fit := writable cases ok
          have each : ∀ c ∈ cases.insertionSort fun a b => a.id ≤ b.id, c.CanWrite y disk := by
            intro c member
            have member := (sorted_perm cases).mem_iff.mp member
            obtain ⟨data, dumped, -⟩ := Option.bind_eq_some_iff.mp (fit.kept c member)
            exact ⟨fit.opens c member, data, dumped⟩
          simp only [writeCases_placed each, placed_apart ((sorted_apart_iff cases).mpr fit.apart)]
          exact .inr ⟨rows, cases, _, _, read, mapped, holds_of_writable fit valid, rfl⟩

/-- An import holds the rows' cases or leaves the directory as it was, whatever was in it, where it is inside a
git tree, refuses the rows, or can write each case and load it again. -/
theorem imports_iff (inGit : Bool) : Imports py isSchema y disk room export_ negatives inGit ↔
    inGit = true ∨ ∀ cases, checked py isSchema room export_ negatives = .ok cases →
      Writable py y disk cases := by
  constructor
  · intro imports
    cases inGit with
    | true => exact .inl rfl
    | false => exact .inr fun cases ok => writable_of_imports imports ok
  · intro fits
    constructor
    · intro out written after ran
      rcases run_outcome fits out with ⟨why, raised⟩ | ⟨rows, cases, _, dir, read, mapped, holds, returned⟩
      · cases raised.symm.trans ran
      · cases returned.symm.trans ran
        exact ⟨rows, cases, dir, read, mapped, rfl, holds⟩
    · intro out why after ran
      rcases run_outcome fits out with ⟨_, raised⟩ | ⟨_, _, _, _, _, _, _, returned⟩
      · cases raised.symm.trans ran
        rfl
      · cases returned.symm.trans ran

end

/-! ## An id with a slash -/

/-- Numbers are taken as they are written. -/
def plain : Python where
  str _ := text "5"
  zero lexeme := lexeme = text "0"
  number lexeme := lexeme

/-- Files that hold the values themselves. -/
def kept : Formats Json where
  dump := some
  load := some
  indented value := value
  mapping members _ _ _ same := ⟨members, (Option.some.inj same).symm, rfl⟩

def disk : Disk where
  long name := 255 < name.length
  fold name := name

def slashed : Case where
  name := text "a/b"
  prompt := .string (text "1 hello")
  system := .string (text "Find the claims.")
  schema := .object []
  reviews := []
  expectEmpty := true
  basis := none
  origin := none

def slashedRow : Jsonl.Document where
  members := [(text "id", .string (text "a/b")), (text "transcript", slashed.prompt),
    (text "system", slashed.system), (text "schema", .object []), (text "reviews", .array []),
    (text "expect_empty", .bool true)]
  sound := .object (List.forall_mem_cons.mpr ⟨.string _, List.forall_mem_cons.mpr ⟨.string _,
    List.forall_mem_cons.mpr ⟨.string _, List.forall_mem_cons.mpr ⟨.object (List.forall_mem_nil _),
      List.forall_mem_cons.mpr ⟨.array (List.forall_mem_nil _), List.forall_mem_singleton.mpr (.bool _)⟩⟩⟩⟩⟩)

def slashedFile : Jsonl.File :=
  some (Jsonl.written [slashedRow])

theorem slashed_read : readRows 900 slashedFile none = .ok [slashedRow.value] := by
  have clean : (letters slashedRow.value).all (fun c => c.val ≠ 0x85 ∧ c.val ≠ 0x2028 ∧ c.val ≠ 0x2029) = true := by
    decide
  have clear : slashedRow.Clear 900 := by
    refine ⟨fun c member breaks => ?_, by decide⟩
    have apart := of_decide_eq_true (List.all_eq_true.mp clean c member)
    exact breaks.elim apart.1 (Or.rec apart.2.1 apart.2.2)
  have read : Jsonl.rows 900 slashedFile = .ok [slashedRow.value] :=
    Jsonl.read_of_clear (List.forall_mem_singleton.mpr clear)
  have once : (slashedRow.members.map Prod.fst).Nodup := by decide
  have same : dicts slashedRow.value = slashedRow.value := congrArg Json.object (Ordered.fill_of_once once)
  rw [readRows, read]
  exact congrArg (fun v => Except.ok [v]) same

theorem slashed_checked : checked plain (fun _ => true) 900 slashedFile none = .ok [slashed] := by
  have made : case_of plain slashedRow.value = .ok slashed := rfl
  have mapped : [slashedRow.value].mapM (case_of plain) = .ok [slashed] := by
    rw [List.mapM_cons, made]
    rfl
  have once : unrepeated [slashed] = .ok () := if_pos (List.nodup_singleton _)
  have shared : oneSchema plain [slashed] = .ok () := rfl
  have valid : slashed.Valid plain fun _ => true := rfl
  rw [checked, slashed_read]
  refine bind_ok_iff.mpr ⟨_, rfl, bind_ok_iff.mpr ⟨_, mapped, bind_ok_iff.mpr ⟨(), once,
    bind_ok_iff.mpr ⟨(), shared, bind_ok_iff.mpr ⟨(), ?_, rfl⟩⟩⟩⟩⟩
  exact bind_ok_iff.mpr ⟨(), mapError_ok.mpr valid, rfl⟩

/-- The old cases are gone, and nothing is in their place. -/
theorem slash_removes : ¬ Imports plain (fun _ => true) kept disk 900 slashedFile none false := by
  intro imports
  have opens := (writable_of_imports imports slashed_checked).opens slashed List.mem_cons_self
  exact absurd opens (by decide)

end LocalHarness.Evals.ClaimsImport
