import Mathlib.Data.List.DropRight
import Mathlib.Data.List.Sort
import Mathlib.Data.String.Basic
import LocalHarness.Library.Decimal
import LocalHarness.Library.Fallible
import LocalHarness.Library.Ordered

/-! # Typed decisions

A schema names the fields that are decided and the choices of each. An answer is read as a letter code,
as a choice, or as a word for one, and what is read is the choice.
-/

namespace LocalHarness.Checks

open LocalHarness.Library

/-- A value of a case file or of a reply, in what `str` and `float` make of it. -/
inductive Value
  | null
  | bool (b : Bool)
  | number (q : ℚ) (text : String)
  | other (text : String)
  deriving DecidableEq

namespace Value

def str : Value → String
  | null => "None"
  | bool true => "True"
  | bool false => "False"
  | number _ text => text
  | other text => text

/-- The text of an answer. -/
def text : Value → String
  | null => ""
  | value => value.str

/-- What it is as a number, in a comparison with one. -/
def worth : Value → Option ℚ
  | bool true => some 1
  | bool false => some 0
  | number q _ => some q
  | null | other _ => none

end Value

inductive SchemaError
  | booleanChoices (got : List Value)
  | enumChoices (got : List String)
  | fieldType (kind : String)
  | noFields
  | snakeCase (name : String)
  | noDescription (name : String)
  | noGold (name : String)
  | badGold (name : String) (gold : Value)
  | extraAnswers (names : List String)
  deriving DecidableEq

inductive Raised
  | schema (why : SchemaError)
  | keyError (name : String)
  deriving DecidableEq

/-- One field of a schema. -/
structure Field where
  type : String
  choices : List Value := []
  description : String := ""

abbrev Schema := Ordered String Field

def CODES : List Char :=
  "ABCDEFGHIJKLMNOPQRSTUVWXYZ".toList

/-- The allowed answers of one field, in code order. -/
def choices (spec : Field) : Except SchemaError (List Value) :=
  if spec.type = "boolean" then
    let got := if spec.choices = [] then [.bool false, .bool true] else spec.choices
    if (got.mapM Value.worth).map (·.insertionSort (· ≤ ·)) = some [0, 1] then .ok got
    else .error (.booleanChoices got)
  else if spec.type = "enum" then
    let got := spec.choices.map Value.str
    if 1 < got.length ∧ got.length ≤ CODES.length ∧ got.Nodup then .ok (got.map .other)
    else .error (.enumChoices got)
  else .error (.fieldType spec.type)

/-- One spelling per answer. -/
def key : Value → String
  | .bool true => "true"
  | .bool false => "false"
  | value => Text.strip value.str

def snakeCase (name : String) : Bool :=
  match name.toList with
  | [] => false
  | c :: rest => c.isLower && rest.all fun c => c.isLower || c.isDigit || c == '_'

/-- What `validate` asks of one field. -/
def validateField (answers : Ordered String Value) (name : String) (spec : Field) :
    Except SchemaError Unit :=
  if snakeCase name = false then .error (.snakeCase name)
  else do
    let allowed ← choices spec
    if Text.strip spec.description = "" then .error (.noDescription name)
    else
      match answers.get? name with
      | none => .error (.noGold name)
      | some gold => if key gold ∈ allowed.map key then .ok () else .error (.badGold name gold)

def validate (schema : Schema) (answers : Ordered String Value) : Except SchemaError Unit :=
  if schema.items = [] then .error .noFields
  else do
    schema.items.forM fun (name, spec) => validateField answers name spec
    let extra := answers.keys.filter fun name => name ∉ schema.keys
    if extra ≠ [] then .error (.extraAnswers (extra.insertionSort (· ≤ ·))) else .ok ()

/-- Letter code and answer key, of each choice. -/
def codeMap (spec : Field) : Except Raised (List (Char × String)) :=
  ((choices spec).map fun got => CODES.zip (got.map key)).mapError .schema

/-- `str.lower`: every character becomes so many of its own, whatever is around it. -/
structure Casing where
  lower : String → String
  width : Char → Nat
  width_pos : ∀ c, 0 < width c
  length_lower : ∀ s, (lower s).length = (s.toList.map width).sum
  lower_plain : ∀ s, s.toList.all Char.isLower = true → lower s = s

/-- `str.strip` of quotes. -/
def stripQuotes (s : String) : String :=
  .ofList ((s.toList.dropWhile (· == '"')).rdropWhile (· == '"'))

/-- What is read of a text. -/
def trimmed (s : String) : String :=
  Text.strip (stripQuotes (Text.strip s))

/-- The letter that `str.upper` makes of a character, where it makes one. Two characters above ASCII have
    one of its letters. -/
def letter (c : Char) : Option Char :=
  if c = 'ı' then some 'I'
  else if c = 'ſ' then some 'S'
  else if c.isAlpha then some c.toUpper
  else none

/-- The code that a text is. -/
def codeOf (text : String) : Option Char :=
  match text.toList with
  | [c] => letter c
  | _ => none

/-- What the decoder takes of its surroundings: the casing, and the order in which a set is gone
    through. -/
structure Reader extends Casing where
  order : List String → List String
  mem_order : ∀ keys a, a ∈ order keys ↔ a ∈ keys

variable (reader : Reader)

/-- An answer by a word. -/
def byWord (boolean : Bool) (allowed : List String) (text : String) : Option String :=
  let low := reader.lower text
  if boolean = true ∧ low ∈ ["true", "yes", "y"] then some "true"
  else if boolean = true ∧ low ∈ ["false", "no", "n"] then some "false"
  else (reader.order allowed).find? fun value => reader.lower value = low

/-- A text for one field as an answer key. -/
def decoded (boolean : Bool) (codes : List (Char × String)) (text : String) : Option String :=
  let allowed := codes.map Prod.snd
  match (codeOf text).bind fun c => codes.lookup c with
  | some answer => some answer
  | none => if text ∈ allowed then some text else byWord reader boolean allowed text

/-- `_answer_key`, in the codes of the field. -/
def read (boolean : Bool) (codes : List (Char × String)) (raw : Value) : Option String :=
  match raw with
  | .bool b => if key (.bool b) ∈ codes.map Prod.snd then some (key (.bool b)) else none
  | _ => decoded reader boolean codes (trimmed raw.text)

/-- `_answer_key`: a model's answer for one field as an answer key, or none if it is none. -/
def answerKey (raw : Value) (spec : Field) : Except Raised (Option String) :=
  (codeMap spec).map fun codes => read reader (spec.type = "boolean") codes raw

/-! ## The artifact -/

/-- A reply as it is taken apart: the answers, and where there are some the probabilities, each a number
    for a choice. What is no number fails to be made one. -/
structure Artifact where
  answers : Ordered String Value
  probabilities : Ordered String (Option (List (String × Option Decimal.Number)))

/-- What is left of a distribution where it is unusable. -/
inductive Stop
  | unusable
  | raised (why : Raised)

/-- `got[name] += value`. -/
def addTo (got : List (String × ℚ)) (name : String) (value : ℚ) : Except Stop (List (String × ℚ)) :=
  if name ∈ got.map Prod.fst then
    .ok (got.map fun entry => if entry.1 = name then (entry.1, entry.2 + value) else entry)
  else .error (.raised (.keyError name))

/-- One entry of a distribution. -/
def addEntry (boolean : Bool) (codes : List (Char × String)) (got : List (String × ℚ))
    (entry : String × Option Decimal.Number) : Except Stop (List (String × ℚ)) :=
  match entry.2 with
  | none => .error .unusable
  | some (.finite value) =>
      match read reader boolean codes (.other entry.1) with
      | none => .ok got
      | some name => if value < 0 then .ok got else addTo got name value
  | some _ => .ok got

/-- The allowed answers, each once, with nothing yet. -/
def blank (codes : List (Char × String)) : List (String × ℚ) :=
  (Ordered.fill ((codes.map Prod.snd).map fun a => (a, (0 : ℚ)))).items

/-- A probability per allowed answer, renormalised. -/
def normalized (got : List (String × ℚ)) : Option (List (String × ℚ)) :=
  let total := (got.map Prod.snd).sum
  if total ≤ 0 then none else some (got.map fun entry => (entry.1, entry.2 / total))

/-- `_distribution`. -/
def distribution (raw : Option (List (String × Option Decimal.Number))) (spec : Field) :
    Except Raised (Option (List (String × ℚ))) := do
  match raw with
  | none | some [] => .ok none
  | some entries =>
      let codes ← codeMap spec
      match entries.foldlM (addEntry reader (spec.type = "boolean") codes) (blank codes) with
      | .ok got => .ok (normalized got)
      | .error .unusable => .ok none
      | .error (.raised why) => .error why

/-- The first of the greatest. -/
def likeliest (dist : List (String × ℚ)) : Option String :=
  (dist.foldl (fun best entry =>
    match best with
    | none => some entry
    | some held => if held.2 < entry.2 then some entry else some held) none).map Prod.fst

structure Parsed where
  answer : Option String
  probs : Option (List (String × ℚ))
  deriving DecidableEq

/-- One field of a parse. -/
def parseField (artifact : Artifact) (name : String) (spec : Field) : Except Raised Parsed := do
  let answer ← (artifact.answers.get? name).elim (.ok none) fun raw => answerKey reader raw spec
  let dist ← distribution reader ((artifact.probabilities.get? name).getD none) spec
  .ok { answer := answer.or (dist.bind likeliest), probs := dist }

def parse (artifact : Artifact) (schema : Schema) : Except Raised (List (String × Parsed)) :=
  schema.items.mapM fun (name, spec) => (parseField reader artifact name spec).map (Prod.mk name)

/-! ## The artifact of a completion -/

structure Entry where
  token : String
  logprob : Option Decimal.Number

structure Token extends Entry where
  topLogprobs : List Entry := []

/-- `_letter`. -/
def letterOf (token : String) : Option Char :=
  match token.toList.filter Char.isAlphanum with
  | [c] => if c.isUpper then some c else none
  | _ => none

/-- The single letters after the last brace. -/
def letters (tokens : List Token) : List Token :=
  (tokens.reverse.takeWhile fun t => !t.token.toList.contains '\x7b').reverse.filter fun t =>
    (letterOf t.token).isSome

variable (exp : ℚ → ℚ)

/-- What an entry adds to the mass of a choice. -/
def addMass (codes : List (Char × String)) (mass : Ordered String ℚ) (entry : Entry) :
    Ordered String ℚ :=
  match (letterOf entry.token).bind (fun c => codes.lookup c), entry.logprob with
  | some answer, some (.finite lp) => mass.insert answer ((mass.get? answer).getD 0 + exp lp)
  | _, _ => mass

/-- The mass of each choice at the letter of a field, if it is the one that was answered. -/
def massAt (codes : List (Char × String)) (answer : String) (tok : Token) : Ordered String ℚ :=
  if (letterOf tok.token).bind (fun c => codes.lookup c) ≠ some answer then ∅
  else
    let seen := tok.topLogprobs
    let seen := if seen.any fun e => letterOf e.token = letterOf tok.token then seen
      else seen ++ [tok.toEntry]
    seen.foldl (addMass exp codes) ∅

/-- What is written of a completion. -/
structure Written where
  answers : Ordered String String := ∅
  probabilities : Ordered String (Ordered String ℚ) := ∅

/-- What is written of one field. -/
def writeField (body : Ordered String Value) (letters : List Token) (schema : Schema) (written : Written)
    (item : String × Nat) : Except Raised Written := do
  match schema.get? item.1, body.get? item.1 with
  | some spec, some raw =>
      match ← answerKey reader raw spec with
      | none => .ok written
      | some answer =>
          let answers := written.answers.insert item.1 answer
          match letters[item.2]? with
          | none => .ok { written with answers }
          | some tok =>
              let codes ← codeMap spec
              let mass := massAt exp codes answer tok
              if mass.items = [] then .ok { written with answers }
              else .ok { answers, probabilities := written.probabilities.insert item.1 mass }
  | _, _ => .ok written

/-- `from_logprobs`, of the object in the text. -/
def fromLogprobs (body : Ordered String Value) (tokens : List Token) (schema : Schema) :
    Except Raised Written :=
  let order := body.keys.filter fun name => name ∈ schema.keys
  order.zipIdx.foldlM (writeField reader exp body (letters tokens) schema) {}

/-- What is written, read again. -/
def Written.artifact (written : Written) : Artifact where
  answers := written.answers.mapValues .other
  probabilities := written.probabilities.mapValues fun mass =>
    some (mass.items.map fun entry => (entry.1, some (.finite entry.2)))

end LocalHarness.Checks
