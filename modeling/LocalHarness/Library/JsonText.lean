import LocalHarness.Library.CodePoints

/-! # Reading JSON

A text is read from left to right by a machine with a stack of the arrays and objects that are open. It
is refused where it is no JSON, and where it opens more of them than there is room for, whichever comes
first.
-/

namespace LocalHarness.Library

/-- A value, the members of an object as they come. -/
inductive Json
  | null
  | bool (b : Bool)
  | number (lexeme : Str)
  | string (s : Str)
  | array (items : List Json)
  | object (members : List (Str × Json))

namespace JsonText

inductive Refusal
  | notJson
  | tooDeep
  deriving DecidableEq

/-- An array or object that is open, with what it holds so far, the last first. -/
inductive Frame
  | array (items : List Json)
  | object (members : List (Str × Json)) (name : Str)

/-- How much of a number has been read. -/
inductive Digits
  | minus
  | zero
  | whole
  | dot
  | fraction
  | exponent
  | sign
  | power
  deriving DecidableEq

/-- What a string is. -/
inductive Role
  | name
  | value
  deriving DecidableEq

/-- What may come next. What has been read of a string or number is held backwards. -/
inductive Mode
  | value
  | valueOrEnd
  | name
  | nameOrEnd
  | colon
  | after
  | ended (value : Json)
  | literal (left : Str) (means : Json)
  | number (digits : Digits) (read : Str)
  /-- `high`: the last character was written as the first half of a pair. -/
  | string (role : Role) (high : Bool) (read : Str)
  | escape (role : Role) (high : Bool) (read : Str)
  | hex (role : Role) (high : Bool) (read : Str) (left n : Nat)

structure Scan where
  mode : Mode
  stack : List Frame

/-- A value is complete. -/
def finish (value : Json) : List Frame → Scan
  | [] => ⟨.ended value, []⟩
  | .array items :: rest => ⟨.after, .array (value :: items) :: rest⟩
  | .object members name :: rest => ⟨.after, .object ((name, value) :: members) name :: rest⟩

/-- The number of digits up to which an integer is made of them. -/
def MAX_DIGITS : Nat := 4300

def isSpace (c : CodePoint) : Bool :=
  c = point ' ' || c = point '\t' || c = point '\n' || c = point '\r'

/-- One more array or object. -/
def opened (room : Nat) (mode : Mode) (frame : Frame) (stack : List Frame) : Except Refusal Scan :=
  if stack.length < room then .ok ⟨mode, frame :: stack⟩ else .error .tooDeep

/-- The first character of a value. -/
def begin_ (room : Nat) (c : CodePoint) (stack : List Frame) : Except Refusal Scan :=
  if c = point '"' then .ok ⟨.string .value false [], stack⟩
  else if c = point '\x7b' then opened room .nameOrEnd (.object [] []) stack
  else if c = point '[' then opened room .valueOrEnd (.array []) stack
  else if c = point 'n' then .ok ⟨.literal (text "ull") .null, stack⟩
  else if c = point 't' then .ok ⟨.literal (text "rue") (.bool true), stack⟩
  else if c = point 'f' then .ok ⟨.literal (text "alse") (.bool false), stack⟩
  else if c = point 'N' then .ok ⟨.literal (text "aN") (.number (text "NaN")), stack⟩
  else if c = point 'I' then .ok ⟨.literal (text "nfinity") (.number (text "Infinity")), stack⟩
  else if c = point '-' then .ok ⟨.number .minus [c], stack⟩
  else if c = point '0' then .ok ⟨.number .zero [c], stack⟩
  else if c.isDigit then .ok ⟨.number .whole [c], stack⟩
  else .error .notJson

/-- A character after a value. -/
def follow (c : CodePoint) (scan : Scan) : Except Refusal Scan :=
  if isSpace c then .ok scan
  else
    match scan.mode, scan.stack with
    | .after, .array items :: rest =>
        if c = point ',' then .ok ⟨.value, scan.stack⟩
        else if c = point ']' then .ok (finish (.array items.reverse) rest)
        else .error .notJson
    | .after, .object members _ :: rest =>
        if c = point ',' then .ok ⟨.name, scan.stack⟩
        else if c = point '\x7d' then .ok (finish (.object members.reverse) rest)
        else .error .notJson
    | _, _ => .error .notJson

/-- What a further character makes of a number, if it belongs to it. -/
def Digits.next (c : CodePoint) : Digits → Option Digits
  | .minus => if c = point '0' then some .zero else if c.isDigit then some .whole else none
  | .zero => if c = point '.' then some .dot else if c = point 'e' ∨ c = point 'E' then some .exponent
      else none
  | .whole => if c.isDigit then some .whole else if c = point '.' then some .dot
      else if c = point 'e' ∨ c = point 'E' then some .exponent else none
  | .dot => if c.isDigit then some .fraction else none
  | .fraction => if c.isDigit then some .fraction
      else if c = point 'e' ∨ c = point 'E' then some .exponent else none
  | .exponent => if c = point '+' ∨ c = point '-' then some .sign else if c.isDigit then some .power
      else none
  | .sign | .power => if c.isDigit then some .power else none

/-- A number that is complete. An integer of too many digits is not made. -/
def Digits.number? (digits : Digits) (read : Str) : Option Json :=
  match digits with
  | .zero => some (.number read.reverse)
  | .whole => if read.countP CodePoint.isDigit ≤ MAX_DIGITS then some (.number read.reverse) else none
  | .fraction | .power => some (.number read.reverse)
  | .minus | .dot | .exponent | .sign => none

/-- A string is complete. -/
def closed (role : Role) (read : Str) (stack : List Frame) : Except Refusal Scan :=
  match role, stack with
  | .value, _ => .ok (finish (.string read.reverse) stack)
  | .name, .object members _ :: rest => .ok ⟨.colon, .object members read.reverse :: rest⟩
  | .name, _ => .error .notJson

def unescaped (c : CodePoint) : Option CodePoint :=
  if c = point '"' ∨ c = point '\\' ∨ c = point '/' then some c
  else if c = point 'b' then some 8
  else if c = point 'f' then some 12
  else if c = point 'n' then some 10
  else if c = point 'r' then some 13
  else if c = point 't' then some 9
  else none

def hexDigit (c : CodePoint) : Option Nat :=
  if c.isDigit then some (c.val - 0x30)
  else if 0x41 ≤ c.val ∧ c.val ≤ 0x46 then some (c.val - 0x37)
  else if 0x61 ≤ c.val ∧ c.val ≤ 0x66 then some (c.val - 0x57)
  else none

/-- A character that was written by its number. The second half of a pair goes with the first. -/
def numbered (role : Role) (high : Bool) (read : Str) (n : Nat) : Mode :=
  match high, read with
  | true, first :: before =>
      if 0xDC00 ≤ n ∧ n ≤ 0xDFFF then
        .string role false
          (Fin.ofNat _ (0x10000 + (first.val - 0xD800) * 0x400 + (n - 0xDC00)) :: before)
      else .string role (0xD800 ≤ n && n ≤ 0xDBFF) (Fin.ofNat _ n :: read)
  | _, _ => .string role (0xD800 ≤ n && n ≤ 0xDBFF) (Fin.ofNat _ n :: read)

/-- One character. -/
def step (room : Nat) (scan : Scan) (c : CodePoint) : Except Refusal Scan :=
  match scan.mode with
  | .value => if isSpace c then .ok scan else begin_ room c scan.stack
  | .valueOrEnd =>
      if isSpace c then .ok scan
      else if c = point ']' then .ok (finish (.array []) scan.stack.tail)
      else begin_ room c scan.stack
  | .name =>
      if isSpace c then .ok scan
      else if c = point '"' then .ok { scan with mode := .string .name false [] }
      else .error .notJson
  | .nameOrEnd =>
      if isSpace c then .ok scan
      else if c = point '\x7d' then .ok (finish (.object []) scan.stack.tail)
      else if c = point '"' then .ok { scan with mode := .string .name false [] }
      else .error .notJson
  | .colon =>
      if isSpace c then .ok scan
      else if c = point ':' then .ok { scan with mode := .value }
      else .error .notJson
  | .after | .ended _ => follow c scan
  | .literal [] _ => .error .notJson
  | .literal (due :: left) means =>
      if c ≠ due then .error .notJson
      else if left = [] then .ok (finish means scan.stack)
      else .ok { scan with mode := .literal left means }
  | .number digits read =>
      if digits = .minus ∧ c = point 'I' then
        .ok { scan with mode := .literal (text "nfinity") (.number (text "-Infinity")) }
      else
        match digits.next c with
        | some more => .ok { scan with mode := .number more (c :: read) }
        | none =>
            match digits.number? read with
            | some value => follow c (finish value scan.stack)
            | none => .error .notJson
  | .string role high read =>
      if c = point '"' then closed role read scan.stack
      else if c = point '\\' then .ok { scan with mode := .escape role high read }
      else if c.val < 0x20 then .error .notJson
      else .ok { scan with mode := .string role false (c :: read) }
  | .escape role high read =>
      if c = point 'u' then .ok { scan with mode := .hex role high read 4 0 }
      else
        match unescaped c with
        | some plain => .ok { scan with mode := .string role false (plain :: read) }
        | none => .error .notJson
  | .hex role high read left n =>
      match hexDigit c with
      | none => .error .notJson
      | some digit =>
          if left ≤ 1 then .ok { scan with mode := numbered role high read (n * 16 + digit) }
          else .ok { scan with mode := .hex role high read (left - 1) (n * 16 + digit) }

/-- `json.loads`, with room for so many arrays and objects in one another. -/
def loads (room : Nat) (s : Str) : Except Refusal Json := do
  let scan ← s.foldlM (step room) ⟨.value, []⟩
  match scan.mode, scan.stack with
  | .ended value, _ => .ok value
  | .number digits read, [] => (digits.number? read).elim (.error .notJson) .ok
  | _, _ => .error .notJson

end JsonText

end LocalHarness.Library
