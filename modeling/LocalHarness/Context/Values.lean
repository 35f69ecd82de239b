import Mathlib.Data.Rat.Floor
import Mathlib.Order.WithBot
import LocalHarness.Library.Decimal
import LocalHarness.Library.Dict
import LocalHarness.Library.Fallible

/-! # What the header of a model file may hold, and what Python makes of it

The values are taken as they come: a number the code counts on may be a text, a list or absent, and each
operation on it then raises what Python raises.
-/

namespace LocalHarness.Context

/-- What is raised, with the text of it where the code may come to write it. -/
inductive Fault where
  | value (text : String)
  | os (text : String)
  | key (text : String)
  | type
  | overflow
  | recursion
  | memory
  deriving DecidableEq, Repr

/-- How large a float is. -/
inductive Size where
  | finite (q : ℚ)
  | infinite
  | nan
  deriving DecidableEq, Repr

structure Number where
  negative : Bool
  size : Size
  deriving DecidableEq, Repr

namespace Number

/-- The float of so many bits of exponent and of fraction. -/
def ofBits (exponent fraction n : Nat) : Number where
  negative := n / 2 ^ (exponent + fraction) % 2 = 1
  size :=
    let e := n / 2 ^ fraction % 2 ^ exponent
    let m := n % 2 ^ fraction
    let least : Int := 2 - 2 ^ (exponent - 1) - fraction
    if e = 2 ^ exponent - 1 then if m = 0 then .infinite else .nan
    else if e = 0 then .finite (m * 2 ^ least)
    else .finite ((2 ^ fraction + m) * 2 ^ (least + e - 1))

def ofInt (n : ℤ) : Number :=
  ⟨n < 0, .finite n.natAbs⟩

/-- Where a float stands among the numbers, but for the one that stands nowhere. -/
def place? : Number → Option (WithBot (WithTop ℚ))
  | ⟨negative, .finite q⟩ => some ((if negative then -q else q : ℚ) : WithTop ℚ)
  | ⟨true, .infinite⟩ => some ⊥
  | ⟨false, .infinite⟩ => some (⊤ : WithTop ℚ)
  | ⟨_, .nan⟩ => none

def gt (a b : Number) : Bool :=
  match a.place?, b.place? with
  | some a, some b => b < a
  | _, _ => false

def eq (a b : Number) : Bool :=
  match a.place?, b.place? with
  | some a, some b => a = b
  | _, _ => false

end Number

inductive Value where
  | int (n : ℤ)
  | float (x : Number)
  | bool (b : Bool)
  | str (s : String)
  | list (items : List Value)
  | none

abbrev Meta := Library.Dict Value

namespace Value

def truthy : Value → Bool
  | int n => n ≠ 0
  | float x => x.size ≠ .finite 0
  | bool b => b
  | str s => s ≠ ""
  | list items => !items.isEmpty
  | none => false

/-- `self or other`. -/
def or (self other : Value) : Value :=
  if self.truthy then self else other

def number? : Value → Option Number
  | int n => some (.ofInt n)
  | float x => some x
  | bool b => some (.ofInt b.toNat)
  | _ => Option.none

/-- What counts as an integer where two are divided. -/
def integer? : Value → Option ℤ
  | int n => some n
  | bool b => some b.toNat
  | _ => Option.none

mutual

/-- `a == b`. -/
def eq : Value → Value → Bool
  | str s, str t => s = t
  | list xs, list ys => eqs xs ys
  | none, none => true
  | a, b =>
      match a.number?, b.number? with
      | some x, some y => x.eq y
      | _, _ => false

def eqs : List Value → List Value → Bool
  | [], [] => true
  | x :: xs, y :: ys => eq x y && eqs xs ys
  | _, _ => false

end

mutual

/-- `a > b`. -/
def gt : Value → Value → Except Fault Bool
  | str s, str t => .ok (t < s)
  | list xs, list ys => gts xs ys
  | a, b =>
      match a.number?, b.number? with
      | some x, some y => .ok (x.gt y)
      | _, _ => .error .type

/-- Of two lists the first items that differ are compared, else the lengths. -/
def gts : List Value → List Value → Except Fault Bool
  | [], _ => .ok false
  | _ :: _, [] => .ok true
  | x :: xs, y :: ys => if eq x y then gts xs ys else gt x y

end

/-- `max` of a list. -/
def largest : List Value → Except Fault Value
  | [] => .error (.value "max() iterable argument is empty")
  | first :: rest =>
      rest.foldlM (fun most item => do return if ← item.gt most then item else most) first

end Value

/-- What the interpreter and the machine under it decide: how deep a function may call itself, how many
bytes or items there is room for, how far a file may be moved in, and what texts and floats are made. -/
structure Interpreter where
  nesting : Nat
  buffer : Nat
  items : Nat
  offset : Nat
  offset_lt : offset < 2 ^ 63
  /-- `int(text)`, or why it is none. -/
  literal : String → Except String ℤ
  /-- `str(value)` of what is no text. -/
  shown : Value → String
  /-- `repr(text)`. -/
  quoted : String → String
  /-- `a // b` of two numbers one of which is a float. -/
  quotient : Value → Value → Number
  /-- `f"{n / 1024 ** 3:.1f}"` -/
  gib : ℤ → String

/-- `f"{n}"` -/
def decimal (n : ℤ) : Except Fault String :=
  if n.natAbs < 10 ^ 4300 then .ok (toString n)
  else .error (.value ("Exceeds the limit (4300 digits) for integer string conversion; " ++
    "use sys.set_int_max_str_digits() to increase the limit"))

namespace Interpreter

variable (py : Interpreter)

/-- `f"{value}"` -/
def text : Value → String
  | .str s => s
  | value => py.shown value

/-- `int(value)`. -/
def int : Value → Except Fault ℤ
  | .int n => .ok n
  | .bool b => .ok b.toNat
  | .float ⟨negative, .finite q⟩ => .ok (if negative then -⌊q⌋ else ⌊q⌋)
  | .float ⟨_, .infinite⟩ => .error .overflow
  | .float ⟨_, .nan⟩ => .error (.value "cannot convert float NaN to integer")
  | .str s => (py.literal s).mapError .value
  | .list _ => .error .type
  | .none => .error .type

/-- `a // b`, of a divisor that is not zero. -/
def floordiv (a b : Value) : Except Fault Value :=
  match a.integer?, b.integer? with
  | some m, some n => .ok (.int (m.fdiv n))
  | _, _ =>
      match a.number?, b.number? with
      | some _, some _ => .ok (.float (py.quotient a b))
      | _, _ => .error .type

/-- `[item] * n`. -/
def replicate {α : Type} (item : α) (n : ℤ) : Except Fault (List α) :=
  if n < -2 ^ 63 ∨ 2 ^ 63 ≤ n then .error .overflow
  else if py.items < n.toNat then .error .memory
  else .ok (List.replicate n.toNat item)

/-- `f"{n / 1024 ** 3:.1f}"`, where the quotient is no float when it rounds to `2 ** 1024`. -/
def gibibytes (n : ℤ) : Except Fault String :=
  if n.natAbs < (2 ^ 1024 - 2 ^ 970) * 1024 ^ 3 then .ok (py.gib n) else .error .overflow

/-- An interpreter of usual limits, for what it may be asked of plain texts and whole numbers. -/
def usual : Interpreter where
  nesting := 480
  buffer := 2 ^ 36
  items := 2 ^ 36
  offset := 2 ^ 63 - 1
  offset_lt := by decide
  literal text :=
    match Library.Decimal.wholeNumber text with
    | some n => .ok n
    | none => .error s!"invalid literal for int() with base 10: '{text}'"
  shown value :=
    match value with
    | .int n => toString n
    | .bool b => if b then "True" else "False"
    | .none => "None"
    | _ => ""
  quoted text := s!"'{text}'"
  quotient a b :=
    match a.number?, b.number? with
    | some ⟨s, .finite p⟩, some ⟨t, .finite q⟩ =>
        ⟨s != t, .finite (if s = t then ⌊p / q⌋ else ⌈p / q⌉)⟩
    | _, _ => ⟨false, .nan⟩
  gib n := Library.Decimal.fixed 1 (n / 1024 ^ 3)

end Interpreter

end LocalHarness.Context
