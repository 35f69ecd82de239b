import LocalHarness.Context.Values
import LocalHarness.Library.ByteStream
import LocalHarness.Library.Utf8

/-! # The header of a GGUF file, and how it is read -/

namespace LocalHarness.Context

open Library

inductive Scalar where
  | uint8 | int8 | uint16 | int16 | uint32 | int32 | float32 | bool | uint64 | int64 | float64
  deriving DecidableEq, Repr

namespace Scalar

/-- The types of `_SCALAR`. -/
def ofCode? : Nat → Option Scalar
  | 0 => some uint8
  | 1 => some int8
  | 2 => some uint16
  | 3 => some int16
  | 4 => some uint32
  | 5 => some int32
  | 6 => some float32
  | 7 => some bool
  | 10 => some uint64
  | 11 => some int64
  | 12 => some float64
  | _ => none

def code : Scalar → Nat
  | uint8 => 0
  | int8 => 1
  | uint16 => 2
  | int16 => 3
  | uint32 => 4
  | int32 => 5
  | float32 => 6
  | bool => 7
  | uint64 => 10
  | int64 => 11
  | float64 => 12

/-- `struct.calcsize`. -/
def size : Scalar → Nat
  | uint8 | int8 | bool => 1
  | uint16 | int16 => 2
  | uint32 | int32 | float32 => 4
  | uint64 | int64 | float64 => 8

/-- `struct.unpack`, of the number the bytes are. -/
def value : Scalar → Nat → Value
  | uint8, n | uint16, n | uint32, n | uint64, n => .int n
  | k@int8, n | k@int16, n | k@int32, n | k@int64, n => .int (Int.bmod n (256 ^ k.size))
  | float32, n => .float (.ofBits 8 23 n)
  | float64, n => .float (.ofBits 11 52 n)
  | bool, n => .bool (n ≠ 0)

@[simp] theorem ofCode?_code (k : Scalar) : ofCode? k.code = some k := by
  cases k <;> rfl

theorem size_pos (k : Scalar) : 0 < k.size := by
  cases k <;> decide

end Scalar

def stringCode : Nat := 8

def arrayCode : Nat := 9

/-- `_KEEP_ARRAY` -/
def keepArray : Nat := 4096

/-! ## The encoding

A value is of one of the types, and an array of values that are all of one. -/

inductive Kind where
  | scalar (k : Scalar)
  | string
  | array
  deriving DecidableEq, Repr

def Kind.code : Kind → Nat
  | scalar k => k.code
  | string => stringCode
  | array => arrayCode

mutual

inductive Item : Kind → Type where
  | scalar (k : Scalar) (raw : Fin (256 ^ k.size)) : Item (.scalar k)
  | string (s : String) : Item .string
  | array {inner : Kind} (items : Items inner) : Item .array

inductive Items : Kind → Type where
  | nil {k : Kind} : Items k
  | cons {k : Kind} (item : Item k) (items : Items k) : Items k

end

/-- `s.encode("utf-8")`. -/
def utf8 (s : String) : Bytes :=
  Utf8.encode s.toList

def encodeString (s : String) : Bytes :=
  Reader.pack 8 (utf8 s).length ++ utf8 s

def Items.toList {k : Kind} : Items k → List (Item k)
  | .nil => []
  | .cons item items => item :: items.toList

def Items.length {k : Kind} (items : Items k) : Nat :=
  items.toList.length

mutual

def Item.encode {k : Kind} : Item k → Bytes
  | .scalar k raw => Reader.pack k.size raw
  | .string s => encodeString s
  | @Item.array inner items => Reader.pack 4 inner.code ++ (Reader.pack 8 items.length ++ items.encode)

def Items.encode {k : Kind} : Items k → Bytes
  | .nil => []
  | .cons item items => item.encode ++ items.encode

end

/-- Arrays of more than this are known to have been there, and no more. -/
def Items.kept {k : Kind} (items : Items k) : Bool :=
  items.length ≤ keepArray

mutual

def Item.value {k : Kind} : Item k → Value
  | .scalar k raw => k.value raw
  | .string s => .str s
  | .array items => if items.kept then .list items.values else .none

def Items.values {k : Kind} : Items k → List Value
  | .nil => []
  | .cons item items => item.value :: items.values

end

structure Entry where
  key : String
  kind : Kind
  item : Item kind

namespace Entry

def encode (entry : Entry) : Bytes :=
  encodeString entry.key ++ (Reader.pack 4 entry.kind.code ++ entry.item.encode)

def pair (entry : Entry) : String × Value :=
  (entry.key, entry.item.value)

end Entry

structure Header where
  version : Fin (256 ^ 4)
  version_ge : 2 ≤ version.val
  tensors : Fin (256 ^ 8)
  entries : List Entry

namespace Header

/-- `b"GGUF"` -/
def magic : Bytes := [0x47, 0x47, 0x55, 0x46]

def encode (header : Header) : Bytes :=
  magic ++ (Reader.pack 4 header.version ++ (Reader.pack 8 header.tensors ++
    (Reader.pack 8 header.entries.length ++ header.entries.flatMap Entry.encode)))

/-- What is said under a key twice is what was said last. -/
def metadata (header : Header) : Meta :=
  Dict.ofItems (header.entries.map Entry.pair)

end Header

/-! ## The reader -/

namespace Reading

variable (py : Interpreter)

/-- `fh.read(n)`, which sets the room for all of `n` aside before it reads. -/
def read (n : Nat) : Reader Fault Bytes :=
  if 2 ^ 63 - 33 ≤ n then throw .overflow
  else if py.buffer < n then throw .memory
  else Reader.upto n

/-- `fh.seek(n, 1)`, past the end too. -/
def seek (n : Nat) : Reader Fault Unit := fun s =>
  if 2 ^ 63 ≤ n then .error (.value "cannot fit 'int' into an offset-sized integer")
  else if py.offset < s.position + n then .error (.os "[Errno 22] Invalid argument")
  else Reader.skip n s

/-- `_read`, of so many bytes. -/
def number (size : Nat) : Reader Fault Nat :=
  Reader.unpack <$> Reader.exactly size (.value "truncated GGUF header")

/-- `_string` -/
def string : Reader Fault String :=
  number 8 >>= fun n => (fun raw => String.ofList (Utf8.decode raw)) <$> read py n

/-- The values of an array of a type and a count, each read by `element`. -/
def values (element : Nat → Reader Fault Value) (inner count : Nat) : Reader Fault Value :=
  if keepArray < count then
    match Scalar.ofCode? inner with
    | some k => (fun _ => .none) <$> seek py (count * k.size)
    | none => (fun _ => .none) <$> Reader.times (element inner) count
  else .list <$> Reader.times (element inner) count

/-- `_value`, which may call itself `room` times deep. -/
def value : Nat → Nat → Reader Fault Value
  | 0, _ => throw .recursion
  | room + 1, kind =>
      match Scalar.ofCode? kind with
      | some k => k.value <$> number k.size
      | none =>
          if kind = stringCode then .str <$> string py
          else if kind = arrayCode then
            number 4 >>= fun inner => number 8 >>= fun count => values py (value room) inner count
          else throw (.value s!"unknown GGUF value type {kind}")

def entry : Reader Fault (String × Value) :=
  string py >>= fun key => number 4 >>= fun kind => (key, ·) <$> value py py.nesting kind

/-- What follows the version. -/
def entries : Reader Fault Meta :=
  number 8 >>= fun _tensors =>
    number 8 >>= fun count => Dict.ofItems <$> Reader.times (entry py) count

/-- `read_meta`, of an open file of that name. -/
def readMeta (name : String) : Reader Fault Meta :=
  Reader.upto 4 >>= fun magic =>
    if magic ≠ Header.magic then throw (.value s!"{name}: not a GGUF file")
    else number 4 >>= fun version =>
      if version < 2 then throw (.value s!"{name}: GGUF v{version} is not read")
      else entries py

end Reading

end LocalHarness.Context
