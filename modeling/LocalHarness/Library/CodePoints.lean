import Mathlib.Data.List.DropRight
import LocalHarness.Library.Text

/-! # Strings that may hold half a surrogate pair

A string of Python is a list of code points, the surrogates among them. UTF-8 encodes all but these, and
a name of a file system all but those of them that do not stand for a byte.
-/

namespace LocalHarness.Library

abbrev CodePoint := Fin 0x110000

abbrev Str := List CodePoint

abbrev Bytes := List UInt8

instance lawfulCodePoint : LawfulBEq CodePoint :=
  inferInstance

instance someCodePoint : @NeZero Nat Zero.ofOfNat0 0x110000 :=
  ⟨by decide⟩

instance lawfulStr : LawfulBEq Str :=
  inferInstance

def point (c : Char) : CodePoint :=
  Fin.ofNat _ c.toNat

def text (s : String) : Str :=
  s.toList.map point

namespace CodePoint

/-- Half of a pair. -/
def isSurrogate (c : CodePoint) : Bool :=
  0xD800 ≤ c.val && c.val ≤ 0xDFFF

/-- A surrogate that stands for a byte in the name of a file. -/
def isEscapedByte (c : CodePoint) : Bool :=
  0xDC80 ≤ c.val && c.val ≤ 0xDCFF

def isDigit (c : CodePoint) : Bool :=
  0x30 ≤ c.val && c.val ≤ 0x39

/-- What UTF-8 makes of a code point that is no surrogate. -/
def utf8 (c : CodePoint) : Bytes :=
  let n := c.val
  let tail (shift : Nat) : UInt8 := .ofNat (0x80 + n / 2 ^ shift % 64)
  if n < 0x80 then [.ofNat n]
  else if n < 0x800 then [.ofNat (0xC0 + n / 2 ^ 6), tail 0]
  else if n < 0x10000 then [.ofNat (0xE0 + n / 2 ^ 12), tail 6, tail 0]
  else [.ofNat (0xF0 + n / 2 ^ 18), tail 12, tail 6, tail 0]

end CodePoint

namespace Str

def strip (s : Str) : Str :=
  let space (c : CodePoint) := Text.isSpace (.ofNat c.val)
  (s.dropWhile space).rdropWhile space

/-- `s.encode("utf-8")`. -/
def encode (s : Str) : Option Bytes :=
  if s.any CodePoint.isSurrogate then none else some (s.flatMap CodePoint.utf8)

/-- The name of a file can be given to the system. -/
def isName (s : Str) : Bool :=
  s.all fun c => !c.isSurrogate || c.isEscapedByte

/-- The part of a code point in a byte that goes on. -/
def payload (b : UInt8) : Nat :=
  b.toNat - 0x80

/-- `bytes.decode("utf-8")`, of the bytes that are well formed. -/
def decode : Bytes → Option Str
  | [] => some []
  | a :: rest =>
      if a < 0x80 then (decode rest).map (Fin.ofNat _ a.toNat :: ·)
      else
        match rest with
        | [] => none
        | b :: rest =>
            if 0xC2 ≤ a && a ≤ 0xDF && 0x80 ≤ b && b ≤ 0xBF then
              (decode rest).map (Fin.ofNat _ ((a.toNat - 0xC0) * 2 ^ 6 + payload b) :: ·)
            else
              match rest with
              | [] => none
              | c :: rest =>
                  -- Neither longer than need be, nor a surrogate, nor past the last code point.
                  let least : UInt8 := if a = 0xE0 then 0xA0 else if a = 0xF0 then 0x90 else 0x80
                  let most : UInt8 := if a = 0xED then 0x9F else if a = 0xF4 then 0x8F else 0xBF
                  if !(least ≤ b && b ≤ most && 0x80 ≤ c && c ≤ 0xBF) then none
                  else if 0xE0 ≤ a && a ≤ 0xEF then
                    (decode rest).map
                      (Fin.ofNat _ ((a.toNat - 0xE0) * 2 ^ 12 + payload b * 2 ^ 6 + payload c) :: ·)
                  else
                    match rest with
                    | [] => none
                    | d :: rest =>
                        if 0xF0 ≤ a && a ≤ 0xF4 && 0x80 ≤ d && d ≤ 0xBF then
                          (decode rest).map (Fin.ofNat _ ((a.toNat - 0xF0) * 2 ^ 18 + payload b * 2 ^ 12 +
                            payload c * 2 ^ 6 + payload d) :: ·)
                        else none

/-- Line ends as a text file is read. -/
def newlines : Str → Str
  | [] => []
  | c :: rest =>
      if c = point '\r' then
        match rest with
        | [] => [point '\n']
        | d :: rest => if d = point '\n' then point '\n' :: newlines rest
            else point '\n' :: newlines (d :: rest)
      else c :: newlines rest

/-- The parts between separators, those that are empty too. -/
def split (separator : CodePoint → Bool) : Str → List Str
  | [] => [[]]
  | c :: rest =>
      if separator c then [] :: split separator rest
      else
        match split separator rest with
        | [] => [[c]]
        | first :: parts => (c :: first) :: parts

def hex (width n : Nat) : Str :=
  let digits := Nat.toDigits 16 n
  (List.replicate (width - digits.length) '0' ++ digits).map point

/-- `repr`, where `printable` says what is above ASCII. -/
def quoted (printable : CodePoint → Bool) (s : Str) : Str :=
  let quote := if s.contains (point '\'') && !s.contains (point '"') then point '"' else point '\''
  let escaped (c : CodePoint) : Str :=
    if c = quote ∨ c = point '\\' then [point '\\', c]
    else if c = point '\n' then text "\\n"
    else if c = point '\r' then text "\\r"
    else if c = point '\t' then text "\\t"
    else if (0x20 ≤ c.val ∧ c.val < 0x7F) ∨ (0x80 ≤ c.val ∧ printable c = true) then [c]
    else if c.val ≤ 0xFF then text "\\x" ++ hex 2 c.val
    else if c.val ≤ 0xFFFF then text "\\u" ++ hex 4 c.val
    else text "\\U" ++ hex 8 c.val
  quote :: s.flatMap escaped ++ [quote]

end Str

end LocalHarness.Library
