import LocalHarness.Library.CodePoints

/-! # Text out of bytes, whatever they are

Bytes that are no character become the replacement character, as many of them at once as could have
begun one. What a text was encoded to comes back as that text.
-/

namespace LocalHarness.Library.Utf8

/-- `text.encode("utf-8")`. -/
def encode (chars : List Char) : Bytes :=
  chars.flatMap String.utf8EncodeChar

def replacement : Char := '\uFFFD'

/-- The second byte of a character of three or four bytes: neither longer than need be, nor a surrogate,
nor past the last code point. -/
def follows (lead second : UInt8) : Bool :=
  0xE0 ≤ lead && lead ≤ 0xF4 &&
    (if lead = 0xE0 then 0xA0 else if lead = 0xF0 then 0x90 else 0x80) ≤ second &&
    second ≤ (if lead = 0xED then 0x9F else if lead = 0xF4 then 0x8F else 0xBF)

/-- How many bytes one replacement character stands for. -/
def spoilt : Bytes → Nat
  | lead :: second :: rest =>
      if !follows lead second then 1
      else
        match rest with
        | [] => 2
        | third :: _ => if 0xF0 ≤ lead && 0x80 ≤ third && third ≤ 0xBF then 3 else 2
  | _ => 1

/-- `raw.decode("utf-8", "replace")`, past the first bytes of `raw`. -/
def decodeFrom : Nat → Bytes → List Char
  | _, [] => []
  | past + 1, _ :: rest => decodeFrom past rest
  | 0, byte :: rest =>
      match (byte :: rest).toByteArray.utf8DecodeChar? 0 with
      | some c => c :: decodeFrom (c.utf8Size - 1) rest
      | none => replacement :: decodeFrom (spoilt (byte :: rest) - 1) rest

def decode (raw : Bytes) : List Char :=
  decodeFrom 0 raw

theorem decodeFrom_append (front back : Bytes) : decodeFrom front.length (front ++ back) = decode back := by
  induction front with
  | nil => rfl
  | cons byte front ih => exact ih

theorem decode_char (c : Char) (back : Bytes) :
    decode (String.utf8EncodeChar c ++ back) = c :: decode back := by
  cases encoded : String.utf8EncodeChar c with
  | nil =>
      have size := String.length_utf8EncodeChar c
      rw [encoded] at size
      exact absurd size.symm c.utf8Size_pos.ne'
  | cons byte front =>
      have first : (byte :: (front ++ back)).toByteArray.utf8DecodeChar? 0 = some c := by
        rw [← List.cons_append, ← encoded, List.toByteArray_append]
        exact ByteArray.utf8DecodeChar?_utf8EncodeChar_append
      have size : c.utf8Size - 1 = front.length := by
        rw [← String.length_utf8EncodeChar, encoded]
        rfl
      rw [List.cons_append, decode, decodeFrom, first]
      refine congrArg (c :: ·) ?_
      rw [size]
      exact decodeFrom_append front back

theorem decode_encode (chars : List Char) : decode (encode chars) = chars := by
  induction chars with
  | nil => rfl
  | cons c chars ih =>
      rw [encode, List.flatMap_cons, decode_char]
      exact congrArg (c :: ·) ih

example : decode [0x61, 0xE2, 0x82, 0x62, 0xE0, 0x80, 0xF0, 0x9F, 0x98] =
    ['a', replacement, 'b', replacement, replacement, replacement] := by decide

end LocalHarness.Library.Utf8
