import LocalHarness.Library.Fallible
import LocalHarness.Library.Unicode

/-! # One spoken form

Before a transcript is compared with what was to be said, both are brought to one form: numbers
written out, small letters, no punctuation, and one way to say a number in words. `drop_number_and`
looks at the words as they were, so that one of its rewrites can make room for another.
-/

namespace LocalHarness.Checks.Speech

open LocalHarness.Library

abbrev Word := List Char

def AND : Word := "and".toList
def A : Word := "a".toList
def ONE : Word := "one".toList

/-- `_SCALES` -/
def SCALES : List Word :=
  ["hundred", "thousand", "million", "billion"].map String.toList

/-- `_SMALL` -/
def SMALL : List Word :=
  ["one", "two", "three", "four", "five", "six", "seven", "eight", "nine", "ten", "eleven", "twelve",
    "thirteen", "fourteen", "fifteen", "sixteen", "seventeen", "eighteen", "nineteen", "twenty",
    "thirty", "forty", "fifty", "sixty", "seventy", "eighty", "ninety"].map String.toList

/-- The rest of `drop_number_and`, after the word that comes before it in the text. -/
def dropAfter : Option Word → List Word → List Word
  | _, [] => []
  | before, word :: rest =>
      if word = AND ∧ before.any (· ∈ SCALES) ∧ rest.head?.any (· ∈ SMALL) then
        dropAfter (some word) rest
      else if word = A ∧ rest.head?.any (· ∈ SCALES) then ONE :: dropAfter (some word) rest
      else word :: dropAfter (some word) rest

def dropNumberAnd (words : List Word) : List Word :=
  dropAfter none words

/-- `num2words` of the number that a run of digits stands for. It writes no digits. -/
structure Num2words (u : Unicode) (ε : Type) where
  cardinal : List Char → Except ε (List Char)
  ordinal : List Char → Except ε (List Char)
  plain : ∀ digits text, cardinal digits = .ok text ∨ ordinal digits = .ok text →
    ∀ c ∈ text, u.digit c = false

section

variable (u : Unicode) {ε : Type} (n : Num2words u ε)

/-- What `(?=\d{3}\b)` sees. -/
def groupAhead : List Char → Bool
  | a :: b :: c :: rest => u.digit a && u.digit b && u.digit c && !rest.head?.any u.word
  | _ => false

/-- `_EN_GROUPING.sub("", ·)`, after a digit or not. -/
def ungroup : Bool → List Char → List Char
  | _, [] => []
  | digit, c :: rest =>
      if c = ',' ∧ digit = true ∧ groupAhead u rest = true then ungroup false rest
      else c :: ungroup (u.digit c) rest

/-- `\.(\d+)` -/
def fraction : List Char → Option (List Char × List Char)
  | '.' :: d :: rest =>
      if u.digit d then some (d :: rest.takeWhile u.digit, rest.dropWhile u.digit) else none
  | _ => none

def SUFFIXES : List Word :=
  ["st", "nd", "rd", "th"].map String.toList

/-- `(st|nd|rd|th)\b` -/
def suffix : List Char → Option (List Char)
  | a :: b :: rest => if [a, b] ∈ SUFFIXES ∧ !rest.head?.any u.word then some rest else none
  | _ => none

/-- How a number is written. -/
inductive Form
  | decimal (frac : List Char)
  | ordinal
  | plain

/-- What follows the digits of a number and belongs to it, and the rest. -/
def form (after : List Char) : Form × List Char :=
  match fraction u after with
  | some (frac, rest) => (.decimal frac, rest)
  | none =>
      match suffix u after with
      | some rest => (.ordinal, rest)
      | none => (.plain, after)

theorem form_length (after : List Char) : (form u after).2.length ≤ after.length := by
  unfold form
  split
  next frac rest found =>
    unfold fraction at found
    split at found
    next =>
      split at found
      next d more _ =>
        obtain ⟨-, rfl⟩ := Prod.mk.inj (Option.some.inj found)
        have shorter := (List.dropWhile_sublist u.digit (l := more)).length_le
        simp only [List.length_cons]
        omega
      next => cases found
    next => cases found
  next =>
    split
    next rest found =>
      unfold suffix at found
      split at found
      next a b more =>
        split at found
        next =>
          obtain rfl := Option.some.inj found
          simp only [List.length_cons]
          omega
        next => cases found
      next => cases found
    next => exact le_rfl

variable {u}

/-- `_en_number` -/
def enNumber (whole : List Char) : Form → Except ε (List Char)
  | .decimal frac => do
      let words ← n.cardinal whole
      let digits ← frac.mapM fun d => n.cardinal [d]
      pure (words ++ " point ".toList ++ List.intercalate [' '] digits)
  | .ordinal => n.ordinal whole
  | .plain => n.cardinal whole

/-- `_EN_NUMBER.sub(_en_number, ·)` -/
def spellOut : List Char → Except ε (List Char)
  | [] => .ok []
  | c :: rest =>
      if u.digit c then
        (enNumber n (c :: rest.takeWhile u.digit) (form u (rest.dropWhile u.digit)).1).bind
          fun text => (spellOut (form u (rest.dropWhile u.digit)).2).map (text ++ ·)
      else (spellOut rest).map (c :: ·)
termination_by text => text.length
decreasing_by
  · have shorter := form_length u (rest.dropWhile u.digit)
    have fewer := (List.dropWhile_sublist u.digit (l := rest)).length_le
    simp only [List.length_cons]
    omega
  · simp only [List.length_cons]
    omega

/-- The words of a text. -/
def spoken (text : List Char) : Except ε (List Word) :=
  (spellOut n (ungroup u false text)).map fun text => u.words (u.lower text)

def normalize (text : List Char) : Except ε (List Char) :=
  (spoken n text).map fun words => List.intercalate [' '] (dropNumberAnd words)

end

/-! ## The words of numbers -/

/-- A scale is followed by `and a` and another scale. -/
def Trap (words : List Word) : Prop :=
  ∃ front s t back, words = front ++ s :: AND :: A :: t :: back ∧ s ∈ SCALES ∧ t ∈ SCALES

end LocalHarness.Checks.Speech
