import LocalHarness.Library.Find
import LocalHarness.Library.Unicode

/-! # The artifact in a reply

`harness/checks/base.py`. A reply is unwrapped from its first fence and cut down to the document of
a root tag. The tag is looked for in a copy in lower case, and the places found there are used in
the reply itself.
-/

namespace LocalHarness.Checks.Extract

open LocalHarness.Library
open LocalHarness.Library.Find

/-- `str.strip` -/
def strip (s : List Char) : List Char :=
  (s.dropWhile Text.isSpace).rdropWhile Text.isSpace

def TICKS : List Char := ['`', '`', '`']

/-- What `_FENCE` captures where it matches at the start of a text. The letters after the ticks are
all taken, since none of them is a line end; of the white space as much as ends in one. -/
def fenceAt (s : List Char) : Option (List Char) :=
  if TICKS.isPrefixOf s then
    let after := (s.drop TICKS.length).dropWhile Char.isAlpha
    let blank := after.takeWhile Text.isSpace
    if '\n' ∈ blank then
      let inside := blank.rtakeWhile (· ≠ '\n') ++ after.dropWhile Text.isSpace
      (find TICKS inside).map fun i => inside.take i
    else none
  else none

/-- `_FENCE.search(text)`, the leftmost match: what it captures. -/
def fence : List Char → Option (List Char)
  | [] => none
  | c :: rest => (fenceAt (c :: rest)).or (fence rest)

/-- The text that is searched for a root tag: what the first fence holds. -/
def searched (text : List Char) : List Char :=
  (fence text).getD text

/-- `f"<{tag}"` -/
def opening (tag : List Char) : List Char :=
  '<' :: tag

/-- `f"</{tag}>"` -/
def closing (tag : List Char) : List Char :=
  ['<', '/'] ++ tag ++ ['>']

variable (u : Unicode)

/-- The document of one root tag; `none` where the tag is not found. -/
def document (text tag : List Char) : Option (List Char) :=
  (find (opening tag) (u.lower text)).map fun start =>
    match rfind (closing tag) (u.lower text) with
    | some stop => (text.take (stop + tag.length + 3)).drop start
    | none => text.drop start

def extract (text : List Char) (rootTags : List (List Char)) : List Char :=
  let text := searched text
  (rootTags.findSome? (document u text)).getD (strip text)

/-! ## What a fence is -/

variable {s g front back after : List Char} {c : Char}

theorem rtakeWhile_stop {p : Char → Bool} (stop : p c = false) :
    (front ++ c :: back).rtakeWhile p = back.rtakeWhile p := by
  rw [List.rtakeWhile, List.rtakeWhile, List.reverse_append, List.reverse_cons, List.append_assoc,
    List.singleton_append, List.takeWhile_append]
  split
  next whole =>
    rw [List.takeWhile_cons_of_neg (Bool.eq_false_iff.mp stop), List.append_nil,
      (List.takeWhile_prefix p).eq_of_length whole]
  next => rfl

theorem fenceAt_other (other : ¬ TICKS <+: s) : fenceAt s = none := by
  unfold fenceAt
  exact if_neg fun ticks => other (List.isPrefixOf_iff_prefix.mp ticks)

/-- The ticks of a fence are the last of a row. -/
theorem fenceAt_tick : fenceAt (TICKS ++ '`' :: back) = none := by
  have more : ('`' :: back).dropWhile Char.isAlpha = '`' :: back := rfl
  have none : ('`' :: back).takeWhile Text.isSpace = [] := rfl
  unfold fenceAt
  split
  · rw [List.drop_left]
    simp only [more, none]
    exact if_neg List.not_mem_nil
  · rfl

/-- A match starts with ticks, and what it captures ends before other ones. -/
theorem fenceAt_spec (found : fenceAt s = some g) :
    ∃ front back, s = TICKS ++ front ++ g ++ TICKS ++ back := by
  unfold fenceAt at found
  split at found
  next ticks =>
    obtain ⟨rest, rfl⟩ := List.isPrefixOf_iff_prefix.mp ticks
    rw [List.drop_left] at found
    simp only at found
    split at found
    next =>
      set after := rest.dropWhile Char.isAlpha with afterDef
      set blank := after.takeWhile Text.isSpace with blankDef
      obtain ⟨i, place, rfl⟩ := Option.map_eq_some_iff.mp found
      obtain ⟨⟨before, back, shape, rfl⟩, -⟩ := find_eq_some_iff.mp place
      refine ⟨rest.takeWhile Char.isAlpha ++ blank.rdropWhile (· ≠ '\n'), back, ?_⟩
      have cut : rest = rest.takeWhile Char.isAlpha ++ (blank.rdropWhile (· ≠ '\n') ++
          (blank.rtakeWhile (· ≠ '\n') ++ after.dropWhile Text.isSpace)) := by
        rw [← List.append_assoc (blank.rdropWhile _), List.rdropWhile_append_rtakeWhile, blankDef,
          List.takeWhile_append_dropWhile, afterDef, List.takeWhile_append_dropWhile]
      have taken : (before ++ TICKS ++ back).take before.length = before := by
        rw [List.append_assoc, List.take_left]
      rw [shape, taken]
      rw [shape] at cut
      calc TICKS ++ rest = TICKS ++ (rest.takeWhile Char.isAlpha ++
            (blank.rdropWhile (· ≠ '\n') ++ (before ++ TICKS ++ back))) := congrArg _ cut
        _ = _ := by simp only [List.append_assoc]
    next => cases found
  next => cases found

theorem fence_spec (found : fence s = some g) :
    ∃ front between back, s = front ++ TICKS ++ between ++ g ++ TICKS ++ back := by
  induction s with
  | nil => cases found
  | cons c rest ih =>
      rw [fence] at found
      cases here : fenceAt (c :: rest) with
      | some g' =>
          rw [here] at found
          obtain rfl := Option.some.inj found
          obtain ⟨between, back, shape⟩ := fenceAt_spec here
          exact ⟨[], between, back, shape⟩
      | none =>
          rw [here, Option.none_or] at found
          obtain ⟨front, between, back, shape⟩ := ih found
          exact ⟨c :: front, between, back, by rw [shape]; rfl⟩

/-- A fence holds a part of the text, and so is a text without one. -/
theorem searched_infix (s : List Char) : searched s <:+: s := by
  unfold searched
  cases found : fence s with
  | none => exact List.infix_rfl
  | some g =>
      obtain ⟨front, between, back, rfl⟩ := fence_spec found
      exact ⟨front ++ TICKS ++ between, TICKS ++ back, by simp⟩

/-- Without ticks there is no fence. -/
theorem fence_of_plain (plain : ¬ TICKS <:+: s) : fence s = none := by
  cases found : fence s with
  | none => rfl
  | some g =>
      obtain ⟨front, between, back, rfl⟩ := fence_spec found
      exact absurd ⟨front, between ++ g ++ TICKS ++ back, by simp⟩ plain

/-- One row of ticks is no fence. -/
theorem fence_of_last (plain : ¬ TICKS <:+: back) : fence (TICKS ++ back) = none := by
  cases found : fence (TICKS ++ back) with
  | none => rfl
  | some g =>
      obtain ⟨front, between, last, shape⟩ := fence_spec found
      have longer : (between ++ g ++ TICKS ++ last).length ≤ back.length := by
        have length := congrArg List.length shape
        simp only [List.length_append] at length ⊢
        omega
      have rest : between ++ g ++ TICKS ++ last <:+ back :=
        List.suffix_of_suffix_length_le ⟨front ++ TICKS, by simp [shape]⟩
          (List.suffix_append TICKS back) longer
      exact absurd (List.IsInfix.trans ⟨between ++ g, last, rfl⟩ rest.isInfix) plain

/-- Prose without ticks is passed over on the way to the first ones. -/
theorem fence_skip (plain : ¬ TICKS <:+: front) :
    fence (front ++ (TICKS ++ back)) = fence (TICKS ++ back) := by
  induction front with
  | nil => rfl
  | cons c rest ih =>
      have later : ¬ TICKS <:+: rest := fun inside =>
        plain (inside.trans (List.suffix_cons c rest).isInfix)
      have here : fenceAt (c :: rest ++ (TICKS ++ back)) = none := by
        by_cases ticks : TICKS <+: c :: rest ++ (TICKS ++ back)
        · -- the ticks at the end of the prose have others after them
          obtain ⟨more, shape⟩ := ticks
          match rest with
          | [] =>
              obtain ⟨rfl, -⟩ := List.cons.inj shape
              exact fenceAt_tick
          | [d] =>
              obtain ⟨rfl, second⟩ := List.cons.inj shape
              obtain ⟨rfl, -⟩ := List.cons.inj second
              exact fenceAt_tick
          | d :: e :: rest =>
              obtain ⟨rfl, second⟩ := List.cons.inj shape
              obtain ⟨rfl, third⟩ := List.cons.inj second
              obtain ⟨rfl, -⟩ := List.cons.inj third
              exact absurd ⟨[], rest, rfl⟩ plain
        · exact fenceAt_other ticks
      rw [List.cons_append, fence, ← List.cons_append, here, Option.none_or, ih later]

end LocalHarness.Checks.Extract
