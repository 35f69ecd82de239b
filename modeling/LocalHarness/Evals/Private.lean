import Mathlib.Data.List.Infix
import LocalHarness.Library.JsonDumps
import LocalHarness.Library.Lines

/-! # The text of a private case

The text of a private case does not leave the machine. A row's detail is withheld where it holds a whole line
of the case, a line less its speaker or a reviewed claim; a part of a line is not looked for, however long it
is. So nothing of the case is quoted exactly where no part is quoted without a whole line.
-/

namespace LocalHarness.Evals.Private

open LocalHarness.Library LocalHarness.Library.Str

/-- A case, with what each of its reviews says that was claimed. -/
structure Case where
  id : Str
  prompt : Str
  context : Str := []
  reviews : List (Option Str) := []
  private_ : Bool := false

def MIN_FRAGMENT : Nat := 24

/-- `\s` -/
def isBlank (c : CodePoint) : Bool :=
  Text.isSpace (.ofNat c.val)

/-- `\d`, where `digit` says what is above ASCII. -/
def isDecimal (digit : CodePoint → Bool) (c : CodePoint) : Bool :=
  c.isDigit || (0x80 ≤ c.val && digit c)

/-- What stands after a match of `_SPEAKER`, a number in brackets and a name with a colon. -/
def speaker (digit : CodePoint → Bool) (line : Str) : Option Str :=
  match line.dropWhile isBlank with
  | [] => none
  | opening :: rest =>
      match rest.dropWhile (isDecimal digit) with
      | [] => none
      | closing :: rest' =>
          match rest'.dropWhile (· ≠ point ':') with
          | [] => none
          | _ :: after =>
              -- The blanks before a name count as the name's own where it would be empty without them.
              if opening = point '[' ∧ rest.takeWhile (isDecimal digit) ≠ [] ∧ closing = point ']' ∧
                  rest'.takeWhile (· ≠ point ':') ≠ [] ∧
                  ((rest'.takeWhile (· ≠ point ':')).dropWhile isBlank).length ≤ 64 then
                some (after.dropWhile isBlank)
              else none

/-- `_SPEAKER.sub("", line)` -/
def untagged (digit : CodePoint → Bool) (line : Str) : Str :=
  (speaker digit line).getD line

def lines (case : Case) : List Str :=
  splitlines (case.prompt ++ point '\n' :: case.context)

def claims (case : Case) : List Str :=
  case.reviews.map fun claim => claim.getD []

def fragments (digit : CodePoint → Bool) (cases : List Case) : List Str :=
  (cases.filter fun case => case.private_).flatMap fun case =>
    (((lines case).map (untagged digit) ++ claims case).map strip).filter fun t => MIN_FRAGMENT ≤ t.length

/-- `[1:-1]` -/
def inner (s : Str) : Str :=
  s.tail.dropLast

/-- `_forms` -/
def forms (printable : CodePoint → Bool) (fragment : Str) : List Str :=
  [fragment, inner (JsonText.quote fragment), inner (quoted printable fragment)]

def foundIn (printable : CodePoint → Bool) (text : Str) (frags : List Str) : Bool :=
  frags.any fun f => (forms printable f).any fun form => form <:+: text

/-- `_lines` -/
def longLines (case : Case) : List Str :=
  ((lines case).map strip).filter fun line => MIN_FRAGMENT ≤ line.length

/-- What a detail is replaced by. -/
def note (case : Case) : Str :=
  text "detail withheld: it quoted private case " ++ case.id

/-- The detail holds one of the texts that are looked for. -/
def caught (digit printable : CodePoint → Bool) (case : Case) (detail : Str) : Bool :=
  foundIn printable detail (fragments digit [case] ++ longLines case)

/-- `withhold_detail` -/
def withholdDetail (digit printable : CodePoint → Bool) (case : Case) (detail : Str) : Str :=
  if case.private_ = true ∧ detail ≠ [] ∧ caught digit printable case detail = true then note case else detail

/-- A text holds so many characters in a row of a line of the case or of a reviewed claim, as they are or as
JSON or `repr` spells them. -/
def Quotes (printable : CodePoint → Bool) (case : Case) (text : Str) : Prop :=
  ∃ source ∈ lines case ++ claims case, ∃ run, run <:+: source ∧ MIN_FRAGMENT ≤ run.length ∧
    ∃ form ∈ forms printable run, form <:+: text

variable {digit printable : CodePoint → Bool} {case : Case} {detail line run : Str}

/-! ## What is looked for -/

theorem strip_within (s : Str) : strip s <:+: s :=
  (List.rdropWhile_prefix _ _).isInfix.trans (List.dropWhile_suffix _).isInfix

theorem rest_suffix {p : CodePoint → Bool} {c : CodePoint} {s rest : Str} (shape : s.dropWhile p = c :: rest) :
    rest <:+ s :=
  (List.suffix_cons c rest).trans (shape ▸ List.dropWhile_suffix p)

theorem untagged_suffix (digit : CodePoint → Bool) (line : Str) : untagged digit line <:+ line := by
  rw [untagged]
  cases tagged : speaker digit line with
  | none => exact List.suffix_refl line
  | some after =>
      rw [speaker] at tagged
      split at tagged
      next => cases tagged
      next opened =>
        split at tagged
        next => cases tagged
        next closed =>
          split at tagged
          next => cases tagged
          next named =>
            split at tagged
            next =>
              cases tagged
              exact ((List.dropWhile_suffix _).trans (rest_suffix named)).trans
                ((rest_suffix closed).trans (rest_suffix opened))
            next => cases tagged

/-- Every text that is looked for is part of a line or of a claim. -/
theorem source_of_mem {f : Str} (looked : f ∈ fragments digit [case] ++ longLines case) :
    MIN_FRAGMENT ≤ f.length ∧ ∃ source ∈ lines case ++ claims case, f <:+: source := by
  rcases List.mem_append.mp looked with fragment | long
  · obtain ⟨one, inside, kept⟩ := List.mem_flatMap.mp fragment
    obtain rfl := List.mem_singleton.mp (List.mem_of_mem_filter inside)
    obtain ⟨stripped, enough⟩ := List.mem_filter.mp kept
    obtain ⟨source, member, rfl⟩ := List.mem_map.mp stripped
    refine ⟨of_decide_eq_true enough, ?_⟩
    rcases List.mem_append.mp member with tagged | claimed
    · obtain ⟨line, read, rfl⟩ := List.mem_map.mp tagged
      exact ⟨line, List.mem_append_left _ read, (strip_within _).trans (untagged_suffix digit line).isInfix⟩
    · exact ⟨source, List.mem_append_right _ claimed, strip_within source⟩
  · obtain ⟨stripped, enough⟩ := List.mem_filter.mp long
    obtain ⟨line, member, rfl⟩ := List.mem_map.mp stripped
    exact ⟨of_decide_eq_true enough, line, List.mem_append_left _ member, strip_within line⟩

/-- What is withheld did quote the case. -/
theorem quotes_of_caught (found : caught digit printable case detail = true) : Quotes printable case detail := by
  obtain ⟨f, member, found⟩ := List.any_eq_true.mp found
  obtain ⟨form, spelled, found⟩ := List.any_eq_true.mp found
  obtain ⟨long, source, inside, part⟩ := source_of_mem member
  exact ⟨source, inside, f, part, long, form, spelled, of_decide_eq_true found⟩

/-! ## What is stored -/

theorem flatMap_ne_nil {escaped : CodePoint → Str} (solid : ∀ c, escaped c ≠ []) (some_ : run ≠ []) :
    run.flatMap escaped ≠ [] := by
  intro none
  obtain ⟨c, member⟩ := List.exists_mem_of_ne_nil _ some_
  exact solid c (List.flatMap_eq_nil_iff.mp none c member)

theorem inner_quote_ne_nil (some_ : run ≠ []) : inner (JsonText.quote run) ≠ [] := by
  rw [inner, JsonText.quote, List.tail_cons, List.dropLast_concat]
  apply flatMap_ne_nil _ some_
  intro c
  unfold JsonText.escaped
  repeat' split
  all_goals simp [JsonText.unit]

theorem inner_quoted_ne_nil (printable : CodePoint → Bool) (some_ : run ≠ []) :
    inner (quoted printable run) ≠ [] := by
  rw [inner, quoted, List.cons_append, List.tail_cons, List.dropLast_concat]
  apply flatMap_ne_nil _ some_
  intro c
  repeat' split
  all_goals simp [text]

/-- A text that is not empty has no empty spelling. -/
theorem form_ne_nil {form : Str} (some_ : run ≠ []) (spelled : form ∈ forms printable run) : form ≠ [] := by
  rw [forms, List.mem_cons, List.mem_cons, List.mem_singleton] at spelled
  rcases spelled with rfl | rfl | rfl
  · exact some_
  · exact inner_quote_ne_nil some_
  · exact inner_quoted_ne_nil printable some_

theorem quotes_nil : ¬ Quotes printable case [] := by
  rintro ⟨source, -, run, -, long, form, spelled, part⟩
  have some_ : run ≠ [] := fun none => absurd long (by rw [none]; decide)
  exact form_ne_nil some_ spelled (List.infix_nil.mp part)

/-- A case of one line. -/
def ledger : Case where
  id := text "a"
  prompt := text "Ada owes the bank 3000 euros today"
  private_ := true

/-- What a detail says that quotes the line up to its last word. -/
def cutShort : Str :=
  text "got: Ada owes the bank 3000 euros"

end LocalHarness.Evals.Private
