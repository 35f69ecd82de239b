import Mathlib.Data.List.Basic
import LocalHarness.Library.Text

/-! # The text of an SQL statement

What each character of a statement is part of: its code, a literal or quoted name, or a comment. Two
statements are the same when they are the same but for blanks, comments and the case of their code.
A statement that is sent may have parameters among its characters.
-/

namespace LocalHarness.Library.SqlText

open LocalHarness.Library

inductive Sent
  | char (c : Char)
  | param
  deriving DecidableEq

inductive Mode
  | code
  | literal
  | comment
  deriving DecidableEq

abbrev Mark := Sent × Mode

/-- Where the reading of a statement stands. A comment of two characters' opening or closing is read
    one character after the other. -/
inductive Scan
  | code
  | single
  | double
  | line
  | blockOpen
  | block
  | blockClose
  deriving DecidableEq

/-- What a character is part of, seen with the one after it, and where the reading stands then. -/
def Scan.step : Scan → Sent → Option Sent → Mode × Scan
  | code, c, next =>
      if c = .char '\'' then (.literal, single)
      else if c = .char '"' then (.literal, double)
      else if c = .char '-' ∧ next = some (.char '-') then (.comment, line)
      else if c = .char '/' ∧ next = some (.char '*') then (.comment, blockOpen)
      else (.code, code)
  | single, c, _ => (.literal, if c = .char '\'' then code else single)
  | double, c, _ => (.literal, if c = .char '"' then code else double)
  | line, c, _ => if c = .char '\n' then (.code, code) else (.comment, line)
  | blockOpen, _, _ => (.comment, block)
  | block, c, next =>
      (.comment, if c = .char '*' ∧ next = some (.char '/') then blockClose else block)
  | blockClose, _, _ => (.comment, code)

/-- The marks of a text, and what follows it. -/
def scan (follow : Option Sent) : Scan → List Sent → List Mark
  | _, [] => []
  | s, c :: rest =>
      (c, (s.step c (rest.head?.or follow)).1) :: scan follow (s.step c (rest.head?.or follow)).2 rest

/-- Where the reading stands after a text. -/
def finish (follow : Option Sent) : Scan → List Sent → Scan
  | s, [] => s
  | s, c :: rest => finish follow (s.step c (rest.head?.or follow)).2 rest

/-- The marks of a whole statement. -/
def marks (text : List Sent) : List Mark :=
  scan none .code text

/-! ## What two statements share -/

inductive Item
  | blank
  | unit (mark : Mark)
  deriving DecidableEq

/-- Spaces and comments are blanks, and code is in capitals. A parameter is one wherever it is. -/
def item : Mark → Item
  | (.char _, .comment) => .blank
  | (.char c, .code) => if Text.isSpace c then .blank else .unit (.char c.toUpper, .code)
  | mark => .unit mark

def squeeze (first : Item) (rest : List Item) : List Item :=
  if first = .blank ∧ rest.head? = some .blank then rest else first :: rest

/-- The statement with one blank for every run of them. -/
def normal (list : List Mark) : List Item :=
  (list.map item).foldr squeeze []

/-! ## Reading on -/

theorem map_fst_scan (follow : Option Sent) (s : Scan) (text : List Sent) :
    (scan follow s text).map Prod.fst = text := by
  induction text generalizing s with
  | nil => rfl
  | cons c rest ih => exact congrArg (c :: ·) (ih _)

theorem scan_append (follow : Option Sent) (s : Scan) (front back : List Sent) :
    scan follow s (front ++ back) =
      scan (back.head?.or follow) s front ++
        scan follow (finish (back.head?.or follow) s front) back := by
  induction front generalizing s with
  | nil => rfl
  | cons c rest ih =>
      have next : (rest ++ back).head?.or follow = rest.head?.or (back.head?.or follow) := by
        rw [List.head?_append, Option.or_assoc]
      rw [List.cons_append, scan, next, ih]
      rfl

theorem finish_append (follow : Option Sent) (s : Scan) (front back : List Sent) :
    finish follow s (front ++ back) =
      finish follow (finish (back.head?.or follow) s front) back := by
  induction front generalizing s with
  | nil => rfl
  | cons c rest ih =>
      have next : (rest ++ back).head?.or follow = rest.head?.or (back.head?.or follow) := by
        rw [List.head?_append, Option.or_assoc]
      rw [List.cons_append, finish, next, ih]
      rfl

/-- What can make a difference as the second of two characters. -/
def edge (next : Option Sent) : Option Sent :=
  next.filter fun c => c = .char '-' ∨ c = .char '*' ∨ c = .char '/'

theorem eq_edge_iff {next : Option Sent} {c : Sent} (sharp : c = .char '-' ∨ c = .char '*' ∨ c = .char '/') :
    edge next = some c ↔ next = some c := by
  rw [edge, Option.filter_eq_some_iff]
  exact and_iff_left (decide_eq_true sharp)

theorem step_edge (s : Scan) (c : Sent) {next next' : Option Sent} (same : edge next = edge next') :
    s.step c next = s.step c next' := by
  have dash : next = some (.char '-') ↔ next' = some (.char '-') := by
    rw [← eq_edge_iff (.inl rfl), same, eq_edge_iff (.inl rfl)]
  have star : next = some (.char '*') ↔ next' = some (.char '*') := by
    rw [← eq_edge_iff (.inr (.inl rfl)), same, eq_edge_iff (.inr (.inl rfl))]
  have slash : next = some (.char '/') ↔ next' = some (.char '/') := by
    rw [← eq_edge_iff (.inr (.inr rfl)), same, eq_edge_iff (.inr (.inr rfl))]
  cases s with
  | code => simp only [Scan.step, dash, star]
  | block => simp only [Scan.step, slash]
  | single | double | line | blockOpen | blockClose => rfl

theorem edge_or {next follow follow' : Option Sent} (same : edge follow = edge follow') :
    edge (next.or follow) = edge (next.or follow') := by
  cases next with
  | none => exact same
  | some c => rfl

theorem scan_follow {follow follow' : Option Sent} (same : edge follow = edge follow') (s : Scan)
    (text : List Sent) : scan follow s text = scan follow' s text := by
  induction text generalizing s with
  | nil => rfl
  | cons c rest ih => rw [scan, scan, step_edge s c (edge_or same), ih]

theorem finish_follow {follow follow' : Option Sent} (same : edge follow = edge follow') (s : Scan)
    (text : List Sent) : finish follow s text = finish follow' s text := by
  induction text generalizing s with
  | nil => rfl
  | cons c rest ih => rw [finish, finish, step_edge s c (edge_or same), ih]

/-- A character that opens nothing. -/
def isPlain (c : Sent) : Bool :=
  c ≠ .char '\'' && c ≠ .char '"' && c ≠ .char '-' && c ≠ .char '/'

theorem step_plain {c : Sent} (plain : isPlain c = true) (next : Option Sent) :
    Scan.code.step c next = (.code, .code) := by
  simp only [isPlain, Bool.and_eq_true, decide_eq_true_eq] at plain
  obtain ⟨⟨⟨single, double⟩, dash⟩, slash⟩ := plain
  simp [Scan.step, single, double, dash, slash]

theorem scan_plain (follow : Option Sent) {text : List Sent} (plain : ∀ c ∈ text, isPlain c = true) :
    scan follow .code text = text.map fun c => (c, .code) := by
  induction text with
  | nil => rfl
  | cons c rest ih =>
      rw [scan, step_plain (plain c List.mem_cons_self)]
      exact congrArg _ (ih fun d inside => plain d (List.mem_cons_of_mem c inside))

theorem finish_plain (follow : Option Sent) {text : List Sent} (plain : ∀ c ∈ text, isPlain c = true) :
    finish follow .code text = .code := by
  induction text with
  | nil => rfl
  | cons c rest ih =>
      rw [finish, step_plain (plain c List.mem_cons_self)]
      exact ih fun d inside => plain d (List.mem_cons_of_mem c inside)

end LocalHarness.Library.SqlText
