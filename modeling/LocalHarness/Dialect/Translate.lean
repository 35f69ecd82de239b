import LocalHarness.Library.SqlText
import LocalHarness.Library.Words

/-! # One statement, as the other backend would have it

The translation of a statement of SQLite for Postgres: an `OR IGNORE` or `OR REPLACE` becomes a
clause at the end, and each parameter is written as the driver wants it. The driver then reads the
text by its own rule of percent signs.
-/

namespace LocalHarness.Dialect

open LocalHarness.Library SqlText Words

/-! ## Placeholders -/

/-- How far it is to the end of the line. -/
def lineEnd (sql : List Char) : Nat :=
  (sql.takeWhile (· ≠ '\n')).length

/-- How far it is to the end of the comment, its closing included. -/
def closing : List Char → Nat
  | [] => 0
  | c :: rest => if c = '*' ∧ rest.head? = some '/' then 2 else 1 + closing rest

/-- `placeholders` from where it stands: how much of a comment is still to be taken over, and the
    quote of the literal it is in. -/
def placeholdersFrom : Nat → Option Char → List Char → List Char
  | _, _, [] => []
  | copy + 1, quote, c :: rest => c :: placeholdersFrom copy quote rest
  | 0, some quote, c :: rest =>
      c :: placeholdersFrom 0 (if c = quote then none else some quote) rest
  | 0, none, c :: rest =>
      if c = '\'' ∨ c = '"' then c :: placeholdersFrom 0 (some c) rest
      else if c = '-' ∧ rest.head? = some '-' then c :: placeholdersFrom (lineEnd rest) none rest
      else if c = '/' ∧ rest.head? = some '*' then
        c :: placeholdersFrom (1 + closing rest.tail) none rest
      else if c = '?' then '%' :: 's' :: placeholdersFrom 0 none rest
      else c :: placeholdersFrom 0 none rest

def placeholders (sql : List Char) : List Char :=
  placeholdersFrom 0 none sql

/-! ## Conflicts -/

abbrev Phrase := List (Option (List Char))

def INSERT_OR (what : String) : Phrase :=
  ["INSERT", "OR", what, "INTO"].map fun word => some word.toList

def _OR_IGNORE : Phrase :=
  INSERT_OR "IGNORE"

/-- The last word is the table. -/
def _OR_REPLACE : Phrase :=
  INSERT_OR "REPLACE" ++ [none]

def _UPSERT_KEYS : List (String × String) :=
  [("meta", "key")]

def _UPSERT_SET : List (String × List String) :=
  [("meta", ["value"])]

def search (phrase : Phrase) (sql : List Char) :
    Option (List (Piece Char) × List (Piece Char) × List (Piece Char)) :=
  locate id phrase (pieces id sql)

def subst (phrase : Phrase) (new : String) (sql : List Char) : List Char :=
  sub id phrase new.toList 0 (pieces id sql)

/-- The statement without blanks at its end, and then without semicolons. -/
def rstripped (sql : List Char) : List Char :=
  (sql.rdropWhile Text.isSpace).rdropWhile (· = ';')

/-- The last word of a match. -/
def tableOf (matched : List Char) : String :=
  .ofList (matched.rtakeWhile isWord)

def ignoreClause : String :=
  " ON CONFLICT DO NOTHING"

def upsertClause (key : String) (cols : List String) : String :=
  " ON CONFLICT (" ++ key ++ ") DO UPDATE SET " ++
    String.intercalate ", " (cols.map fun c => c ++ " = EXCLUDED." ++ c)

structure ValueError where
  table : String
  deriving DecidableEq

def ValueError.text (error : ValueError) : String :=
  "INSERT OR REPLACE INTO " ++ error.table ++ " has no recorded conflict key. An upsert must name " ++
    "what it conflicts on; add " ++ error.table ++ " to _UPSERT_KEYS rather than guessing here."

def ignoring (sql : List Char) : List Char :=
  if (search _OR_IGNORE sql).isSome then
    rstripped (subst _OR_IGNORE "INSERT INTO" sql) ++ ignoreClause.toList
  else sql

def replacing (sql : List Char) : Except ValueError (List Char) :=
  match search _OR_REPLACE sql with
  | none => .ok sql
  | some (_, matched, _) =>
      let table := tableOf (text matched)
      match _UPSERT_KEYS.lookup table with
      | none => .error ⟨table⟩
      | some key =>
          let cols := (_UPSERT_SET.lookup table).getD []
          .ok (rstripped (subst _OR_REPLACE ("INSERT INTO " ++ table) sql) ++
            (upsertClause key cols).toList)

/-- What `translate` does before the placeholders. -/
def conflicts (sql : List Char) : Except ValueError (List Char) :=
  replacing (ignoring sql)

def translate (sql : List Char) : Except ValueError (List Char) :=
  (conflicts sql).map placeholders

/-! ## The driver -/

/-- The driver's reading: `%s` is a parameter, `%%` a percent sign, and any other `%` is refused. -/
def psycopg : List Char → Option (List Sent)
  | [] => some []
  | [c] => if c = '%' then none else some [.char c]
  | c :: d :: rest =>
      if c = '%' then
        if d = 's' then (psycopg rest).map (.param :: ·)
        else if d = '%' then (psycopg rest).map (.char '%' :: ·)
        else none
      else (psycopg (d :: rest)).map (.char c :: ·)

end LocalHarness.Dialect
