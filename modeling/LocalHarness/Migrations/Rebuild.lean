import Mathlib.Data.List.Basic
import Mathlib.Data.Rat.Defs
import LocalHarness.Library.Program

/-! # The migration chain as far as the rebuild of the verdicts table

The steps up to schema 24 that touch the table's columns, and the rebuild itself: another table is
made beside it, its rows are copied over, and it takes the first one's name. The rows that other
steps write are not part of this; what they do after the rebuild is whatever a chain has there.
-/

namespace LocalHarness.Migrations

open LocalHarness.Library

def SCHEMA_VERSION : Nat := 63

inductive Value
  | null
  | integer (n : Int)
  | real (q : ℚ)
  | text (s : String)
  deriving DecidableEq

structure Column where
  name : String
  type : String
  default : Value := .null
  deriving DecidableEq

abbrev Row := String → Value

structure Table where
  columns : List Column
  rows : List Row

def Table.names (t : Table) : List String :=
  t.columns.map Column.name

/-- The part of a store that the rebuild reads and writes. -/
structure Db where
  schema : Nat
  verdicts : Option Table
  verdictsNew : Option Table := none

inductive Error
  | newer (have_ : Nat)
  | noTable (name : String)
  | tableExists (name : String)
  | duplicateColumn (name : String)
  deriving DecidableEq

def Error.text : Error → String
  | .newer have_ =>
      "discovery.db is schema " ++ toString have_ ++ ", this code speaks " ++
        toString SCHEMA_VERSION ++ ". Refusing to touch a newer store."
  | .noTable name => "no such table: " ++ name
  | .tableExists name => "table " ++ name ++ " already exists"
  | .duplicateColumn name => "duplicate column name: " ++ name

/-- The columns of `verdicts` as the DDL has them. -/
def verdictsDDL : List Column :=
  [⟨"id", "INTEGER", .null⟩, ⟨"proposal_id", "INTEGER", .null⟩, ⟨"outcome", "TEXT", .null⟩,
    ⟨"tier", "TEXT", .text ""⟩, ⟨"detail", "TEXT", .text ""⟩, ⟨"run_path", "TEXT", .text ""⟩,
    ⟨"score", "REAL", .null⟩, ⟨"rubric", "TEXT", .text ""⟩, ⟨"judge", "TEXT", .text ""⟩,
    ⟨"decided_at", "REAL", .null⟩, ⟨"machine_id", "INTEGER", .null⟩,
    ⟨"size_bytes", "INTEGER", .integer 0⟩, ⟨"upstream_idle_days", "REAL", .real 0⟩,
    ⟨"until", "TEXT", .text ""⟩, ⟨"candidate_id", "INTEGER", .null⟩, ⟨"reopens", "INTEGER", .null⟩,
    ⟨"reopen_kind", "TEXT", .text ""⟩, ⟨"run_id", "INTEGER", .null⟩, ⟨"reason", "TEXT", .text ""⟩,
    ⟨"failure_class", "TEXT", .text ""⟩, ⟨"split_version", "TEXT", .text ""⟩,
    ⟨"power", "TEXT", .text "\x7b\x7d"⟩]

/-! ## The steps before -/

def Table.add (t : Table) (c : Column) : Table where
  columns := t.columns ++ [c]
  rows := t.rows.map fun row name => if name = c.name then c.default else row name

/-- The column is added where it is not there. -/
def addMissing (c : Column) (t : Table) : Table :=
  if c.name ∈ t.names then t else t.add c

def renameColumn (old new : String) (t : Table) : Except Error Table :=
  if new ∈ t.names then .error (.duplicateColumn new)
  else
    .ok
      { columns := t.columns.map fun c => if c.name = old then { c with name := new } else c
        rows := t.rows.map fun row name => if name = new then row old else row name }

def attachesTo : Column := ⟨"attaches_to", "TEXT", .text ""⟩

def upstreamIdleDays : Column := ⟨"upstream_idle_days", "REAL", .real 0⟩

def staleDays : String := "stale_days"

/-- What a step does to the columns of `verdicts`. -/
inductive Action
  | add (c : Column)
  /-- The attachment kind and the upstream's age get columns, the second by its later name. -/
  | v14
  /-- Whose staleness it is. -/
  | v15

def Action.perform : Action → Table → Except Error Table
  | .add c, t => .ok (addMissing c t)
  | .v14, t => do
      let t := if staleDays ∈ t.names then t else addMissing upstreamIdleDays (addMissing attachesTo t)
      let t ← if staleDays ∈ t.names then renameColumn staleDays "upstream_idle_days" t else .ok t
      return addMissing attachesTo t
  | .v15, t =>
      if staleDays ∈ t.names ∧ "upstream_idle_days" ∉ t.names then
        renameColumn staleDays "upstream_idle_days" t
      else .ok (addMissing upstreamIdleDays t)

/-- Columns and indexes run on every migration; early and data only when the store is older. -/
inductive Phase
  | columns
  | early
  | data
  | indexes
  deriving DecidableEq

structure Step where
  version : Nat
  phase : Phase
  /-- Also runs on a new store, not only an upgraded one. -/
  fresh : Bool := false
  action : Action

/-- Whether a step runs a phase on a store at schema `have_`. -/
def due (version : Nat) (phase : Phase) (fresh : Bool) (have_ : Nat) : Bool :=
  phase = .columns || phase = .indexes || have_ < version && (0 < have_ || fresh)

/-- What runs before the rebuild, phase by phase and version by version. -/
def chain : List Step :=
  [⟨25, .columns, false, .add ⟨"reopens", "INTEGER", .null⟩⟩,
    ⟨25, .columns, false, .add ⟨"reopen_kind", "TEXT", .text ""⟩⟩,
    ⟨29, .columns, false, .add ⟨"reason", "TEXT", .text ""⟩⟩,
    ⟨46, .columns, false, .add ⟨"failure_class", "TEXT", .text ""⟩⟩,
    ⟨46, .columns, false, .add ⟨"split_version", "TEXT", .text ""⟩⟩,
    ⟨46, .columns, false, .add ⟨"power", "TEXT", .text "\x7b\x7d"⟩⟩,
    ⟨27, .early, true, .add ⟨"run_id", "INTEGER", .null⟩⟩,
    ⟨12, .data, false, .add ⟨"machine_id", "INTEGER", .null⟩⟩,
    ⟨12, .data, false, .add ⟨"until", "TEXT", .text ""⟩⟩,
    ⟨13, .data, false, .add ⟨"size_bytes", "INTEGER", .integer 0⟩⟩,
    ⟨14, .data, false, .v14⟩, ⟨15, .data, false, .v15⟩]

def dueActions (have_ : Nat) : List Action :=
  (chain.filter fun s => due s.version s.phase s.fresh have_).map Step.action

def performAll (actions : List Action) (t : Table) : Except Error Table :=
  actions.foldlM (fun t action => action.perform t) t

/-! ## The rebuild -/

inductive Stmt
  | commit
  | foreignKeys (on : Bool)
  | create (columns : List Column)
  | addColumn (c : Column)
  | insert (names : List String)
  | drop
  | rename
  | index
  deriving DecidableEq

/-- Columns since retired, which ride along; what is read of one is its name and its type. -/
def retired (t : Table) : List Column :=
  (t.columns.filter fun c => c.name ∉ verdictsDDL.map Column.name).map fun c => ⟨c.name, c.type, .null⟩

/-- `_verdicts_name_a_candidate`, on SQLite. -/
def verdictsNameACandidate (t : Table) : List Stmt :=
  [.commit, .foreignKeys false, .create verdictsDDL] ++ (retired t).map .addColumn ++
    [.insert t.names, .drop, .rename, .index, .commit, .foreignKeys true]

def columnDefault (columns : List Column) (name : String) : Value :=
  ((columns.find? fun c => c.name = name).map Column.default).getD .null

/-- The named values of each row, and the defaults of the other columns. -/
def copied (into : Table) (names : List String) (source : Table) : Table :=
  { into with
    rows := into.rows ++ source.rows.map fun row name =>
      if name ∈ names then row name else columnDefault into.columns name }

def exec (s : Session Db) : Stmt → Except Error (Session Db)
  | .commit => .ok s.commit
  | .foreignKeys _ | .index => .ok s
  | .create columns =>
      if s.working.verdictsNew.isSome then .error (.tableExists "verdicts_new")
      else .ok (s.define fun db => { db with verdictsNew := some ⟨columns, []⟩ })
  | .addColumn c =>
      match s.working.verdictsNew with
      | none => .error (.noTable "verdicts_new")
      | some t =>
          if c.name ∈ t.names then .error (.duplicateColumn c.name)
          else .ok (s.define fun db => { db with verdictsNew := some (t.add c) })
  | .insert names =>
      match s.working.verdictsNew, s.working.verdicts with
      | none, _ => .error (.noTable "verdicts_new")
      | _, none => .error (.noTable "verdicts")
      | some into, some source =>
          .ok (s.write fun db => { db with verdictsNew := some (copied into names source) })
  | .drop =>
      if s.working.verdicts.isNone then .error (.noTable "verdicts")
      else .ok (s.define fun db => { db with verdicts := none })
  | .rename =>
      match s.working.verdictsNew with
      | none => .error (.noTable "verdicts_new")
      | some t =>
          if s.working.verdicts.isSome then .error (.tableExists "verdicts")
          else .ok (s.define fun db => { db with verdicts := some t, verdictsNew := none })

def execAll (stmts : List Stmt) (s : Session Db) : Except Error (Session Db) :=
  stmts.foldlM exec s

/-- The chain on a store: the steps before the rebuild, the rebuild if it is due, and the rest. The
    schema number is written last of all. -/
def migrateSteps (rest : Db → Except Error Db) (db : Db) : Except Error Db :=
  if db.schema = SCHEMA_VERSION then .ok db
  else if SCHEMA_VERSION < db.schema then .error (.newer db.schema)
  else
    match db.verdicts with
    | none => .error (.noTable "verdicts")
    | some t => do
        let found ← performAll (dueActions db.schema) t
        let ready : Db := { db with verdicts := some found }
        let rebuilt ←
          if due 24 .data false db.schema then
            (execAll (verdictsNameACandidate found) (.fresh ready)).map Session.working
          else .ok ready
        let got ← rest rebuilt
        return { got with schema := SCHEMA_VERSION }

end LocalHarness.Migrations
