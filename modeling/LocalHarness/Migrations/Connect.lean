import Mathlib.Logic.Function.Basic
import LocalHarness.Library.Program
import LocalHarness.Library.Runs
import LocalHarness.Migrations.Rebuild

/-! # Processes that open one store

Each runs the DDL, reads the schema number and, where it is older, the chain of steps; the number
is written at the end of the chain. The steps that add columns are the source's. The bodies of the
other phases stand for whatever they do, at the times and on the machine of their process.
-/

namespace LocalHarness.Migrations

open LocalHarness.Library LocalHarness.Runs

/-- A store as the opening reads and writes it: the schema number in `meta`, 0 where there is none,
    the columns of every table, and the rows. -/
structure Store (ρ : Type) where
  schema : Nat
  tables : String → Option (List String)
  rows : ρ

inductive Refusal
  | liveStoreRefused (have_ : Nat)
  | sql (error : Error)
  | step (text : String)
  deriving DecidableEq

def _DDL : List (String × List String) :=
  [("meta", ["key", "value"]),
    ("proposals", ["id", "name", "kind", "registry", "description", "lane", "resolved",
      "first_seen", "last_seen", "state", "state_verdict_id", "retest_count", "next_retest_at",
      "size_bytes", "hf_task", "library", "card_tags", "attaches_to", "runtime_needed",
      "lane_source", "card_read", "category", "model_type", "remote_code"]),
    ("lineage", ["id", "proposal_id", "parent", "kind"]),
    ("sightings", ["id", "proposal_id", "source", "url", "why", "relevance", "seen_at",
      "machine_id"]),
    ("candidates", ["id", "proposal_id", "spec", "receipt_key", "lane", "created_at"]),
    ("verdicts", ["id", "proposal_id", "outcome", "tier", "detail", "run_path", "score", "rubric",
      "judge", "decided_at", "machine_id", "size_bytes", "upstream_idle_days", "until",
      "candidate_id", "reopens", "reopen_kind", "run_id", "reason", "failure_class",
      "split_version", "power"]),
    ("machines", ["id", "fingerprint", "hw_model", "os", "arch", "memory_gb", "accelerator",
      "runtimes", "ceiling_gb", "first_seen", "last_seen", "versions"]),
    ("memory_limits", ["id", "machine_id", "measured_at", "margin_gb", "last_normal_gb",
      "stopped", "report"]),
    ("machine_merges", ["id", "from_id", "from_fingerprint", "into_id", "repointed", "merged_at"]),
    ("jobs", ["id", "title", "kind", "output", "priority", "argv", "cwd", "state", "created_at",
      "started_at", "finished_at", "rc", "log", "note", "requested_by", "machine_id"]),
    ("runs", ["id", "path", "lane", "tier", "machine_id", "generated_at", "repeat_count",
      "cases_digest", "receipt", "environment", "specs", "recorded_at", "job_id", "split",
      "split_version"]),
    ("results", ["id", "run_id", "seq", "candidate_id", "candidate", "case_id", "repeat_index",
      "passed", "seconds", "peak_kb", "detail", "metrics", "warnings", "output", "artifact_path",
      "failure_class", "hit_limit", "ttft_s", "first_reasoning_s", "prefill_s", "cold", "attempts"]),
    ("adoptions", ["id", "lane", "candidate_id", "incumbent_id", "run_id", "verdict_id",
      "machine_id", "how", "adopted_at", "all_machines", "votes", "agreement", "forced", "cost"]),
    ("gateway_switches", ["id", "lane", "old_spec", "new_spec", "how", "requested_at",
      "switched_at", "in_flight", "outcome", "reason"]),
    ("gateway_requests", ["id", "at", "alias", "lane", "served", "spec", "client", "call_type",
      "stream", "prompt_tokens", "completion_tokens", "ttft_s", "total_s", "tool_calls",
      "tool_calls_valid", "finish_reason", "error_class", "error_code"]),
    ("gateway_samples", ["request_id", "prompt", "completion"]),
    ("reverifications", ["id", "lane", "candidate_id", "spec", "incumbent", "triggers", "job_id",
      "baseline_run_id", "run_id", "machine_id", "queued_at", "settled_at", "outcome", "reason",
      "failure_class", "detail"]),
    ("knob_sweeps", ["id", "knob", "lane", "spec", "candidate_id", "machine_id", "jobs",
      "trigger", "queued_at", "settled_at", "outcome", "chosen", "cost", "detail"]),
    ("downloads", ["id", "proposal_id", "repo", "kind", "path", "file", "origin", "source",
      "bytes", "files", "complete", "requires", "started_at", "finished_at", "removed_at",
      "removed_by", "removal_verdict_id", "machine_id", "ctx", "ctx_trained", "kv_bytes_token",
      "ctx_slots", "ctx_why", "ctx_at", "kv_cap_bytes", "coresident_bytes"]),
    ("edges", ["id", "src", "dst", "relation", "note", "shared", "crowd", "score"]),
    ("sources", ["id", "name", "kind", "url", "enabled", "last_read_at", "last_attempt_at",
      "last_status", "last_error", "failures", "retired"]),
    ("extractions", ["id", "name", "source", "reason", "at"]),
    ("benchmarks", ["id", "name", "lane", "registry", "url", "license", "gated", "created",
      "updated", "size", "rows", "task_format", "revision", "likes", "downloads", "description",
      "first_seen", "last_seen"]),
    ("candidate_training", ["id", "candidate", "alias", "lane", "cutoff", "cutoff_source",
      "datasets", "read_at"]),
    ("contamination_probes", ["id", "model", "lane", "case_id", "family", "outcome", "overlap",
      "detail", "at"]),
    ("human_votes", ["id", "lane", "run", "case_id", "left_candidate", "right_candidate",
      "winner", "shown_first", "voter", "machine_id", "at"])]

variable {ρ : Type}

namespace Store

def columnsOf (s : Store ρ) (table : String) : List String :=
  (s.tables table).getD []

def setTable (s : Store ρ) (table : String) (columns : List String) : Store ρ :=
  { s with tables := Function.update s.tables table (some columns) }

/-- `CREATE TABLE IF NOT EXISTS`. -/
def create (s : Store ρ) (table : String × List String) : Store ρ :=
  if (s.tables table.1).isSome then s else s.setTable table.1 table.2

/-- The DDL as a script, statement by statement. -/
def made (s : Store ρ) (tables : List (String × List String)) : Store ρ :=
  tables.foldl create s

/-- What `ALTER TABLE .. ADD COLUMN` finds wrong, if anything. -/
def refusesColumn (s : Store ρ) (table col : String) : Option Error :=
  match s.tables table with
  | none => some (.noTable table)
  | some columns => if col ∈ columns then some (.duplicateColumn col) else none

def addColumn (s : Store ρ) (table col : String) : Store ρ :=
  if (s.refusesColumn table col).isSome then s else s.setTable table (s.columnsOf table ++ [col])

end Store

abbrev Body (ρ : Type) := Program (Store ρ) Refusal

/-! ## The steps that add columns -/

def alter (table col : String) (next : Body ρ) : Body ρ :=
  .exec false (fun s => s.addColumn table col) fun s =>
    match s.refusesColumn table col with
    | some error => .raise (.sql error)
    | none => next

/-- Each column is looked for and then added. -/
def addEach : List (String × String) → Body ρ
  | [] => .through
  | (table, col) :: rest =>
      .read fun s =>
        if col ∈ s.columnsOf table then addEach rest else alter table col (addEach rest)

/-- The columns are looked for once and then added one after another. -/
def addAll (table : String) (cols : List String) : Body ρ :=
  .read fun s =>
    (cols.filter fun col => col ∉ s.columnsOf table).foldr (alter table) .through

def _add_state : Body ρ :=
  addEach [("proposals", "state"), ("proposals", "state_verdict_id"), ("verdicts", "reopens"),
    ("verdicts", "reopen_kind")]

def _add_retest : Body ρ :=
  addEach [("proposals", "retest_count"), ("proposals", "next_retest_at")]

def _add_reasons : Body ρ :=
  addEach [("verdicts", "reason"), ("results", "failure_class"), ("results", "hit_limit")]

def v30Columns : Body ρ :=
  addEach [("proposals", "size_bytes")]

def CARD_COLUMNS : List String :=
  ["hf_task", "library", "card_tags", "attaches_to", "runtime_needed", "lane_source", "card_read"]

def _add_card_facts : Body ρ :=
  addEach (CARD_COLUMNS.map fun col => ("proposals", col))

def _add_machine_versions : Body ρ :=
  addEach [("machines", "versions")]

def v35Columns : Body ρ :=
  addEach [("runs", "job_id")]

def _add_sighting_machine : Body ρ :=
  addEach [("sightings", "machine_id")]

def _add_result_split : Body ρ :=
  addEach [("results", "output"), ("results", "artifact_path")]

def _add_first_token : Body ρ :=
  addEach [("results", "ttft_s"), ("results", "first_reasoning_s"), ("results", "prefill_s"),
    ("results", "cold")]

def _add_served_context : Body ρ :=
  addEach [("downloads", "ctx"), ("downloads", "ctx_trained"), ("downloads", "kv_bytes_token"),
    ("downloads", "ctx_slots"), ("downloads", "ctx_why"), ("downloads", "ctx_at"),
    ("downloads", "kv_cap_bytes"), ("downloads", "coresident_bytes")]

def _add_holdout_power : Body ρ :=
  addEach [("verdicts", "failure_class"), ("verdicts", "split_version"), ("verdicts", "power"),
    ("runs", "split"), ("runs", "split_version")]

def v49Columns : Body ρ :=
  addAll "adoptions" ["all_machines", "votes", "agreement", "forced", "cost"]

def _add_switch_outcome : Body ρ :=
  addEach [("gateway_switches", "outcome"), ("gateway_switches", "reason")]

def _add_category : Body ρ :=
  addEach [("proposals", "category")]

def CODE_COLUMNS : List String :=
  ["model_type", "remote_code"]

def _add_code_facts : Body ρ :=
  addEach (CODE_COLUMNS.map fun col => ("proposals", col))

def _add_source_retired : Body ρ :=
  addEach [("sources", "retired")]

def _add_attempts : Body ρ :=
  addEach [("results", "attempts")]

/-- The `columns` phase of a version, where it has one. -/
def columnsPhase (version : Nat) : Option (Body ρ) :=
  match version with
  | 25 => some _add_state
  | 26 => some _add_retest
  | 29 => some _add_reasons
  | 30 => some v30Columns
  | 32 => some _add_card_facts
  | 33 => some _add_machine_versions
  | 35 => some v35Columns
  | 38 => some _add_sighting_machine
  | 41 => some _add_result_split
  | 42 => some _add_first_token
  | 45 => some _add_served_context
  | 46 => some _add_holdout_power
  | 49 => some v49Columns
  | 51 => some _add_switch_outcome
  | 56 => some _add_category
  | 57 => some _add_code_facts
  | 61 => some _add_source_retired
  | 63 => some _add_attempts
  | _ => none

/-! ## The chain -/

def PHASES : List Phase :=
  [.columns, .early, .data, .indexes]

/-- The versions whose steps also run on a new store. -/
def FRESH : List Nat :=
  [3, 23, 27, 34, 35]

/-- One checkout: whether it must leave this store to the deployed one, and what the phases other
    than `columns` do in each process. -/
structure Checkout (P : Type) (ρ : Type) where
  refuses : Bool
  others : P → Nat → Phase → Option (Body ρ)

variable {P : Type}

namespace Checkout

variable (checkout : Checkout P ρ)

def body (p : P) (version : Nat) (phase : Phase) : Option (Body ρ) :=
  if phase = .columns then columnsPhase version else checkout.others p version phase

/-- Every step module, in order of its version. -/
def steps : List Nat :=
  (List.range SCHEMA_VERSION).map (· + 1)

def dueBodies (p : P) (have_ : Nat) : List (Body ρ) :=
  PHASES.flatMap fun phase =>
    (steps.filter fun version => due version phase (version ∈ FRESH) have_).filterMap fun version =>
      checkout.body p version phase

/-- What a process runs that has read an older number: the chain, and then the number of its own
    code. -/
def migrateSteps (p : P) (have_ : Nat) : Body ρ :=
  (Program.inTurn (checkout.dueBodies p have_)).andThen
    (.exec true (fun s => { s with schema := SCHEMA_VERSION }) fun _ => .commit .through)

end Checkout

/-! ## The processes -/

/-- How far a call of `connect` is. With nothing left to create it reads the schema number next. -/
inductive Stage (ρ : Type)
  | guarding
  | creating (todo : List (String × List String))
  | migrating (rest : Body ρ)
  | opened
  | raised (refusal : Refusal)

structure World (P : Type) (ρ : Type) where
  shared : Shared P (Store ρ)
  stage : P → Stage ρ

variable [DecidableEq P]

namespace World

def setStage (w : World P ρ) (p : P) (stage : Stage ρ) : World P ρ :=
  { w with stage := Function.update w.stage p stage }

def store (w : World P ρ) : Store ρ :=
  w.shared.committed

/-- The process is between its own reading of the schema number and its commit. -/
def inChain (w : World P ρ) (p : P) : Bool :=
  match w.stage p with
  | .migrating _ => true
  | _ => false

end World

namespace Checkout

variable (checkout : Checkout P ρ)

/-- What a process does that finds this schema number. -/
def found (p : P) (have_ : Nat) : Stage ρ :=
  if have_ = SCHEMA_VERSION then .opened
  else if SCHEMA_VERSION < have_ then .raised (.sql (.newer have_))
  else .migrating (checkout.migrateSteps p have_)

/-- The next statement of a process, where it has one and nobody holds it up. -/
def step (w : World P ρ) (p : P) : Option (World P ρ) :=
  match w.stage p with
  | .guarding =>
      some
        (w.setStage p <|
          if checkout.refuses && decide (w.store.schema < SCHEMA_VERSION) then
            .raised (.liveStoreRefused w.store.schema)
          else .creating _DDL)
  | .creating (table :: rest) =>
      if (w.store.tables table.1).isSome then some (w.setStage p (.creating rest))
      else if w.shared.free p then
        some
          { shared := { w.shared with committed := w.store.create table }
            stage := Function.update w.stage p (.creating rest) }
      else none
  | .creating [] => some (w.setStage p (checkout.found p w.store.schema))
  | .migrating .through => some (w.setStage p .opened)
  | .migrating (.raise refusal) =>
      some
        { shared := w.shared.release p
          stage := Function.update w.stage p (.raised refusal) }
  | .migrating rest =>
      (w.shared.statement p rest).map fun moved =>
        { shared := moved.1
          stage := Function.update w.stage p (.migrating moved.2) }
  | .opened | .raised _ => none

/-- The processes of one checkout that start on a store. -/
def system (s : Store ρ) : System (World P ρ) P where
  start := fun w => w.shared = { committed := s } ∧ ∀ p, w.stage p = .guarding
  step := checkout.step

/-- A process that opens the store with nobody else about. -/
def connect (p : P) (s : Store ρ) : Except Refusal (Store ρ) :=
  if checkout.refuses && decide (s.schema < SCHEMA_VERSION) then
    .error (.liveStoreRefused s.schema)
  else
    if (s.made _DDL).schema = SCHEMA_VERSION then .ok (s.made _DDL)
    else if SCHEMA_VERSION < (s.made _DDL).schema then .error (.sql (.newer (s.made _DDL).schema))
    else
      ((checkout.migrateSteps p (s.made _DDL).schema).run (.fresh (s.made _DDL))).map
        Session.working

end Checkout

end LocalHarness.Migrations
