import LocalHarness.Disk.Inventory
import LocalHarness.Library.Runs

/-! # The rows of what was fetched and of when it went

A download is a row from its start on. A removal is stamped and never taken back, so a path that is fetched again
has another row. What the rows and the disk disagree in, `record_unrecorded` settles.
-/

namespace LocalHarness.Disk.Downloads

open LocalHarness.Library

def FETCH : String := "fetch"
def LINK : String := "hub-link"
def SCAN : String := "scan"
def PARTIAL : String := "partial"

/-- A row of `downloads`. -/
structure Row where
  proposalId : Option Nat
  repo : String
  kind : Kind
  path : String
  file : String
  origin : String
  source : String := ""
  bytes : Nat := 0
  files : Nat := 0
  /-- Config or weights present when measured; a card alone is not. -/
  complete : Bool := false
  requires : List String := []
  startedAt : Option ℚ := none
  finishedAt : Option ℚ := none
  removedAt : Option ℚ := none
  removedBy : String := ""
  removalVerdictId : Option Nat := none
  machineId : Nat
  deriving DecidableEq

/-- Whose weights, of which kind, and where. -/
def Row.place (row : Row) : Nat × Kind × String :=
  (row.machineId, row.kind, row.path)

/-- The columns that the inventory reads. -/
def Row.shown (row : Row) : Download where
  path := row.path
  repo := row.repo
  proposalId := row.proposalId
  machineId := some row.machineId
  removed := row.removedAt.isSome

/-- What an operation finds outside the rows. A path that is stored is its own, and names what the path given
    names; what a scan lists is there. -/
structure World where
  fingerprint : String
  now : ℚ
  tree : Tree
  key : String → String
  lexists : String → Bool
  measure : Kind → String → Nat × Nat
  loadable : Kind → String → Bool
  /-- The repos that the config at a path names, besides its own. -/
  requires : String → String → List String
  /-- The last part of a path. -/
  name : String → String
  /-- Of a link, where it leads. -/
  link : String → Option String
  real : String → String
  is_gguf : String → Bool
  /-- The proposal of a name. -/
  proposal : String → Option Nat
  key_key : ∀ path, key (key path) = key path
  lexists_key : ∀ path, lexists (key path) = lexists path
  present : ∀ seen ∈ tree.dirs ++ tree.files, lexists seen.path = true
  stored : ∀ seen ∈ tree.dirs ++ tree.files, seen.key = key seen.path

/-- `scan` -/
def World.scan (w : World) : List (Kind × String) :=
  (w.tree.dirs.map fun dir => (Kind.hub, dir.path)) ++ w.tree.files.map fun file => (Kind.gguf, file.path)

/-! ## The tables -/

/-- A machine is one row, and every download is of one of the machines. -/
structure Store where
  machines : Table String
  downloads : Table Row
  owned : ∀ row ∈ downloads.rows, row.2.machineId ∈ machines.ids

namespace Store

def empty : Store where
  machines := ∅
  downloads := ∅
  owned := fun _ member => absurd member List.not_mem_nil

variable (s : Store)

/-- `machine_row` -/
def machine_row (fingerprint : String) : Option Nat :=
  (s.machines.rows.find? fun row => row.2 = fingerprint).map Prod.fst

/-- The id that `remember_machine` returns. -/
def machine (fingerprint : String) : Nat :=
  (s.machine_row fingerprint).getD s.machines.nextId

def remembered (fingerprint : String) : Table String :=
  match s.machine_row fingerprint with
  | some _ => s.machines
  | none => s.machines.insert s.machines.nextId fingerprint s.machines.above_nextId

theorem mem_remembered {s : Store} {fingerprint : String} {id : Nat} :
    id ∈ (s.remembered fingerprint).ids ↔ id ∈ s.machines.ids ∨ id = s.machine fingerprint := by
  rw [remembered, machine]
  split
  next known found =>
    rw [found, Option.getD_some]
    refine ⟨.inl, fun either => either.elim (fun present => present) fun same => ?_⟩
    obtain ⟨row, there, rfl⟩ := Option.map_eq_some_iff.mp found
    rw [same]
    exact List.mem_map_of_mem (List.mem_of_find?_eq_some there)
  next unknown =>
    rw [unknown, Option.getD_none]
    exact Table.mem_ids_insert _

theorem owned_insert {s : Store} {fingerprint : String} {id : Nat} {row : Nat → Row} {above : s.downloads.Above id}
    (mine : ∀ id, (row id).machineId = id) :
    ∀ held ∈ (s.downloads.insert id (row (s.machine fingerprint)) above).rows,
      held.2.machineId ∈ (s.remembered fingerprint).ids := by
  intro held member
  refine mem_remembered.mpr ((List.mem_append.mp member).imp (s.owned held) fun new => ?_)
  rw [List.mem_singleton.mp new]
  exact mine (s.machine fingerprint)

/-- A row for this machine, which is remembered. -/
def insert (fingerprint : String) (row : Nat → Row)
    (mine : ∀ id, (row id).machineId = id) : Store where
  machines := s.remembered fingerprint
  downloads := s.downloads.insert s.downloads.nextId (row (s.machine fingerprint)) s.downloads.above_nextId
  owned := owned_insert mine

theorem owned_update {s : Store} {id : Nat} {change : Row → Row}
    (same : ∀ row, (change row).machineId = row.machineId) :
    ∀ row ∈ (s.downloads.update id change).rows, row.2.machineId ∈ s.machines.ids := by
  intro row member
  obtain ⟨old, inside, rfl⟩ := Table.mem_rows_update.mp member
  have held := s.owned old inside
  split
  · rwa [same]
  · exact held

def update (id : Nat) (change : Row → Row) (same : ∀ row, (change row).machineId = row.machineId) : Store where
  machines := s.machines
  downloads := s.downloads.update id change
  owned := owned_update same

/-- This machine's id, without writing a row. -/
def mine (fingerprint : String) : List Nat :=
  (s.machine_row fingerprint).toList

/-- This machine's rows not yet removed, newest first. -/
def live (fingerprint : String) : List (Nat × Row) :=
  (s.downloads.rows.filter fun row => row.2.removedAt = none ∧ row.2.machineId ∈ s.mine fingerprint).reverse

theorem mem_live {s : Store} {fingerprint : String} {row : Nat × Row} : row ∈ s.live fingerprint ↔
    row ∈ s.downloads.rows ∧ row.2.removedAt = none ∧ row.2.machineId = s.machine fingerprint := by
  rw [live, List.mem_reverse, List.mem_filter, decide_eq_true_iff]
  refine and_congr_right fun member => and_congr_right fun _ => ?_
  rw [mine, machine]
  cases known : s.machine_row fingerprint with
  | some id => rw [Option.toList_some, List.mem_singleton, Option.getD_some]
  | none =>
      rw [Option.toList_none, Option.getD_none]
      refine iff_of_false List.not_mem_nil fun same => ?_
      exact (Table.above_nextId s.machines).not_mem (same ▸ s.owned row member)

/-! ## The operations -/

variable (w : World)

/-- The row that a download about to begin is given. -/
def begun (repo : String) (kind : Kind) (path file origin proposal : String) (machineId : Nat) : Row where
  proposalId := w.proposal (if proposal ≠ "" then proposal else repo)
  repo := repo
  kind := kind
  path := w.key path
  file := file
  origin := origin
  startedAt := some w.now
  machineId := machineId

theorem begun_machineId {repo : String} {kind : Kind} {path file origin proposal : String} (id : Nat) :
    (begun w repo kind path file origin proposal id).machineId = id := rfl

def restarted (row : Row) : Row :=
  { row with startedAt := some w.now, finishedAt := none, complete := false }

theorem restarted_machineId (row : Row) : (restarted w row).machineId = row.machineId := rfl

/-- A download about to begin; the row is in flight until `finish`. -/
def start (repo : String) (kind : Kind) (path file origin proposal : String) : Store × Nat :=
  match (s.live w.fingerprint).find? fun row => row.2.kind = kind ∧ row.2.path = w.key path with
  | some got => (s.update got.1 (restarted w) (restarted_machineId w), got.1)
  | none =>
      (s.insert w.fingerprint (begun w repo kind path file origin proposal) (begun_machineId w), s.downloads.nextId)

/-- A row with what landed at a path. -/
def measured (path : String) (failed : Bool) (row : Row) : Row :=
  { row with
    path
    bytes := (w.measure row.kind path).1
    files := (w.measure row.kind path).2
    complete := !failed && w.loadable row.kind path
    requires :=
      if row.kind = .hub ∧ (!failed && w.loadable row.kind path) = true then w.requires path row.repo else []
    finishedAt := some w.now }

theorem measured_machineId {path : String} {failed : Bool} (row : Row) :
    (measured w path failed row).machineId = row.machineId := rfl

/-- Measure what landed and stamp the row. -/
def finish (id : Nat) (path : Option String) (failed : Bool) : Option Store :=
  (s.downloads.find? id).map fun row =>
    s.update id (measured w ((path.map w.key).getD row.path) failed) (measured_machineId w)

def sourced (repo source : String) (at_ : Option ℚ) (row : Row) : Row :=
  { row with startedAt := some (at_.getD w.now), source, repo := if row.repo = "" then repo else row.repo }

theorem sourced_machineId {repo source : String} {at_ : Option ℚ} (row : Row) :
    (sourced w repo source at_ row).machineId = row.machineId := rfl

def finished_at (at_ : Option ℚ) (row : Row) : Row :=
  { row with finishedAt := at_.or row.finishedAt }

theorem finished_at_machineId {at_ : Option ℚ} (row : Row) : (finished_at at_ row).machineId = row.machineId := rfl

/-- A download that already happened, measured now. -/
def record (repo : String) (kind : Kind) (path file origin source proposal : String) (at_ : Option ℚ) :
    Option Store :=
  let begun := s.start w repo kind path file origin proposal
  let moved := begun.1.update begun.2 (sourced w repo source at_) (sourced_machineId w)
  (moved.finish w begun.2 none false).map fun s => s.update begun.2 (finished_at at_) finished_at_machineId

/-- How a removal is stamped. -/
structure Removal where
  by_ : String
  verdictId : Option Nat := none
  repo : String := ""
  kind : Option Kind := none
  bytes : Nat := 0
  at_ : Option ℚ := none
  origin : String := ""

def stamped (how : Removal) (row : Row) : Row :=
  { row with
    removedAt := some (how.at_.getD w.now)
    removedBy := how.by_
    removalVerdictId := how.verdictId
    complete := false }

theorem stamped_machineId {how : Removal} (row : Row) : (stamped w how row).machineId = row.machineId := rfl

def absent (path : String) (how : Removal) (machineId : Nat) : Row where
  proposalId := w.proposal how.repo
  repo := how.repo
  kind := how.kind.getD (if w.is_gguf path then .gguf else .hub)
  path := w.key path
  file := w.name path
  origin := if how.origin ≠ "" then how.origin else SCAN
  bytes := how.bytes
  machineId := machineId
  removedAt := some (how.at_.getD w.now)
  removedBy := how.by_
  removalVerdictId := how.verdictId

theorem absent_machineId {path : String} {how : Removal} (id : Nat) : (absent w path how id).machineId = id := rfl

/-- The rows with these ids are stamped, one after the other. -/
def stamp (how : Removal) : List Nat → Store → Store
  | [], s => s
  | id :: rest, s => stamp how rest (s.update id (stamped w how) (stamped_machineId w))

/-- Stamp the live rows of a path removed; insert one if nothing recorded it. -/
def removed (path : String) (how : Removal) : Store :=
  match (s.live w.fingerprint).filter fun row => row.2.path = w.key path with
  | [] => s.insert w.fingerprint (absent w path how) (absent_machineId w)
  | first :: rest => stamp w how (first.1 :: rest.map Prod.fst) s

/-- Rows whose path is gone. -/
def gone : List (Nat × Row) :=
  (s.live w.fingerprint).filter fun row => row.2.origin ≠ PARTIAL ∧ w.lexists row.2.path = false

/-- Paths on disk that no row explains. -/
def unrecorded : List String :=
  (w.scan.map Prod.snd).filter fun path => w.key path ∉ (s.live w.fingerprint).map fun row => row.2.path

/-- The first `--` is the slash of a repo. -/
def slashed : List Char → List Char
  | '-' :: '-' :: rest => '/' :: rest
  | c :: rest => c :: slashed rest
  | [] => []

/-- `_repo_from_dir` -/
def repo_from_dir (name : String) : String :=
  .ofList (slashed (name.toList.drop "models--".length))

/-- `_gguf_repo`: the repo and the link's target of a file, by its hub row, else by the gateway's map. -/
def gguf_repo (sources : String → Option String) (file : String) : String × String :=
  let listed := (sources (w.name file)).getD ""
  match w.link file with
  | none => (listed, "")
  | some target =>
      match ((s.live w.fingerprint).filter fun row => row.2.kind = .hub).find? fun row =>
          (w.real row.2.path ++ "/").toList <+: target.toList with
      | some row => (row.2.repo, target)
      | none => (listed, target)

/-- A row for a path of a scan. -/
def record_path (sources : String → Option String) (origin : String) (seen : Kind × String) : Option Store :=
  match seen.1 with
  | .hub => s.record w (repo_from_dir (w.name seen.2)) .hub seen.2 "" origin "" "" none
  | .gguf =>
      let named := s.gguf_repo w sources seen.2
      s.record w named.1 .gguf seen.2 (w.name seen.2) (if named.2 ≠ "" then LINK else origin) named.2 "" none

def record_paths (sources : String → Option String) (origin : String) : List (Kind × String) → Store → Option Store
  | [], s => some s
  | seen :: rest, s => (s.record_path w sources origin seen).bind fun s => record_paths sources origin rest s

def remove_paths (how : Removal) : List String → Store → Store
  | [], s => s
  | path :: rest, s => remove_paths how rest (s.removed w path how)

/-- `lh disk --record`: a row for each present path, gone rows stamped. -/
def record_unrecorded (sources : String → Option String) (origin : String) : Option Store :=
  record_paths w sources origin (w.scan.filter fun seen => seen.2 ∈ s.unrecorded w)
    (remove_paths w { by_ := "absent at " ++ origin } ((s.gone w).map fun row => row.2.path) s)


/-! ## What the live rows are after an operation -/

variable {w : World} {fingerprint : String}

theorem find?_of_live {s : Store} {id : Nat} {row : Row} (live : (id, row) ∈ s.live fingerprint) :
    s.downloads.find? id = some row :=
  Table.find?_eq_some.mpr (mem_live.mp live).1

theorem live_unique {s : Store} {a b : Nat × Row} (first : a ∈ s.live fingerprint) (second : b ∈ s.live fingerprint)
    (same : a.1 = b.1) : a = b := by
  obtain ⟨id, row⟩ := a
  obtain ⟨id', row'⟩ := b
  obtain rfl : id = id' := same
  exact congrArg (id, ·) (Option.some.inj ((find?_of_live first).symm.trans (find?_of_live second)))

theorem machine_insert {s : Store} {row : Nat → Row} {mine : ∀ id, (row id).machineId = id} :
    (s.insert fingerprint row mine).machine fingerprint = s.machine fingerprint := by
  have found : (s.insert fingerprint row mine).machine_row fingerprint = some (s.machine fingerprint) := by
    rw [machine, machine_row, insert]
    simp only [remembered]
    cases known : s.machine_row fingerprint with
    | some id => exact known
    | none =>
        have unknown : s.machines.rows.find? (fun row => row.2 = fingerprint) = none := by
          rwa [machine_row, Option.map_eq_none_iff] at known
        simp only [Table.rows_insert, List.find?_append, unknown, Option.none_or, List.find?_singleton,
          decide_true, if_true, Option.map_some, Option.getD_none]
  rw [machine, found, Option.getD_some]

theorem mem_live_insert {s : Store} {row : Nat → Row} {mine : ∀ id, (row id).machineId = id} {held : Nat × Row} :
    held ∈ (s.insert fingerprint row mine).live fingerprint ↔
      held = (s.downloads.nextId, row (s.machine fingerprint)) ∧ held.2.removedAt = none ∨
        held ∈ s.live fingerprint := by
  rw [mem_live, mem_live, machine_insert, insert, Table.rows_insert, List.mem_append, List.mem_singleton]
  constructor
  · rintro ⟨before | new, live, here⟩
    · exact .inr ⟨before, live, here⟩
    · exact .inl ⟨new, live⟩
  · rintro (⟨new, live⟩ | ⟨before, live, here⟩)
    · exact ⟨.inr new, live, new ▸ mine _⟩
    · exact ⟨.inl before, live, here⟩

theorem mem_live_update {s : Store} {id : Nat} {change : Row → Row}
    {same : ∀ row, (change row).machineId = row.machineId} {held : Nat × Row} :
    held ∈ (s.update id change same).live fingerprint ↔
      (∃ old, (id, old) ∈ s.downloads.rows ∧ old.machineId = s.machine fingerprint ∧ held = (id, change old) ∧
        held.2.removedAt = none) ∨ held ∈ s.live fingerprint ∧ held.1 ≠ id := by
  rw [mem_live, mem_live, update, Table.mem_rows_update]
  constructor
  · rintro ⟨⟨old, inside, shape⟩, live, here⟩
    by_cases at_ : old.1 = id
    · rw [if_pos at_] at shape
      subst shape
      exact .inl ⟨old.2, at_ ▸ inside, (same old.2).symm.trans here, at_ ▸ rfl, live⟩
    · rw [if_neg at_] at shape
      subst shape
      exact .inr ⟨⟨inside, live, here⟩, at_⟩
  · rintro (⟨old, inside, here, rfl, live⟩ | ⟨⟨inside, live, here⟩, other⟩)
    · exact ⟨⟨(id, old), inside, if_pos rfl⟩, live, (same old).trans here⟩
    · exact ⟨⟨held, inside, if_neg other⟩, live, here⟩

theorem mem_live_stamp {s : Store} {how : Removal} {ids : List Nat} {held : Nat × Row} :
    held ∈ (stamp w how ids s).live fingerprint ↔ held ∈ s.live fingerprint ∧ held.1 ∉ ids := by
  induction ids generalizing s with
  | nil => simp [stamp]
  | cons id rest ih =>
      rw [stamp, ih, mem_live_update, List.mem_cons, not_or, ← and_assoc]
      refine and_congr_left fun _ => or_iff_right ?_
      rintro ⟨old, -, -, rfl, live⟩
      cases live

theorem mem_live_removed {s : Store} {path : String} {how : Removal} {held : Nat × Row} :
    held ∈ (s.removed w path how).live w.fingerprint ↔
      held ∈ s.live w.fingerprint ∧ held.2.path ≠ w.key path := by
  rw [removed]
  split
  next none_ =>
    rw [mem_live_insert]
    have apart : ∀ row ∈ s.live w.fingerprint, row.2.path ≠ w.key path := by
      simpa [List.filter_eq_nil_iff] using none_
    constructor
    · rintro (⟨rfl, live⟩ | inside)
      · cases live
      · exact ⟨inside, apart held inside⟩
    · exact fun both => .inr both.1
  next first rest found =>
    rw [mem_live_stamp]
    refine and_congr_right fun inside => not_congr ?_
    have shape : first.1 :: rest.map Prod.fst =
        ((s.live w.fingerprint).filter fun row => row.2.path = w.key path).map Prod.fst := by
      rw [found, List.map_cons]
    rw [shape, List.mem_map]
    constructor
    · rintro ⟨row, filtered, same⟩
      obtain ⟨live, at_⟩ := List.mem_filter.mp filtered
      rw [← live_unique live inside same]
      exact of_decide_eq_true at_
    · intro at_
      exact ⟨held, List.mem_filter.mpr ⟨inside, decide_eq_true at_⟩, rfl⟩

theorem mem_live_remove_paths {s : Store} {how : Removal} {paths : List String} {held : Nat × Row} :
    held ∈ (remove_paths w how paths s).live w.fingerprint ↔
      held ∈ s.live w.fingerprint ∧ ∀ path ∈ paths, held.2.path ≠ w.key path := by
  induction paths generalizing s with
  | nil => simp [remove_paths]
  | cons path rest ih => rw [remove_paths, ih, mem_live_removed, List.forall_mem_cons, and_assoc]

/-- One row is written among the live ones: a new one, or one that was there under its path. -/
structure Put (w : World) (s s' : Store) (id : Nat) (row : Row) : Prop where
  live : ∀ held, held ∈ s'.live w.fingerprint ↔ held = (id, row) ∨ held ∈ s.live w.fingerprint ∧ held.1 ≠ id
  before : ∀ old, (id, old) ∈ s.live w.fingerprint → old.path = row.path

namespace Put

variable {s s' : Store} {id : Nat} {row : Row}

theorem mem (put : Put w s s' id row) : (id, row) ∈ s'.live w.fingerprint :=
  (put.live _).mpr (.inl rfl)

theorem update (put : Put w s s' id row) (change : Row → Row) (same : ∀ row, (change row).machineId = row.machineId)
    (live : (change row).removedAt = row.removedAt) (path : (change row).path = row.path) :
    Put w s (s'.update id change same) id (change row) where
  live := by
    intro held
    have there := mem_live.mp put.mem
    rw [mem_live_update, put.live]
    constructor
    · rintro (⟨old, inside, -, rfl, -⟩ | ⟨rfl | kept, other⟩)
      · have one : old = row := Option.some.inj <|
          (Table.find?_eq_some.mpr inside).symm.trans (Table.find?_eq_some.mpr there.1)
        exact .inl (one ▸ rfl)
      · exact absurd rfl other
      · exact .inr kept
    · rintro (rfl | kept)
      · exact .inl ⟨row, there.1, there.2.2, rfl, live.trans there.2.1⟩
      · exact .inr ⟨.inr kept, kept.2⟩
  before := fun old inside => (put.before old inside).trans path.symm

/-- The rows of the other paths stand as they did. -/
theorem mem_iff (put : Put w s s' id row) {held : Nat × Row} (other : held.2.path ≠ row.path) :
    held ∈ s'.live w.fingerprint ↔ held ∈ s.live w.fingerprint := by
  rw [put.live]
  constructor
  · rintro (rfl | kept)
    · exact absurd rfl other
    · exact kept.1
  · intro inside
    refine .inr ⟨inside, fun same => other (put.before held.2 ?_)⟩
    rwa [← same]

theorem path_iff (put : Put w s s' id row) {path : String} :
    (∃ held ∈ s'.live w.fingerprint, held.2.path = path) ↔
      (∃ held ∈ s.live w.fingerprint, held.2.path = path) ∨ row.path = path := by
  by_cases here : row.path = path
  · exact iff_of_true ⟨(id, row), put.mem, here⟩ (.inr here)
  · rw [or_iff_left here]
    refine exists_congr fun held => and_congr_left fun at_ => put.mem_iff ?_
    rw [at_]
    exact Ne.symm here

end Put

theorem put_self {s : Store} {row : Nat × Row} (inside : row ∈ s.live w.fingerprint) : Put w s s row.1 row.2 where
  live := by
    refine fun held => ⟨fun there => ?_, fun either => either.elim (fun same => same ▸ inside) And.left⟩
    by_cases same : held.1 = row.1
    · exact .inl (live_unique there inside same)
    · exact .inr ⟨there, same⟩
  before := fun _ before => congrArg (fun held => held.2.path) (live_unique before inside rfl)

theorem put_insert {s : Store} (row : Nat → Row) (mine : ∀ id, (row id).machineId = id)
    (live : (row (s.machine w.fingerprint)).removedAt = none) :
    Put w s (s.insert w.fingerprint row mine) s.downloads.nextId (row (s.machine w.fingerprint)) := by
  have new : ∀ held ∈ s.live w.fingerprint, held.1 ≠ s.downloads.nextId := by
    intro held inside same
    exact s.downloads.above_nextId.not_mem (same ▸ Table.mem_ids.mpr ⟨held.2, (mem_live.mp inside).1⟩)
  refine ⟨fun held => ?_, fun old before => absurd rfl (new _ before)⟩
  rw [mem_live_insert]
  refine or_congr ⟨And.left, fun same => ⟨same, same ▸ live⟩⟩ ⟨fun inside => ⟨inside, new held inside⟩, And.left⟩

theorem put_start {s : Store} (repo : String) (kind : Kind) (path file origin proposal : String) :
    ∃ row, Put w s (s.start w repo kind path file origin proposal).1 (s.start w repo kind path file origin proposal).2
      row ∧ row.path = w.key path := by
  rw [start]
  split
  next got found =>
    have at_ := List.find?_some found
    rw [decide_eq_true_iff] at at_
    have put := put_self (List.mem_of_find?_eq_some found)
    exact ⟨restarted w got.2, put.update (restarted w) (restarted_machineId w) rfl rfl, at_.2⟩
  next none_ =>
    exact ⟨begun w repo kind path file origin proposal _, put_insert _ (begun_machineId w) rfl, rfl⟩

/-- A download that already happened is recorded, whatever was recorded of its path before. -/
theorem put_record (s : Store) (repo : String) (kind : Kind) (path file origin source proposal : String)
    (at_ : Option ℚ) :
    ∃ s' id row, s.record w repo kind path file origin source proposal at_ = some s' ∧ Put w s s' id row ∧
      row.path = w.key path := by
  obtain ⟨row, put, stands⟩ := put_start (w := w) (s := s) repo kind path file origin proposal
  have moved := put.update (sourced w repo source at_) (sourced_machineId w) rfl rfl
  have measured := moved.update (measured w row.path false) (measured_machineId w) rfl rfl
  refine ⟨_, _, _, ?_, measured.update (finished_at at_) finished_at_machineId rfl rfl, stands⟩
  simp only [record, finish, find?_of_live moved.mem]
  rfl

theorem put_record_path (s : Store) (sources : String → Option String) (origin : String) (seen : Kind × String) :
    ∃ s' id row, s.record_path w sources origin seen = some s' ∧ Put w s s' id row ∧ row.path = w.key seen.2 := by
  rw [record_path]
  split
  · exact put_record s _ _ _ _ _ _ _ _
  · exact put_record s _ _ _ _ _ _ _ _

/-- Paths that are there are recorded: nothing that is not there has another row than before. -/
theorem recorded_paths (sources : String → Option String) (origin : String) (paths : List (Kind × String)) (s : Store)
    (there : ∀ seen ∈ paths, w.lexists seen.2 = true) :
    ∃ s', record_paths w sources origin paths s = some s' ∧
      (∀ held, w.lexists held.2.path = false → (held ∈ s'.live w.fingerprint ↔ held ∈ s.live w.fingerprint)) ∧
        ∀ path, (∃ held ∈ s'.live w.fingerprint, held.2.path = path) ↔
          (∃ held ∈ s.live w.fingerprint, held.2.path = path) ∨ ∃ seen ∈ paths, w.key seen.2 = path := by
  induction paths generalizing s with
  | nil => exact ⟨s, rfl, fun _ _ => Iff.rfl, fun path => by simp⟩
  | cons seen rest ih =>
      rw [List.forall_mem_cons] at there
      obtain ⟨next, id, row, recorded, put, stands⟩ := put_record_path (w := w) s sources origin seen
      obtain ⟨s', rest_recorded, absent, named⟩ := ih next there.2
      have whole : record_paths w sources origin (seen :: rest) s = some s' := by
        rw [record_paths, recorded, Option.bind_some, rest_recorded]
      refine ⟨s', whole, fun held away => ?_, fun path => ?_⟩
      · rw [absent held away]
        refine put.mem_iff fun same => ?_
        rw [same, stands, w.lexists_key, there.1] at away
        cases away
      · rw [named, put.path_iff, stands, or_assoc]
        simp only [List.exists_mem_cons_iff]

/-! ## What the inventory then reads -/

theorem ordered_shown (s : Store) :
    ((s.downloads.rows.map fun row => (row.1, row.2.shown)).map Prod.fst).Pairwise (· < ·) := by
  rw [List.map_map]
  exact s.downloads.ordered

def shown (s : Store) : Table Download where
  rows := s.downloads.rows.map fun row => (row.1, row.2.shown)
  ordered := ordered_shown s

/-- What the store holds of the weights. -/
def records (s : Store) (fingerprint : String) (store : MemoryStore.Store) (lane : Nat → String) : Records where
  store := store
  lane := lane
  downloads := s.shown
  mine := s.mine fingerprint

theorem rows_records {s : Store} {store : MemoryStore.Store} {lane : Nat → String} :
    (s.records fingerprint store lane).rows = (s.live fingerprint).map fun row => row.2.shown := by
  have kept : ∀ row : Nat × Row, (!row.2.shown.removed && row.2.shown.machineId.any (· ∈ s.mine fingerprint)) =
      decide (row.2.removedAt = none ∧ row.2.machineId ∈ s.mine fingerprint) := by
    intro row
    cases removed : row.2.removedAt <;> simp [Row.shown, removed]
  rw [Records.rows, Disk.live, live, ← List.filter_reverse]
  simp only [records, shown, List.map_map, ← List.map_reverse, List.filter_map, Function.comp_def]
  exact congrArg (List.map fun row : Nat × Row => row.2.shown) (List.filter_congr fun row _ => kept row)

theorem unrecorded_named {e : Entry} {row : Option Download} (e_known : e.unrecorded = false) :
    (named e row).unrecorded = false ↔ row ≠ none := by
  cases row <;> simp [named, e_known]

theorem row?_isSome {s : Store} {store : MemoryStore.Store} {lane : Nat → String} {key : String}
    (held : ∃ row ∈ s.live fingerprint, row.2.path = key) :
    row? (s.records fingerprint store lane).rows key ≠ none := by
  obtain ⟨row, live, at_⟩ := held
  rw [row?, rows_records, Ne, List.find?_eq_none]
  intro never
  exact never row.2.shown (List.mem_map_of_mem (f := fun row : Nat × Row => row.2.shown) live) (decide_eq_true at_)

theorem recorded_entries {s : Store} {lower : Lower} {store : MemoryStore.Store} {lane : Nat → String} {k : Keepers}
    (named : ∀ seen ∈ w.tree.dirs ++ w.tree.files, ∃ row ∈ s.live w.fingerprint, row.2.path = seen.key) :
    ∀ e ∈ (inventory lower (s.records w.fingerprint store lane) w.tree k).entries, e.unrecorded = false := by
  intro e member
  obtain ⟨scanned, inside, rfl⟩ := List.mem_map.mp member
  change scanned.unrecorded = false
  rcases List.mem_append.mp inside with inside | inside
  · obtain ⟨dir, there, rfl⟩ := List.mem_map.mp inside
    exact (unrecorded_named rfl).mpr (row?_isSome (named dir (List.mem_append_left _ there)))
  · obtain ⟨file, there, rfl⟩ := List.mem_map.mp inside
    have listed := List.mem_append_right w.tree.dirs (List.mem_of_mem_filter there)
    exact (unrecorded_named rfl).mpr (row?_isSome (named file listed))

theorem mem_scan {path : String} :
    (∃ seen ∈ w.scan, seen.2 = path) ↔ ∃ seen ∈ w.tree.dirs ++ w.tree.files, seen.path = path := by
  simp only [World.scan, List.mem_append, List.mem_map, or_and_right, exists_or]
  aesop

theorem mem_unrecorded {s : Store} {path : String} : path ∈ s.unrecorded w ↔
    (∃ seen ∈ w.scan, seen.2 = path) ∧ ¬ ∃ row ∈ s.live w.fingerprint, row.2.path = w.key path := by
  rw [unrecorded, List.mem_filter, decide_eq_true_iff, List.mem_map, List.mem_map]

theorem mem_gone {s : Store} {row : Nat × Row} : row ∈ s.gone w ↔
    row ∈ s.live w.fingerprint ∧ row.2.origin ≠ PARTIAL ∧ w.lexists row.2.path = false := by
  rw [gone, List.mem_filter, decide_eq_true_iff]

/-- What `lh disk --record` leaves: every path that is there has a row, so that the inventory finds none without;
    of the rows whose path is gone there are left those that are not stored under their own. -/
theorem record_unrecorded_settles (s : Store) (w : World) (sources : String → Option String) (origin : String)
    (lower : Lower) (store : MemoryStore.Store) (lane : Nat → String) (k : Keepers) :
    ∃ s', s.record_unrecorded w sources origin = some s' ∧ s'.unrecorded w = [] ∧
      (∀ row, row ∈ s'.gone w ↔ row ∈ s.gone w ∧ w.key row.2.path ≠ row.2.path) ∧
        ∀ e ∈ (inventory lower (s'.records w.fingerprint store lane) w.tree k).entries, e.unrecorded = false := by
  let how : Removal := { by_ := "absent at " ++ origin }
  let paths := (s.gone w).map fun row => row.2.path
  let cleared := remove_paths w how paths s
  have present : ∀ seen ∈ w.scan, w.lexists seen.2 = true := by
    intro seen member
    obtain ⟨file, there, same⟩ := mem_scan.mp ⟨seen, member, rfl⟩
    exact same ▸ w.present file there
  obtain ⟨s', recorded, absent, named⟩ := recorded_paths sources origin
    (w.scan.filter fun seen => seen.2 ∈ s.unrecorded w) cleared
    fun seen member => present seen (List.mem_of_mem_filter member)
  -- A path that is there is no path of a row that was removed.
  have known : ∀ path, (∃ seen ∈ w.scan, seen.2 = path) → ∃ row ∈ s'.live w.fingerprint, row.2.path = w.key path := by
    rintro path ⟨seen, scanned, rfl⟩
    rw [named]
    by_cases new : seen.2 ∈ s.unrecorded w
    · exact .inr ⟨seen, List.mem_filter.mpr ⟨scanned, decide_eq_true new⟩, rfl⟩
    · have held : ∃ row ∈ s.live w.fingerprint, row.2.path = w.key seen.2 :=
        not_not.mp fun none_ => new (mem_unrecorded.mpr ⟨⟨seen, scanned, rfl⟩, none_⟩)
      obtain ⟨row, live, at_⟩ := held
      refine .inl ⟨row, mem_live_remove_paths.mpr ⟨live, fun path gone same => ?_⟩, at_⟩
      obtain ⟨other, away, rfl⟩ := List.mem_map.mp gone
      have there := present seen scanned
      rw [← w.lexists_key, ← at_, same, w.lexists_key, (mem_gone.mp away).2.2] at there
      cases there
  refine ⟨s', recorded, ?_, fun row => ?_, recorded_entries fun seen member => ?_⟩
  · refine List.eq_nil_iff_forall_not_mem.mpr fun path member => ?_
    exact (mem_unrecorded.mp member).2 (known path (mem_unrecorded.mp member).1)
  · rw [mem_gone, mem_gone]
    constructor
    · rintro ⟨live, origin, away⟩
      obtain ⟨before, kept⟩ := mem_live_remove_paths.mp ((absent row away).mp live)
      refine ⟨⟨before, origin, away⟩, fun own => ?_⟩
      exact kept row.2.path (List.mem_map.mpr ⟨row, mem_gone.mpr ⟨before, origin, away⟩, rfl⟩) own.symm
    · rintro ⟨⟨before, origin, away⟩, other⟩
      refine ⟨(absent row away).mpr (mem_live_remove_paths.mpr ⟨before, fun path _ same => ?_⟩), origin, away⟩
      exact other (same ▸ w.key_key path)
  · rw [w.stored seen member]
    exact known seen.path (mem_scan.mpr ⟨seen, member, rfl⟩)

/-! ## What a write is -/

/-- No other live row is of the same machine and kind at the same path. -/
def Free (s : Store) (id : Nat) (place : Nat × Kind × String) : Prop :=
  ∀ other ∈ s.downloads.rows, other.1 ≠ id → other.2.removedAt = none → other.2.place ≠ place

/-- At most one live row is of a machine and a kind at a path. -/
def OneLive (s : Store) : Prop :=
  ∀ a ∈ s.downloads.rows, a.2.removedAt = none → s.Free a.1 a.2.place

end Store

/-- How the removal of a row is stamped. -/
def Row.removal (row : Row) : Option ℚ × String × Option Nat :=
  (row.removedAt, row.removedBy, row.removalVerdictId)

/-- A row is no other machine's, of no other kind, and what removed it is not taken back. -/
structure Kept (row new : Row) : Prop where
  machineId : new.machineId = row.machineId
  kind : new.kind = row.kind
  removal : row.removedAt ≠ none → new.removal = row.removal

theorem Kept.live {row new : Row} (kept : Kept row new) (live : new.removedAt = none) : row.removedAt = none := by
  by_contra removed
  exact removed (((Prod.mk.inj (kept.removal removed)).1).symm.trans live)

theorem Kept.trans {a b c : Row} (first : Kept a b) (second : Kept b c) : Kept a c where
  machineId := second.machineId.trans first.machineId
  kind := second.kind.trans first.kind
  removal removed := by
    have same := first.removal removed
    refine (second.removal ?_).trans same
    rwa [(Prod.mk.inj same).1]

/-- One statement of the store. A live row is changed where it is or, when `lands`, to where no other is. -/
inductive Write (lands : Prop) (s : Store) : Store → Prop
  | change (id : Nat) (change : Row → Row) (same : ∀ row, (change row).machineId = row.machineId)
      (kept : ∀ row, s.downloads.find? id = some row → Kept row (change row))
      (free : lands → ∀ row, s.downloads.find? id = some row → row.removedAt = none →
        (change row).path = row.path ∨ s.Free id (change row).place) : Write lands s (s.update id change same)
  | insert (fingerprint : String) (row : Nat → Row) (mine : ∀ id, (row id).machineId = id)
      (free : (row (s.machine fingerprint)).removedAt = none →
        ∀ id, s.Free id (row (s.machine fingerprint)).place) : Write lands s (s.insert fingerprint row mine)

abbrev Writes (lands : Prop) : Store → Store → Prop :=
  Relation.ReflTransGen (Write lands)

namespace Store

variable {lands : Prop} {w : World} {s s' : Store}

theorem oneLive_write (write : Write lands s s') (stands : lands) (one : s.OneLive) : s'.OneLive := by
  cases write with
  | change id change same kept free =>
      -- A live row was live before, at its place or at one that no other live row was at.
      have before : ∀ row ∈ (s.update id change same).downloads.rows, row.2.removedAt = none →
          ∃ old ∈ s.downloads.rows, old.1 = row.1 ∧ old.2.removedAt = none ∧
            (row.2.place = old.2.place ∨ row.1 = id ∧ s.Free id row.2.place) := by
        intro row member live
        obtain ⟨old, inside, rfl⟩ := Table.mem_rows_update.mp member
        by_cases here : old.1 = id
        · rw [if_pos here] at live ⊢
          have found : s.downloads.find? id = some old.2 := Table.find?_eq_some.mpr (here ▸ inside)
          have live := (kept old.2 found).live live
          have lands := free stands old.2 found live
          refine ⟨old, inside, rfl, live, lands.imp (fun path => ?_) fun free => ⟨here, free⟩⟩
          exact Prod.ext (kept old.2 found).machineId (Prod.ext (kept old.2 found).kind path)
        · rw [if_neg here] at live ⊢
          exact ⟨old, inside, rfl, live, .inl rfl⟩
      intro a a_member a_live b b_member other b_live same_place
      obtain ⟨a₀, a_inside, a_id, a₀_live, a_place⟩ := before a a_member a_live
      obtain ⟨b₀, b_inside, b_id, b₀_live, b_place⟩ := before b b_member b_live
      have apart : b₀.1 ≠ a₀.1 := fun equal => other (b_id.symm.trans (equal.trans a_id))
      rcases a_place with a_place | ⟨a_here, a_free⟩
      · rcases b_place with b_place | ⟨b_here, b_free⟩
        · exact one a₀ a_inside a₀_live b₀ b_inside apart b₀_live (b_place.symm.trans (same_place.trans a_place))
        · refine b_free a₀ a_inside (fun equal => apart ?_) a₀_live (a_place.symm.trans same_place.symm)
          rw [b_id, b_here, equal]
      · rcases b_place with b_place | ⟨b_here, b_free⟩
        · refine a_free b₀ b_inside (fun equal => apart ?_) b₀_live (b_place.symm.trans same_place)
          rw [a_id, a_here, equal]
        · exact other (b_here.trans a_here.symm)
  | insert fingerprint row mine free =>
      have split : ∀ held ∈ (s.insert fingerprint row mine).downloads.rows, held ∈ s.downloads.rows ∨
          held = (s.downloads.nextId, row (s.machine fingerprint)) := by
        intro held member
        exact (List.mem_append.mp member).imp_right List.mem_singleton.mp
      intro a a_member a_live b b_member other b_live same_place
      rcases split a a_member with a_before | rfl
      · rcases split b b_member with b_before | rfl
        · exact one a a_before a_live b b_before other b_live same_place
        · exact free b_live s.downloads.nextId a a_before (Ne.symm other) a_live same_place.symm
      · rcases split b b_member with b_before | rfl
        · exact free a_live s.downloads.nextId b b_before other b_live same_place
        · exact other rfl

theorem oneLive_writes (writes : Writes lands s s') (stands : lands) (one : s.OneLive) : s'.OneLive := by
  induction writes with
  | refl => exact one
  | tail _ write ih => exact oneLive_write write stands ih

theorem kept_write (write : Write lands s s') {id : Nat} {row : Row} (found : s.downloads.find? id = some row) :
    ∃ row', s'.downloads.find? id = some row' ∧ Kept row row' := by
  cases write with
  | change at_ change same kept free =>
      by_cases here : id = at_
      · subst here
        exact ⟨change row, by rw [update, Table.find?_update_self, found, Option.map_some], kept row found⟩
      · refine ⟨row, ?_, rfl, rfl, fun _ => rfl⟩
        rw [update, Table.find?_update_of_ne change here, found]
  | insert fingerprint new mine free =>
      refine ⟨row, ?_, rfl, rfl, fun _ => rfl⟩
      rw [insert, Table.find?_insert, if_neg, found]
      intro new
      exact s.downloads.above_nextId.not_mem (new ▸ Table.mem_ids_of_find? found)

theorem kept_writes (writes : Writes lands s s') {id : Nat} {row : Row} (found : s.downloads.find? id = some row) :
    ∃ row', s'.downloads.find? id = some row' ∧ Kept row row' := by
  induction writes with
  | refl => exact ⟨row, found, rfl, rfl, fun _ => rfl⟩
  | tail _ write ih =>
      obtain ⟨next, there, kept⟩ := ih
      obtain ⟨row', found', kept'⟩ := kept_write write there
      exact ⟨row', found', kept.trans kept'⟩

/-! ## What an operation writes -/

/-- A live row is changed where it is. -/
theorem writes_change (id : Nat) (change : Row → Row) (same : ∀ row, (change row).machineId = row.machineId)
    (here : ∀ row, (change row).kind = row.kind ∧ (change row).path = row.path ∧ (change row).removal = row.removal) :
    Writes lands s (s.update id change same) :=
  .single (.change id change same (fun row _ => ⟨same row, (here row).1, fun _ => (here row).2.2⟩)
    fun _ row _ _ => .inl (here row).2.1)

theorem writes_start {repo : String} {kind : Kind} {path file origin proposal : String} :
    Writes lands s (s.start w repo kind path file origin proposal).1 := by
  rw [start]
  split
  next got found => exact writes_change got.1 (restarted w) (restarted_machineId w) fun _ => ⟨rfl, rfl, rfl⟩
  next none_ =>
    refine .single (.insert _ _ (begun_machineId w) fun _ id other inside _ live same => ?_)
    rw [Row.place, Row.place, Prod.mk.injEq, Prod.mk.injEq] at same
    have there : other ∈ s.live w.fingerprint := mem_live.mpr ⟨inside, live, same.1⟩
    exact List.find?_eq_none.mp none_ other there (decide_eq_true same.2)

/-- A finish changes the place of its row where it is told one. -/
theorem writes_finish {id : Nat} {path : Option String} {failed : Bool}
    (finished : s.finish w id path failed = some s')
    (free : lands → ∀ at_, path = some at_ → ∀ row, s.downloads.find? id = some row → row.removedAt = none →
      s.Free id (row.machineId, row.kind, w.key at_)) : Writes lands s s' := by
  obtain ⟨row, found, rfl⟩ := Option.map_eq_some_iff.mp finished
  refine .single (.change _ _ _ (fun _ _ => ⟨rfl, rfl, fun _ => rfl⟩) fun stands other there live => ?_)
  cases path with
  | none =>
      obtain rfl := Option.some.inj (found.symm.trans there)
      exact .inl rfl
  | some at_ => exact .inr (free stands at_ rfl other there live)

theorem writes_record {repo : String} {kind : Kind} {path file origin source proposal : String} {at_ : Option ℚ}
    (recorded : s.record w repo kind path file origin source proposal at_ = some s') : Writes lands s s' := by
  obtain ⟨next, finished, rfl⟩ := Option.map_eq_some_iff.mp recorded
  have moved : Writes lands (s.start w repo kind path file origin proposal).1 _ :=
    writes_change (s.start w repo kind path file origin proposal).2 (sourced w repo source at_) (sourced_machineId w)
      fun _ => ⟨rfl, rfl, rfl⟩
  have measured : Writes lands _ next := writes_finish finished fun _ _ told => by cases told
  have stamped : Writes lands next _ :=
    writes_change (s.start w repo kind path file origin proposal).2 (finished_at at_) finished_at_machineId
      fun _ => ⟨rfl, rfl, rfl⟩
  exact ((writes_start.trans moved).trans measured).trans stamped

/-- What is stamped is live, or stamped so. -/
theorem writes_stamp {how : Removal} (ids : List Nat) (s : Store)
    (live : ∀ id ∈ ids, ∀ row, s.downloads.find? id = some row →
      row.removedAt = none ∨ (stamped w how row).removal = row.removal) : Writes lands s (stamp w how ids s) := by
  induction ids generalizing s with
  | nil => exact .refl
  | cons id rest ih =>
      rw [List.forall_mem_cons] at live
      refine .head (.change id (stamped w how) (stamped_machineId w) (fun row found => ⟨rfl, rfl, fun removed => ?_⟩)
        fun _ _ _ _ => .inl rfl) (ih _ fun other member row found => ?_)
      · exact (live.1 row found).resolve_left removed
      · rw [update, Table.find?_update] at found
        split at found
        · obtain ⟨old, -, rfl⟩ := Option.map_eq_some_iff.mp found
          exact .inr rfl
        · exact live.2 other member row found

theorem writes_removed {path : String} {how : Removal} : Writes lands s (s.removed w path how) := by
  rw [removed]
  split
  next none_ => exact .single (.insert _ _ (absent_machineId w) fun live => by cases live)
  next first rest found =>
    refine writes_stamp _ s fun id member row there => .inl ?_
    rw [← List.map_cons, ← found, List.mem_map] at member
    obtain ⟨held, filtered, rfl⟩ := member
    have live := List.mem_of_mem_filter filtered
    obtain rfl := Option.some.inj ((find?_of_live live).symm.trans there)
    exact (mem_live.mp live).2.1

theorem writes_remove_paths {how : Removal} (paths : List String) (s : Store) :
    Writes lands s (remove_paths w how paths s) := by
  induction paths generalizing s with
  | nil => exact .refl
  | cons path rest ih => exact writes_removed.trans (ih _)

theorem writes_record_path {sources : String → Option String} {origin : String} {seen : Kind × String}
    (recorded : s.record_path w sources origin seen = some s') : Writes lands s s' := by
  rw [record_path] at recorded
  split at recorded
  · exact writes_record recorded
  · exact writes_record recorded

theorem writes_record_paths {sources : String → Option String} {origin : String} (paths : List (Kind × String))
    (s : Store) (recorded : record_paths w sources origin paths s = some s') : Writes lands s s' := by
  induction paths generalizing s with
  | nil =>
      obtain rfl := Option.some.inj recorded
      exact .refl
  | cons seen rest ih =>
      obtain ⟨next, first, rest_recorded⟩ := Option.bind_eq_some_iff.mp recorded
      exact (writes_record_path first).trans (ih next rest_recorded)

end Store

/-! ## Runs -/

/-- What a command does to the rows. -/
inductive Op
  | start (repo : String) (kind : Kind) (path file origin proposal : String)
  | finish (id : Nat) (path : Option String) (failed : Bool)
  | record (repo : String) (kind : Kind) (path file origin source proposal : String) (at_ : Option ℚ)
  | removed (path : String) (how : Store.Removal)
  | record_unrecorded (sources : String → Option String) (origin : String)

/-- An operation, on any machine and at any time. -/
def step (s : Store) (act : World × Op) : Option Store :=
  match act.2 with
  | .start repo kind path file origin proposal => some (s.start act.1 repo kind path file origin proposal).1
  | .finish id path failed => s.finish act.1 id path failed
  | .record repo kind path file origin source proposal at_ =>
      s.record act.1 repo kind path file origin source proposal at_
  | .removed path how => some (s.removed act.1 path how)
  | .record_unrecorded sources origin => s.record_unrecorded act.1 sources origin

/-- A finish that is told a path is told one that no other live row of its machine and kind is at. -/
def Lands (s : Store) (act : World × Op) : Prop :=
  match act.2 with
  | .finish id (some path) _ => ∀ row ∈ s.downloads.find? id, row.removedAt = none →
      s.Free id (row.machineId, row.kind, act.1.key path)
  | _ => True

def system : Runs.System Store (World × Op) where
  start := (· = Store.empty)
  step := step

theorem writes_step {s s' : Store} {act : World × Op} (stepped : step s act = some s') :
    Writes (Lands s act) s s' := by
  obtain ⟨w, op⟩ := act
  cases op with
  | start repo kind path file origin proposal =>
      obtain rfl := Option.some.inj stepped
      exact Store.writes_start
  | finish id path failed =>
      refine Store.writes_finish stepped fun lands at_ told => ?_
      subst told
      exact lands
  | record repo kind path file origin source proposal at_ => exact Store.writes_record stepped
  | removed path how =>
      obtain rfl := Option.some.inj stepped
      exact Store.writes_removed
  | record_unrecorded sources origin =>
      exact (Store.writes_remove_paths _ s).trans (Store.writes_record_paths _ _ stepped)

/-- A machine whose hub holds one directory. -/
def desk : World where
  fingerprint := "desk"
  now := 1
  tree :=
    { hub := "/hub"
      gguf := "/gguf"
      dirs := [{ path := "/hub/models--a--b", key := "/hub/models--a--b", name := "models--a--b", size := 3,
                 link := none, real := "/hub/models--a--b" }]
      files := []
      inside := fun _ _ => true }
  key := fun path => path
  lexists := fun path => path = "/hub/models--a--b"
  measure := fun _ _ => (3, 1)
  loadable := fun _ _ => true
  requires := fun _ _ => []
  name := fun _ => "models--a--b"
  link := fun _ => none
  real := fun path => path
  is_gguf := fun _ => false
  proposal := fun _ => none
  key_key := fun _ => rfl
  lexists_key := fun _ => rfl
  present := by decide
  stored := by decide

/-- Fetched, deleted, and found again by a scan. -/
def fetched_again : List (World × Op) :=
  [(desk, .start "a/b" .hub "/hub/models--a--b" "" FETCH ""),
    (desk, .finish 1 (some "/hub/models--a--b") false),
    (desk, .removed "/hub/models--a--b" { by_ := "lh disk" }),
    (desk, .record_unrecorded (fun _ => none) SCAN)]

instance (s : Store) (act : World × Op) : Decidable (Lands s act) := by
  unfold Lands Store.Free
  split <;> infer_instance

/-- In every run at most one live row is of a machine and a kind at a path. -/
theorem one_live {s : Store} (reached : system.ReachableWhen Lands s) :
    ((s.downloads.rows.filter fun row => row.2.removedAt = none).map fun row => row.2.place).Nodup := by
  have invariant : system.InvariantWhen Lands Store.OneLive := by
    refine ⟨fun s started => ?_, fun s act s' one lands stepped => ?_⟩
    · cases started
      exact fun a member => absurd member List.not_mem_nil
    · exact Store.oneLive_writes (writes_step stepped) lands one
  have one := invariant.holds reached
  refine List.Nodup.map_on (fun a a_member b b_member same => ?_) (s.downloads.nodup.of_map.filter _)
  obtain ⟨a_inside, a_live⟩ := List.mem_filter.mp a_member
  obtain ⟨b_inside, b_live⟩ := List.mem_filter.mp b_member
  rw [decide_eq_true_iff] at a_live b_live
  by_cases here : b.1 = a.1
  · obtain ⟨id, row⟩ := a
    obtain ⟨id', row'⟩ := b
    obtain rfl : id' = id := here
    have found := Table.find?_eq_some.mpr a_inside
    exact congrArg (id', ·) (Option.some.inj (found.symm.trans (Table.find?_eq_some.mpr b_inside)))
  · exact absurd same.symm (one a a_inside a_live b b_inside here b_live)

theorem again_live : ∃ s : Store, s.downloads.rows.map (fun row => row.2.removedBy) = ["lh disk", ""] ∧
    ((s.downloads.rows.filter fun row => row.2.removedAt = none).map fun row => row.2.place).Nodup := by
  have started : system.start Store.empty := rfl
  obtain ⟨s, -, reached, test⟩ := Runs.System.reached_by_run
    (fun s : Store => s.downloads.rows.map (fun row => row.2.removedBy) = ["lh disk", ""]) started
    (show system.Meets Lands Store.empty fetched_again by decide +kernel) (by decide +kernel)
  exact ⟨s, of_decide_eq_true test, one_live reached⟩

/-- No run takes a row back: each stays its machine's and of its kind, and once removed it stays as it was stamped. -/
theorem removed_stays {s s' : Store} {acts : List (World × Op)} (ran : system.run s acts = some s') {id : Nat}
    {row : Row} (found : s.downloads.find? id = some row) :
    ∃ row', s'.downloads.find? id = some row' ∧ row'.machineId = row.machineId ∧ row'.kind = row.kind ∧
      (row.removedAt ≠ none → row'.removal = row.removal) := by
  let stay : Store → Store → Prop := fun s s' => ∀ id row, s.downloads.find? id = some row →
    ∃ row', s'.downloads.find? id = some row' ∧ Kept row row'
  have stays : stay s s' := by
    refine Runs.System.run_relates (fun _ _ => True) stay (fun s id row found => ⟨row, found, rfl, rfl, fun _ => rfl⟩)
      (fun s t u first second id row found => ?_) (fun s act s' _ stepped id row found => ?_)
      (Runs.System.meets_true s acts) ran
    · obtain ⟨row', there, kept⟩ := first id row found
      obtain ⟨row'', there', kept'⟩ := second id row' there
      exact ⟨row'', there', kept.trans kept'⟩
    · exact Store.kept_writes (writes_step stepped) found
  obtain ⟨row', there, kept⟩ := stays id row found
  exact ⟨row', there, kept.machineId, kept.kind, kept.removal⟩

theorem removed_again : ∃ s s' row row', system.run Store.empty (fetched_again.take 3) = some s ∧
    s.downloads.find? 1 = some row ∧ row.removedAt = some 1 ∧ system.run s (fetched_again.drop 3) = some s' ∧
      s'.downloads.find? 1 = some row' ∧ row'.removal = row.removal := by
  have passes : ((system.run Store.empty (fetched_again.take 3)).any fun s =>
      (s.downloads.find? 1).any (fun row => row.removedAt = some 1) &&
        (system.run s (fetched_again.drop 3)).isSome) = true := by decide +kernel
  obtain ⟨s, ran, both⟩ := (Option.any_eq_true _ _).mp passes
  rw [Bool.and_eq_true] at both
  obtain ⟨row, found, removed⟩ := (Option.any_eq_true _ _).mp both.1
  obtain ⟨s', later⟩ := Option.isSome_iff_exists.mp both.2
  have removed : row.removedAt = some 1 := of_decide_eq_true removed
  obtain ⟨row', there, -, -, stays⟩ := removed_stays later found
  refine ⟨s, s', row, row', ran, found, removed, later, there, stays ?_⟩
  rw [removed]
  exact Option.some_ne_none 1

end LocalHarness.Disk.Downloads
