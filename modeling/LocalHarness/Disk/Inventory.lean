import LocalHarness.MemoryStore.Transitions
import LocalHarness.Tiers.FetchRun

/-! # What the weights cache holds and what may go

The scan says what is on disk, the download rows what each path is, and the newest of the verdicts that hold the
state of an entry's proposals what becomes of it. One decision is made of an entry, whoever asks.
-/

namespace LocalHarness.Disk

open LocalHarness.Library LocalHarness.MemoryStore

inductive Group
  | keep
  | queued
  | rejected
  | unknown
  deriving DecidableEq

inductive Kind
  | hub
  | gguf
  deriving DecidableEq

def Group.text : Group → String
  | keep => "keep"
  | queued => "queued"
  | rejected => "rejected"
  | unknown => "unknown"

/-- Rejected weights survive this long. -/
def GRACE_SECONDS : ℚ := 24 * 3600

def REJECTIONS : List Outcome := [.broken, .declined]

/-- Tiers that run after weights are fetched. -/
def FETCHED_TIERS : List String := [fetch, screen, measure, adopt]

def UNRECORDED : String := "no download row; `lh disk --record` names it"

/-- A path the scan found. -/
structure Seen where
  path : String
  /-- The path as rows store it. -/
  key : String
  name : String
  size : Nat
  /-- Of a link, the directory of the hub it leads into, or nothing. -/
  link : Option String
  /-- Where the path leads. -/
  real : String

/-- A row of `downloads`. -/
structure Download where
  path : String
  repo : String
  proposalId : Option Nat
  machineId : Option Nat
  removed : Bool
  deriving DecidableEq

structure Entry where
  kind : Kind
  seen : Seen
  name : String
  repo : String := ""
  group : Group := .unknown
  why : String := ""
  outcome : Option Outcome := none
  tier : String := ""
  decidedAt : ℚ := 0
  verdictId : Option Nat := none
  links : List Seen := []
  proposalIds : List Nat := []
  unrecorded : Bool := false

/-- Everything that must never be deleted, with why. -/
structure Keepers where
  repos : String → Option String
  stems : String → Option String
  problems : List String
  lanes : List (String × String)

structure Inventory where
  hub : String
  gguf : String
  entries : List Entry
  problems : List String

/-- `lower` of a text. -/
abbrev Lower := String → String

section

variable (lower : Lower)

def stem (filename : String) : String :=
  let name := (lower filename).toList
  .ofList (if ".gguf".toList <:+ name then name.take (name.length - 5) else name)

/-! ## The scan -/

/-- This machine's rows not yet removed, newest first. -/
def live (mine : List Nat) (downloads : Table Download) : List Download :=
  (downloads.rows.map Prod.snd).reverse.filter fun row => !row.removed && row.machineId.any (· ∈ mine)

/-- The row of a path: of several the newest. -/
def row? (rows : List Download) (key : String) : Option Download :=
  rows.find? fun row => row.path = key

/-- The proposal a row names, where there is a row. -/
def proposal (row : Option Download) : List Nat :=
  ((row.bind Download.proposalId).filter (· ≠ 0)).toList

/-- `_named` -/
def named (e : Entry) (row : Option Download) : Entry :=
  match row with
  | none => { e with unrecorded := true }
  | some row =>
      { e with
        repo := row.repo
        proposalIds := e.proposalIds ++ proposal (some row)
        name := if e.kind = .hub ∧ row.repo ≠ "" then row.repo else e.name }

/-- The links that lead into a directory of the hub. -/
def into (files : List Seen) (dir : Seen) : List Seen :=
  files.filter fun file => file.link = some dir.name

/-- The entry of a directory of the hub, with the links into it. -/
def hubEntry (rows : List Download) (files : List Seen) (dir : Seen) : Entry :=
  let e := named { kind := .hub, seen := dir, name := dir.name } (row? rows dir.key)
  { e with
    links := into files dir
    proposalIds := e.proposalIds ++ (into files dir).flatMap fun file => proposal (row? rows file.key) }

def ggufEntry (rows : List Download) (file : Seen) : Entry :=
  named { kind := .gguf, seen := file, name := file.name } (row? rows file.key)

/-- `_scan`: a link into a directory of the hub is that directory's. -/
def scan (rows : List Download) (dirs files : List Seen) : List Entry :=
  dirs.map (hubEntry rows files) ++
    (files.filter fun file => dirs.all fun dir => file.link ≠ some dir.name).map (ggufEntry rows)

/-! ## The verdicts -/

/-- A proposal's state and the verdict that set it. -/
structure Latest where
  name : String
  pid : Nat
  lane : String
  id : Nat
  outcome : Option Outcome
  tier : String
  decidedAt : ℚ
  deriving DecidableEq

variable (lane : Nat → String)

def joined (s : Store) (row : Nat × Proposal) : Option Latest :=
  row.2.stateVerdictId.bind fun id => (s.verdicts.find? id).map fun v =>
    { name := row.2.name, pid := row.1, lane := lane row.1, id, outcome := row.2.state, tier := v.tier
      decidedAt := v.decidedAt }

/-- `latest_verdicts`: of names with the same small letters the one with the newest verdict. -/
def latest_verdicts (s : Store) : List Latest :=
  let rows := (s.proposals.rows.filterMap (joined lane s)).insertionSort fun a b => a.id ≤ b.id
  rows.filter fun r => (rows.filter fun other => lower other.name = lower r.name).getLast? = some r

def by_pid (verdicts : List Latest) (pid : Nat) : Option Latest :=
  verdicts.find? fun r => r.pid = pid

def newer (best r : Latest) : Latest :=
  if best.id < r.id then r else best

/-- `max`, of several the first. -/
def newest : List Latest → Option Latest
  | [] => none
  | r :: rest => some (rest.foldl newer r)

/-- The newest of the verdicts that hold the state of an entry's proposals. -/
def last (verdicts : List Latest) (e : Entry) : Option Latest :=
  newest (e.proposalIds.dedup.filterMap (by_pid verdicts))

/-! ## The decision -/

def stems (e : Entry) : List String :=
  (e.links.map fun link => stem lower link.name) ++ if e.kind = .gguf then [stem lower e.name] else []

/-- A text that is not empty. -/
def said (text : Option String) : Option String :=
  text.filter (· ≠ "")

/-- `_lane_kept` -/
def lane_kept (k : Keepers) (verdicts : List Latest) (e : Entry) : Option String :=
  if k.lanes = [] then none
  else
    let lanes := e.proposalIds.dedup.map fun pid =>
      Tiers.Fetching.canonical (((by_pid verdicts pid).map Latest.lane).getD "")
    let seen := (if lanes = [] then [""] else lanes).dedup.insertionSort (· ≤ ·)
    let hit := seen.findSome? fun lane => (k.lanes.find? fun kept => kept.1 = lane).map Prod.snd
    let whys := (k.lanes.insertionSort fun a b => a.1 ≤ b.1).map Prod.snd
    (said hit).or
      (if "" ∈ seen then some ("no lane recorded while " ++ String.intercalate "; " whys) else none)

/-- Why an entry is kept whatever its verdicts are. -/
def kept (k : Keepers) (verdicts : List Latest) (e : Entry) : Option String :=
  (said (if e.repo ≠ "" then k.repos (lower e.repo) else none)).or
    ((said ((stems lower e).findSome? k.stems)).or (said (lane_kept k verdicts e)))

def said_at (r : Latest) : String :=
  (r.outcome.map Outcome.text).getD "" ++ " at " ++ r.tier

/-- The group of an entry that nothing keeps. -/
def group_of (last : Option Latest) : Group × String :=
  match last with
  | none => (.unknown, "no alias, no verdict, not tooling")
  | some r =>
      if r.outcome = some .measured then (.keep, "measured at " ++ r.tier)
      else if r.outcome.any (· ∈ waypoints) then (.queued, said_at r)
      else if r.outcome.any (· ∈ REJECTIONS) ∧ r.tier ∈ FETCHED_TIERS then (.rejected, said_at r)
      else (.unknown, said_at r)

/-- `_classify` -/
def classify (k : Keepers) (verdicts : List Latest) (e : Entry) : Entry :=
  let last := last verdicts e
  let judged : Group × String := match kept lower k verdicts e with
    | some why => (.keep, why)
    | none => if e.unrecorded then (.unknown, UNRECORDED) else group_of last
  { e with
    group := judged.1
    why := judged.2
    outcome := last.bind Latest.outcome
    tier := (last.map Latest.tier).getD ""
    decidedAt := (last.map Latest.decidedAt).getD 0
    verdictId := last.map Latest.id }

/-- The one decision. `inside` says whether a path sits directly in a root. -/
def safe_to_delete (inside : String → String → Bool) (e : Entry) (now : ℚ) (wanted : Group) (roots : List String) :
    Except String String :=
  if e.group = .keep then .error ("kept: " ++ e.why)
  else if e.unrecorded then .error ("refused: " ++ UNRECORDED)
  else if e.group ≠ wanted ∨ wanted ∉ [.rejected, .unknown] then
    .error (e.group.text ++ ", not " ++ wanted.text)
  else if e.group = .rejected ∧ now - e.decidedAt < GRACE_SECONDS then .error "rejected less than 24 h ago"
  else if roots.all fun root => !inside e.seen.path root then
    .error ("refused: " ++ e.seen.path ++ " is outside " ++ String.intercalate ", " roots)
  else .ok e.why

theorem safe_to_delete_ok {inside : String → String → Bool} {e : Entry} {now : ℚ} {wanted : Group}
    {roots : List String} : (∃ why, safe_to_delete inside e now wanted roots = .ok why) ↔
      e.group ≠ .keep ∧ e.unrecorded = false ∧ e.group = wanted ∧ wanted ∈ [Group.rejected, .unknown] ∧
        ¬ (e.group = .rejected ∧ now - e.decidedAt < GRACE_SECONDS) ∧
          ∃ root ∈ roots, inside e.seen.path root = true := by
  have outside : (roots.all fun root => !inside e.seen.path root) = true ↔
      ¬ ∃ root ∈ roots, inside e.seen.path root = true := by
    simp
  rw [safe_to_delete]
  split
  next held => exact iff_of_false (fun ⟨_, ok⟩ => by cases ok) fun all => all.1 held
  next free =>
    split
    next named => exact iff_of_false (fun ⟨_, ok⟩ => by cases ok) fun all => by simp [all.2.1] at named
    next named =>
      split
      next other =>
        refine iff_of_false (fun ⟨_, ok⟩ => by cases ok) fun all => ?_
        exact other.elim (fun group => group all.2.2.1) fun asked => asked all.2.2.2.1
      next asked =>
        rw [not_or, not_not, not_not] at asked
        split
        next young => exact iff_of_false (fun ⟨_, ok⟩ => by cases ok) fun all => all.2.2.2.2.1 young
        next old =>
          split
          next away => exact iff_of_false (fun ⟨_, ok⟩ => by cases ok) fun all => outside.mp away all.2.2.2.2.2
          next within =>
            refine iff_of_true ⟨_, rfl⟩ ⟨free, Bool.eq_false_iff.mpr named, asked.1, asked.2, old, ?_⟩
            exact not_not.mp (mt outside.mpr within)

end

/-! ## The inventory and what is deleted of it -/

/-- What the store holds of the weights: `lane` is the lane of a proposal, `mine` this machine's ids. -/
structure Records where
  store : Store
  lane : Nat → String
  downloads : Table Download
  mine : List Nat

/-- What is on disk. -/
structure Tree where
  hub : String
  gguf : String
  dirs : List Seen
  files : List Seen
  inside : String → String → Bool

section

variable (lower : Lower) (r : Records) (t : Tree) (k : Keepers)

def Records.rows : List Download :=
  live r.mine r.downloads

def Records.verdicts : List Latest :=
  latest_verdicts lower r.lane r.store

def inventory : Inventory where
  hub := t.hub
  gguf := t.gguf
  entries := (scan r.rows t.dirs t.files).map (classify lower k (r.verdicts lower))
  problems := k.problems

variable (inv : Inventory) (now : ℚ) (wanted : Group)

def plan : List Entry :=
  inv.entries.filter fun e =>
    match safe_to_delete t.inside e now wanted [inv.hub, inv.gguf] with
    | .ok _ => true
    | .error _ => false

theorem mem_plan {e : Entry} : e ∈ plan t inv now wanted ↔
    e ∈ inv.entries ∧ ∃ why, safe_to_delete t.inside e now wanted [inv.hub, inv.gguf] = .ok why := by
  rw [plan, List.mem_filter]
  refine and_congr_right fun _ => ?_
  split
  next why ok => exact iff_of_true rfl ⟨why, ok⟩
  next why error =>
    rw [error]
    exact iff_of_false Bool.false_ne_true fun ⟨_, ok⟩ => by cases ok

variable {δ : Type} (remove : Entry → δ → Except String (List String) × δ)

/-- What became of each entry: the links that went with it, or why it was not removed. -/
def removeAll : List Entry → δ → List (Entry × Except String (List String)) × δ
  | [], d => ([], d)
  | e :: rest, d =>
      let (result, d) := remove e d
      let (results, d) := removeAll rest d
      ((e, result) :: results, d)

theorem mem_of_removeAll {es : List Entry} {d : δ} {e : Entry} {result : Except String (List String)}
    (member : (e, result) ∈ (removeAll remove es d).1) : e ∈ es := by
  induction es generalizing d with
  | nil => cases member
  | cons first rest ih =>
      rcases List.mem_cons.mp member with here | later
      · exact List.mem_cons.mpr (.inl (Prod.mk.inj here).1)
      · exact List.mem_cons_of_mem first (ih later)

/-- `delete`, over what `_remove` makes of the disk. -/
def delete (d : δ) : Except String (List (Entry × Except String (List String)) × δ) :=
  if inv.problems ≠ [] then .error ("refusing to delete: " ++ String.intercalate "; " inv.problems)
  else .ok (removeAll remove (plan t inv now wanted) d)

theorem delete_ok {d d' : δ} {results : List (Entry × Except String (List String))} :
    delete t inv now wanted remove d = .ok (results, d') ↔
      inv.problems = [] ∧ removeAll remove (plan t inv now wanted) d = (results, d') := by
  rw [delete]
  split
  next problems => exact iff_of_false (fun ok => by cases ok) fun both => problems both.1
  next complete =>
    rw [not_not] at complete
    exact ⟨fun ok => ⟨complete, Except.ok.inj ok⟩, fun both => congrArg Except.ok both.2⟩

end

end LocalHarness.Disk
