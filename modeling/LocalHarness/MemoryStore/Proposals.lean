import Mathlib.Data.Rat.Defs
import LocalHarness.Library.Runs
import LocalHarness.Library.Table
import LocalHarness.Library.Top
import LocalHarness.Library.Unicode
import LocalHarness.MemoryStore.Retests

/-! # Proposals, their sightings and their links

A name is recorded once, however often it is seen: its row is what its own sightings say, the first word on some
columns and the last on others. Edges lie between rows; a walk along them from one name to another is a walk back.
-/

namespace LocalHarness.MemoryStore.Proposals

open LocalHarness.Library

/-! ## The tables -/

/-- One proposal observed in one source at one time. -/
structure Seen where
  name : String
  source : String
  url : String := ""
  why : String := ""
  relevance : Int := 0
  kind : String := "candidate"
  lane : String := ""
  resolved : String := ""
  registry : String := ""
  description : String := ""
  laneSource : String := ""
  category : String := ""

/-- A row of `proposals`, in the columns that name and describe it. -/
structure Row where
  name : String
  kind : String
  registry : String
  description : String
  lane : String
  resolved : String
  laneSource : String
  category : String
  firstSeen : ℚ
  lastSeen : ℚ
  deriving DecidableEq

structure Sighting where
  proposalId : Nat
  source : String
  url : String
  why : String
  relevance : Int
  seenAt : ℚ
  machineId : Nat

def Sighting.key (s : Sighting) : Nat × String × String :=
  (s.proposalId, s.source, s.url)

/-- A row of `downloads`, in the columns that `record` reads. -/
structure Download where
  proposalId : Option Nat
  repo : String

/-- An edge. A neighbor score is columns; none elsewhere. -/
structure Edge where
  src : Nat
  dst : Nat
  relation : String
  note : String
  shared : Option Int
  crowd : Option Int
  score : Option ℚ

def Edge.key (e : Edge) : Nat × Nat × String :=
  (e.src, e.dst, e.relation)

theorem nodup_concat_map {α β : Type} {f : α → β} {l : List α} {a : α} (once : (l.map f).Nodup)
    (new : f a ∉ l.map f) : ((l ++ [a]).map f).Nodup := by
  rw [List.map_append, List.nodup_append]
  refine ⟨once, List.nodup_singleton _, fun held member other last same => ?_⟩
  rw [List.mem_singleton.mp last] at same
  exact new (same ▸ member)

/-- The tables with what they are declared unique in. -/
structure Catalog where
  proposals : Table Row
  names : (proposals.rows.map fun row => row.2.name).Nodup
  sightings : List Sighting
  once : (sightings.map Sighting.key).Nodup
  edges : List Edge
  linked : (edges.map Edge.key).Nodup
  downloads : List Download

namespace Catalog

def empty : Catalog where
  proposals := ∅
  names := List.nodup_nil
  sightings := []
  once := List.nodup_nil
  edges := []
  linked := List.nodup_nil
  downloads := []

variable (c : Catalog)

def entry (name : String) : Option (Nat × Row) :=
  c.proposals.rows.find? fun row => row.2.name = name

def row (name : String) : Option Row :=
  (c.entry name).map Prod.snd

theorem mem_of_entry {c : Catalog} {name : String} {entry : Nat × Row} (found : c.entry name = some entry) :
    entry ∈ c.proposals.rows ∧ entry.2.name = name :=
  ⟨List.mem_of_find?_eq_some found, by simpa using List.find?_some found⟩

/-- A name has one row. -/
theorem entry_eq_some {c : Catalog} {name : String} {entry : Nat × Row} :
    c.entry name = some entry ↔ entry ∈ c.proposals.rows ∧ entry.2.name = name := by
  refine ⟨mem_of_entry, fun ⟨member, same⟩ => ?_⟩
  cases found : c.entry name with
  | none => exact absurd (decide_eq_true same) (List.find?_eq_none.mp found entry member)
  | some other =>
      obtain ⟨inside, named⟩ := mem_of_entry found
      rw [List.inj_on_of_nodup_map c.names inside member (named.trans same.symm)]

theorem entry_eq_none {c : Catalog} {name : String} :
    c.entry name = none ↔ name ∉ c.proposals.rows.map fun row => row.2.name := by
  rw [entry, List.find?_eq_none, List.mem_map]
  simp

/-- Rows change under their names. -/
def update (pid : Nat) (change : Row → Row) (kept : ∀ r, (change r).name = r.name) : Catalog :=
  { c with
    proposals := c.proposals.update pid change
    names := by
      have same : ((c.proposals.update pid change).rows.map fun row => row.2.name) =
          c.proposals.rows.map fun row => row.2.name := by
        rw [Table.update, List.map_map]
        refine List.map_congr_left fun row _ => ?_
        by_cases here : row.1 = pid <;> simp [here, kept]
      rw [same]
      exact c.names }

def insert (r : Row) (new : c.entry r.name = none) : Catalog :=
  { c with
    proposals := c.proposals.insert c.proposals.nextId r c.proposals.above_nextId
    names := by
      rw [Table.rows_insert]
      exact nodup_concat_map c.names (entry_eq_none.mp new) }

/-- `INSERT OR IGNORE INTO sightings` -/
def sight (s : Sighting) : Catalog :=
  if fresh : s.key ∈ c.sightings.map Sighting.key then c
  else
    { c with
      sightings := c.sightings ++ [s]
      once := nodup_concat_map c.once fresh }

end Catalog

/-! ## Recording -/

/-- `CASE WHEN new<>'' THEN new ELSE old END` -/
def latestOf (old new : String) : String :=
  if new ≠ "" then new else old

/-- `CASE WHEN old='' THEN new ELSE old END` -/
def earliestOf (old new : String) : String :=
  if old = "" then new else old

def Seen.first (seen : Seen) (now : ℚ) : Row where
  name := seen.name
  kind := seen.kind
  registry := seen.registry
  description := seen.description
  lane := seen.lane
  resolved := seen.resolved
  laneSource := if seen.lane ≠ "" then seen.laneSource else ""
  category := seen.category
  firstSeen := now
  lastSeen := now

def Seen.again (seen : Seen) (now : ℚ) (r : Row) : Row :=
  { r with
    lastSeen := now
    resolved := latestOf r.resolved seen.resolved
    laneSource := if r.lane = "" ∧ seen.lane ≠ "" then seen.laneSource else r.laneSource
    lane := earliestOf r.lane seen.lane
    registry := earliestOf r.registry seen.registry
    description := latestOf r.description seen.description
    category := earliestOf r.category seen.category }

theorem Seen.again_name (seen : Seen) (now : ℚ) (r : Row) : (seen.again now r).name = r.name := rfl

/-- Weights downloaded before a proposal existed are its. The table's own `lower` knows the letters of ASCII. -/
def claimed (u : Unicode) (pid : Nat) (name : String) (d : Download) : Download :=
  if d.proposalId = none ∧ d.repo.toList.map Char.toLower = u.lower name.toList then { d with proposalId := some pid }
  else d

/-- The row of a name that is seen, made or brought up to date. -/
def upsert (u : Unicode) (c : Catalog) (seen : Seen) (now : ℚ) : Nat × Catalog :=
  match held : c.entry seen.name with
  | some (pid, _) => (pid, c.update pid (seen.again now) (seen.again_name now))
  | none =>
      let pid := c.proposals.nextId
      (pid, { c.insert (seen.first now) held with downloads := c.downloads.map (claimed u pid seen.name) })

/-- `record`; `machine` is this machine's row. -/
def record (u : Unicode) (c : Catalog) (seen : Seen) (now : ℚ) (machine : Nat) : Nat × Catalog :=
  let put := upsert u c seen now
  (put.1, put.2.sight
    { proposalId := put.1, source := seen.source, url := seen.url, why := seen.why, relevance := seen.relevance
      seenAt := now, machineId := machine })

/-! ## What a row comes to -/

/-- The first text that says something. -/
def firstOf (texts : List String) : String :=
  (texts.find? fun text => text ≠ "").getD ""

/-- What a name's own sightings say of it, in their order. -/
def summary (mine : List (Seen × ℚ)) : Option Row :=
  mine.head?.map fun (seen, now) =>
    { name := seen.name
      kind := seen.kind
      registry := firstOf (mine.map fun s => s.1.registry)
      description := firstOf (mine.map fun s => s.1.description).reverse
      lane := firstOf (mine.map fun s => s.1.lane)
      resolved := firstOf (mine.map fun s => s.1.resolved).reverse
      laneSource := ((mine.find? fun s => s.1.lane ≠ "").map fun s => s.1.laneSource).getD ""
      category := firstOf (mine.map fun s => s.1.category)
      firstSeen := now
      lastSeen := ((mine.getLast?).map Prod.snd).getD now }

theorem firstOf_concat (texts : List String) (text : String) :
    firstOf (texts ++ [text]) = earliestOf (firstOf texts) text := by
  unfold firstOf earliestOf
  rw [List.find?_append]
  cases found : texts.find? fun text => text ≠ "" with
  | some held =>
      have said : held ≠ "" := by simpa using List.find?_some found
      rw [Option.some_or, Option.getD_some, if_neg said]
  | none =>
      rw [Option.none_or, Option.getD_none, if_pos rfl]
      by_cases blank : text = "" <;> simp [blank]

theorem firstOf_cons (text : String) (texts : List String) :
    firstOf (text :: texts) = latestOf (firstOf texts) text := by
  unfold firstOf latestOf
  by_cases blank : text = "" <;> simp [blank]

theorem firstOf_singleton (text : String) : firstOf [text] = text := by
  by_cases blank : text = "" <;> simp [firstOf, blank]

theorem firstOf_eq_empty {texts : List String} : firstOf texts = "" ↔ ∀ text ∈ texts, text = "" := by
  unfold firstOf
  cases found : texts.find? fun text => text ≠ "" with
  | some held =>
      have said : held ≠ "" := by simpa using List.find?_some found
      exact iff_of_false said fun all => said (all held (List.mem_of_find?_eq_some found))
  | none => simpa using List.find?_eq_none.mp found

theorem laneSource_concat (mine : List (Seen × ℚ)) (seen : Seen) (now : ℚ) :
    (((mine ++ [(seen, now)]).find? fun s => s.1.lane ≠ "").map fun s => s.1.laneSource).getD "" =
      if firstOf (mine.map fun s => s.1.lane) = "" ∧ seen.lane ≠ "" then seen.laneSource
      else ((mine.find? fun s => s.1.lane ≠ "").map fun s => s.1.laneSource).getD "" := by
  rw [List.find?_append]
  cases found : mine.find? fun s => s.1.lane ≠ "" with
  | some held =>
      have said : held.1.lane ≠ "" := by simpa using List.find?_some found
      have lanes : firstOf (mine.map fun s => s.1.lane) ≠ "" := fun blank =>
        said (firstOf_eq_empty.mp blank _ (List.mem_map_of_mem (List.mem_of_find?_eq_some found)))
      rw [if_neg fun both => lanes both.1]
      rfl
  | none =>
      have blank : firstOf (mine.map fun s => s.1.lane) = "" := by
        rw [firstOf_eq_empty, List.forall_mem_map]
        simpa using List.find?_eq_none.mp found
      rw [Option.none_or]
      by_cases said : seen.lane = "" <;> simp [said, blank]

/-- One more sighting brings the summary up to date. -/
theorem summary_concat (mine : List (Seen × ℚ)) (seen : Seen) (now : ℚ) :
    summary (mine ++ [(seen, now)]) =
      some (match summary mine with
        | none => seen.first now
        | some r => seen.again now r) := by
  cases first : mine.head? with
  | none =>
      obtain rfl := List.head?_eq_none_iff.mp first
      by_cases lane : seen.lane = "" <;> simp [summary, Seen.first, firstOf_singleton, lane]
  | some head =>
      simp only [summary, first, List.head?_append, Option.some_or, Option.map_some, List.map_append, List.map_cons,
        List.map_nil, firstOf_concat, List.reverse_append, List.reverse_singleton, List.singleton_append, firstOf_cons,
        laneSource_concat, List.getLast?_concat, Option.getD_some, Seen.again]

/-! ## Runs of recordings -/

/-- A call of `record`: what was seen, when, and on which machine. -/
abbrev Call := Seen × ℚ × Nat

def run (u : Unicode) (calls : List Call) : Catalog :=
  calls.foldl (fun c call => (record u c call.1 call.2.1 call.2.2).2) .empty

def callsOf (calls : List Call) (name : String) : List Call :=
  calls.filter fun call => call.1.name = name

section

variable {u : Unicode} {c : Catalog} {seen : Seen} {now : ℚ} {machine : Nat} {name : String} {pid : Nat}

theorem entry_sight (s : Sighting) : (c.sight s).entry name = c.entry name := by
  unfold Catalog.sight
  split <;> rfl

theorem entry_update {change : Row → Row} {kept : ∀ r, (change r).name = r.name} :
    (c.update pid change kept).entry name =
      (c.entry name).map fun entry => if entry.1 = pid then (entry.1, change entry.2) else entry := by
  cases found : c.entry name with
  | none =>
      refine Catalog.entry_eq_none.mpr fun inside => Catalog.entry_eq_none.mp found ?_
      obtain ⟨row, member, rfl⟩ := List.mem_map.mp inside
      obtain ⟨before, held, rfl⟩ := List.mem_map.mp member
      refine List.mem_map.mpr ⟨before, held, ?_⟩
      by_cases here : before.1 = pid <;> simp [here, kept]
  | some entry =>
      obtain ⟨member, same⟩ := Catalog.mem_of_entry found
      refine Catalog.entry_eq_some.mpr ⟨List.mem_map.mpr ⟨entry, member, rfl⟩, ?_⟩
      by_cases here : entry.1 = pid <;> simp [here, kept, same]

theorem entry_insert {r : Row} (new : c.entry r.name = none) :
    (c.insert r new).entry name = if name = r.name then some (c.proposals.nextId, r) else c.entry name := by
  split
  next same => exact Catalog.entry_eq_some.mpr ⟨by simp [Catalog.insert], same.symm⟩
  next apart =>
    cases found : c.entry name with
    | none =>
        refine Catalog.entry_eq_none.mpr fun inside => ?_
        rw [Catalog.insert, Table.rows_insert, List.map_append, List.mem_append] at inside
        rcases inside with before | last
        · exact Catalog.entry_eq_none.mp found before
        · exact apart (List.mem_singleton.mp last)
    | some entry =>
        obtain ⟨member, same⟩ := Catalog.mem_of_entry found
        exact Catalog.entry_eq_some.mpr ⟨by simp [Catalog.insert, member], same⟩

/-- What a recording leaves of each name: its own row brought up to date, the others as they were. -/
theorem upsert_cases (u : Unicode) (c : Catalog) (seen : Seen) (now : ℚ) :
    (∃ row, c.entry seen.name = some ((upsert u c seen now).1, row) ∧
      (upsert u c seen now).2.entry seen.name = some ((upsert u c seen now).1, seen.again now row)) ∨
    c.entry seen.name = none ∧ (upsert u c seen now).1 = c.proposals.nextId ∧
      (upsert u c seen now).2.entry seen.name = some ((upsert u c seen now).1, seen.first now) := by
  unfold upsert
  split
  next pid row held =>
    refine .inl ⟨row, held, ?_⟩
    rw [entry_update, held, Option.map_some, if_pos rfl]
  next held =>
    refine .inr ⟨held, rfl, ?_⟩
    have inserted : (c.insert (seen.first now) held).entry (seen.first now).name = _ := entry_insert held
    exact inserted.trans (if_pos rfl)

/-- Two names have two rows. -/
theorem ids_apart {other : String} {first second : Nat × Row} (found : c.entry name = some first)
    (held : c.entry other = some second) (apart : name ≠ other) : first.1 ≠ second.1 := by
  intro same
  obtain ⟨member, named⟩ := Catalog.mem_of_entry found
  obtain ⟨member', named'⟩ := Catalog.mem_of_entry held
  have one := List.inj_on_of_nodup_map c.proposals.nodup member member' same
  exact apart (named.symm.trans ((congrArg (fun e => e.2.name) one).trans named'))

theorem entry_upsert_other (apart : name ≠ seen.name) : (upsert u c seen now).2.entry name = c.entry name := by
  unfold upsert
  split
  next pid row held =>
    rw [entry_update]
    cases found : c.entry name with
    | none => rfl
    | some entry =>
        rw [Option.map_some, if_neg (ids_apart found held apart)]
  next held => exact (entry_insert held).trans (if_neg apart)

theorem row_record : (record u c seen now machine).2.row name =
    if name = seen.name then
      some (match c.row name with
        | none => seen.first now
        | some r => seen.again now r)
    else c.row name := by
  rw [record, Catalog.row, entry_sight]
  split
  next same =>
    subst same
    rcases upsert_cases u c seen now with ⟨row, held, after⟩ | ⟨held, -, after⟩
    · rw [after, Catalog.row, held]
      rfl
    · rw [after, Catalog.row, held]
      rfl
  next apart => rw [entry_upsert_other apart, Catalog.row]

end

theorem callsOf_concat (earlier : List Call) (call : Call) (name : String) :
    callsOf (earlier ++ [call]) name =
      if name = call.1.name then callsOf earlier name ++ [call] else callsOf earlier name := by
  rw [callsOf, List.filter_append, ← callsOf, List.filter_singleton]
  by_cases same : name = call.1.name
  · simp [same]
  · have other : call.1.name ≠ name := Ne.symm same
    simp [same, other]

/-- Whatever is recorded in between, the row of a name is what its own sightings say in their order: the first
registry, lane and category, the last description and resolution, and when it was first and last seen. -/
theorem recorded (u : Unicode) (calls : List Call) (name : String) :
    (run u calls).row name = summary ((callsOf calls name).map fun call => (call.1, call.2.1)) := by
  unfold run
  induction calls using List.reverseRecOn with
  | nil => rfl
  | append_singleton earlier call ih =>
      obtain ⟨seen, now, machine⟩ := call
      rw [List.foldl_concat, row_record, ih, callsOf_concat]
      split
      next same => rw [List.map_append, List.map_singleton, summary_concat]
      next apart => rfl

/-! ## Sightings -/

def placesOf (sightings : List Sighting) (pid : Nat) : List (String × String) :=
  (sightings.filter fun s => s.proposalId = pid).map fun s => (s.source, s.url)

/-- Where a name was seen, in the order of its sightings. -/
def places (c : Catalog) (name : String) : List (String × String) :=
  match c.entry name with
  | none => []
  | some (pid, _) => placesOf c.sightings pid

/-- Each sighting is of a row. -/
def Cited (c : Catalog) : Prop :=
  ∀ s ∈ c.sightings, s.proposalId ∈ c.proposals.ids

section

variable {u : Unicode} {c : Catalog} {seen : Seen} {now : ℚ} {machine : Nat} {name : String}

theorem sightings_upsert : (upsert u c seen now).2.sightings = c.sightings := by
  unfold upsert
  split <;> rfl

theorem ids_upsert : c.proposals.ids ⊆ (upsert u c seen now).2.proposals.ids ∧
    (upsert u c seen now).1 ∈ (upsert u c seen now).2.proposals.ids := by
  unfold upsert
  split
  next pid row held =>
    have present : pid ∈ c.proposals.ids := List.mem_map_of_mem (Catalog.mem_of_entry held).1
    simp only [Catalog.update, Table.ids_update]
    exact ⟨List.Subset.refl _, present⟩
  next held =>
    refine ⟨fun id present => ?_, ?_⟩
    · exact (Table.mem_ids_insert c.proposals.above_nextId).mpr (.inl present)
    · exact (Table.mem_ids_insert c.proposals.above_nextId).mpr (.inr rfl)

/-- A sighting is added where its row, source and address are new together. -/
theorem sightings_sight (s : Sighting) :
    (c.sight s).sightings = c.sightings ++ if s.key ∈ c.sightings.map Sighting.key then [] else [s] := by
  unfold Catalog.sight
  split
  next => rw [List.append_nil]
  next => rfl

theorem cited_record (cited : Cited c) : Cited (record u c seen now machine).2 := by
  obtain ⟨kept, here⟩ : c.proposals.ids ⊆ (upsert u c seen now).2.proposals.ids ∧ _ := ids_upsert
  have rows : ∀ s, ((upsert u c seen now).2.sight s).proposals = (upsert u c seen now).2.proposals := by
    intro s
    unfold Catalog.sight
    split <;> rfl
  intro s member
  rw [record, rows]
  rw [record, sightings_sight, sightings_upsert, List.mem_append] at member
  rcases member with before | last
  · exact kept (cited s before)
  · split at last
    next => cases last
    next =>
      obtain rfl := List.mem_singleton.mp last
      exact here

theorem mem_placesOf {sightings : List Sighting} {pid : Nat} {place : String × String} :
    place ∈ placesOf sightings pid ↔ (pid, place) ∈ sightings.map Sighting.key := by
  simp only [placesOf, List.mem_map, List.mem_filter, decide_eq_true_eq, Sighting.key, Prod.mk.injEq]
  constructor
  · rintro ⟨s, ⟨member, same⟩, rfl⟩
    exact ⟨s, member, same, rfl⟩
  · rintro ⟨s, member, same, rfl⟩
    exact ⟨s, ⟨member, same⟩, rfl⟩

theorem placesOf_sight (s : Sighting) (pid : Nat) :
    placesOf (c.sight s).sightings pid = placesOf c.sightings pid ++
      if pid = s.proposalId ∧ (s.source, s.url) ∉ placesOf c.sightings pid then [(s.source, s.url)] else [] := by
  rw [sightings_sight, placesOf, List.filter_append, List.map_append, ← placesOf]
  congr 1
  by_cases here : pid = s.proposalId
  · subst here
    have place : (s.source, s.url) ∈ placesOf c.sightings s.proposalId ↔ s.key ∈ c.sightings.map Sighting.key :=
      mem_placesOf
    have own : [s].filter (fun other => other.proposalId = s.proposalId) = [s] := by simp
    by_cases known : s.key ∈ c.sightings.map Sighting.key
    · rw [if_pos known, if_neg fun both => both.2 (place.mpr known), List.filter_nil, List.map_nil]
    · rw [if_neg known, if_pos ⟨rfl, fun inside => known (place.mp inside)⟩, own, List.map_singleton]
  · have none_ : [s].filter (fun other => other.proposalId = pid) = [] := by simpa using Ne.symm here
    rw [if_neg (c := pid = s.proposalId ∧ _) fun both => here both.1]
    split
    next => rfl
    next => rw [none_, List.map_nil]

theorem placesOf_record {pid : Nat} :
    placesOf (record u c seen now machine).2.sightings pid = placesOf c.sightings pid ++
      if pid = (upsert u c seen now).1 ∧ (seen.source, seen.url) ∉ placesOf c.sightings pid
      then [(seen.source, seen.url)] else [] := by
  rw [record, placesOf_sight, sightings_upsert]

theorem places_record (cited : Cited c) : places (record u c seen now machine).2 name =
    if name = seen.name ∧ (seen.source, seen.url) ∉ places c name then places c name ++ [(seen.source, seen.url)]
    else places c name := by
  have entry : (record u c seen now machine).2.entry name = (upsert u c seen now).2.entry name := by
    rw [record, entry_sight]
  rw [places, entry]
  by_cases same : name = seen.name
  · subst same
    rcases upsert_cases u c seen now with ⟨row, held, after⟩ | ⟨held, new, after⟩
    · rw [after, places, held]
      dsimp only
      rw [placesOf_record]
      split <;> simp_all
    · have none_ : placesOf c.sightings (upsert u c seen now).1 = [] := by
        rw [placesOf, List.map_eq_nil_iff, List.filter_eq_nil_iff, new]
        intro s member
        have below := c.proposals.above_nextId _ (cited s member)
        simpa using below.ne
      rw [after, places, held]
      dsimp only
      rw [placesOf_record, none_]
      simp
  · rw [entry_upsert_other same, if_neg fun both => same both.1, places]
    cases found : c.entry name with
    | none => rfl
    | some held =>
        obtain ⟨pid, row⟩ := held
        have elsewhere : pid ≠ (upsert u c seen now).1 := by
          rcases upsert_cases u c seen now with ⟨other, held, -⟩ | ⟨-, new, -⟩
          · exact ids_apart found held same
          · rw [new]
            exact (c.proposals.above_nextId _ (List.mem_map_of_mem (Catalog.mem_of_entry found).1)).ne
        dsimp only
        rw [placesOf_record, if_neg fun both => elsewhere both.1, List.append_nil]

end

theorem firsts_concat {α : Type} [DecidableEq α] (l : List α) (a : α) :
    Tally.firsts (l ++ [a]) = if a ∈ l then Tally.firsts l else Tally.firsts l ++ [a] := by
  rw [Tally.firsts, List.reverse_append, List.reverse_singleton, List.singleton_append]
  split
  next known => rw [List.dedup_cons_of_mem (List.mem_reverse.mpr known), ← Tally.firsts]
  next new => rw [List.dedup_cons_of_notMem (mt List.mem_reverse.mp new), List.reverse_cons, ← Tally.firsts]

theorem cited_run (u : Unicode) (calls : List Call) : Cited (run u calls) := by
  unfold run
  induction calls using List.reverseRecOn with
  | nil => exact List.forall_mem_nil _
  | append_singleton earlier call ih =>
      rw [List.foldl_concat]
      exact cited_record ih

/-- A name is sighted once at each source and address, in the order in which they were first seen. -/
theorem sighted (u : Unicode) (calls : List Call) (name : String) :
    places (run u calls) name = Tally.firsts ((callsOf calls name).map fun call => (call.1.source, call.1.url)) := by
  induction calls using List.reverseRecOn with
  | nil => rfl
  | append_singleton earlier call ih =>
      obtain ⟨seen, now, machine⟩ := call
      have step : run u (earlier ++ [(seen, now, machine)]) = (record u (run u earlier) seen now machine).2 := by
        rw [run, List.foldl_concat, ← run]
      rw [step, places_record (cited_run u earlier), ih, callsOf_concat]
      by_cases same : name = seen.name
      · rw [if_pos same, List.map_append, List.map_singleton, firsts_concat]
        by_cases known : (seen.source, seen.url) ∈ (callsOf earlier name).map fun call => (call.1.source, call.1.url)
        · rw [if_neg fun both => both.2 (Top.mem_firsts.mpr known), if_pos known]
        · rw [if_pos ⟨same, mt Top.mem_firsts.mp known⟩, if_neg known]
      · rw [if_neg fun both => same both.1, if_neg same]

/-! ## Edges -/

/-- What a link is made of, beside its ends. -/
structure Link where
  relation : String
  note : String := ""
  shared : Option Int := none
  crowd : Option Int := none
  score : Option ℚ := none

def Link.edge (l : Link) (src dst : Nat) : Edge :=
  { src, dst, relation := l.relation, note := l.note, shared := l.score.bind fun _ => l.shared
    crowd := l.score.bind fun _ => l.crowd, score := l.score }

/-- `ON CONFLICT (src, dst, relation) DO UPDATE`: a neighbor score is refreshed, and its note kept. -/
def Link.refresh (l : Link) (new held : Edge) : Edge :=
  if held.key = new.key ∧ l.score ≠ none then { held with shared := l.shared, crowd := l.crowd, score := l.score }
  else held

theorem Link.refresh_key (l : Link) (new held : Edge) : (l.refresh new held).key = held.key := by
  unfold refresh
  split <;> rfl

/-- An edge that is there is refreshed, and one that is not is inserted. -/
def join (c : Catalog) (l : Link) (new : Edge) : Catalog :=
  if fresh : new.key ∈ c.edges.map Edge.key then
    { c with
      edges := c.edges.map (l.refresh new)
      linked := by
        have same : (c.edges.map (l.refresh new)).map Edge.key = c.edges.map Edge.key := by
          rw [List.map_map]
          exact List.map_congr_left fun held _ => l.refresh_key new held
        rw [same]
        exact c.linked }
  else { c with edges := c.edges ++ [new], linked := nodup_concat_map c.linked fresh }

/-- `link`: both ends must already exist. -/
def link (c : Catalog) (src dst : String) (l : Link) : Except String Catalog :=
  match c.entry src, c.entry dst with
  | none, _ => .error ("no proposal named " ++ Text.quoted src)
  | some _, none => .error ("no proposal named " ++ Text.quoted dst)
  | some (from_, _), some (to_, _) => .ok (join c l (l.edge from_ to_))

/-! ## Walks along them -/

inductive Direction
  | forward
  | backward
  | both
  deriving DecidableEq

def Direction.text : Direction → String
  | forward => "forward"
  | backward => "backward"
  | both => "both"

def Direction.ofText? (text : String) : Option Direction :=
  if text = "forward" then some .forward
  else if text = "backward" then some .backward
  else if text = "both" then some .both
  else none

def Direction.opposite : Direction → Direction
  | .forward => .backward
  | .backward => .forward
  | .both => .both

/-- The edges that a step from a row takes, each with the row at its other end. -/
def arcs (edges : List Edge) : Direction → Nat → List (Nat × String)
  | .forward, id => (edges.filter fun e => e.src = id).map fun e => (e.dst, e.relation)
  | .backward, id => (edges.filter fun e => e.dst = id).map fun e => (e.src, e.relation)
  | .both, id => (edges.filter fun e => e.src = id ∨ e.dst = id).map fun e =>
      (if e.src = id then e.dst else e.src, e.relation)

structure Listed where
  name : String
  kind : String
  lane : String
  depth : Nat
  relation : String

/-- The rows of one depth, joined with what they are. -/
def listed (c : Catalog) (direction : Direction) (start depth : Nat) : List Listed :=
  (Walks.level (arcs c.edges direction) "" start depth).filterMap fun place =>
    (c.proposals.find? place.1).map fun row =>
      { name := row.name, kind := row.kind, lane := row.lane, depth, relation := place.2 }

/-- `traverse`: the rows in the order of their depths, and at one depth of their names. -/
def traverse (c : Catalog) (name : String) (depth : ℤ) (direction : String) : Except String (List Listed) :=
  match Direction.ofText? direction with
  | none => .error "direction must be forward, backward or both"
  | some direction =>
      match c.entry name with
      | none => .error ("no proposal named " ++ Text.quoted name)
      | some (start, _) =>
          .ok ((List.range depth.toNat).flatMap fun d =>
            (listed c direction start (d + 1)).mergeSort fun a b => a.name ≤ b.name)

/-- A walk from one name lists another at a depth. -/
def Lists (c : Catalog) (direction : Direction) (depth : ℤ) (a b : String) (d : Nat) : Prop :=
  ∃ rows, traverse c a depth direction.text = .ok rows ∧ ∃ row ∈ rows, row.name = b ∧ row.depth = d

section

variable {c : Catalog} {direction : Direction} {depth : ℤ} {a b : String} {d : Nat}

theorem back_arcs (edges : List Edge) (direction : Direction) :
    Walks.Back (arcs edges direction) (arcs edges direction.opposite) := by
  have ends : ∀ p : Edge → Prop, [DecidablePred p] → ∀ (f : Edge → Nat) (x : Nat),
      (∃ label, (x, label) ∈ (edges.filter fun e => p e).map fun e => (f e, e.relation)) ↔
        ∃ e ∈ edges, p e ∧ f e = x := by
    intro p _ f x
    constructor
    · rintro ⟨label, member⟩
      obtain ⟨e, inside, same⟩ := List.mem_map.mp member
      obtain ⟨held, also⟩ := List.mem_filter.mp inside
      exact ⟨e, held, of_decide_eq_true also, congrArg Prod.fst same⟩
    · rintro ⟨e, held, also, rfl⟩
      exact ⟨e.relation, List.mem_map.mpr ⟨e, List.mem_filter.mpr ⟨held, decide_eq_true also⟩, rfl⟩⟩
  intro x y
  cases direction with
  | forward =>
      simp only [arcs, Direction.opposite, ends]
      exact exists_congr fun e => and_congr_right fun _ => and_comm
  | backward =>
      simp only [arcs, Direction.opposite, ends]
      exact exists_congr fun e => and_congr_right fun _ => and_comm
  | both =>
      simp only [arcs, Direction.opposite, ends]
      refine exists_congr fun e => and_congr_right fun _ => ?_
      by_cases first : e.src = x <;> by_cases second : e.src = y <;> simp [first, second] <;> grind

theorem mem_listed {start : Nat} {row : Listed} : row ∈ listed c direction start d ↔
    ∃ id held, c.proposals.find? id = some held ∧
      Walks.Walk (arcs c.edges direction) "" start d id row.relation ∧
      row = { name := held.name, kind := held.kind, lane := held.lane, depth := d, relation := row.relation } := by
  simp only [listed, List.mem_filterMap, Option.map_eq_some_iff, Walks.mem_level]
  constructor
  · rintro ⟨place, walk, held, found, rfl⟩
    exact ⟨place.1, held, found, walk, rfl⟩
  · rintro ⟨id, held, found, walk, same⟩
    exact ⟨(id, row.relation), walk, held, found, same.symm⟩

/-- What is listed at a depth is what is as many edges away, up to the depth that is asked for. -/
theorem lists_iff : Lists c direction depth a b d ↔
    1 ≤ d ∧ (d : ℤ) ≤ depth ∧ ∃ start goal, c.entry a = some start ∧ c.entry b = some goal ∧
      Walks.Apart (arcs c.edges direction) d start.1 goal.1 := by
  have known : Direction.ofText? direction.text = some direction := by cases direction <;> decide
  unfold Lists traverse
  rw [known]
  dsimp only
  cases found : c.entry a with
  | none =>
      constructor
      · rintro ⟨rows, raised, -⟩
        cases raised
      · rintro ⟨-, -, start, goal, nothing, -⟩
        cases nothing
  | some start =>
      obtain ⟨pid, held⟩ := start
      have rows_iff : (∃ row ∈ (List.range depth.toNat).flatMap fun n =>
          (listed c direction pid (n + 1)).mergeSort fun a b => a.name ≤ b.name, row.name = b ∧ row.depth = d) ↔
          1 ≤ d ∧ (d : ℤ) ≤ depth ∧ ∃ row ∈ listed c direction pid d, row.name = b := by
        simp only [List.mem_flatMap, List.mem_range, List.mem_mergeSort]
        constructor
        · rintro ⟨row, ⟨n, below, member⟩, same, rfl⟩
          have depth_ : row.depth = n + 1 := by
            obtain ⟨_, _, -, -, shape⟩ := mem_listed.mp member
            rw [shape]
          rw [depth_]
          exact ⟨by omega, by omega, row, member, same⟩
        · rintro ⟨some_, most, row, member, same⟩
          refine ⟨row, ⟨d - 1, by omega, ?_⟩, same, ?_⟩
          · rwa [Nat.sub_add_cancel some_]
          · obtain ⟨_, _, -, -, shape⟩ := mem_listed.mp member
            rw [shape]
      have listed_iff : (∃ row ∈ listed c direction pid d, row.name = b) ↔
          ∃ goal, c.entry b = some goal ∧ Walks.Apart (arcs c.edges direction) d pid goal.1 := by
        constructor
        · rintro ⟨row, member, rfl⟩
          obtain ⟨id, goal, there, walk, shape⟩ := mem_listed.mp member
          have apart := Walks.exists_walk.mp ⟨_, walk⟩
          refine ⟨(id, goal), Catalog.entry_eq_some.mpr ⟨Table.find?_eq_some.mp there, ?_⟩, apart⟩
          rw [shape]
        · rintro ⟨⟨id, goal⟩, there, apart⟩
          obtain ⟨member, same⟩ := Catalog.mem_of_entry there
          obtain ⟨relation, walk⟩ : ∃ relation, Walks.Walk (arcs c.edges direction) "" pid d id relation :=
            Walks.exists_walk.mpr apart
          let row : Listed := { name := goal.name, kind := goal.kind, lane := goal.lane, depth := d, relation }
          exact ⟨row, mem_listed.mpr ⟨id, goal, Table.find?_eq_some.mpr member, walk, rfl⟩, same⟩
      constructor
      · rintro ⟨rows, made, row⟩
        rw [← Except.ok.inj made, rows_iff] at row
        obtain ⟨some_, most, inside⟩ := row
        obtain ⟨goal, there, apart⟩ := listed_iff.mp inside
        exact ⟨some_, most, (pid, held), goal, rfl, there, apart⟩
      · rintro ⟨some_, most, start, goal, same, there, apart⟩
        obtain rfl := Option.some.inj same
        exact ⟨_, rfl, rows_iff.mpr ⟨some_, most, listed_iff.mpr ⟨goal, there, apart⟩⟩⟩

end

/-- One name is listed in the walk from another at a depth where the other is in the walk back from it, at the same
depth; along edges both ways each lists the other. -/
theorem traverse_back (c : Catalog) (direction : Direction) (depth : ℤ) (a b : String) (d : Nat) :
    Lists c direction depth a b d ↔ Lists c direction.opposite depth b a d := by
  rw [lists_iff, lists_iff]
  refine and_congr_right fun _ => and_congr_right fun _ => ?_
  constructor
  · rintro ⟨start, goal, from_, there, apart⟩
    exact ⟨goal, start, there, from_, apart.reversed (back_arcs c.edges direction)⟩
  · rintro ⟨start, goal, from_, there, apart⟩
    exact ⟨goal, start, there, from_, apart.reversed (back_arcs c.edges direction).symm⟩

/-! ## Retiring what is no longer named -/

def nameOf (s : Store) (id : Nat) : Option String :=
  (s.proposals.find? id).map Proposal.name

def stateOf (s : Store) (name : String) : Option Outcome :=
  (s.named name).bind fun pid => (s.proposals.find? pid).bind Proposal.state

/-- The state machine's rows and the edges between them. -/
structure Linked where
  store : Store
  names : (store.proposals.rows.map fun row => row.2.name).Nodup
  edges : List Edge
  once : (edges.map Edge.key).Nodup

/-- `parents`: what names a row. -/
def parents (edges : List Edge) (s : Store) (name relation : String) : List String :=
  edges.filterMap fun e => if nameOf s e.dst = some name ∧ e.relation = relation then nameOf s e.src else none

def children (edges : List Edge) (s : Store) (name relation : String) : List String :=
  edges.filterMap fun e => if nameOf s e.src = some name ∧ e.relation = relation then nameOf s e.dst else none

/-- The arguments of `retire_unlisted`. -/
structure Retiring where
  name : String
  keep : List String
  relation : String := "needs"
  why : String := ""
  outcome : String := "ignored"
  now : ℚ
  machineId : Nat

/-- It is queued, is not kept, and no other row names it. -/
def unlisted (edges : List Edge) (r : Retiring) (s : Store) (other : String) : Bool :=
  other ∉ r.keep ∧ stateOf s other = some .queued ∧ ∀ p ∈ parents edges s other r.relation, p = r.name

def Retiring.decision (r : Retiring) (other : String) : Decision :=
  { name := other, outcome := r.outcome, tier := inspect, detail := .ofList (r.why.toList.take 200)
    reason := "candidate", now := r.now, machineId := r.machineId }

def retireEach (edges : List Edge) (r : Retiring) : List String → Store → Except Error (List String) × Store
  | [], s => (.ok [], s)
  | other :: rest, s =>
      if unlisted edges r s other then
        match decideOrSkip s (r.decision other) with
        | (.error e, s') => (.error e, s')
        | (.ok done, s') =>
            match retireEach edges r rest s' with
            | (.error e, s'') => (.error e, s'')
            | (.ok names, s'') => (.ok (if done.isSome then other :: names else names), s'')
      else retireEach edges r rest s

/-- `retire_unlisted`, over the rows as they are when it reads them. -/
def retireUnlisted (edges : List Edge) (s : Store) (r : Retiring) : Except Error (List String) × Store :=
  retireEach edges r (children edges s r.name r.relation) s

section

variable {edges : List Edge} {s after : Store} {r : Retiring} {other name : String} {outcome : Outcome}

theorem stateOf_eq_some {state : Outcome} : stateOf s name = some state ↔
    ∃ pid p, s.named name = some pid ∧ s.proposals.find? pid = some p ∧ p.state = some state := by
  unfold stateOf
  constructor
  · intro held
    obtain ⟨pid, found, rest⟩ := Option.bind_eq_some_iff.mp held
    obtain ⟨p, present, state⟩ := Option.bind_eq_some_iff.mp rest
    exact ⟨pid, p, found, present, state⟩
  · rintro ⟨pid, p, found, present, state⟩
    rw [found, Option.bind_some, present, Option.bind_some, state]

/-- Nothing keeps a queued proposal from an outcome that is not the one it holds. -/
theorem write_queued {pid : Nat} {p : Proposal} {row : Verdict} (scheduled : AllScheduled s)
    (present : s.proposals.find? pid = some p) (queued : p.state = some .queued) (moves : row.outcome ≠ .queued) :
    ∃ held, write s pid name row "" "" = (.ok s.verdicts.nextId, s.moved pid row "" held) := by
  obtain ⟨held, read⟩ : ∃ held, s.held pid = some held := ⟨_, Store.held_eq_some.mpr ⟨p, present, rfl⟩⟩
  obtain ⟨p', present', shape⟩ := Store.held_eq_some.mp read
  obtain rfl := Option.some.inj (present.symm.trans present')
  have state : held.state = some .queued := by rw [shape]; exact queued
  have other : held.restated row "" = false := by
    have pointed := scheduled pid p present
    unfold Scheduled at pointed
    cases pointer : p.stateVerdictId with
    | none =>
        rw [pointer] at pointed
        exact absurd (queued.symm.trans pointed.1) (by simp)
    | some vid =>
        rw [pointer] at pointed
        obtain ⟨verdict, found, -, same, -⟩ := pointed
        have outcome : verdict.outcome = .queued := Option.some.inj (same.symm.trans queued)
        have differs : (Outcome.queued == row.outcome) = false := by simpa using moves.symm
        rw [shape, Held.restated]
        simp [pointer, found, outcome, differs]
  have allowed : transitionRefused held.state held.tier row.outcome row.tier "" = none := by
    rw [state, transitionRefused, if_neg (by simp)]
    rfl
  obtain ⟨later, reread, key⟩ := Store.held_insertVerdict_key (columns pid row "" held) s.verdicts.above_nextId read
  refine ⟨held, ?_⟩
  rw [write, if_neg (by simp), attempts, read]
  dsimp only
  simp only [other, allowed, Bool.false_eq_true, if_false, ← key, Store.swap_of_held _ _ reread]
  simp only [Store.moved, scheduleRetest, Store.updateProposal, Store.insertVerdict, Table.update_update]

theorem nameOf_moved (pid : Nat) (row : Verdict) (held : Held) (id : Nat) :
    nameOf (s.moved pid row "" held) id = nameOf s id := by
  rw [nameOf, nameOf, Store.moved_find?]
  split
  next same =>
    rw [same, Option.map_map]
    exact congrArg (Option.map · _) (funext fun p => rescheduled_name row "" _)
  next => rfl

theorem stateOf_moved {pid : Nat} (named : s.named other = some pid) (row : Verdict) (held : Held) (x : String) :
    stateOf (s.moved pid row "" held) x = if x = other then some row.outcome else stateOf s x := by
  rw [stateOf, Store.moved_named]
  obtain ⟨p, present, same⟩ := Store.named_present named
  split
  next here =>
    rw [here, named, Option.bind_some, Store.moved_find?, if_pos rfl, present, Option.map_some, Option.bind_some,
      rescheduled_state]
  next apart =>
    rw [stateOf]
    cases found : s.named x with
    | none => rfl
    | some pid' =>
        obtain ⟨p', present', same'⟩ := Store.named_present found
        have elsewhere : pid' ≠ pid := by
          rintro rfl
          rw [present] at present'
          obtain rfl := Option.some.inj present'
          exact apart (same'.symm.trans same)
        rw [Option.bind_some, Option.bind_some, Store.moved_find?, if_neg elsewhere]

/-- One write moves one name to the outcome. -/
theorem retire_one (scheduled : AllScheduled s) (known : Outcome.ofText? r.outcome = some outcome)
    (moves : outcome ≠ .queued) (queued : stateOf s other = some .queued) :
    ∃ vid after, decideOrSkip s (r.decision other) = (.ok (some vid), after) ∧ AllScheduled after ∧
      (∀ id, nameOf after id = nameOf s id) ∧
      ∀ x, stateOf after x = if x = other then some outcome else stateOf s x := by
  obtain ⟨pid, p, named, present, state⟩ := stateOf_eq_some.mp queued
  obtain ⟨held, wrote⟩ : ∃ held, write s pid other ((r.decision other).fields outcome) "" "" = (_, s.moved pid _ "" held) :=
    write_queued scheduled present state moves
  have decided : decide s (r.decision other) =
      (.ok s.verdicts.nextId, s.moved pid ((r.decision other).fields outcome) "" held) := by
    have candidate : (r.decision other).recordedReason = "candidate" := if_neg (by simp [Retiring.decision])
    have reason : ¬((r.decision other).recordedReason ≠ "" ∧ (r.decision other).recordedReason ∉ reasons) := by
      rw [candidate]
      decide
    rw [decide, show (r.decision other).outcome = r.outcome from rfl, known]
    dsimp only
    rw [if_neg reason, if_neg (by simp [Retiring.decision]), show (r.decision other).name = other from rfl, named]
    exact wrote
  refine ⟨_, _, by rw [decideOrSkip, decided], ?_, nameOf_moved pid _ held, stateOf_moved named _ held⟩
  exact scheduled_moved scheduled fun again => absurd again (by decide)

theorem unlisted_congr {x : String} (names : ∀ id, nameOf after id = nameOf s id)
    (state : stateOf after x = stateOf s x) : unlisted edges r after x = unlisted edges r s x := by
  have same : parents edges after x r.relation = parents edges s x r.relation := by
    simp only [parents, names]
  rw [unlisted, unlisted, state, same]

theorem children_congr {relation : String} (names : ∀ id, nameOf after id = nameOf s id) :
    children edges after name relation = children edges s name relation := by
  simp only [children, names]

variable (edges r) in
/-- Those of the list that may go do, and nothing else changes. -/
theorem retireEach_eq {others : List String} (scheduled : AllScheduled s)
    (known : Outcome.ofText? r.outcome = some outcome) (moves : outcome ≠ .queued) (once : others.Nodup) :
    ∃ after, retireEach edges r others s = (.ok (others.filter (unlisted edges r s)), after) ∧ AllScheduled after ∧
      (∀ id, nameOf after id = nameOf s id) ∧
      ∀ x, stateOf after x = if x ∈ others.filter (unlisted edges r s) then some outcome else stateOf s x := by
  induction others generalizing s with
  | nil => exact ⟨s, rfl, scheduled, fun _ => rfl, fun _ => rfl⟩
  | cons other rest ih =>
      obtain ⟨new, rest_once⟩ := List.nodup_cons.mp once
      rw [retireEach, List.filter_cons]
      split
      next goes =>
        have queued : stateOf s other = some .queued := (of_decide_eq_true goes).2.1
        obtain ⟨vid, middle, done, scheduled', names', states'⟩ := retire_one scheduled known moves queued
        obtain ⟨after, rest_done, scheduled'', names'', states''⟩ := ih scheduled' rest_once
        have same : rest.filter (unlisted edges r middle) = rest.filter (unlisted edges r s) :=
          List.filter_congr fun x member => unlisted_congr names' <| by
            rw [states', if_neg]
            rintro rfl
            exact new member
        rw [same] at rest_done states''
        refine ⟨after, by rw [done]; simp only [rest_done]; rfl, scheduled'',
          fun id => (names'' id).trans (names' id), fun x => ?_⟩
        rw [states'', states']
        simp only [List.mem_cons]
        by_cases here : x = other <;> by_cases later : x ∈ rest.filter (unlisted edges r s) <;> simp [here, later]
      next => exact ih scheduled rest_once

theorem nameOf_injective {l : Linked} {id id' : Nat} (first : nameOf l.store id = some name)
    (second : nameOf l.store id' = some name) : id = id' := by
  obtain ⟨p, present, rfl⟩ := Option.map_eq_some_iff.mp first
  obtain ⟨p', present', same⟩ := Option.map_eq_some_iff.mp second
  exact (Prod.mk.inj (List.inj_on_of_nodup_map l.names (Table.find?_eq_some.mp present)
    (Table.find?_eq_some.mp present') same.symm)).1

/-- A row names another once. -/
theorem nodup_children (l : Linked) (name relation : String) : (children l.edges l.store name relation).Nodup := by
  have keys := List.pairwise_map.mp l.once
  refine List.pairwise_filterMap.mpr (keys.imp fun {e e'} apart => ?_)
  intro child first child' second same
  subst same
  rw [Option.ite_none_right_eq_some] at first second
  obtain ⟨⟨src, relation_⟩, dst⟩ := first
  obtain ⟨⟨src', relation'⟩, dst'⟩ := second
  refine apart (Prod.ext (nameOf_injective src src') (Prod.ext (nameOf_injective dst dst') ?_))
  exact relation_.trans relation'.symm

end

/-- What a row no longer names is retired where it is queued and nothing else names it, and that alone changes.
A second pass finds nothing to retire. -/
theorem retire_unlisted (l : Linked) (r : Retiring) (scheduled : AllScheduled l.store) (outcome : Outcome)
    (known : Outcome.ofText? r.outcome = some outcome) (moves : outcome ≠ .queued) :
    ∃ after, retireUnlisted l.edges l.store r =
        (.ok ((children l.edges l.store r.name r.relation).filter (unlisted l.edges r l.store)), after) ∧
      (∀ x, stateOf after x =
        if x ∈ (children l.edges l.store r.name r.relation).filter (unlisted l.edges r l.store) then some outcome
        else stateOf l.store x) ∧
      (retireUnlisted l.edges after r).1 = .ok [] := by
  have once := nodup_children l r.name r.relation
  obtain ⟨after, done, scheduled', names, states⟩ := retireEach_eq l.edges r scheduled known moves once
  refine ⟨after, done, states, ?_⟩
  have none_ : (children l.edges l.store r.name r.relation).filter (unlisted l.edges r after) = [] := by
    rw [List.filter_eq_nil_iff]
    intro x member goes
    by_cases retired : x ∈ (children l.edges l.store r.name r.relation).filter (unlisted l.edges r l.store)
    · have state := (of_decide_eq_true goes).2.1
      rw [states, if_pos retired] at state
      exact moves (Option.some.inj state)
    · have state : stateOf after x = stateOf l.store x := by rw [states, if_neg retired]
      rw [unlisted_congr names state] at goes
      exact retired (List.mem_filter.mpr ⟨member, goes⟩)
  obtain ⟨again, second, -⟩ := retireEach_eq l.edges r scheduled' known moves once
  rw [retireUnlisted, children_congr names, second, none_]

def unanswered (name : String) : Proposal :=
  { name, state := none, stateVerdictId := none, retestCount := 0, nextRetestAt := none, sizeBytes := 0 }

/-- A repo and two weights it names, one of which another repo names too. -/
def shelf : Store where
  verdicts := ∅
  proposals :=
    { rows := [(1, unanswered "repo"), (2, unanswered "fork"), (3, unanswered "old"), (4, unanswered "both")]
      ordered := by decide }

theorem shelf_scheduled : AllScheduled shelf := by
  have unanswered : ∀ row ∈ shelf.proposals.rows, row.2.stateVerdictId = none ∧ row.2.state = none ∧
      row.2.nextRetestAt = none := by decide
  intro pid p found
  obtain ⟨pointer, state, due⟩ := unanswered _ (Table.find?_eq_some.mp found)
  rw [Scheduled, pointer]
  exact ⟨state, due⟩

/-- The repo no longer ranks either weight, and the one that only it names is retired. -/
theorem old_retired : ∃ (l : Linked) (r : Retiring) (after : Store),
    retireUnlisted l.edges l.store r = (.ok ["old"], after) ∧ stateOf after "old" = some .ignored ∧
      stateOf after "both" = some .queued := by
  let queued (s : Store) (name : String) : Store := (decide s { name, outcome := "queued", tier := inspect }).2
  let s := queued (queued shelf "old") "both"
  have scheduled : AllScheduled s :=
    decide_scheduled (decide_scheduled shelf_scheduled fun _ => rfl) fun _ => rfl
  let needs (src dst : Nat) : Edge := ⟨src, dst, "needs", "", none, none, none⟩
  let l : Linked :=
    { store := s, names := by decide, edges := [needs 1 3, needs 1 4, needs 2 4], once := by decide }
  let r : Retiring := { name := "repo", keep := [], now := 0, machineId := 1 }
  obtain ⟨after, done, states, -⟩ := retire_unlisted l r scheduled .ignored (by decide) (by decide)
  have went : (children l.edges l.store r.name r.relation).filter (unlisted l.edges r l.store) = ["old"] := by decide
  rw [went] at done states
  exact ⟨l, r, after, done, by rw [states]; decide, by rw [states]; decide⟩

end LocalHarness.MemoryStore.Proposals
