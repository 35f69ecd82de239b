import LocalHarness.MemoryStore.Writes

/-! # The history a proposal's verdicts fold to

A ledger is the abstract meaning of a proposal's verdict rows: verdicts in ascending
id order, each of them a move the transition table allowed from the fold of those
before it. An entry out of order or out of turn cannot be built.
-/

namespace LocalHarness.MemoryStore

open LocalHarness.Library

/-- How `state_audit` reads a row: a detail that says so is a retraction too. -/
def eventOf (row : Verdict) : Event where
  outcome := row.outcome
  tier := row.tier
  reopen :=
    if row.reopenKind ≠ "" then row.reopenKind
    else if row.detail.startsWith "retracted:" then retraction
    else ""

/-- The proposal's surviving verdicts in id order, as the audit folds them. -/
def Store.events (s : Store) (pid : Nat) : List Event :=
  (s.verdicts.rows.filter fun row => row.2.proposalId == some pid).map fun row => eventOf row.2

theorem fold_snoc (events : List Event) (e : Event) :
    fold (events ++ [e]) =
      if (e.refused (fold events)).isNone then (some e.outcome, e.tier) else fold events := by
  rw [fold, List.foldl_append]
  rfl

/-- Every event in turn is a move the table allows. -/
inductive Accepted : List Event → Prop
  | nil : Accepted []
  | snoc {events e} : Accepted events → e.refused (fold events) = none → Accepted (events ++ [e])

theorem Accepted.of_snoc {events : List Event} {e : Event} (accepted : Accepted (events ++ [e])) :
    Accepted events ∧ e.refused (fold events) = none := by
  generalize shape : events ++ [e] = all at accepted
  cases accepted with
  | nil => simp at shape
  | snoc before allowed =>
      obtain ⟨same, last⟩ := List.append_inj' shape rfl
      cases last
      exact same ▸ ⟨before, same ▸ allowed⟩

theorem Accepted.fold_snoc {events : List Event} {e : Event}
    (accepted : Accepted (events ++ [e])) : fold (events ++ [e]) = (some e.outcome, e.tier) := by
  rw [MemoryStore.fold_snoc, accepted.of_snoc.2, Option.isNone_none, if_pos rfl]

/-- A retraction written as prose is accepted wherever the row it stands for was. -/
theorem eventOf_accepted {standing : Standing} {pid : Nat} {row : Verdict} {reopen : String}
    {held : Held} (allowed : transitionRefused standing.1 standing.2 row.outcome row.tier reopen = none) :
    (eventOf (columns pid row reopen held)).refused standing = none := by
  simp only [Event.refused, eventOf, columns]
  by_cases named : reopen = ""
  · subst named
    by_cases prose : row.detail.startsWith "retracted:" = true
    · simp [prose, transitionRefused, reopens, retraction]
    · simpa [prose] using allowed
  · simpa only [ne_eq, named, not_false_eq_true, if_true] using allowed

structure Ledger where
  entries : List (Nat × Verdict)
  ascending : (entries.map Prod.fst).Pairwise (· < ·)
  accepted : Accepted (entries.map fun entry => eventOf entry.2)

namespace Ledger

theorem ascending_nil : (([] : List (Nat × Verdict)).map Prod.fst).Pairwise (· < ·) := .nil

def empty : Ledger where
  entries := []
  ascending := ascending_nil
  accepted := .nil

def standing (ledger : Ledger) : Standing :=
  fold (ledger.entries.map fun entry => eventOf entry.2)

/-- The id of the newest entry. -/
def last (ledger : Ledger) : Option Nat :=
  ledger.entries.getLast?.map Prod.fst

/-- What `_held` reads of a proposal whose verdicts are these. -/
def held (ledger : Ledger) : Held where
  state := ledger.standing.1
  id := ledger.last
  verdict := ledger.entries.getLast?.map Prod.snd

def ids (ledger : Ledger) : List Nat :=
  ledger.entries.map Prod.fst

def append (ledger : Ledger) (id : Nat) (row : Verdict) (above : ∀ old ∈ ledger.ids, old < id)
    (allowed : (eventOf row).refused ledger.standing = none) : Ledger where
  entries := ledger.entries ++ [(id, row)]
  ascending := by
    rw [List.map_append, List.pairwise_append]
    refine ⟨ledger.ascending, List.pairwise_singleton _ _, ?_⟩
    intro old member new single
    rw [List.map_singleton, List.mem_singleton] at single
    exact single ▸ above old member
  accepted := by
    rw [List.map_append]
    exact .snoc ledger.accepted allowed

section

variable {ledger : Ledger} {id : Nat} {row : Verdict} {above : ∀ old ∈ ledger.ids, old < id}
  {allowed : (eventOf row).refused ledger.standing = none}

@[simp] theorem entries_append :
    (ledger.append id row above allowed).entries = ledger.entries ++ [(id, row)] := rfl

@[simp] theorem last_append : (ledger.append id row above allowed).last = some id := by
  simp [last]

@[simp] theorem standing_append :
    (ledger.append id row above allowed).standing = (some row.outcome, row.tier) := by
  have chain := (ledger.append id row above allowed).accepted
  rw [entries_append, List.map_append] at chain
  rw [standing, entries_append, List.map_append]
  exact chain.fold_snoc

theorem mem_ids_append {other : Nat} :
    other ∈ (ledger.append id row above allowed).ids ↔ other ∈ ledger.ids ∨ other = id := by
  simp [ids]

end

theorem mem_ids {ledger : Ledger} {id : Nat} :
    id ∈ ledger.ids ↔ ∃ row, (id, row) ∈ ledger.entries := by
  simp [ids]

/-- A ledger has no entry, or its newest entry is where it stands. -/
theorem newest (ledger : Ledger) :
    ledger.entries.getLast? = none ∧ ledger.standing = (none, "") ∨
      ∃ id row, (id, row) ∈ ledger.entries ∧ ledger.entries.getLast? = some (id, row) ∧
        ledger.standing = (some row.outcome, row.tier) ∧ ∀ old ∈ ledger.ids, old ≤ id := by
  obtain ⟨entries, ascending, accepted⟩ := ledger
  rcases List.eq_nil_or_concat' entries with none | ⟨before, ⟨id, row⟩, shape⟩
  · subst none
    exact .inl ⟨rfl, rfl⟩
  · subst shape
    refine .inr ⟨id, row, by simp, by simp, ?_, ?_⟩
    · rw [List.map_append] at accepted
      simp only [standing, List.map_append]
      exact accepted.fold_snoc
    · intro old member
      rw [List.map_append, List.pairwise_append] at ascending
      rw [ids, List.map_append, List.mem_append] at member
      rcases member with earlier | same
      · exact Nat.le_of_lt (ascending.2.2 old earlier id (by simp))
      · simp at same
        exact Nat.le_of_eq same

@[simp] theorem held_standing (ledger : Ledger) : ledger.held.standing = ledger.standing := by
  rcases ledger.newest with ⟨none, start⟩ | ⟨id, row, _, newest, stands, _⟩
  · simp [Held.standing, Held.tier, held, none, start]
  · simp [Held.standing, Held.tier, held, newest, stands]

/-- The key a writer compares is zero, or the newest id. -/
theorem held_key (ledger : Ledger) :
    (ledger.held.key = 0 ∨ ledger.held.key ∈ ledger.ids) ∧
      ∀ old ∈ ledger.ids, old ≤ ledger.held.key := by
  rcases ledger.newest with ⟨none, _⟩ | ⟨id, row, inside, newest, _, top⟩
  · have nothing : ledger.entries = [] := List.getLast?_eq_none_iff.mp none
    simp [Held.key, held, last, ids, nothing]
  · have key : ledger.held.key = id := by simp [Held.key, held, last, newest]
    rw [key]
    exact ⟨.inr (mem_ids.mpr ⟨row, inside⟩), top⟩

end Ledger

end LocalHarness.MemoryStore
