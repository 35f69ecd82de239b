import LocalHarness.MemoryStore.Transitions

/-! # The stored mapping of a spec to its candidate row

A candidate is created or completed by whoever resolves its spec, and found by its spec, its
receipt key or its proposal's name. A row once stored keeps its id and its spec, which is
what lets an adoption name a candidate by id.
-/

namespace LocalHarness.Adopt

open LocalHarness.Library
open LocalHarness.MemoryStore (Store Proposal)

/-- A row of `candidates`. -/
structure Candidate where
  proposalId : Option Nat
  spec : String
  receiptKey : String
  lane : String
  deriving DecidableEq

namespace Candidates

/-- `SELECT … FROM candidates WHERE spec = ?`. -/
def bySpec (c : Table Candidate) (spec : String) : Option (Nat × Candidate) :=
  c.rows.find? fun row => row.2.spec = spec

/-- A spec without its run options. -/
def base (spec : String) : String :=
  (Text.partition spec ',').1

def proposalId (s : Store) (name : String) : Option Nat :=
  if name = "" then none else s.named name

/-- Give each variant of a bare spec that has no proposal the bare spec's own. -/
def linkVariants (c : Table Candidate) (bare : String) : Table Candidate :=
  match (bySpec c bare).bind fun row => row.2.proposalId with
  | none => c
  | some owner =>
      c.updateAll fun row =>
        if row.proposalId = none ∧ base row.spec ≠ row.spec ∧ base row.spec = bare then
          { row with proposalId := some owner }
        else row

/-- The proposal a spec is attached to: the one named, else its bare spec's. -/
def attached (s : Store) (c : Table Candidate) (spec proposal : String) : Option Nat :=
  match proposalId s proposal with
  | some pid => some pid
  | none =>
      if base spec = spec then none
      else (bySpec c (base spec)).bind fun row => row.2.proposalId

/-- The receipt key of a spec: the one given, else the one stored, else the one computed. -/
def keyFor (keyOf : String → String) (c : Table Candidate) (spec given : String) : String :=
  if given ≠ "" then given
  else match bySpec c spec with
    | some row => row.2.receiptKey
    | none => keyOf spec

/-- `INSERT OR IGNORE`, the spec being unique. -/
def insertOrIgnore (c : Table Candidate) (row : Candidate) : Table Candidate :=
  if (bySpec c row.spec).isSome then c else c.insert c.nextId row c.above_nextId

/-- `UPDATE candidates SET … WHERE spec = ?`. -/
def complete (c : Table Candidate) (spec : String) (pid : Option Nat) (key lane : String) :
    Table Candidate :=
  c.updateAll fun row =>
    if row.spec = spec then
      { row with
        proposalId := pid.or row.proposalId
        receiptKey := key
        lane := if row.lane = "" then lane else row.lane }
    else row

/-- The statements of `ensure`, for a spec that can run. -/
def enter (c : Table Candidate) (spec : String) (pid : Option Nat) (key lane : String) :
    Table Candidate :=
  let stored := insertOrIgnore c { proposalId := pid, spec, receiptKey := key, lane }
  let completed := complete stored spec pid key lane
  if base spec = spec ∧ pid.isSome then linkVariants completed spec else completed

/-- The candidate row for a spec, created or completed; none when it cannot run. -/
def ensure (keyOf : String → String) (s : Store) (c : Table Candidate)
    (label proposal lane key : String) : Option Nat × Table Candidate :=
  let spec := Text.strip label
  if spec = "" then (none, c)
  else
    let pid := attached s c spec proposal
    let key := keyFor keyOf c spec key
    if key = "" then (none, c)
    else
      let entered := enter c spec pid key lane
      ((bySpec entered spec).map Prod.fst, entered)

/-- The name of the proposal a candidate is attached to. -/
def proposalName (s : Store) (row : Candidate) : Option String :=
  (row.proposalId.bind s.proposals.find?).map Proposal.name

/-- The candidate a spec, receipt key or proposal name stands for. -/
def get (s : Store) (c : Table Candidate) (label : String) : Option (Nat × Candidate) :=
  if label = "" then none
  else
    (bySpec c label).or
      ((c.rows.reverse.find? fun row => row.2.receiptKey = label).or
        (c.rows.reverse.find? fun row => proposalName s row.2 = some label))

/-- Every stored candidate is still stored, under its id and with its spec. -/
def Kept (c c' : Table Candidate) : Prop :=
  ∀ id row, c.find? id = some row → ∃ row', c'.find? id = some row' ∧ row'.spec = row.spec

theorem Kept.refl (c : Table Candidate) : Kept c c :=
  fun _ row found => ⟨row, found, rfl⟩

theorem Kept.trans {c c' c'' : Table Candidate} (first : Kept c c') (second : Kept c' c'') :
    Kept c c'' := by
  intro id row found
  obtain ⟨row', found', same⟩ := first id row found
  obtain ⟨row'', found'', same'⟩ := second id row' found'
  exact ⟨row'', found'', same'.trans same⟩

theorem kept_updateAll (c : Table Candidate) (change : Candidate → Candidate)
    (same : ∀ row, (change row).spec = row.spec) : Kept c (c.updateAll change) := by
  intro id row found
  exact ⟨change row, by rw [Table.find?_updateAll, found, Option.map_some], same row⟩

theorem kept_insertOrIgnore (c : Table Candidate) (row : Candidate) :
    Kept c (insertOrIgnore c row) := by
  unfold insertOrIgnore
  split
  next => exact Kept.refl c
  next =>
    intro id present found
    refine ⟨present, ?_, rfl⟩
    have different : id ≠ c.nextId :=
      fun same => c.above_nextId.not_mem (same ▸ Table.mem_ids_of_find? found)
    rw [Table.find?_insert, if_neg different, found]

theorem kept_complete (c : Table Candidate) (spec : String) (pid : Option Nat)
    (key lane : String) : Kept c (complete c spec pid key lane) := by
  apply kept_updateAll
  intro row
  split <;> rfl

theorem kept_linkVariants (c : Table Candidate) (bare : String) :
    Kept c (linkVariants c bare) := by
  unfold linkVariants
  split
  next => exact Kept.refl c
  next =>
    apply kept_updateAll
    intro row
    split <;> rfl

theorem kept_enter (c : Table Candidate) (spec : String) (pid : Option Nat)
    (key lane : String) : Kept c (enter c spec pid key lane) := by
  apply (kept_insertOrIgnore c _).trans
  apply (kept_complete _ spec pid key lane).trans
  unfold enter
  dsimp only
  split
  next => exact kept_linkVariants _ _
  next => exact Kept.refl _

/-- Ensuring one candidate leaves every other where it was. -/
theorem kept_ensure (keyOf : String → String) (s : Store) (c : Table Candidate)
    (label proposal lane key : String) : Kept c (ensure keyOf s c label proposal lane key).2 := by
  unfold ensure
  dsimp only
  split
  next => exact Kept.refl c
  next =>
    split
    next => exact Kept.refl c
    next =>
      dsimp only
      exact kept_enter _ _ _ _ _

theorem bySpec_found {c : Table Candidate} {spec : String} {row : Nat × Candidate}
    (found : bySpec c spec = some row) : c.find? row.1 = some row.2 ∧ row.2.spec = spec :=
  ⟨Table.find?_eq_some.mpr (List.mem_of_find?_eq_some found), by
    simpa using List.find?_some found⟩

/-- The id that `ensure` answers with is of a row with the spec it was asked for. -/
theorem ensure_names {keyOf : String → String} {s : Store} {c : Table Candidate}
    {label proposal lane key : String} {cid : Nat}
    (answered : (ensure keyOf s c label proposal lane key).1 = some cid) :
    ∃ row, (ensure keyOf s c label proposal lane key).2.find? cid = some row ∧
      row.spec = Text.strip label := by
  unfold ensure at answered ⊢
  dsimp only at answered ⊢
  split at answered
  next => cases answered
  next named =>
    rw [if_neg named]
    split at answered
    next => cases answered
    next keyed =>
      rw [if_neg keyed]
      dsimp only at answered ⊢
      obtain ⟨row, found, rfl⟩ := Option.map_eq_some_iff.mp answered
      exact ⟨row.2, bySpec_found found⟩

end Candidates

end LocalHarness.Adopt
