import LocalHarness.Adopt.Record

/-! # Which row a lane resolves to

A lane is served by one of this machine's rows, and a row that comes last in the order of
the loop is the one, unless the loop passes it over.
-/

namespace LocalHarness.Adopt

open LocalHarness.Library

theorem orderedInsert_concat {α : Type} (r : α → α → Prop) [DecidableRel r] {a x : α}
    (before : r a x) (l : List α) :
    (l ++ [x]).orderedInsert r a = l.orderedInsert r a ++ [x] := by
  induction l with
  | nil => simp [before]
  | cons b rest ih =>
      rw [List.cons_append, List.orderedInsert_cons, List.orderedInsert_cons, ih]
      split <;> rfl

/-- What every other element comes before is sorted last. -/
theorem insertionSort_concat {α : Type} (r : α → α → Prop) [DecidableRel r] {l : List α} {x : α}
    (last : ∀ a ∈ l, r a x) : (l ++ [x]).insertionSort r = l.insertionSort r ++ [x] := by
  induction l with
  | nil => rfl
  | cons a rest ih =>
      rw [List.cons_append, List.insertionSort_cons, List.insertionSort_cons,
        ih fun b member => last b (List.mem_cons_of_mem a member),
        orderedInsert_concat r (last a List.mem_cons_self)]

/-- The loop serves this row: its spec is of no reference model and, chosen by hand, it fits. -/
def Eligible (env : Env) (served : Served) : Prop :=
  isReference served.spec = false ∧
    (served.row.how = BY_HAND → (fit env served.row.candidateId).1 = true)

theorem Resolved.read_out (env : Env) (got : Resolved) (served : Served) :
    (Eligible env served ∧
        (got.read env served).out = Function.update got.out served.row.lane (some served)) ∨
      (¬ Eligible env served ∧ (got.read env served).out = got.out) := by
  unfold Resolved.read Eligible
  split
  next reference => exact .inr ⟨fun passed => by simp [reference] at passed, rfl⟩
  next local_ =>
    split
    next unfit => exact .inr ⟨fun passed => by simp [passed.2 unfit.1] at unfit, rfl⟩
    next fits =>
      refine .inl ⟨⟨by simpa using local_, fun byHand => ?_⟩, rfl⟩
      by_contra unfit
      exact fits ⟨byHand, by simpa using unfit⟩

/-- What the loop serves a lane is a row of that lane it read and did not pass over. -/
theorem foldl_read {env : Env} {lane : String} {served : Served} (rows : List Served)
    (got : Resolved) (out : (rows.foldl (Resolved.read env) got).out lane = some served) :
    (served ∈ rows ∧ served.row.lane = lane ∧ Eligible env served) ∨
      got.out lane = some served := by
  induction rows generalizing got with
  | nil => exact .inr out
  | cons row rest ih =>
      rcases ih _ out with ⟨member, here, passed⟩ | earlier
      · exact .inl ⟨List.mem_cons_of_mem row member, here, passed⟩
      · rcases Resolved.read_out env got row with ⟨passed, same⟩ | ⟨_, same⟩
        · rw [same] at earlier
          by_cases here : lane = row.row.lane
          · rw [here, Function.update_self, Option.some.injEq] at earlier
            subst earlier
            exact .inl ⟨List.mem_cons_self, here.symm, passed⟩
          · rw [Function.update_of_ne here] at earlier
            exact .inr earlier
        · exact .inr (same ▸ earlier)

/-- A lane is served by one of this machine's rows for it, which fits and is no reference. -/
theorem current_eligible {env : Env} {s : State} {lane : String} {served : Served}
    (out : current env s lane = some served) :
    served ∈ rowsHere s ∧ served.row.lane = lane ∧ Eligible env served := by
  rcases foldl_read _ _ out with ⟨member, rest⟩ | nothing
  · exact ⟨(List.perm_insertionSort _ _).subset member, rest⟩
  · cases nothing

/-- The newest of the rows is what its lane serves. -/
theorem current_newest {env : Env} {s : State} {older : List Served} {newest : Served}
    (rows : rowsHere s = older ++ [newest]) (last : ∀ row ∈ older, row.Before newest)
    (passed : Eligible env newest) : current env s newest.row.lane = some newest := by
  rw [current, resolve, rows, insertionSort_concat _ last, List.foldl_concat]
  rcases Resolved.read_out env (older.insertionSort Served.Before |>.foldl (Resolved.read env)
    { out := fun _ => none, refused := fun _ => none }) newest with ⟨_, same⟩ | ⟨unfit, _⟩
  · rw [same, Function.update_self]
  · exact absurd passed unfit

theorem current_of_rowsHere {env : Env} {s s' : State} (same : rowsHere s' = rowsHere s) :
    current env s' = current env s := by
  rw [current, current, resolve, resolve, same]

theorem mem_rowsHere {s : State} {served : Served} (member : served ∈ rowsHere s) :
    (served.id, served.row) ∈ s.adoptions.rows := by
  obtain ⟨row, inside, shape⟩ := List.mem_filterMap.mp member
  unfold servedHere at shape
  split at shape
  next =>
    obtain ⟨candidate, _, rfl⟩ := Option.map_eq_some_iff.mp shape
    exact inside
  next => cases shape

/-- Rows whose candidates are stored are served the same by any table that keeps those. -/
theorem servedHere_kept {c c' : Table Candidate} (kept : Candidates.Kept c c') (machine : Nat)
    {rows : List (Nat × Adoption)}
    (stored : ∀ row ∈ rows, ∃ candidate, c.find? row.2.candidateId = some candidate) :
    rows.filterMap (servedHere c' machine) = rows.filterMap (servedHere c machine) := by
  apply List.filterMap_congr
  intro row member
  obtain ⟨candidate, found⟩ := stored row member
  obtain ⟨candidate', found', same⟩ := kept _ candidate found
  simp only [servedHere, found, found', Option.map_some, same]

end LocalHarness.Adopt
