import LocalHarness.Library.Changes
import LocalHarness.Library.Dict
import LocalHarness.Library.Suffixed
import LocalHarness.Adopt.Paired

/-! # One candidate over two runs

A sweep pairs a candidate's rows in one run with its rows in another by the case and by where
each row stands among all the rows of its run. A reverification counts the draws of a case
among the candidate's own rows instead.
-/

namespace LocalHarness.Adopt

open LocalHarness.Library

/-- The cell of one table of results against another. -/
def changed {κ α : Type} [DecidableEq κ] (candidate : String) (passed : α → Bool)
    (before after : Finmap fun _ : κ => α) : Cell :=
  let lost := (Changes.lost passed before after).card
  let gained := (Changes.gained passed before after).card
  { candidate, lost, gained, unchanged := (Changes.shared before after).card - lost - gained }

/-- The key of a row's result: its case, and its place among the rows of every candidate. -/
def resultKey (caseId : String) (i : Nat) : String :=
  caseId ++ "#" ++ toString i

def verdicts (rows : List Row) (candidate : String) : Dict Bool :=
  .ofItems ((rows.zipIdx.filter fun row => row.1.candidate = candidate).map fun row =>
    (resultKey row.1.caseId row.2, row.1.passed))

/-- The named candidates with rows in both runs. -/
def sharedCandidates (before after : List Row) : Finset String :=
  ((before.map Row.candidate).toFinset ∩ (after.map Row.candidate).toFinset).filter (· ≠ "")

/-- Per candidate, how many cells changed verdict and which way. -/
def cells (before after : List Row) : List Cell :=
  (Dict.sortedKeys (sharedCandidates before after)).map fun candidate =>
    changed candidate id (verdicts before candidate) (verdicts after candidate)

namespace Reverify

abbrev Draws := Finmap fun _ : String × Nat => Row

/-- A row is the next draw of its case. -/
def draw (state : Dict Nat × Draws) (row : Row) : Dict Nat × Draws :=
  let nth := (state.1.lookup row.caseId).getD 0 + 1
  (state.1.insert row.caseId nth, state.2.insert (row.caseId, nth) row)

def drawn (rows : List Row) : Draws :=
  (rows.foldl draw (∅, ∅)).2

/-- The served candidate against itself across two runs, and the rows it lost, which come in
    no order. -/
def paired (before after : List Row) : Cell × Multiset Row :=
  let a := drawn before
  let b := drawn after
  (changed "" Row.passed a b, (Changes.lost Row.passed a b).val.filterMap b.lookup)

end Reverify

/-- The cells of one candidate. -/
def cellsOf (candidate : String) (before after : List Row) : List Cell :=
  (cells before after).filter (·.candidate = candidate)

/-- A candidate is paired over its own rows: nothing else in either run changes its cells, its
    head to head with another is the one of the two alone, and a reverification of its rows
    finds the same. -/
structure PairedAlone (before after : List Row) (candidate : String) : Prop where
  own : ∀ before' after', rowsOf before' candidate = rowsOf before candidate →
    rowsOf after' candidate = rowsOf after candidate →
      cellsOf candidate before' after' = cellsOf candidate before after
  headToHead : ∀ run, run = before ∨ run = after → ∀ other,
    Adopt.headToHead run other candidate =
      Adopt.headToHead (run.filter fun row => row.candidate = other ∨ row.candidate = candidate)
        other candidate
  reverified : ∀ cell ∈ cellsOf candidate before after,
    cell = { (Reverify.paired (rowsOf before candidate) (rowsOf after candidate)).1 with candidate }

/-- No case is in both lists of rows. -/
def CasesApart (rows rows' : List Row) : Prop :=
  ∀ row ∈ rows, ∀ row' ∈ rows', row.caseId ≠ row'.caseId

/-! ## The keys of a run -/

theorem unmarked_toString (n : Nat) : '#' ∉ (toString n).toList := by
  intro member
  rw [Nat.toString_eq_repr, Nat.toList_repr] at member
  have digit := Nat.isDigit_of_mem_toDigits (by decide) (by decide) member
  cases digit

theorem toString_injective {n n' : Nat} (same : toString n = toString n') : n = n' := by
  have listed := congrArg String.toList same
  rw [Nat.toString_eq_repr, Nat.toString_eq_repr, Nat.toList_repr, Nat.toList_repr] at listed
  have values := congrArg (Nat.ofDigitChars 10 · 0) listed
  simpa only [Nat.ofDigitChars_ten_toDigits] using values

theorem resultKey_injective {caseId caseId' : String} {i i' : Nat}
    (same : resultKey caseId i = resultKey caseId' i') : caseId = caseId' ∧ i = i' := by
  have digits : ∀ n : Nat, '#' ∉ (toString n).toList.reverse := fun n member =>
    unmarked_toString n (List.mem_reverse.mp member)
  have listed := congrArg (fun s => s.toList.reverse) same
  simp only [resultKey, String.toList_append, List.reverse_append, List.append_assoc] at listed
  -- A case id may hold the mark itself, so the key is cut at its last one.
  obtain ⟨places, ids⟩ := Suffixed.cut_unique (digits i) (digits i') listed
  constructor
  · exact String.toList_injective (List.reverse_injective ids)
  · exact toString_injective (String.toList_injective (List.reverse_injective places))

theorem mem_verdicts {rows : List Row} {candidate key : String} :
    key ∈ (verdicts rows candidate).keys ↔
      ∃ i row, rows[i]? = some row ∧ row.candidate = candidate ∧ key = resultKey row.caseId i := by
  rw [verdicts, Dict.mem_keys_ofItems, List.map_map, List.mem_map]
  constructor
  · rintro ⟨⟨row, i⟩, member, rfl⟩
    obtain ⟨placed, own⟩ := List.mem_filter.mp member
    exact ⟨i, row, List.mem_zipIdx_iff_getElem?.mp placed, of_decide_eq_true own, rfl⟩
  · rintro ⟨i, row, placed, own, rfl⟩
    exact ⟨(row, i), List.mem_filter.mpr ⟨List.mem_zipIdx_iff_getElem?.mpr placed,
      decide_eq_true own⟩, rfl⟩

/-! ## Which cells are paired -/

/-- How many cells were compared. -/
def Cell.compared (cell : Cell) : Nat :=
  cell.lost + cell.gained + cell.unchanged

theorem changed_compared {κ α : Type} [DecidableEq κ] (candidate : String) (passed : α → Bool)
    (before after : Finmap fun _ : κ => α) :
    (changed candidate passed before after).compared = (Changes.shared before after).card := by
  have room := Changes.lost_add_gained_le passed before after
  simp only [changed, Cell.compared]
  omega

theorem changed_of_apart {κ α : Type} [DecidableEq κ] (candidate : String) (passed : α → Bool)
    {before after : Finmap fun _ : κ => α} (apart : Changes.shared before after = ∅) :
    changed candidate passed before after = { candidate, lost := 0, gained := 0, unchanged := 0 } := by
  simp only [changed, Changes.lost_of_apart passed apart, Changes.gained_of_apart passed apart, apart,
    Finset.card_empty]

theorem mem_sharedCandidates {before after : List Row} {candidate : String} :
    candidate ∈ sharedCandidates before after ↔
      candidate ≠ "" ∧ rowsOf before candidate ≠ [] ∧ rowsOf after candidate ≠ [] := by
  have ran : ∀ rows : List Row, candidate ∈ rows.map Row.candidate ↔ rowsOf rows candidate ≠ [] := by
    intro rows
    rw [List.mem_map, rowsOf, Ne, List.filter_eq_nil_iff]
    simp
  rw [sharedCandidates, Finset.mem_filter, Finset.mem_inter, List.mem_toFinset, List.mem_toFinset,
    ran, ran]
  tauto

theorem cellsOf_shared {before after : List Row} {candidate : String}
    (member : candidate ∈ sharedCandidates before after) :
    cellsOf candidate before after =
      [changed candidate id (verdicts before candidate) (verdicts after candidate)] := by
  have once : (Dict.sortedKeys (sharedCandidates before after)).filter (· = candidate) =
      [candidate] := by
    rw [List.filter_eq, List.count_eq_one_of_mem (Dict.nodup_sortedKeys _)
      (Dict.mem_sortedKeys.mpr member), List.replicate_one]
  rw [cellsOf, cells, List.filter_map]
  exact congrArg (List.map _) once

theorem cellsOf_unshared {before after : List Row} {candidate : String}
    (absent : candidate ∉ sharedCandidates before after) : cellsOf candidate before after = [] := by
  rw [cellsOf, List.filter_eq_nil_iff]
  intro cell member named
  obtain ⟨named_, listed, rfl⟩ := List.mem_map.mp member
  exact absent (of_decide_eq_true named ▸ Dict.mem_sortedKeys.mp listed)

theorem verdicts_apart {before after : List Row} {candidate : String}
    (apart : CasesApart (rowsOf before candidate) (rowsOf after candidate)) :
    Changes.shared (verdicts before candidate) (verdicts after candidate) = ∅ := by
  rw [Finset.eq_empty_iff_forall_notMem]
  intro key both
  obtain ⟨first, second⟩ := Finset.mem_inter.mp both
  obtain ⟨i, row, placed, own, rfl⟩ := mem_verdicts.mp first
  obtain ⟨i', row', placed', own', same⟩ := mem_verdicts.mp second
  exact apart row (List.mem_filter.mpr ⟨List.mem_of_getElem? placed, decide_eq_true own⟩) row'
    (List.mem_filter.mpr ⟨List.mem_of_getElem? placed', decide_eq_true own'⟩)
    (resultKey_injective same).1

/-- Rows that share no case leave one cell with nothing in it, however they stand. -/
theorem cellsOf_apart {before after before' after' : List Row} {candidate : String}
    (apart : CasesApart (rowsOf before candidate) (rowsOf after candidate))
    (same : rowsOf before' candidate = rowsOf before candidate)
    (same' : rowsOf after' candidate = rowsOf after candidate) :
    cellsOf candidate before' after' =
      if candidate ∈ sharedCandidates before after then
        [{ candidate, lost := 0, gained := 0, unchanged := 0 }]
      else [] := by
  have shared : candidate ∈ sharedCandidates before' after' ↔
      candidate ∈ sharedCandidates before after := by
    rw [mem_sharedCandidates, mem_sharedCandidates, same, same']
  split
  next member =>
    rw [cellsOf_shared (shared.mpr member)]
    rw [← same, ← same'] at apart
    rw [changed_of_apart _ _ (verdicts_apart apart)]
  next absent => exact cellsOf_unshared fun member => absent (shared.mp member)

/-- A row of some other candidate. -/
def another (candidate : String) : Row :=
  { caseId := "", candidate := candidate ++ "'", passed := false }

theorem another_ne (candidate : String) : (another candidate).candidate ≠ candidate := by
  intro same
  have lengths := congrArg String.length same
  simp [another] at lengths

/-- A candidate's own rows, after so many of another's. -/
def behind (n : Nat) (candidate : String) (rows : List Row) : List Row :=
  List.replicate n (another candidate) ++ rowsOf rows candidate

theorem rowsOf_behind (n : Nat) (candidate : String) (rows : List Row) :
    rowsOf (behind n candidate rows) candidate = rowsOf rows candidate := by
  have none : rowsOf (List.replicate n (another candidate)) candidate = [] :=
    List.filter_replicate_of_neg (by simpa using another_ne candidate)
  have own : rowsOf (rowsOf rows candidate) candidate = rowsOf rows candidate := by
    rw [rowsOf, rowsOf, List.filter_filter]
    simp
  rw [behind, rowsOf, List.filter_append]
  exact (congrArg₂ (· ++ ·) none own).trans (List.nil_append _)

theorem mem_verdicts_behind {n i : Nat} {candidate : String} {rows : List Row} {row : Row}
    (placed : (rowsOf rows candidate)[i]? = some row) :
    resultKey row.caseId (n + i) ∈ (verdicts (behind n candidate rows) candidate).keys := by
  have own := of_decide_eq_true (List.mem_filter.mp (List.mem_of_getElem? placed)).2
  refine mem_verdicts.mpr ⟨n + i, row, ?_, own, rfl⟩
  rw [behind, List.getElem?_append_right (by simp), List.length_replicate, Nat.add_sub_cancel_left,
    placed]

theorem verdicts_behind_placed {n : Nat} {candidate key : String} {rows : List Row}
    (member : key ∈ (verdicts (behind n candidate rows) candidate).keys) :
    ∃ caseId i, key = resultKey caseId i ∧ n ≤ i ∧ i < n + (rowsOf rows candidate).length := by
  obtain ⟨i, row, placed, own, rfl⟩ := mem_verdicts.mp member
  refine ⟨row.caseId, i, rfl, ?_, ?_⟩
  · by_contra early
    rw [behind, List.getElem?_append_left (by simpa using early),
      List.getElem?_replicate_of_lt (Nat.lt_of_not_le early), Option.some.injEq] at placed
    exact another_ne candidate (placed ▸ own)
  · obtain ⟨within, -⟩ := List.getElem?_eq_some_iff.mp placed
    rwa [behind, List.length_append, List.length_replicate] at within

/-- Rows of one case in both runs are paired or not by what stands before them. -/
theorem not_own_of_shared_case {before after : List Row} {candidate : String} {row row' : Row}
    (named : candidate ≠ "") (member : row ∈ rowsOf before candidate)
    (member' : row' ∈ rowsOf after candidate) (same : row.caseId = row'.caseId)
    (own : ∀ before' after', rowsOf before' candidate = rowsOf before candidate →
      rowsOf after' candidate = rowsOf after candidate →
        cellsOf candidate before' after' = cellsOf candidate before after) : False := by
  obtain ⟨k, placed⟩ := List.getElem?_of_mem member
  obtain ⟨l, placed'⟩ := List.getElem?_of_mem member'
  have compared : ∀ n n',
      cellsOf candidate (behind n candidate before) (behind n' candidate after) =
        [changed candidate id (verdicts (behind n candidate before) candidate)
          (verdicts (behind n' candidate after) candidate)] := by
    intro n n'
    apply cellsOf_shared
    rw [mem_sharedCandidates, rowsOf_behind, rowsOf_behind]
    exact ⟨named, List.ne_nil_of_mem member, List.ne_nil_of_mem member'⟩
  -- The same rows, once brought to one place and once kept apart.
  have together := own (behind l candidate before) (behind k candidate after)
    (rowsOf_behind ..) (rowsOf_behind ..)
  have apart := own (behind 0 candidate before)
    (behind (rowsOf before candidate).length candidate after) (rowsOf_behind ..) (rowsOf_behind ..)
  have cell := List.singleton_inj.mp
    (((compared ..).symm.trans together).trans (apart.symm.trans (compared ..)))
  have counts := congrArg Cell.compared cell
  rw [changed_compared, changed_compared] at counts
  have none : Changes.shared (verdicts (behind 0 candidate before) candidate)
      (verdicts (behind (rowsOf before candidate).length candidate after) candidate) = ∅ := by
    rw [Finset.eq_empty_iff_forall_notMem]
    intro key both
    obtain ⟨first, second⟩ := Finset.mem_inter.mp both
    obtain ⟨caseId, i, rfl, -, early⟩ := verdicts_behind_placed first
    obtain ⟨caseId', i', keyed, late, -⟩ := verdicts_behind_placed second
    have place := (resultKey_injective keyed).2
    omega
  have some_ : resultKey row.caseId (l + k) ∈
      Changes.shared (verdicts (behind l candidate before) candidate)
        (verdicts (behind k candidate after) candidate) := by
    have second := mem_verdicts_behind (n := k) placed'
    rw [← same, Nat.add_comm] at second
    exact Finset.mem_inter.mpr ⟨mem_verdicts_behind placed, second⟩
  rw [none, Finset.card_empty, Finset.card_eq_zero] at counts
  exact absurd some_ (counts ▸ Finset.notMem_empty _)

/-! ## The other two pairings -/

/-- Two candidates are compared on their own rows alone. -/
theorem headToHead_congr {rows rows' : List Row} {incumbent challenger : String}
    (mine : rowsOf rows' incumbent = rowsOf rows incumbent)
    (theirs : rowsOf rows' challenger = rowsOf rows challenger) :
    headToHead rows' incumbent challenger = headToHead rows incumbent challenger := by
  have first : resultOn rows' incumbent = resultOn rows incumbent := by
    funext caseId
    rw [resultOn, resultOn, mine]
  have second : resultOn rows' challenger = resultOn rows challenger := by
    funext caseId
    rw [resultOn, resultOn, theirs]
  rw [headToHead, headToHead, sharedCases, sharedCases, mine, first, second]

theorem headToHead_restricted (rows : List Row) (incumbent challenger : String) :
    headToHead rows incumbent challenger =
      headToHead (rows.filter fun row => row.candidate = incumbent ∨ row.candidate = challenger)
        incumbent challenger := by
  symm
  apply headToHead_congr
  all_goals
    rw [rowsOf, rowsOf, List.filter_filter]
    congr 1
    funext row
    simp +contextual

namespace Reverify

theorem draw_cases {state : Dict Nat × Draws} {rows : List Row} {row : Row}
    (known : ∀ key ∈ state.2.keys, ∃ row ∈ rows, row.caseId = key.1) :
    ∀ key ∈ (draw state row).2.keys, ∃ other ∈ rows ++ [row], other.caseId = key.1 := by
  intro key member
  rcases Finmap.mem_insert.mp (Finmap.mem_keys.mp member) with here | before
  · exact ⟨row, by simp, by rw [here]⟩
  · obtain ⟨other, earlier, same⟩ := known key (Finmap.mem_keys.mpr before)
    exact ⟨other, List.mem_append_left _ earlier, same⟩

theorem drawn_cases (rows : List Row) :
    ∀ key ∈ (drawn rows).keys, ∃ row ∈ rows, row.caseId = key.1 := by
  induction rows using List.reverseRecOn with
  | nil =>
      intro key member
      rw [drawn, List.foldl_nil, Finmap.keys_empty] at member
      cases member
  | append_singleton rows row ih =>
      rw [drawn, List.foldl_append, List.foldl_cons, List.foldl_nil]
      exact draw_cases ih

theorem drawn_apart {before after : List Row} (apart : CasesApart before after) :
    Changes.shared (drawn before) (drawn after) = ∅ := by
  rw [Finset.eq_empty_iff_forall_notMem]
  intro key both
  obtain ⟨first, second⟩ := Finset.mem_inter.mp both
  obtain ⟨row, member, named⟩ := drawn_cases before key first
  obtain ⟨row', member', named'⟩ := drawn_cases after key second
  exact apart row member row' member' (named.trans named'.symm)

end Reverify

/-- A candidate is paired over its own rows exactly where it has no cell to pair, or no name:
    where no case of its rows in the one run is a case of its rows in the other. -/
theorem pairedAlone_iff (before after : List Row) (candidate : String) :
    PairedAlone before after candidate ↔
      candidate = "" ∨ CasesApart (rowsOf before candidate) (rowsOf after candidate) := by
  constructor
  · intro alone
    by_cases named : candidate = ""
    · exact .inl named
    · exact .inr fun row member row' member' same =>
        not_own_of_shared_case named member member' same alone.own
  · intro apart
    have unnamed : candidate = "" → ∀ before after, cellsOf candidate before after = [] := by
      intro empty before after
      exact cellsOf_unshared fun member => (mem_sharedCandidates.mp member).1 empty
    constructor
    · intro before' after' same same'
      obtain empty | apart := apart
      · rw [unnamed empty, unnamed empty]
      · rw [cellsOf_apart apart same same', cellsOf_apart apart rfl rfl]
    · intro run _ other
      exact headToHead_restricted run other candidate
    · intro cell member
      obtain empty | apart := apart
      · rw [unnamed empty] at member
        cases member
      · rw [Reverify.paired, changed_of_apart _ _ (Reverify.drawn_apart apart)]
        rw [cellsOf_apart apart rfl rfl] at member
        split at member
        next => exact List.mem_singleton.mp member
        next => cases member

/-- The one row a candidate lost is not paired once another's row stands before it. -/
theorem cells_shifted :
    let lost : Row := { caseId := "sum", candidate := "gemma", passed := false }
    let passed : Row := { lost with passed := true }
    let other : Row := { passed with candidate := "qwen" }
    cells [passed] [lost] = [{ candidate := "gemma", lost := 1, gained := 0, unchanged := 0 }] ∧
      cells [other, passed] [lost] =
        [{ candidate := "gemma", lost := 0, gained := 0, unchanged := 0 }] ∧
      ¬ PairedAlone [other, passed] [lost] "gemma" := by
  intro lost passed other
  have together : cells [passed] [lost] =
      [{ candidate := "gemma", lost := 1, gained := 0, unchanged := 0 }] := by decide
  have shifted : cells [other, passed] [lost] =
      [{ candidate := "gemma", lost := 0, gained := 0, unchanged := 0 }] := by decide
  refine ⟨together, shifted, fun alone => ?_⟩
  have same := alone.own [passed] [lost] (by decide) rfl
  rw [cellsOf, cellsOf, together, shifted] at same
  cases same

end LocalHarness.Adopt
