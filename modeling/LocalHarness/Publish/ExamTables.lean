import LocalHarness.Publish.Exams

/-! # What shares an exam table

The budget ladder is one of the things two runs must agree on to be compared, and the receipt that
the tables are made by does not carry it. So two runs at different ladders share a table where
nothing else tells them apart.
-/

namespace LocalHarness.Publish

open LocalHarness.Library Evals

/-- A stored run's receipt less the engines that served it and other lanes' sampling, and less
    nothing else. -/
def storedReceipt (settings : String → Dict Scalar) (store : Store) (run : Run) : Receipt :=
  { examReceipt settings store run with
    budget_ladder := (run.receipt.getD {}).budget_ladder.getD [] }

/-- The run has a row of the candidate. -/
def Holds (store : Store) (run : Run) (candidate : String) : Prop :=
  candidate ∈ (store.rows run.id).map Result.candidate

/-- The row a table shows of a candidate that a run holds. -/
def rowIn (store : Store) (run : Run) (candidate : String) : Row :=
  row candidate (summary ((store.rows run.id).filter fun row => row.candidate = candidate))
    run.generatedAt

/-- Every run of the lane on the machine that can be ranked is in one table, two runs of a table
    are comparable, and a candidate's row is that of the newest run of its table that holds it. -/
structure Tabled (settings : String → Dict Scalar) (store : Store) (mid : Nat) (lane : String) :
    Prop where
  once : ∀ run ∈ find store mid lane, contaminated (storedReceipt settings store run) = none →
    ((mutualGroups (ranked settings store mid lane)).countP fun group =>
      run.id ∈ group.map fun item => item.1.id) = 1
  comparable : ∀ group ∈ mutualGroups (ranked settings store mid lane), ∀ a ∈ group, ∀ b ∈ group,
    comparable (storedReceipt settings store a.1) (storedReceipt settings store b.1) = none
  newest : ∀ group ∈ mutualGroups (ranked settings store mid lane), ∀ row ∈ (exam store group).rows,
    ∃ run ∈ group.map Prod.fst, Holds store run row.candidate ∧
      row = rowIn store run row.candidate ∧
      ∀ other ∈ group.map Prod.fst, Holds store other row.candidate → other.age ≤ run.age
  shown : ∀ group ∈ mutualGroups (ranked settings store mid lane), ∀ run ∈ group.map Prod.fst,
    ∀ candidate, Holds store run candidate →
      ((exam store group).rows.map Row.candidate).count candidate = 1

/-- The budgets a cut-off reply was retried at. -/
def ladder (item : Run × Receipt) : List Int :=
  (item.1.receipt.getD {}).budget_ladder.getD []

/-- Of the tables that newer runs make when the ladder is asked for too, the first that a run fits
    but for its ladder has its ladder. -/
def LaddersKept (settings : String → Dict Scalar) (store : Store) (mid : Nat) (lane : String) :
    Prop :=
  ∀ newer item older, ranked settings store mid lane = newer ++ item :: older →
    Groups.FirstFitKeeps same ladder (Groups.grouped (Groups.keyed same ladder) newer) item

section

variable {settings : String → Dict Scalar} {store : Store} {mid : Nat} {lane : String}

/-! ## Runs, newest first -/

theorem find_sorted : (find store mid lane).Pairwise fun a b => b.age ≤ a.age := by
  have : Std.Total fun a b : Run => b.age ≤ a.age := ⟨fun a b => le_total b.age a.age⟩
  have : IsTrans Run fun a b => b.age ≤ a.age := ⟨fun _ _ _ ab bc => bc.trans ab⟩
  exact List.pairwise_insertionSort ..

theorem find_once : ((find store mid lane).map Run.id).Nodup :=
  ((List.perm_insertionSort ..).map Run.id).nodup_iff.mpr
    (store.once.sublist (List.filter_sublist.map Run.id))

theorem mem_ranked {item : Run × Receipt} :
    item ∈ ranked settings store mid lane ↔ item.1 ∈ find store mid lane ∧
      item.2 = examReceipt settings store item.1 ∧ contaminated item.2 = none := by
  rw [ranked, List.mem_filter, List.mem_map, Option.isNone_iff_eq_none]
  constructor
  · rintro ⟨⟨run, member, rfl⟩, clean⟩
    exact ⟨member, rfl, clean⟩
  · rintro ⟨member, read, clean⟩
    exact ⟨⟨item.1, member, by rw [← read]⟩, clean⟩

theorem ranked_runs_sublist :
    ((ranked settings store mid lane).map Prod.fst).Sublist (find store mid lane) := by
  have whole : ((find store mid lane).map fun run => (run, examReceipt settings store run)).map
      Prod.fst = find store mid lane := by
    rw [List.map_map]
    exact List.map_id _
  conv_rhs => rw [← whole]
  exact List.filter_sublist.map Prod.fst

/-- A table's runs are newest first too. -/
theorem group_sorted {group : List (Run × Receipt)}
    (member : group ∈ mutualGroups (ranked settings store mid lane)) :
    (group.map Prod.fst).Pairwise fun a b => b.age ≤ a.age :=
  find_sorted.sublist
    (((Groups.grouped_sublist _ group member).map Prod.fst).trans ranked_runs_sublist)

theorem mem_of_group {group : List (Run × Receipt)} {item : Run × Receipt}
    (member : group ∈ mutualGroups (ranked settings store mid lane)) (inside : item ∈ group) :
    item ∈ ranked settings store mid lane :=
  (Groups.grouped_sublist _ group member).subset inside

/-! ## Each run in one table -/

theorem ranked_once (run : Run) (known : run ∈ find store mid lane)
    (clean : contaminated (examReceipt settings store run) = none) :
    (mutualGroups (ranked settings store mid lane)).countP
      (fun group => run.id ∈ group.map fun item => item.1.id) = 1 := by
  have ids : ((ranked settings store mid lane).map fun item => item.1.id).Nodup := by
    have names := find_once.sublist
      ((@ranked_runs_sublist settings store mid lane).map Run.id)
    rwa [List.map_map] at names
  have placed : ((mutualGroups (ranked settings store mid lane)).map
      (List.map fun item => item.1.id)).flatten.Perm
        ((ranked settings store mid lane).map fun item => item.1.id) := by
    rw [← List.map_flatten]
    exact (Groups.grouped_perm _).map _
  have here : run.id ∈ (ranked settings store mid lane).map fun item => item.1.id :=
    List.mem_map.mpr ⟨(run, examReceipt settings store run), mem_ranked.mpr ⟨known, rfl, clean⟩, rfl⟩
  have one := Groups.countP_mem_flatten (placed.nodup_iff.mpr ids) (placed.mem_iff.mpr here)
  rwa [List.countP_map] at one

/-! ## A candidate's row -/

theorem find_name {names : List String} {name : String} :
    names.find? (fun other => other = name) = if name ∈ names then some name else none := by
  split
  next member =>
    cases found : names.find? (fun other => other = name) with
    | none => exact absurd (decide_eq_true rfl) (List.find?_eq_none.mp found name member)
    | some other =>
      have here : decide (other = name) = true :=
        List.find?_some (p := fun other => decide (other = name)) found
      rw [of_decide_eq_true here]
  next absent =>
    exact List.find?_eq_none.mpr fun other member here => absent (of_decide_eq_true here ▸ member)

instance (run : Run) (candidate : String) : Decidable (Holds store run candidate) :=
  inferInstanceAs (Decidable (candidate ∈ (store.rows run.id).map Result.candidate))

/-- What a run has in its table for a candidate. -/
theorem find_entries (item : Run × Receipt) (candidate : String) :
    (entries store item).find? (fun row => row.candidate = candidate) =
      if Holds store item.1 candidate then some (rowIn store item.1 candidate) else none := by
  let make := fun name => rowIn store item.1 name
  have made : entries store item =
      (Groups.firsts id ((store.rows item.1.id).map Result.candidate)).map make := by
    rw [entries, summarize, List.map_map]
    rfl
  have known : candidate ∈ Groups.firsts id ((store.rows item.1.id).map Result.candidate) ↔
      Holds store item.1 candidate := by
    rw [Holds, ← List.map_id ((store.rows item.1.id).map Result.candidate),
      ← Groups.mem_map_firsts id, List.map_id, List.map_id]
  have named : (fun row : Row => decide (row.candidate = candidate)) ∘ make =
      fun name => decide (name = candidate) := rfl
  rw [made, List.find?_map, named, find_name]
  by_cases holds : Holds store item.1 candidate
  · rw [if_pos holds, if_pos (known.mpr holds), Option.map_some]
  · rw [if_neg holds, if_neg fun member => holds (known.mp member), Option.map_none]

theorem mem_rows {group : List (Run × Receipt)} {row : Row} :
    row ∈ (exam store group).rows ↔
      row ∈ Groups.firsts Row.candidate (group.flatMap (entries store)) :=
  (List.perm_insertionSort ..).mem_iff

theorem row_newest {group : List (Run × Receipt)}
    (member : group ∈ mutualGroups (ranked settings store mid lane)) {row : Row}
    (shown : row ∈ (exam store group).rows) :
    ∃ run ∈ group.map Prod.fst, Holds store run row.candidate ∧
      row = rowIn store run row.candidate ∧
      ∀ other ∈ group.map Prod.fst, Holds store other row.candidate → other.age ≤ run.age := by
  have first := Groups.find_of_mem_firsts Row.candidate (mem_rows.mp shown)
  rw [List.find?_flatMap] at first
  obtain ⟨newer, item, older, shape, here, before⟩ := List.findSome?_eq_some_iff.mp first
  rw [find_entries] at here
  obtain ⟨holds, made⟩ := Option.ite_none_right_eq_some.mp here
  refine ⟨item.1, ?_, holds, (Option.some.inj made).symm, fun other inside held => ?_⟩
  · rw [shape]
    exact List.mem_map.mpr ⟨item, List.mem_append_right _ List.mem_cons_self, rfl⟩
  · have sorted := group_sorted member
    rw [shape, List.map_append, List.map_cons] at inside sorted
    rcases List.mem_append.mp inside with early | rest
    · obtain ⟨earlier, member, rfl⟩ := List.mem_map.mp early
      have none := before earlier member
      rw [find_entries, if_pos held] at none
      cases none
    · rcases List.mem_cons.mp rest with rfl | late
      · exact le_refl _
      · exact (List.pairwise_cons.mp (List.pairwise_append.mp sorted).2.1).1 other late

theorem row_shown {group : List (Run × Receipt)} {run : Run} (member : run ∈ group.map Prod.fst)
    {candidate : String} (holds : Holds store run candidate) :
    ((exam store group).rows.map Row.candidate).count candidate = 1 := by
  obtain ⟨item, inside, rfl⟩ := List.mem_map.mp member
  have same : ((exam store group).rows.map Row.candidate).Perm
      ((Groups.firsts Row.candidate (group.flatMap (entries store))).map Row.candidate) :=
    (List.perm_insertionSort ..).map _
  rw [same.count_eq]
  refine List.count_eq_one_of_mem (Groups.map_firsts_nodup ..) ((Groups.mem_map_firsts _).mpr ?_)
  have found := @find_entries store item candidate
  rw [if_pos holds] at found
  exact List.mem_map.mpr ⟨rowIn store item.1 candidate,
    List.mem_flatMap.mpr ⟨item, inside, List.mem_of_find?_eq_some found⟩, rfl⟩

/-! ## The ladder -/

theorem contaminated_stored (run : Run) :
    contaminated (storedReceipt settings store run) = contaminated (examReceipt settings store run) :=
  rfl

/-- With its ladder a stored receipt is compared as without, and the ladders are compared. -/
theorem comparable_stored (a b : Run) :
    comparable (storedReceipt settings store a) (storedReceipt settings store b) = none ↔
      comparable (examReceipt settings store a) (examReceipt settings store b) = none ∧
        (a.receipt.getD {}).budget_ladder.getD [] = (b.receipt.getD {}).budget_ladder.getD [] := by
  have exam : (storedReceipt settings store a).exam = (storedReceipt settings store b).exam ↔
      (examReceipt settings store a).exam = (examReceipt settings store b).exam ∧
        (a.receipt.getD {}).budget_ladder.getD [] = (b.receipt.getD {}).budget_ladder.getD [] := by
    have blank : (examReceipt settings store a).budget_ladder =
        (examReceipt settings store b).budget_ladder := rfl
    simp only [storedReceipt, Receipt.exam, Evals.Exam.mk.injEq, blank, true_and]
    tauto
  have provenance : SameProvenance (storedReceipt settings store a) (storedReceipt settings store b) ↔
      SameProvenance (examReceipt settings store a) (examReceipt settings store b) :=
    ⟨fun s => ⟨s.1, s.2, s.3, s.4, s.5, s.6, s.7⟩, fun s => ⟨s.1, s.2, s.3, s.4, s.5, s.6, s.7⟩⟩
  rw [comparable_iff, comparable_iff, SameExam, SameExam, exam, provenance, contaminated_stored,
    contaminated_stored]
  constructor
  · rintro ⟨⟨cleanA, cleanB, exam, ladders⟩, same⟩
    exact ⟨⟨⟨cleanA, cleanB, exam⟩, same⟩, ladders⟩
  · rintro ⟨⟨⟨cleanA, cleanB, exam⟩, same⟩, ladders⟩
    exact ⟨⟨cleanA, cleanB, exam, ladders⟩, same⟩

/-- Any two of a table are comparable but for their ladders. -/
theorem group_comparable {group : List (Run × Receipt)}
    (member : group ∈ mutualGroups (ranked settings store mid lane)) :
    ∀ a ∈ group, ∀ b ∈ group, comparable (examReceipt settings store a.1)
      (examReceipt settings store b.1) = none := by
  have read : ∀ item ∈ group, item.2 = examReceipt settings store item.1 ∧
      contaminated item.2 = none :=
    fun item inside => (mem_ranked.mp (mem_of_group member inside)).2
  have symm : Std.Symm fun a b : Run × Receipt => comparable (examReceipt settings store a.1)
      (examReceipt settings store b.1) = none := ⟨fun _ _ ab => (comparable_comm _ _).mp ab⟩
  have pairs : group.Pairwise fun a b => comparable (examReceipt settings store a.1)
      (examReceipt settings store b.1) = none := by
    refine (Groups.grouped_mutual _ group member).imp_of_mem fun {a b} ha hb matched => ?_
    have both := (Bool.and_eq_true_iff.mp matched).2
    rw [Option.isNone_iff_eq_none, (read a ha).1, (read b hb).1] at both
    exact (comparable_comm _ _).mp both
  have selves : ∀ item ∈ group, comparable (examReceipt settings store item.1)
      (examReceipt settings store item.1) = none := by
    intro item inside
    obtain ⟨eq, clean⟩ := read item inside
    exact comparable_self (eq ▸ clean)
  exact fun a ha b hb => pairs.forall_of_forall selves ha hb

theorem comparable_iff_uniform :
    (∀ group ∈ mutualGroups (ranked settings store mid lane), ∀ a ∈ group, ∀ b ∈ group,
        comparable (storedReceipt settings store a.1) (storedReceipt settings store b.1) = none) ↔
      Groups.Uniform ladder (mutualGroups (ranked settings store mid lane)) := by
  constructor
  · intro each group member a ha b hb
    exact ((comparable_stored a.1 b.1).mp (each group member a ha b hb)).2
  · intro uniform group member a ha b hb
    exact (comparable_stored a.1 b.1).mpr
      ⟨group_comparable member a ha b hb, uniform group member a ha b hb⟩

end

/-- The tables are right exactly where no run first fits a table of another ladder. -/
theorem tabled_iff (settings : String → Dict Scalar) (store : Store) (mid : Nat) (lane : String) :
    Tabled settings store mid lane ↔ LaddersKept settings store mid lane := by
  have kept : Groups.Uniform ladder (mutualGroups (ranked settings store mid lane)) ↔
      LaddersKept settings store mid lane := Groups.grouped_uniform_iff _
  constructor
  · intro tabled
    exact kept.mp (comparable_iff_uniform.mp tabled.comparable)
  · intro ladders
    exact
      { once := fun run known clean => ranked_once run known clean
        comparable := comparable_iff_uniform.mpr (kept.mpr ladders)
        newest := fun group member row shown => row_newest member shown
        shown := fun group member run inside candidate holds => row_shown inside holds }

/-! ## A run retried up a ladder -/

/-- A run at one budget, and a later one that came to the same budget up a ladder. -/
def twoRuns : List Run :=
  [{ id := 1, lane := "code", machineId := some 1, generatedAt := some 100
     receipt := some { modality := some "code", case_ids := some ["c0"], max_tokens := some 65536 } },
   { id := 2, lane := "code", machineId := some 1, generatedAt := some 200
     receipt := some { modality := some "code", case_ids := some ["c0"], max_tokens := some 65536
                       budget_ladder := some [4000, 16000, 65536] } }]

theorem twoRuns_once : (twoRuns.map Run.id).Nodup := by
  decide

def laddered : Store where
  runs := twoRuns
  rows := fun _ => [⟨"c0", "q3-coder", true, 1, ""⟩]
  once := twoRuns_once

theorem ladders_share_a_table :
    (exams (fun _ => ∅) laddered 1 "code").map Exam.runs = [2] ∧
      ¬ Tabled (fun _ => ∅) laddered 1 "code" := by
  have two : (exams (fun _ => ∅) laddered 1 "code").map Exam.runs = [2] := by decide
  refine ⟨two, fun tabled => ?_⟩
  have apart := comparable_iff_uniform.mp tabled.comparable
  revert apart
  unfold Groups.Uniform
  decide

end LocalHarness.Publish
