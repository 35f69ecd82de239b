import LocalHarness.Adopt.Repeated

/-! # The decision on identical draws

Pass rates, means and medians do not see how often each row is there. Only the calibration does: it
is binned once there are enough decisions, and the repeats count.
-/

namespace LocalHarness.Adopt

open LocalHarness.Library Copies

variable {r : Nat} {rows : List Row}

/-- A run with one draw of each case for each candidate. -/
structure SingleRun (rows : List Row) : Prop where
  unmarked : ∀ row ∈ rows, '#' ∉ row.caseId.toList
  once : (rows.map fun row => (row.candidate, row.caseId)).Nodup

/-- The summary row of a candidate of this run. -/
def summaryOf (rows : List Row) (name : String) : Summary :=
  (summary rows name).getD { candidate := name }

/-- Whether the challenger replaces the incumbent, after a run with these rows. -/
def adopts (lane incumbent challenger : String) (rows : List Row) (split : Option Split)
    (plan : Option Plan) (spec : String) : Bool :=
  (decide lane (summaryOf rows incumbent) (summaryOf rows challenger) rows split plan spec).adopt

/-- The repeats do not bring a candidate's decisions to be enough for the bins. -/
def SameBins (r : Nat) (rows : List Row) (name : String) : Prop :=
  let pooled := ((rowsOf rows name).flatMap Row.decisions).length
  MIN_ECE_N ≤ r * pooled → MIN_ECE_N ≤ pooled

theorem SingleRun.filter (single : SingleRun rows) (p : Row → Bool) : SingleRun (rows.filter p) :=
  ⟨fun row member => single.unmarked row (List.mem_of_mem_filter member),
    single.once.sublist (List.filter_sublist.map _)⟩

theorem SingleRun.single (single : SingleRun rows) (name : String) : Single (rowsOf rows name) := by
  have mine := single.filter fun row => row.candidate = name
  refine ⟨mine.unmarked, ?_⟩
  have named : (rowsOf rows name).map (fun row => (row.candidate, row.caseId)) =
      ((rowsOf rows name).map Row.caseId).map (Prod.mk name) := by
    rw [List.map_map]
    apply List.map_congr_left
    intro row member
    rw [Function.comp, of_decide_eq_true (List.mem_filter.mp member).2]
  have once := mine.once
  rw [← rowsOf, named] at once
  exact once.of_map

/-! ## What does not see the copies -/

theorem mean_copies (pos : 0 < r) (values : List ℚ) : mean (copies r values) = mean values := by
  have nonzero : (r : ℚ) ≠ 0 := by exact_mod_cast pos.ne'
  rw [mean, mean, sum_copies, length_copies, Nat.cast_mul, mul_div_mul_left _ _ nonzero]

theorem half_copies (pos : 0 < r) (n : Nat) : r * n / 2 / r = n / 2 := by
  rw [Nat.div_div_eq_div_mul, Nat.mul_comm 2 r, Nat.mul_div_mul_left _ _ pos]

theorem below_half_even (pos : 0 < r) (m : Nat) : (r * (2 * (m + 1)) / 2 - 1) / r = m := by
  have half : r * (2 * (m + 1)) / 2 = r * m + r := by
    rw [Nat.mul_left_comm, Nat.mul_div_cancel_left _ Nat.two_pos, Nat.mul_succ]
  rw [half, Nat.add_sub_assoc pos, Nat.mul_add_div pos, Nat.div_eq_of_lt (Nat.sub_lt pos Nat.one_pos),
    Nat.add_zero]

theorem below_half_odd {k : Nat} (pos : 0 < k) (m : Nat) :
    (2 * k * (2 * m + 1) / 2 - 1) / (2 * k) = m := by
  have half : 2 * k * (2 * m + 1) / 2 = 2 * k * m + k := by
    rw [Nat.mul_assoc, Nat.mul_div_cancel_left _ Nat.two_pos]
    ring
  rw [half, Nat.add_sub_assoc pos, Nat.mul_add_div (by omega), Nat.div_eq_of_lt (by omega),
    Nat.add_zero]

/-- The middle of a list stays the middle, on whichever side of it the copies fall. -/
theorem median_copies (pos : 0 < r) (values : List ℚ) : median (copies r values) = median values := by
  unfold median
  simp only [insertionSort_copies, List.getD_eq_getElem?_getD, getElem?_copies pos, length_copies,
    half_copies pos]
  generalize values.insertionSort (· ≤ ·) = sorted
  obtain ⟨m, even | odd⟩ := Nat.even_or_odd' sorted.length
  · rw [even]
    cases m with
    | zero =>
        rw [List.length_eq_zero_iff.mp even]
        simp
    | succ m =>
        have none_ : ¬ r * (2 * (m + 1)) % 2 = 1 := by
          rw [Nat.mul_left_comm]
          omega
        rw [if_neg none_, if_neg (by omega), below_half_even pos,
          Nat.mul_div_cancel_left _ Nat.two_pos, Nat.add_sub_cancel]
  · rw [odd]
    have half : (2 * m + 1) / 2 = m := by omega
    rw [if_pos (by omega : (2 * m + 1) % 2 = 1), half]
    obtain ⟨k, even' | odd'⟩ := Nat.even_or_odd' r
    · subst even'
      have none_ : ¬ 2 * k * (2 * m + 1) % 2 = 1 := by
        rw [Nat.mul_assoc]
        omega
      rw [if_neg none_, below_half_odd (by omega)]
      ring
    · have one : r * (2 * m + 1) % 2 = 1 := by
        rw [odd']
        ring_nf
        omega
      rw [if_pos one]

theorem lookup_map {α β : Type} (f : α → β) (name : String) (l : List (String × α)) :
    (l.map fun pair => (pair.1, f pair.2)).lookup name = (l.lookup name).map f := by
  induction l with
  | nil => rfl
  | cons pair rest ih =>
      rw [List.map_cons, List.lookup_cons, List.lookup_cons]
      cases name == pair.1 with
      | true => rfl
      | false => exact ih

theorem gatherMetrics_repeated (pos : 0 < r) :
    gatherMetrics (repeated r rows) =
      (gatherMetrics rows).map fun pair => (pair.1, copies r pair.2) := by
  have names : (((repeated r rows).flatMap Row.metrics).map Prod.fst).dedup =
      ((rows.flatMap Row.metrics).map Prod.fst).dedup := by
    rw [List.map_flatMap, List.map_flatMap]
    have through : (repeated r rows).flatMap (fun row => row.metrics.map Prod.fst) =
        (copies r (rows.map Row.metrics)).flatMap (fun metrics => metrics.map Prod.fst) := by
      rw [← map_repeated _ fun _ _ => rfl, List.flatMap_map]
    rw [through, dedup_flatMap_copies pos, List.flatMap_map]
  have values : ∀ name, (repeated r rows).filterMap (fun row => row.metrics.lookup name) =
      copies r (rows.filterMap fun row => row.metrics.lookup name) := by
    intro name
    have through : (repeated r rows).filterMap (fun row => row.metrics.lookup name) =
        (copies r (rows.map Row.metrics)).filterMap (fun metrics => metrics.lookup name) := by
      rw [← map_repeated _ fun _ _ => rfl, List.filterMap_map]
      rfl
    rw [through, filterMap_copies, List.filterMap_map]
    rfl
  unfold gatherMetrics
  rw [names, List.map_map]
  simp only [values]
  rfl

theorem meanMetrics_repeated (pos : 0 < r) : meanMetrics (repeated r rows) = meanMetrics rows := by
  have nonzero : (r : ℚ) ≠ 0 := by exact_mod_cast pos.ne'
  unfold meanMetrics
  simp only [gatherMetrics_repeated pos, List.filterMap_map]
  congr 1
  funext ⟨name, values⟩
  simp only [Function.comp, lookup_map, mean_copies pos]
  cases RATIO_METRICS.lookup name with
  | none => rfl
  | some parts =>
      rw [Option.bind_some, Option.bind_some]
      cases (gatherMetrics rows).lookup parts.1 with
      | none => rfl
      | some above =>
          rw [Option.map_some, Option.bind_some, Option.bind_some]
          cases (gatherMetrics rows).lookup parts.2 with
          | none => rfl
          | some below =>
              simp only [Option.map_some, sum_copies, mul_eq_zero, nonzero, false_or,
                mul_div_mul_left _ _ nonzero]

theorem mean_perm {values values' : List ℚ} (same : values.Perm values') :
    mean values = mean values' := by
  rw [mean, mean, same.sum_eq, same.length_eq]

theorem eq_nil_perm {α : Type} {l l' : List α} (same : l.Perm l') : l = [] ↔ l' = [] := by
  rw [← List.length_eq_zero_iff, same.length_eq, List.length_eq_zero_iff]

theorem ece_perm {pairs pairs' : List (ℚ × Bool)} (same : pairs.Perm pairs') : ece pairs = ece pairs' := by
  have filtered : ∀ p : ℚ × Bool → Bool, (pairs.filter p).Perm (pairs'.filter p) := same.filter
  unfold ece
  simp only [eq_nil_perm same, same.length_eq, fun p => eq_nil_perm (filtered p),
    fun p => (filtered p).length_eq, fun p => mean_perm ((filtered p).map Prod.fst),
    fun p => mean_perm ((filtered p).map fun pair => if pair.2 then (1 : ℚ) else 0)]

theorem ece_copies (pos : 0 < r) (pairs : List (ℚ × Bool)) : ece (copies r pairs) = ece pairs := by
  have nonzero : (r : ℚ) ≠ 0 := by exact_mod_cast pos.ne'
  unfold ece
  simp only [copies_eq_nil pos, filter_copies, length_copies, map_copies, mean_copies pos,
    Nat.cast_mul, mul_div_mul_left _ _ nonzero]

theorem decideCalibration_repeated (pos : 0 < r) (mine : List Row) :
    decideCalibration (repeated r mine) =
      let pairs := mine.flatMap Row.decisions
      if r * pairs.length < MIN_ECE_N then [] else [("decide_ece", Decimal.rounded 4 (ece pairs))] := by
  have pooled : ((repeated r mine).flatMap Row.decisions).Perm
      (copies r (mine.flatMap Row.decisions)) := by
    rw [List.flatMap_def, List.flatMap_def, map_repeated _ fun _ _ => rfl]
    exact flatten_copies_perm _
  unfold decideCalibration
  dsimp only
  rw [pooled.length_eq, length_copies, ece_perm pooled, ece_copies pos]

/-- A summary over these rows, with this calibration. -/
def summaryWith (mine : List Row) (name : String) (pooled : List (String × ℚ)) : Option Summary :=
  if mine = [] then none
  else
    some
      { candidate := name
        passRate := Decimal.rounded 3 ((mine.countP Row.passed : ℚ) / mine.length)
        medianS := Decimal.rounded 3 (median (mine.map Row.seconds))
        metrics := ((meanMetrics mine).filter fun metric => (pooled.lookup metric.1).isNone) ++
          pooled }

theorem repeated_eq_nil (pos : 0 < r) : repeated r rows = [] ↔ rows = [] := by
  have mapped : (repeated r rows).map Row.passed = [] ↔ rows.map Row.passed = [] := by
    rw [map_repeated _ fun _ _ => rfl, copies_eq_nil pos]
  rwa [List.map_eq_nil_iff, List.map_eq_nil_iff] at mapped

/-- Only the calibration sees the repeats. -/
theorem summary_repeated (pos : 0 < r) (rows : List Row) (name : String) :
    summary (repeated r rows) name =
      summaryWith (rowsOf rows name) name (decideCalibration (repeated r (rowsOf rows name))) := by
  have nonzero : (r : ℚ) ≠ 0 := by exact_mod_cast pos.ne'
  have through : ∀ list : List Row, list.countP Row.passed = (list.map Row.passed).countP id := by
    intro list
    rw [List.countP_map]
    rfl
  have count : (repeated r (rowsOf rows name)).countP Row.passed =
      r * (rowsOf rows name).countP Row.passed := by
    rw [through, through, map_repeated _ fun _ _ => rfl, countP_copies]
  have length : (repeated r (rowsOf rows name)).length = r * (rowsOf rows name).length := by
    rw [← List.length_map Row.passed, map_repeated _ fun _ _ => rfl, length_copies, List.length_map]
  have times : (repeated r (rowsOf rows name)).map Row.seconds =
      copies r ((rowsOf rows name).map Row.seconds) := map_repeated _ fun _ _ => rfl
  unfold summary summaryWith
  rw [rowsOf_repeated]
  simp only [repeated_eq_nil pos, count, length, Nat.cast_mul, mul_div_mul_left _ _ nonzero, times,
    median_copies pos, meanMetrics_repeated pos]

theorem summary_sameBins (pos : 0 < r) {name : String} (bins : SameBins r rows name) :
    summary (repeated r rows) name = summary rows name := by
  have alike : r * ((rowsOf rows name).flatMap Row.decisions).length < MIN_ECE_N ↔
      ((rowsOf rows name).flatMap Row.decisions).length < MIN_ECE_N := by
    have grows := Nat.le_mul_of_pos_left ((rowsOf rows name).flatMap Row.decisions).length pos
    unfold SameBins at bins
    dsimp only at bins
    omega
  rw [summary_repeated pos, decideCalibration_repeated pos]
  simp only [alike]
  rfl

/-! ## The decision -/

theorem side_resultKey (split : Split) {caseId : String} (plain : '#' ∉ caseId.toList) (i : Nat) :
    split.side (resultKey caseId i) = split.side caseId := by
  rw [Split.side, Split.side, baseId_resultKey plain, baseId_unmarked plain]

theorem judgedRows_repeated (single : SingleRun rows) (split : Option Split) :
    judgedRows (repeated r rows) split = repeated r (judgedRows rows split) := by
  cases split with
  | none => rfl
  | some split =>
      refine filter_repeated (fun row member i => ?_) fun _ _ => rfl
      dsimp only
      rw [side_resultKey split (single.unmarked row member)]

theorem single_judgedRows (single : SingleRun rows) (split : Option Split) :
    SingleRun (judgedRows rows split) := by
  cases split with
  | none => exact single
  | some split => exact single.filter _

theorem pairedP_repeated_eq (pos : 0 < r) (single : SingleRun rows) (incumbent challenger : String) :
    (pairedP (repeated r rows) incumbent challenger).p = (pairedP rows incumbent challenger).p := by
  have once := pairedP_repeated Nat.one_pos (single.single incumbent) (single.single challenger)
  rw [repeated, if_pos rfl] at once
  rw [once, pairedP_repeated pos (single.single incumbent) (single.single challenger)]

theorem summaryOf_candidate (rows : List Row) (name : String) :
    (summaryOf rows name).candidate = name := by
  unfold summaryOf summary
  dsimp only
  split <;> rfl

theorem adopts_iff {lane incumbent challenger : String} {split : Option Split} {plan : Option Plan}
    {spec : String} :
    adopts lane incumbent challenger rows split plan spec = true ↔
      better (judgedSummary rows split (summaryOf rows incumbent))
          (judgedSummary rows split (summaryOf rows challenger)) = true ∧
        judgedRows rows split ≠ [] ∧
          ¬ ((headToHead (judgedRows rows split) incumbent challenger).discordant = 0 ∧
              (headToHead (judgedRows rows split) incumbent challenger).unchanged = 0) ∧
            (pairedP (judgedRows rows split) incumbent challenger).p ≤ ALPHA := by
  rw [adopts, decide_adopt, gates_adopt, summaryOf_candidate, summaryOf_candidate, pairedP_cell]

theorem judgedSummary_repeated (pos : 0 < r) (single : SingleRun rows) {split : Option Split}
    {name : String} (bins : SameBins r rows name) (judged : SameBins r (judgedRows rows split) name) :
    judgedSummary (repeated r rows) split (summaryOf (repeated r rows) name) =
      judgedSummary rows split (summaryOf rows name) := by
  have whole : summaryOf (repeated r rows) name = summaryOf rows name := by
    rw [summaryOf, summary_sameBins pos bins, ← summaryOf]
  rw [whole]
  cases split with
  | none => rfl
  | some split =>
      have rowsOn_eq : rowsOn (repeated r rows) split .holdout = repeated r (rowsOn rows split .holdout) :=
        judgedRows_repeated single (some split)
      have holdout : summary (repeated r (rowsOn rows split .holdout)) name =
          summary (rowsOn rows split .holdout) name := summary_sameBins pos judged
      simp only [judgedSummary, repeated_eq_nil pos, rowsOn_eq, summaryOf_candidate, holdout]

/-- Two cases, one of them lost and the other gained. -/
def swapped : List Row :=
  [{ caseId := "a", candidate := "held", passed := true },
   { caseId := "b", candidate := "held", passed := false },
   { caseId := "a", candidate := "tried", passed := false },
   { caseId := "b", candidate := "tried", passed := true }]

/-- One candidate's rows over the cases `0` to `12000`: the first has fifty decisions, each made with
    a confidence of 0.9. -/
def longRows (name : String) (passed : Nat → Bool) (right : List Bool) : List Row :=
  (List.range 12001).map fun n =>
    { caseId := toString n, candidate := name, passed := passed n
      decisions := if n = 0 then right.map fun correct => (9 / 10, correct) else [] }

/-- Both fail every case but six that only the second passes, too few to show in the pass rate. The
    one is wrong in every decision, the other in one. -/
def longRun : List Row :=
  longRows "held" (fun _ => false) (List.replicate 50 false) ++
    longRows "tried" (fun n => 0 < n && n < 7) (false :: List.replicate 49 true)

section LongRun

variable {name : String} {passed : Nat → Bool} {right : List Bool}

theorem rowsOf_longRows (name' : String) :
    rowsOf (longRows name passed right) name' = if name = name' then longRows name passed right else [] := by
  have named : ∀ row ∈ longRows name passed right, row.candidate = name := by
    intro row member
    obtain ⟨n, -, rfl⟩ := List.mem_map.mp member
    rfl
  split
  next same =>
    exact List.filter_eq_self.mpr fun row member => decide_eq_true ((named row member).trans same)
  next other =>
    refine List.filter_eq_nil_iff.mpr fun row member => ?_
    rw [named row member]
    simpa using other

theorem decisions_longRows :
    (longRows name passed right).flatMap Row.decisions = right.map fun correct => (9 / 10, correct) := by
  have rest : ∀ list : List Nat, (list.map Nat.succ).flatMap (fun n =>
      if n = 0 then right.map fun correct => ((9 / 10, correct) : ℚ × Bool) else []) = [] := by
    intro list
    rw [List.flatMap_eq_nil_iff]
    intro n member
    obtain ⟨m, -, rfl⟩ := List.mem_map.mp member
    rfl
  rw [longRows, List.flatMap_map, List.range_succ_eq_map, List.flatMap_cons, rest, List.append_nil]
  rfl

theorem meanMetrics_longRows : meanMetrics (longRows name passed right) = [] := by
  have none_ : (longRows name passed right).flatMap Row.metrics = [] := by
    rw [List.flatMap_eq_nil_iff]
    intro row member
    obtain ⟨n, -, rfl⟩ := List.mem_map.mp member
    rfl
  rw [meanMetrics, gatherMetrics, none_]
  rfl

theorem median_longRows : median ((longRows name passed right).map Row.seconds) = 0 := by
  have zeros : (longRows name passed right).map Row.seconds = copies 12001 [0] := by
    rw [longRows, List.map_map, copies, List.flatMap_singleton, List.eq_replicate_iff, List.length_map,
      List.length_range]
    refine ⟨rfl, fun seconds member => ?_⟩
    obtain ⟨n, -, rfl⟩ := List.mem_map.mp member
    rfl
  rw [zeros, median_copies (by decide)]
  rfl

theorem map_caseId_longRows :
    (longRows name passed right).map Row.caseId = (List.range 12001).map toString := by
  rw [longRows, List.map_map]
  rfl

theorem rowsOf_longRun (name' : String) :
    rowsOf longRun name' =
      (if "held" = name' then longRows "held" (fun _ => false) (List.replicate 50 false) else []) ++
        if "tried" = name' then longRows "tried" (fun n => 0 < n && n < 7) (false :: List.replicate 49 true)
          else [] := by
  rw [rowsOf, longRun, List.filter_append, ← rowsOf, ← rowsOf, rowsOf_longRows, rowsOf_longRows]

theorem held_longRun :
    rowsOf longRun "held" = longRows "held" (fun _ => false) (List.replicate 50 false) := by
  rw [rowsOf_longRun, if_pos rfl, if_neg (by decide), List.append_nil]

theorem tried_longRun :
    rowsOf longRun "tried" =
      longRows "tried" (fun n => 0 < n && n < 7) (false :: List.replicate 49 true) := by
  rw [rowsOf_longRun, if_neg (by decide), if_pos rfl, List.nil_append]

theorem longRun_single : SingleRun longRun := by
  refine ⟨fun row member => ?_, ?_⟩
  · rcases List.mem_append.mp member with held | tried
    · obtain ⟨n, -, rfl⟩ := List.mem_map.mp held
      exact unmarked_toString n
    · obtain ⟨n, -, rfl⟩ := List.mem_map.mp tried
      exact unmarked_toString n
  · have drawn : ∀ name passed right, ((longRows name passed right).map fun row =>
        (row.candidate, row.caseId)) = (List.range 12001).map fun n => (name, toString n) := by
      intro name passed right
      rw [longRows, List.map_map]
      rfl
    have once : ∀ name : String, ((List.range 12001).map fun n => (name, toString n)).Nodup :=
      fun name => List.nodup_range.map fun _ _ same => toString_injective (Prod.ext_iff.mp same).2
    rw [longRun, List.map_append, drawn, drawn, List.nodup_append]
    refine ⟨once _, once _, fun pair held pair' tried same => ?_⟩
    obtain ⟨n, -, rfl⟩ := List.mem_map.mp held
    obtain ⟨n', -, rfl⟩ := List.mem_map.mp tried
    have named : "held" = "tried" := (Prod.ext_iff.mp same).1
    exact absurd named (by decide)

theorem resultOn_longRows {rows : List Row} {n : Nat} (mine : rowsOf rows name = longRows name passed right)
    (inside : n < 12001) : resultOn rows name (toString n) = some (passed n) := by
  have once : ((rowsOf rows name).map Row.caseId).Nodup := by
    rw [mine, map_caseId_longRows]
    exact List.nodup_range.map fun _ _ => toString_injective
  rw [resultOn_eq_some once, mine]
  exact ⟨_, List.mem_map.mpr ⟨n, List.mem_range.mpr inside, rfl⟩, rfl, rfl⟩

theorem countP_early {p : Nat → Bool} {k : Nat} (late : ∀ n, p (k + n) = false) (m : Nat) :
    (List.range (k + m)).countP p = (List.range k).countP p := by
  rw [List.range_add, List.countP_append, List.countP_map, Nat.add_eq_left, List.countP_eq_zero]
  intro n _
  rw [Function.comp, late]
  exact Bool.false_ne_true

theorem cells_longRun : headToHead longRun "held" "tried" =
    { candidate := "tried", lost := 0, gained := 6, unchanged := 11995 } := by
  have once : ((rowsOf longRun "held").map Row.caseId).Nodup := by
    rw [held_longRun, map_caseId_longRows]
    exact List.nodup_range.map fun _ _ => toString_injective
  have keys : sharedCases longRun "held" "tried" = (List.range 12001).map toString := by
    rw [sharedCases, once.dedup, held_longRun, map_caseId_longRows, List.filter_eq_self]
    intro caseId member
    obtain ⟨n, inside, rfl⟩ := List.mem_map.mp member
    rw [resultOn_longRows tried_longRun (List.mem_range.mp inside)]
    rfl
  have counted : ∀ f : Option Bool → Option Bool → Bool,
      (sharedCases longRun "held" "tried").countP (fun caseId =>
        f (resultOn longRun "held" caseId) (resultOn longRun "tried" caseId)) =
      (List.range 12001).countP fun n => f (some false) (some (0 < n && n < 7)) := by
    intro f
    rw [keys, List.countP_map]
    apply List.countP_congr
    intro n inside
    rw [Function.comp, resultOn_longRows held_longRun (List.mem_range.mp inside),
      resultOn_longRows tried_longRun (List.mem_range.mp inside)]
  have lost := counted fun first second => first = some true ∧ second = some false
  have gained := counted fun first second => first = some false ∧ second = some true
  have none_ := countP_early (k := 7) (p := fun n =>
    Decidable.decide (some false = some true ∧ some (0 < n && n < 7 : Bool) = some false))
    (fun n => rfl) 11994
  have six := countP_early (k := 7) (p := fun n =>
    Decidable.decide (some false = some false ∧ some (0 < n && n < 7 : Bool) = some true))
    (fun n => by simp) 11994
  unfold headToHead
  dsimp only
  rw [lost, gained, none_, six, keys, List.length_map, List.length_range]
  rfl

/-- What a candidate of the long run is ranked on. -/
theorem summaryOf_longRun (pos : 0 < r) (mine : rowsOf longRun name = longRows name passed right)
    (late : ∀ n, passed (7 + n) = false) :
    summaryOf (repeated r longRun) name =
      { candidate := name
        passRate := Decimal.rounded 3 (((List.range 7).countP passed : ℚ) / 12001)
        medianS := 0
        metrics := if r * right.length < MIN_ECE_N then []
          else [("decide_ece", Decimal.rounded 4 (ece (right.map fun correct => (9 / 10, correct))))] } := by
  have count : (longRows name passed right).countP Row.passed = (List.range 7).countP passed := by
    rw [longRows, List.countP_map]
    exact countP_early late 11994
  have length : (longRows name passed right).length = 12001 := by
    rw [longRows, List.length_map, List.length_range]
  have some_ : longRows name passed right ≠ [] := by
    intro none_
    rw [none_] at length
    exact absurd length (by decide)
  have zero : Decimal.rounded 3 0 = 0 := by decide +kernel
  rw [summaryOf, summary_repeated pos, mine, summaryWith, if_neg some_, count, length, median_longRows,
    meanMetrics_longRows, decideCalibration_repeated pos, decisions_longRows, zero]
  dsimp only
  rw [List.length_map]
  rfl

end LongRun

/-- Four cases, and two whose ids hold the mark of a draw, so that they count as draws of one case. -/
def hashed : List Row :=
  (["w", "x", "y", "z", "a#1"].flatMap fun caseId =>
    [{ caseId, candidate := "held", passed := false },
     { caseId, candidate := "tried", passed := true }]) ++
  [{ caseId := "a#2", candidate := "held", passed := false },
   { caseId := "a#2", candidate := "tried", passed := false }]

end LocalHarness.Adopt
