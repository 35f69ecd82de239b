import Mathlib.Data.List.GetD
import Mathlib.Tactic.Linarith
import LocalHarness.Evals.Compare
import LocalHarness.Library.Fallible
import LocalHarness.Library.Ranked

/-! # The baseline and the candidate exchanged

The differences turn round when the two are exchanged, and so does their order. The ends of the interval
turn round with them where they are equally far in from either side, which at a fortieth is where the
number of draws is no multiple of forty.
-/

namespace LocalHarness.Evals.Compare

open LocalHarness.Library
open LocalHarness.Adopt (Direction directionOf)

variable {random : Random} {by_ : By} {cases sample : List String} {a b metric : String} {n : Nat}
  {seed : Int} {rows : List Row}

/-! ## Differences -/

/-- A candidate sat all of the cases. -/
def Sat (by_ : By) (cases : List String) (candidate : String) : Prop :=
  ∀ case_ ∈ cases, ∃ count, counts by_ candidate case_ = .ok count

theorem sat_paired (member : a ∈ (paired rows metric).1.keys) :
    Sat (paired rows metric).1 (paired rows metric).2 a := by
  intro case_ inside
  have both : case_ ∈ shared (paired rows metric).1 := Dict.mem_sortedKeys.mp inside
  have sat := (Finset.mem_filter.mp both).2 a member
  obtain ⟨each, found⟩ := Finmap.mem_iff.mp (Finmap.mem_keys.mp member)
  rw [casesOf, found, Option.getD_some] at sat
  obtain ⟨count, here⟩ := Finmap.mem_iff.mp (Finmap.mem_keys.mp sat)
  exact ⟨count, by rw [counts, found, Option.bind_some, here]; rfl⟩

/-- A list of as many cases. -/
def Drawn (cases sample : List String) : Prop :=
  sample.length = cases.length ∧ ∀ case_ ∈ sample, case_ ∈ cases

theorem rate_ok (sat : Sat by_ cases a) (drawn : Drawn cases sample) :
    ∃ q, rate by_ a sample = .ok q := by
  obtain ⟨each, made, -⟩ := mapM_total (p := fun _ => True) fun case_ inside =>
    (sat case_ (drawn.2 case_ inside)).imp fun count found => ⟨found, trivial⟩
  refine ⟨ratio each, ?_⟩
  rw [rate, made]
  rfl

/-- The difference in corpus rate of two that sat the cases. -/
def gap (by_ : By) (a b : String) (sample : List String) : ℚ :=
  (difference by_ a b sample).toOption.getD 0

theorem difference_ok (satA : Sat by_ cases a) (satB : Sat by_ cases b) (drawn : Drawn cases sample) :
    difference by_ a b sample = .ok (gap by_ a b sample) ∧
      gap by_ b a sample = -gap by_ a b sample := by
  obtain ⟨p, first⟩ := rate_ok satA drawn
  obtain ⟨q, second⟩ := rate_ok satB drawn
  have forth : difference by_ a b sample = .ok (p - q) := by rw [difference, first, second]; rfl
  have back : difference by_ b a sample = .ok (q - p) := by rw [difference, first, second]; rfl
  rw [gap, gap, forth, back]
  exact ⟨rfl, (neg_sub p q).symm⟩

/-! ## Draws -/

theorem drawn_cases : Drawn cases cases :=
  ⟨rfl, fun _ inside => inside⟩

theorem item_natCast {α : Type} {values : List α} {i : Nat} {v : α} (here : values[i]? = some v) :
    item values i = .ok v := by
  have positive : ¬ (i : Int) < 0 := Int.not_lt.mpr (Int.natCast_nonneg i)
  simp only [item, if_neg positive, Int.toNat_natCast, here, Option.elim]

theorem resample_ok (random : Random) (seed : Int) (cases : List String) (r : Nat) :
    ∃ sample, resample random seed cases r = .ok sample ∧ Drawn cases sample := by
  obtain ⟨sample, made, length, inside⟩ :=
    mapM_total (f := fun i => item cases (random.draw seed cases.length (r * cases.length + i)))
      (l := List.range cases.length) (p := (· ∈ cases)) fun i member => by
        have some_ : 0 < cases.length := Nat.zero_lt_of_lt (List.mem_range.mp member)
        have below := random.below seed cases.length (r * cases.length + i) some_
        have here := List.getElem?_eq_getElem below
        exact ⟨_, item_natCast here, List.mem_of_getElem? here⟩
  exact ⟨sample, made, length.trans List.length_range, inside⟩

/-- What was drawn. -/
def sampleOf (random : Random) (seed : Int) (cases : List String) (r : Nat) : List String :=
  (resample random seed cases r).toOption.getD []

theorem resample_eq : resample random seed cases n = .ok (sampleOf random seed cases n) ∧
    Drawn cases (sampleOf random seed cases n) := by
  obtain ⟨sample, made, drawn⟩ := resample_ok random seed cases n
  rw [sampleOf, made]
  exact ⟨rfl, drawn⟩

/-- Any lists of as many cases may be drawn. -/
theorem exists_random (samples : Nat → List String) (drawn : ∀ r, Drawn cases (samples r)) (seed : Int) :
    ∃ random : Random, ∀ r, sampleOf random seed cases r = samples r := by
  -- where in the list of cases the case is that is due
  let place (n k : Nat) : Nat := if n = cases.length then
    cases.idxOf ((samples (k / n)).getD (k % n) "") else 0
  have below (_ : Int) (n k : Nat) (some_ : 0 < n) : place n k < n := by
    unfold place
    split
    next same =>
      subst same
      have within : k % cases.length < (samples (k / cases.length)).length :=
        (Nat.mod_lt k some_).trans_eq (drawn _).1.symm
      rw [List.getD_eq_getElem _ _ within]
      exact List.idxOf_lt_length_of_mem ((drawn _).2 _ (List.getElem_mem within))
    next => exact some_
  refine ⟨⟨fun _ => place, below⟩, fun r => ?_⟩
  have each : ∀ i ∈ List.range cases.length,
      item cases (place cases.length (r * cases.length + i)) = .ok ((samples r).getD i "") := by
    intro i member
    have less := List.mem_range.mp member
    have some_ : 0 < cases.length := Nat.zero_lt_of_lt less
    have row : (r * cases.length + i) / cases.length = r := by
      rw [Nat.mul_comm, Nat.mul_add_div some_, Nat.div_eq_of_lt less, Nat.add_zero]
    have column : (r * cases.length + i) % cases.length = i := by
      rw [Nat.mul_comm, Nat.mul_add_mod, Nat.mod_eq_of_lt less]
    have within : i < (samples r).length := (drawn r).1 ▸ less
    have placed : place cases.length (r * cases.length + i) =
        cases.idxOf ((samples ((r * cases.length + i) / cases.length)).getD
          ((r * cases.length + i) % cases.length) "") := if_pos rfl
    refine item_natCast ?_
    rw [placed, row, column, List.getD_eq_getElem _ _ within]
    exact List.getElem?_idxOf ((drawn r).2 _ (List.getElem_mem within))
  have made : (List.range cases.length).map (fun i => (samples r).getD i "") = samples r := by
    refine List.ext_getElem (by rw [List.length_map, List.length_range, (drawn r).1]) fun i _ within => ?_
    rw [List.getElem_map, List.getElem_range, List.getD_eq_getElem _ _ within]
  rw [sampleOf, resample, mapM_of_ok each, made]
  rfl

/-! ## The ends -/

/-- The sorted differences. -/
def spread (random : Random) (by_ : By) (cases : List String) (a b : String) (n : Nat) (seed : Int) :
    List ℚ :=
  ((List.range n).map fun r => gap by_ a b (sampleOf random seed cases r)).insertionSort (· ≤ ·)

theorem spread_length : (spread random by_ cases a b n seed).length = n := by
  rw [spread, List.length_insertionSort, List.length_map, List.length_range]

theorem int_natCast_div (m k : Nat) : int ((m : ℚ) / k) = (m / k : Nat) := by
  have nonneg : (0 : ℚ) ≤ (m : ℚ) / k := by positivity
  rw [int, if_pos nonneg]
  exact Rat.floor_natCast_div_natCast m k

/-- The entries that are the ends of the interval: a fortieth in from below, and from above. -/
theorem interval_spec (random : Random) (seed : Int) (satA : Sat by_ cases a) (satB : Sat by_ cases b) (some_ : 0 < n) :
    ∃ low high, (spread random by_ cases a b n seed)[n / 40]? = some low ∧
      (spread random by_ cases a b n seed)[min (39 * n / 40) (n - 1)]? = some high ∧
      interval random by_ cases a b n seed DEFAULT_CONFIDENCE =
        .ok ⟨a, b, gap by_ a b cases, low, high, cases.length, decide (0 < low) || decide (high < 0)⟩ := by
  have length : (spread random by_ cases a b n seed).length = n := spread_length
  have first : n / 40 < (spread random by_ cases a b n seed).length := by omega
  have last : min (39 * n / 40) (n - 1) < (spread random by_ cases a b n seed).length := by omega
  refine ⟨_, _, List.getElem?_eq_getElem first, List.getElem?_eq_getElem last, ?_⟩
  have lowIndex : int ((1 - DEFAULT_CONFIDENCE) / 2 * n) = (n / 40 : Nat) := by
    rw [← int_natCast_div]
    congr 1
    norm_num [DEFAULT_CONFIDENCE]
    ring
  have highIndex : min (int ((1 - (1 - DEFAULT_CONFIDENCE) / 2) * n)) ((n : Int) - 1) =
      (min (39 * n / 40) (n - 1) : Nat) := by
    have whole : int ((1 - (1 - DEFAULT_CONFIDENCE) / 2) * n) = (39 * n / 40 : Nat) := by
      rw [← int_natCast_div]
      congr 1
      push_cast
      norm_num [DEFAULT_CONFIDENCE]
      ring
    rw [whole]
    omega
  have diffs : ((List.range n).mapM fun r => do
      difference by_ a b (← resample random seed cases r)) =
        .ok ((List.range n).map fun r => gap by_ a b (sampleOf random seed cases r)) := by
    refine mapM_of_ok fun r _ => ?_
    obtain ⟨made, drawn⟩ : resample random seed cases r = .ok (sampleOf random seed cases r) ∧
        Drawn cases (sampleOf random seed cases r) := resample_eq
    rw [made]
    exact (difference_ok satA satB drawn).1
  rw [interval, (difference_ok satA satB drawn_cases).1, diffs]
  have sorted : ((List.range n).map fun r => gap by_ a b (sampleOf random seed cases r)).insertionSort
      (· ≤ ·) = spread random by_ cases a b n seed := rfl
  simp only [bind, Except.bind, lowIndex, highIndex, sorted,
    item_natCast (List.getElem?_eq_getElem first), item_natCast (List.getElem?_eq_getElem last)]
  rfl

theorem interval_zero (satA : Sat by_ cases a) (satB : Sat by_ cases b) :
    interval random by_ cases a b 0 seed DEFAULT_CONFIDENCE = .error .index := by
  have first : int ((1 - DEFAULT_CONFIDENCE) / 2 * (0 : Nat)) = 0 := by
    rw [Nat.cast_zero, mul_zero, int, if_pos le_rfl, Int.floor_zero]
  have none : item (List.insertionSort (· ≤ ·) ([] : List ℚ)) 0 = .error .index := rfl
  rw [interval, (difference_ok satA satB drawn_cases).1, List.range_zero, List.mapM_nil]
  simp only [bind, Except.bind, pure, Except.pure, first, none]

/-- Entries as far in from the two sides are each other's opposites. -/
theorem spread_swap (satA : Sat by_ cases a) (satB : Sat by_ cases b) {i j : Nat}
    (ends : i + j + 1 = n) :
    (spread random by_ cases b a n seed)[i]? = ((spread random by_ cases a b n seed)[j]?).map (- ·) := by
  have turned : ((List.range n).map fun r => gap by_ b a (sampleOf random seed cases r)) =
      ((List.range n).map fun r => gap by_ a b (sampleOf random seed cases r)).map (- ·) := by
    rw [List.map_map]
    exact List.map_congr_left fun r _ => (difference_ok satA satB resample_eq.2).2
  rw [spread, turned]
  exact getElem?_insertionSort_antitone (fun p q le => neg_le_neg le)
    (by rw [List.length_map, List.length_range, ends])

/-- With one difference for every draw both ends are that. -/
theorem interval_const (satA : Sat by_ cases a) (satB : Sat by_ cases b) (some_ : 0 < n) {g : ℚ}
    (const : ∀ r, gap by_ a b (sampleOf random seed cases r) = g) :
    interval random by_ cases a b n seed DEFAULT_CONFIDENCE =
      .ok ⟨a, b, gap by_ a b cases, g, g, cases.length, decide (0 < g) || decide (g < 0)⟩ := by
  obtain ⟨low, high, first, last, result⟩ :=
    interval_spec random seed satA satB some_
  have each : ∀ q ∈ spread random by_ cases a b n seed, q = g := by
    intro q member
    obtain ⟨r, -, rfl⟩ := List.mem_map.mp ((List.perm_insertionSort _ _).subset member)
    exact const r
  rw [result, each low (List.mem_of_getElem? first), each high (List.mem_of_getElem? last)]

/-! ## The two compared the other way round -/

/-- The verdict on the other one. -/
def Verdict.turned : Verdict → Verdict
  | .worse => .better
  | .better => .worse
  | other => other

/-- An interval turned round. -/
structure Turned (metric : String) (r r' : Interval) : Prop where
  difference : r'.difference = -r.difference
  low : r'.low = -r.high
  high : r'.high = -r.low
  separable : r'.separable = r.separable
  verdict : verdict r' metric = (verdict r metric).turned

/-- The result of the exchange is the result turned round; where there is none there is none. -/
def Mirrors (metric : String) : Except Fault Interval → Except Fault Interval → Prop
  | .ok r, .ok r' => Turned metric r r'
  | .error why, .error why' => why = why'
  | _, _ => False

theorem turned_of_ends {r r' : Interval} (difference : r'.difference = -r.difference)
    (low : r'.low = -r.high) (high : r'.high = -r.low)
    (here : r.separable = (decide (0 < r.low) || decide (r.high < 0)))
    (there : r'.separable = (decide (0 < r'.low) || decide (r'.high < 0)))
    (points : directionOf metric = .neutral ∨ r.difference ≠ 0 ∨ r.separable = false) :
    Turned metric r r' := by
  have same : r'.separable = r.separable := by
    rw [here, there, low, high, Bool.or_comm]
    simp only [Left.neg_pos_iff, Left.neg_neg_iff]
  refine ⟨difference, low, high, same, ?_⟩
  unfold verdict
  rw [same, difference]
  split
  · rfl
  next separable =>
    rcases points with neutral | apart | not
    · rw [neutral]
      rfl
    · have flips : 0 < -r.difference ↔ ¬ 0 < r.difference := by
        rw [Left.neg_pos_iff, not_lt]
        exact ⟨le_of_lt, fun le => lt_of_le_of_ne le apart⟩
      cases directionOf metric with
      | neutral => rfl
      | lower =>
          by_cases up : 0 < r.difference
          · simp only [if_pos up, if_neg (mt flips.mp (not_not.mpr up)), Verdict.turned]
          · simp only [if_neg up, if_pos (flips.mpr up), Verdict.turned]
      | higher =>
          by_cases up : 0 < r.difference
          · simp only [if_pos up, if_neg (mt flips.mp (not_not.mpr up)), Verdict.turned]
          · simp only [if_neg up, if_pos (flips.mpr up), Verdict.turned]
    · exact absurd not separable

/-- No draw tells the two further apart, or less, than the cases do. -/
def Alike (by_ : By) (cases : List String) (a b : String) : Prop :=
  ∀ sample, Drawn cases sample → gap by_ a b sample = gap by_ a b cases

theorem mirrors_of_alike (satA : Sat by_ cases a) (satB : Sat by_ cases b) (some_ : 0 < n)
    (alike : Alike by_ cases a b) :
    Mirrors metric (interval random by_ cases a b n seed DEFAULT_CONFIDENCE)
      (interval random by_ cases b a n seed DEFAULT_CONFIDENCE) := by
  have back : gap by_ b a cases = -gap by_ a b cases := (difference_ok satA satB drawn_cases).2
  rw [interval_const satA satB some_ fun r => alike _ resample_eq.2,
    interval_const satB satA some_ fun r => by
      rw [(difference_ok satA satB resample_eq.2).2, alike _ resample_eq.2]]
  refine turned_of_ends back rfl rfl rfl rfl (.inr ?_)
  by_cases none : gap by_ a b cases = 0
  · refine .inr ?_
    simp only [none, lt_irrefl, decide_false, Bool.or_self]
  · exact .inl none

theorem mirrors_of_even (satA : Sat by_ cases a) (satB : Sat by_ cases b) (some_ : 0 < n)
    (even : ¬ 40 ∣ n) (points : directionOf metric = .neutral ∨ gap by_ a b cases ≠ 0) :
    Mirrors metric (interval random by_ cases a b n seed DEFAULT_CONFIDENCE)
      (interval random by_ cases b a n seed DEFAULT_CONFIDENCE) := by
  obtain ⟨low, high, first, last, result⟩ :=
    interval_spec random seed satA satB some_
  obtain ⟨low', high', first', last', result'⟩ :=
    interval_spec random seed satB satA some_
  have ends : n / 40 + min (39 * n / 40) (n - 1) + 1 = n := by omega
  have ends' : min (39 * n / 40) (n - 1) + n / 40 + 1 = n := by omega
  rw [spread_swap satA satB ends, last, Option.map_some] at first'
  rw [spread_swap satA satB ends', first, Option.map_some] at last'
  rw [result, result']
  exact turned_of_ends (difference_ok satA satB drawn_cases).2 (Option.some.inj first').symm
    (Option.some.inj last').symm rfl rfl (points.imp id .inl)

/-- A stream of draws for which a multiple of forty takes one end from further in than the other. -/
theorem exists_lopsided (satA : Sat by_ cases a) (satB : Sat by_ cases b) (some_ : 0 < n)
    (even : 40 ∣ n) {x y : List String} (drawnX : Drawn cases x) (drawnY : Drawn cases y)
    (less : gap by_ a b x < gap by_ a b y) (seed : Int) :
    ∃ random : Random, ¬ Mirrors metric (interval random by_ cases a b n seed DEFAULT_CONFIDENCE)
      (interval random by_ cases b a n seed DEFAULT_CONFIDENCE) := by
  obtain ⟨k, rfl⟩ := even
  obtain ⟨random, samples⟩ := exists_random (fun r => if r < 39 * k then x else y)
    (fun r => by split <;> assumption) seed
  have low_ (r : Nat) (within : r < 39 * k) : gap by_ a b (sampleOf random seed cases r) =
      gap by_ a b x := by rw [samples, if_pos within]
  have high_ (r : Nat) (past : 39 * k ≤ r) : gap by_ a b (sampleOf random seed cases r) =
      gap by_ a b y := by rw [samples, if_neg (Nat.not_lt_of_le past)]
  have drawn : (List.range (40 * k)).map (fun r => gap by_ a b (sampleOf random seed cases r)) =
      List.replicate (39 * k) (gap by_ a b x) ++ List.replicate k (gap by_ a b y) := by
    have split : 40 * k = 39 * k + k := by omega
    rw [split, List.range_add, List.map_append]
    congr 1
    · refine List.eq_replicate_iff.mpr ⟨by simp, fun q member => ?_⟩
      obtain ⟨r, inside, rfl⟩ := List.mem_map.mp member
      exact low_ r (List.mem_range.mp inside)
    · refine List.eq_replicate_iff.mpr ⟨by simp, fun q member => ?_⟩
      obtain ⟨r, inside, rfl⟩ := List.mem_map.mp member
      obtain ⟨i, -, rfl⟩ := List.mem_map.mp inside
      exact high_ _ (Nat.le_add_right _ _)
  have sorted : spread random by_ cases a b (40 * k) seed =
      List.replicate (39 * k) (gap by_ a b x) ++ List.replicate k (gap by_ a b y) := by
    rw [spread, drawn]
    refine List.Pairwise.insertionSort_eq (List.pairwise_append.mpr ⟨?_, ?_, fun p left q right => ?_⟩)
    · exact List.pairwise_replicate.mpr (.inr le_rfl)
    · exact List.pairwise_replicate.mpr (.inr le_rfl)
    · rw [List.eq_of_mem_replicate left, List.eq_of_mem_replicate right]
      exact less.le
  refine ⟨random, fun mirrors => ?_⟩
  obtain ⟨low, high, first, last, result⟩ :=
    interval_spec random seed satA satB some_
  obtain ⟨low', high', first', last', result'⟩ :=
    interval_spec random seed satB satA some_
  rw [result, result'] at mirrors
  have same : low' = -high := mirrors.low
  have ends : 40 * k / 40 + (39 * k - 1) + 1 = 40 * k := by omega
  have index : min (39 * (40 * k) / 40) (40 * k - 1) = 39 * k := by omega
  rw [spread_swap satA satB ends, sorted, List.getElem?_append_left (by rw [List.length_replicate]; omega),
    List.getElem?_replicate, if_pos (by omega), Option.map_some] at first'
  rw [sorted, index, List.getElem?_append_right (by rw [List.length_replicate]),
    List.getElem?_replicate, if_pos (by rw [List.length_replicate]; omega)] at last
  rw [← Option.some.inj first', ← Option.some.inj last] at same
  exact absurd (neg_injective same) less.ne

/-- A draw that tells two apart that the cases do not. -/
theorem exists_same_verdict (satA : Sat by_ cases a) (satB : Sat by_ cases b) (some_ : 0 < n)
    (ranked : directionOf metric ≠ .neutral) (level : gap by_ a b cases = 0) {z : List String}
    (drawn : Drawn cases z) (apart : gap by_ a b z ≠ 0) (seed : Int) :
    ∃ random : Random, ¬ Mirrors metric (interval random by_ cases a b n seed DEFAULT_CONFIDENCE)
      (interval random by_ cases b a n seed DEFAULT_CONFIDENCE) := by
  obtain ⟨random, samples⟩ := exists_random (fun _ => z) (fun _ => drawn) seed
  refine ⟨random, fun mirrors => ?_⟩
  have back : gap by_ b a cases = 0 := by
    rw [(difference_ok satA satB drawn_cases).2, level, neg_zero]
  rw [interval_const satA satB some_ fun r => by rw [samples r],
    interval_const satB satA some_ fun r => by rw [samples r, (difference_ok satA satB drawn).2],
    level, back] at mirrors
  have turned := mirrors.verdict
  have separable : (decide (0 < gap by_ a b z) || decide (gap by_ a b z < 0)) = true := by
    rcases lt_or_gt_of_ne apart with below | above
    · simp [below]
    · simp [above]
  have separable' : (decide (0 < -gap by_ a b z) || decide (-gap by_ a b z < 0)) = true := by
    simpa [Bool.or_comm] using separable
  simp only [verdict, separable, separable', Bool.true_eq_false, if_false, lt_irrefl] at turned
  cases way : directionOf metric with
  | neutral => exact ranked way
  | lower => rw [way] at turned; cases turned
  | higher => rw [way] at turned; cases turned

/-- Whatever is drawn, the exchange turns the result round: without draws; where no draw tells the two
further apart; and with a number of draws that is no multiple of forty, if the cases tell them apart or
the metric ranks nothing. With any other input some draws show that it does not. -/
theorem mirrors_iff (rows : List Row) (metric : String) (n : Nat)
    (memberA : a ∈ (paired rows metric).1.keys) (memberB : b ∈ (paired rows metric).1.keys) :
    (∀ random seed, Mirrors metric
      (interval random (paired rows metric).1 (paired rows metric).2 a b n seed DEFAULT_CONFIDENCE)
      (interval random (paired rows metric).1 (paired rows metric).2 b a n seed DEFAULT_CONFIDENCE)) ↔
    n = 0 ∨ Alike (paired rows metric).1 (paired rows metric).2 a b ∨
      ¬ 40 ∣ n ∧ (directionOf metric = .neutral ∨
        gap (paired rows metric).1 a b (paired rows metric).2 ≠ 0) := by
  have satA := sat_paired memberA
  have satB := sat_paired memberB
  rcases Nat.eq_zero_or_pos n with rfl | some_
  · refine iff_of_true (fun random seed => ?_) (.inl rfl)
    rw [interval_zero satA satB, interval_zero satB satA]
    rfl
  by_cases alike : Alike (paired rows metric).1 (paired rows metric).2 a b
  · exact iff_of_true (fun random seed => mirrors_of_alike satA satB some_ alike) (.inr (.inl alike))
  obtain ⟨z, drawn, apart⟩ : ∃ z, Drawn (paired rows metric).2 z ∧
      gap (paired rows metric).1 a b z ≠ gap (paired rows metric).1 a b (paired rows metric).2 := by
    simpa [Alike] using alike
  constructor
  · intro mirrors
    refine .inr (.inr ⟨fun even => ?_, ?_⟩)
    · obtain ⟨random, broken⟩ : ∃ random : Random, ¬ Mirrors metric
          (interval random (paired rows metric).1 (paired rows metric).2 a b n 1 DEFAULT_CONFIDENCE)
          (interval random (paired rows metric).1 (paired rows metric).2 b a n 1 DEFAULT_CONFIDENCE) := by
        rcases lt_or_gt_of_ne apart with below | above
        · exact exists_lopsided satA satB some_ even drawn drawn_cases below 1
        · exact exists_lopsided satA satB some_ even drawn_cases drawn above 1
      exact broken (mirrors random 1)
    · by_contra neither
      obtain ⟨ranked, level⟩ := not_or.mp neither
      rw [not_not] at level
      rw [level] at apart
      obtain ⟨random, broken⟩ := exists_same_verdict satA satB some_ ranked level drawn apart 1
      exact broken (mirrors random 1)
  · rintro (none | alike' | ⟨even, points⟩) random seed
    · exact absurd none some_.ne'
    · exact absurd alike' alike
    · exact mirrors_of_even satA satB some_ even points

/-! ## Three cases -/

def score (candidate case_id : String) (errors : ℚ) : Row :=
  ⟨candidate, case_id, Dict.ofItems [("wer_errors", errors), ("wer_words", 10)]⟩

def threeCases : List Row :=
  [score "a" "c0" 0, score "a" "c1" 1, score "a" "c2" 3,
    score "b" "c0" 0, score "b" "c1" 0, score "b" "c2" 0]

theorem three_draws_mirror :
    ("a" ∈ (paired threeCases "wer").1.keys ∧ "b" ∈ (paired threeCases "wer").1.keys) ∧
      ∀ random seed, Mirrors "wer"
        (interval random (paired threeCases "wer").1 (paired threeCases "wer").2 "a" "b" 3 seed
          DEFAULT_CONFIDENCE)
        (interval random (paired threeCases "wer").1 (paired threeCases "wer").2 "b" "a" 3 seed
          DEFAULT_CONFIDENCE) :=
  ⟨by decide, (mirrors_iff threeCases "wer" 3 (by decide) (by decide)).mpr
    (.inr (.inr ⟨by decide, .inr (by decide +kernel)⟩))⟩

/-- What `random.Random(1)` draws of three, forty times three. -/
def DRAWN : List Nat :=
  ("0201011121001011202112020100022012012020" ++ "1120102011012200221021222122011212120102" ++
    "1120122221012200211120101222212002000220").toList.map fun digit => digit.toNat - 48

def drawOne (seed : Int) (n k : Nat) : Nat :=
  if seed = 1 ∧ n = 3 then DRAWN.getD k 0 else 0

theorem drawOne_below (seed : Int) (n k : Nat) (some_ : 0 < n) : drawOne seed n k < n := by
  unfold drawOne
  split
  next three =>
    have each : (DRAWN.all fun i => i < 3) = true := by decide +kernel
    rw [three.2, List.getD_eq_getElem?_getD]
    cases found : DRAWN[k]? with
    | none => exact some_.trans_eq three.2
    | some i => exact of_decide_eq_true (List.all_eq_true.mp each i (List.mem_of_getElem? found))
  next => exact some_

def randomOne : Random :=
  ⟨drawOne, drawOne_below⟩

/-- Forty draws tell the two apart one way round and not the other. -/
theorem forty_draws_lopsided :
    interval randomOne (paired threeCases "wer").1 (paired threeCases "wer").2 "a" "b" 40 1
        DEFAULT_CONFIDENCE = .ok ⟨"a", "b", 2 / 15, 1 / 30, 3 / 10, 3, true⟩ ∧
      interval randomOne (paired threeCases "wer").1 (paired threeCases "wer").2 "b" "a" 40 1
        DEFAULT_CONFIDENCE = .ok ⟨"b", "a", -2 / 15, -7 / 30, 0, 3, false⟩ ∧
      ¬ Mirrors "wer"
        (interval randomOne (paired threeCases "wer").1 (paired threeCases "wer").2 "a" "b" 40 1
          DEFAULT_CONFIDENCE)
        (interval randomOne (paired threeCases "wer").1 (paired threeCases "wer").2 "b" "a" 40 1
          DEFAULT_CONFIDENCE) := by
  have forth : interval randomOne (paired threeCases "wer").1 (paired threeCases "wer").2 "a" "b" 40 1
      DEFAULT_CONFIDENCE = .ok ⟨"a", "b", 2 / 15, 1 / 30, 3 / 10, 3, true⟩ := by decide +kernel
  have back : interval randomOne (paired threeCases "wer").1 (paired threeCases "wer").2 "b" "a" 40 1
      DEFAULT_CONFIDENCE = .ok ⟨"b", "a", -2 / 15, -7 / 30, 0, 3, false⟩ := by decide +kernel
  refine ⟨forth, back, ?_⟩
  rw [forth, back]
  intro mirrors
  cases mirrors.separable

end LocalHarness.Evals.Compare
