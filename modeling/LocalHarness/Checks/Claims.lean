import Mathlib.Data.Prod.Lex
import LocalHarness.Library.Decimal
import LocalHarness.Library.Greedy

/-! # Emitted claims against reviewed ones

A reply's claims are paired with the reviewed claims of a case, the most alike first, and the
pairing is scored. Emitting more never unpairs a reviewed claim, so neither the good ones found
nor the rejected ones matched go down.
-/

namespace LocalHarness.Checks.Claims

open LocalHarness.Library Greedy

inductive Verdict
  | good | notUseful | madeUp | wrong
  deriving DecidableEq

/-- A reviewed claim. -/
structure Review where
  user : String
  claim : String
  refs : List Int
  verdict : Verdict
  deriving DecidableEq

/-- A claim of the reply. -/
structure Emitted where
  user : String
  claim : String
  refs : List Int
  deriving DecidableEq

/-- An emitted claim and a reviewed one, by their places, and how alike they are. -/
structure Pair where
  i : Nat
  j : Nat
  sim : ℚ
  deriving DecidableEq

def MATCH_THRESHOLD : ℚ := 1 / 2

def MIN_RECALL : ℚ := 1 / 2

def _NEAR_MISS : ℚ := 3 / 20

/-- The same user, and a line that both refer to. -/
def overlaps (emitted : Emitted) (review : Review) : Bool :=
  emitted.user = review.user && emitted.refs.any fun ref => ref ∈ review.refs

section Match

variable (threshold : ℚ) (sim : String → String → ℚ)

/-- The pair of two claims, if it is one. -/
def pairOf (reviewed : List Review) (emitted : Emitted × Nat) : List Pair :=
  reviewed.zipIdx.filterMap fun (review, j) =>
    if overlaps emitted.1 review ∧ threshold ≤ sim emitted.1.claim review.claim then
      some { i := emitted.2, j, sim := sim emitted.1.claim review.claim }
    else none

def pairsOf (emitted : List Emitted) (reviewed : List Review) : List Pair :=
  emitted.zipIdx.flatMap (pairOf threshold sim reviewed)

/-- The most alike first, and of those the ones that stand first. -/
def bestFirst (pair : Pair) : ℚ ×ₗ Nat ×ₗ Nat :=
  toLex (-pair.sim, toLex (pair.i, pair.j))

def byPlace (pair : Pair) : Nat ×ₗ Nat ×ₗ ℚ :=
  toLex (pair.i, toLex (pair.j, pair.sim))

def taken (pairs : List Pair) : List Pair :=
  greedy Pair.i Pair.j [] [] (pairs.insertionSort fun p q => bestFirst p ≤ bestFirst q)

/-- `match`: the one-to-one pairing, in the order of the emitted claims. -/
def matching (emitted : List Emitted) (reviewed : List Review) : List Pair :=
  (taken (pairsOf threshold sim emitted reviewed)).insertionSort fun p q => byPlace p ≤ byPlace q

end Match

/-! ## The scores -/

structure Score where
  reviewedMatched : Nat
  unreviewed : Int
  goodFound : Nat
  goodTotal : Nat
  badMatched : Nat
  recall_ : ℚ
  precision : ℚ
  pass : Bool
  nearMiss : Nat
  verbatim : Nat
  reason : String
  limit : String
  deriving DecidableEq

/-- How many of the pairs are with a review of this verdict. -/
def counted (reviews : List Review) (pairs : List Pair) (verdict : Verdict) : Nat :=
  pairs.countP fun pair => (reviews[pair.j]?.map Review.verdict) = some verdict

/-- Unmatched good reviews that an unmatched claim missed by the threshold alone. -/
def nearMisses (sim : String → String → ℚ) (emitted : List Emitted) (reviews : List Review)
    (pairs : List Pair) : Nat :=
  reviews.zipIdx.countP fun (review, j) =>
    j ∉ pairs.map Pair.j && review.verdict = .good &&
      emitted.zipIdx.any fun (claim, i) =>
        i ∉ pairs.map Pair.i && overlaps claim review &&
          MATCH_THRESHOLD - _NEAR_MISS ≤ sim claim.claim review.claim

/-- The verdicts a reviewer rejected a claim with, as they are counted. -/
def rejected (madeUp wrong : Nat) : String :=
  String.intercalate ", "
    ((if madeUp = 0 then [] else [toString madeUp ++ " made_up"]) ++
      if wrong = 0 then [] else [toString wrong ++ " wrong"])

/-- One interface's metrics, failure reason and deciding knob. -/
def _score (sim : String → String → ℚ) (emitted : List Emitted) (reviews : List Review) : Score :=
  let pairs := matching MATCH_THRESHOLD sim emitted reviews
  let goodTotal := reviews.countP fun review => review.verdict = .good
  let good := counted reviews pairs .good
  let bad := counted reviews pairs .madeUp + counted reviews pairs .wrong
  let recall_ : ℚ := if goodTotal = 0 then 1 else good / goodTotal
  let near := nearMisses sim emitted reviews pairs
  let missed := bad = 0 ∧ goodTotal ≠ 0 ∧ recall_ < MIN_RECALL
  let reason :=
    if bad ≠ 0 then
      "emitted claims a reviewer rejected: " ++
        rejected (counted reviews pairs .madeUp) (counted reviews pairs .wrong)
    else if missed then
      "recall " ++ Decimal.fixed 2 recall_ ++ " of " ++ toString goodTotal ++
        " good claims, under 0.5"
    else ""
  { reviewedMatched := pairs.length
    unreviewed := emitted.length - pairs.length
    goodFound := good
    goodTotal
    badMatched := bad
    recall_ := Decimal.rounded 4 recall_
    precision := if pairs = [] then 0 else Decimal.rounded 4 ((good : ℚ) / pairs.length)
    pass := reason = ""
    nearMiss := near
    verbatim := pairs.countP fun pair => 1 ≤ pair.sim
    reason
    limit :=
      if missed then
        if near = 0 then "claims_min_recall>0.5" else "claims_match_threshold>0.5"
      else "" }

/-! ## What is paired -/

variable {threshold : ℚ} {sim : String → String → ℚ} {emitted more : List Emitted}
  {reviewed : List Review}

/-- The emitted claim and the reviewed one match each other. -/
def Matches (threshold : ℚ) (sim : String → String → ℚ) (emitted : Emitted) (review : Review) :
    Prop :=
  overlaps emitted review = true ∧ threshold ≤ sim emitted.claim review.claim

theorem mem_pairsOf {pair : Pair} :
    pair ∈ pairsOf threshold sim emitted reviewed ↔
      ∃ claim review, emitted[pair.i]? = some claim ∧ reviewed[pair.j]? = some review ∧
        Matches threshold sim claim review ∧ pair.sim = sim claim.claim review.claim := by
  rw [pairsOf, List.mem_flatMap]
  constructor
  · rintro ⟨⟨claim, i⟩, placed, member⟩
    obtain ⟨⟨review, j⟩, placed', made⟩ := List.mem_filterMap.mp member
    obtain ⟨fits, same⟩ := Option.ite_none_right_eq_some.mp made
    obtain rfl := Option.some.inj same
    exact ⟨claim, review, List.mem_zipIdx_iff_getElem?.mp placed,
      List.mem_zipIdx_iff_getElem?.mp placed', fits, rfl⟩
  · rintro ⟨claim, review, placed, placed', fits, same⟩
    refine ⟨(claim, pair.i), List.mem_zipIdx_iff_getElem?.mpr placed, ?_⟩
    refine List.mem_filterMap.mpr ⟨(review, pair.j), List.mem_zipIdx_iff_getElem?.mpr placed', ?_⟩
    rw [Option.ite_none_right_eq_some]
    exact ⟨fits, congrArg some (by rw [← same])⟩

theorem bestFirst_injective : Function.Injective bestFirst := by
  rintro ⟨i, j, s⟩ ⟨i', j', s'⟩ same
  obtain ⟨sims, places⟩ := Prod.mk.inj (toLex.injective same)
  obtain ⟨rfl, rfl⟩ := Prod.mk.inj (toLex.injective places)
  obtain rfl : s = s' := neg_injective sims
  rfl

/-- Further claims come after those that are there, so the pairs of these stay as they are. -/
theorem pairsOf_append (more : List Emitted) :
    (pairsOf threshold sim (emitted ++ more) reviewed).filter (fun pair => pair.i < emitted.length) =
      pairsOf threshold sim emitted reviewed := by
  have early : ∀ pair ∈ pairsOf threshold sim emitted reviewed, pair.i < emitted.length := by
    intro pair member
    obtain ⟨claim, -, placed, -⟩ := mem_pairsOf.mp member
    exact (List.getElem?_eq_some_iff.mp placed).1
  have late : ∀ pair ∈ (more.zipIdx emitted.length).flatMap (pairOf threshold sim reviewed),
      ¬ pair.i < emitted.length := by
    intro pair member
    obtain ⟨⟨claim, i⟩, placed, inside⟩ := List.mem_flatMap.mp member
    obtain ⟨⟨review, j⟩, -, made⟩ := List.mem_filterMap.mp inside
    obtain ⟨-, same⟩ := Option.ite_none_right_eq_some.mp made
    obtain rfl := Option.some.inj same
    have after := (List.mem_zipIdx placed).1
    exact Nat.not_lt.mpr after
  have kept := List.filter_eq_self.mpr fun pair member => decide_eq_true (early pair member)
  have none_ := List.filter_eq_nil_iff.mpr fun pair member =>
    decide_eq_true_iff.not.mpr (late pair member)
  rw [pairsOf] at kept
  rw [pairsOf, pairsOf, List.zipIdx_append, List.flatMap_append, List.filter_append, Nat.zero_add, kept]
  exact (congrArg _ none_).trans (List.append_nil _)

/-- No pair is left out with both its claims free. -/
theorem taken_maximal {pairs : List Pair} {pair : Pair} (member : pair ∈ pairs) :
    pair.i ∈ (taken pairs).map Pair.i ∨ pair.j ∈ (taken pairs).map Pair.j := by
  have sorted : pair ∈ pairs.insertionSort fun p q => bestFirst p ≤ bestFirst q :=
    (List.mem_insertionSort _).mpr member
  simpa only [List.not_mem_nil, false_or, taken] using
    (greedy_maximal [] [] sorted : (pair.i ∈ [] ∨ _) ∨ pair.j ∈ [] ∨ _)

theorem matching_perm :
    (matching threshold sim emitted reviewed).Perm (taken (pairsOf threshold sim emitted reviewed)) :=
  List.perm_insertionSort _ _

theorem mem_matching {pair : Pair} (member : pair ∈ matching threshold sim emitted reviewed) :
    pair ∈ pairsOf threshold sim emitted reviewed :=
  (List.mem_insertionSort _).mp
    ((greedy_sublist [] [] _).subset (matching_perm.subset member))

/-- A reviewed claim that is paired stays paired when more is emitted. -/
theorem paired_append {j : Nat}
    (paired : j ∈ (matching threshold sim emitted reviewed).map Pair.j) :
    j ∈ (matching threshold sim (emitted ++ more) reviewed).map Pair.j := by
  have before := (matching_perm.map Pair.j).subset paired
  refine (matching_perm.map Pair.j).symm.subset ?_
  rw [taken, ← pairsOf_append more,
    ← insertionSort_filter bestFirst_injective] at before
  exact greedy_grows (fun i => i < emitted.length) _ before

theorem nodup_reviewed : ((matching threshold sim emitted reviewed).map Pair.j).Nodup :=
  (matching_perm.map Pair.j).nodup_iff.mpr (greedy_apart [] [] _).2.2

/-- No verdict is counted less often when more is emitted. -/
theorem counted_append (verdict : Verdict) :
    counted reviewed (matching threshold sim emitted reviewed) verdict ≤
      counted reviewed (matching threshold sim (emitted ++ more) reviewed) verdict := by
  have through : ∀ pairs : List Pair, counted reviewed pairs verdict =
      (pairs.map Pair.j).countP fun j => (reviewed[j]?.map Review.verdict) = some verdict := by
    intro pairs
    rw [counted, List.countP_map]
    rfl
  rw [through, through]
  exact (nodup_reviewed.subperm fun j paired => paired_append paired).countP_le _

/-- The pairing of a reply's claims with the reviewed ones. -/
structure Lawful (threshold : ℚ) (sim : String → String → ℚ) (emitted : List Emitted)
    (reviewed : List Review) : Prop where
  /-- Each pair is of two claims that match each other. -/
  pairs : ∀ pair ∈ matching threshold sim emitted reviewed, ∃ claim review,
    emitted[pair.i]? = some claim ∧ reviewed[pair.j]? = some review ∧
      Matches threshold sim claim review ∧ pair.sim = sim claim.claim review.claim
  emittedOnce : ((matching threshold sim emitted reviewed).map Pair.i).Nodup
  reviewedOnce : ((matching threshold sim emitted reviewed).map Pair.j).Nodup
  maximal : ∀ i j claim review, emitted[i]? = some claim → reviewed[j]? = some review →
    Matches threshold sim claim review →
      i ∈ (matching threshold sim emitted reviewed).map Pair.i ∨
        j ∈ (matching threshold sim emitted reviewed).map Pair.j

theorem lawful : Lawful threshold sim emitted reviewed := by
  constructor
  · exact fun pair member => mem_pairsOf.mp (mem_matching member)
  · exact (matching_perm.map Pair.i).nodup_iff.mpr (greedy_apart [] [] _).2.1
  · exact nodup_reviewed
  · intro i j claim review placed placed' fits
    have member : { i, j, sim := sim claim.claim review.claim } ∈
        pairsOf threshold sim emitted reviewed :=
      mem_pairsOf.mpr ⟨claim, review, placed, placed', fits, rfl⟩
    exact (taken_maximal member).imp ((matching_perm.map Pair.i).symm.subset ·)
      ((matching_perm.map Pair.j).symm.subset ·)

/-- The pairing is one to one and maximal, and what is emitted besides unpairs no reviewed claim:
    neither the good claims found nor the rejected ones matched go down. -/
theorem matching_grows (threshold : ℚ) (sim : String → String → ℚ) (emitted more : List Emitted)
    (reviewed : List Review) :
    Lawful threshold sim emitted reviewed ∧
      (∀ j ∈ (matching threshold sim emitted reviewed).map Pair.j,
        j ∈ (matching threshold sim (emitted ++ more) reviewed).map Pair.j) ∧
      (_score sim emitted reviewed).goodFound ≤ (_score sim (emitted ++ more) reviewed).goodFound ∧
      (_score sim emitted reviewed).badMatched ≤
        (_score sim (emitted ++ more) reviewed).badMatched := by
  refine ⟨lawful, fun j paired => paired_append paired, counted_append .good, ?_⟩
  exact Nat.add_le_add (counted_append .madeUp) (counted_append .wrong)

end LocalHarness.Checks.Claims
