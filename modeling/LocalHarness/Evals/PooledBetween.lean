import LocalHarness.Evals.PooledCounts

/-! # Where a pooled rate lies between the rates of its rows

The law of the mediant for every rate that is pooled, and the kinds of rows that break it: those with
nothing to count, of which a scorer says one and the pool zero; character errors past the length of the
reference, which a row cuts off and the pool does not; and Brier sums that are rounded onto a tie.
-/

namespace LocalHarness.Evals

open LocalHarness.Library Checks Mediant
open Adopt (Row meanMetrics)

section Law

variable {α : Type} {l : List α} {blank rate num den : α → ℚ}

theorem sum_ne_zero (nonneg : ∀ x ∈ l, 0 ≤ den x) (some_ : ∃ x ∈ l, den x ≠ 0) :
    (l.map den).sum ≠ 0 := by
  obtain ⟨x, member, counted⟩ := some_
  have pos : 0 < den x := lt_of_le_of_ne (nonneg x member) counted.symm
  have less := List.sum_lt_sum (fun _ => (0 : ℚ)) den nonneg ⟨x, member, pos⟩
  rw [List.sum_map_zero] at less
  exact less.ne'

/-- With something to count the pool lies between the rates. With nothing it is zero, which has to lie
    between what the scorer says instead. -/
theorem between_counted
    (counted : ∀ x ∈ l, Counted (blank x) (rate x) (num x) (den x)) :
    ((∃ x ∈ l, rate x ≤ ratioOf (l.map num).sum (l.map den).sum) ∧
        ∃ x ∈ l, ratioOf (l.map num).sum (l.map den).sum ≤ rate x) ↔
      (∃ x ∈ l, den x ≠ 0) ∨ (∃ x ∈ l, blank x ≤ 0) ∧ ∃ x ∈ l, 0 ≤ blank x := by
  have nonneg : ∀ x ∈ l, 0 ≤ den x := fun x member => (counted x member).nonneg
  have none : ∀ x ∈ l, den x = 0 → num x = 0 := fun x member => (counted x member).none
  by_cases something : ∃ x ∈ l, den x ≠ 0
  · have total := sum_ne_zero nonneg something
    obtain ⟨low, lowMember, lowCounted, below⟩ := exists_div_le nonneg none total
    obtain ⟨high, highMember, highCounted, above⟩ := exists_le_div nonneg none total
    refine iff_of_true ⟨⟨low, lowMember, ?_⟩, high, highMember, ?_⟩ (.inl something)
    · rw [(counted low lowMember).made, if_neg lowCounted, ratioOf, if_neg total]
      exact Decimal.rounded_mono 4 below
    · rw [(counted high highMember).made, if_neg highCounted, ratioOf, if_neg total]
      exact Decimal.rounded_mono 4 above
  · have nothing : ∀ x ∈ l, den x = 0 := by
      intro x member
      by_contra counted
      exact something ⟨x, member, counted⟩
    have total : (l.map den).sum = 0 := by
      rw [List.map_congr_left nothing, List.sum_map_zero]
    have rates : ∀ x ∈ l, rate x = blank x := by
      intro x member
      rw [(counted x member).made, if_pos (nothing x member)]
    rw [ratioOf, if_pos total, or_iff_right something]
    constructor
    · rintro ⟨⟨low, lowMember, below⟩, high, highMember, above⟩
      exact ⟨⟨low, lowMember, rates low lowMember ▸ below⟩, high, highMember, rates high highMember ▸ above⟩
    · rintro ⟨⟨low, lowMember, below⟩, high, highMember, above⟩
      exact ⟨⟨low, lowMember, (rates low lowMember).trans_le below⟩, high, highMember,
        above.trans_eq (rates high highMember).symm⟩

end Law

/-- What the replies have to be for their pooled rate to lie between their rates: for the marked spans,
    some token that is personal or marked; for the recalls, some that is personal and some good claim; of
    character errors, no more than characters, up to the rounding; of Brier sums, that they are not all
    rounded onto the same tie. -/
def Kept (jiwer : Jiwer) : Ratio → List Reply → Prop
  | .f1, replies | .precision, replies => ∃ reply ∈ replies, marks reply ≠ ⟨0, 0, 0⟩
  | .recall_, replies => ∃ reply ∈ replies, (marks reply).tp + (marks reply).fn ≠ 0
  | .claimsRecall interface, replies =>
      ∃ reply ∈ replies, ∃ review ∈ reviews reply, review.1 = interface ∧ review.2.verdict = .good
  | .cer, replies =>
      20000 * (replies.map fun reply => (cerCounts jiwer reply).1).sum ≤
        20001 * (replies.map fun reply => (cerCounts jiwer reply).2).sum
  | .brier, replies =>
      ¬ TiedBelow 4 6 (fun reply => (brierCounts reply).1) (fun reply => (brierCounts reply).2) replies ∧
        ¬ TiedAbove 4 6 (fun reply => (brierCounts reply).1) (fun reply => (brierCounts reply).2) replies
  | .wer, _ | .validCallRate, _ | .accuracy, _ | .emptyRate, _ | .claimsPrecision _, _ => True

variable {jiwer : Jiwer} {similarity : Similarity} {replies : List Reply}

/-- The rates of the replies, and their pool. -/
def BetweenReplies (jiwer : Jiwer) (similarity : Similarity) (ratio : Ratio) (replies : List Reply)
    (pooled : ℚ) : Prop :=
  (∃ reply ∈ replies, recordedAt jiwer similarity ratio.name reply ≤ pooled) ∧
    ∃ reply ∈ replies, pooled ≤ recordedAt jiwer similarity ratio.name reply

def pooledOf (jiwer : Jiwer) (similarity : Similarity) (ratio : Ratio) (replies : List Reply) : ℚ :=
  ratioOf (replies.map (recordedAt jiwer similarity ratio.numerator)).sum
    (replies.map (recordedAt jiwer similarity ratio.denominator)).sum

theorem cast_sum (f : Reply → Nat) :
    (((replies.map f).sum : Nat) : ℚ) = (replies.map fun reply => (f reply : ℚ)).sum := by
  rw [Nat.cast_list_sum, List.map_map]
  rfl

theorem between_cer (some_ : replies ≠ [])
    (carries : ∀ reply ∈ replies, Carries jiwer similarity .cer reply) :
    BetweenReplies jiwer similarity .cer replies (pooledOf jiwer similarity .cer replies) ↔
      Kept jiwer .cer replies := by
  let errors := fun reply => ((cerCounts jiwer reply).1 : ℚ)
  let chars := fun reply => ((cerCounts jiwer reply).2 : ℚ)
  have recorded := fun reply member => recorded_cer (carries reply member)
  have pos : ∀ reply ∈ replies, 0 < chars reply :=
    fun reply member => Nat.cast_pos.mpr (recorded reply member).1
  have nonneg : ∀ reply ∈ replies, 0 ≤ chars reply := fun reply member => (pos reply member).le
  have none : ∀ reply ∈ replies, chars reply = 0 → errors reply = 0 :=
    fun reply member nothing => absurd nothing (pos reply member).ne'
  obtain ⟨first, member⟩ := List.exists_mem_of_ne_nil replies some_
  have total := sum_ne_zero nonneg ⟨first, member, (pos first member).ne'⟩
  have totalPos : 0 < (replies.map chars).sum :=
    lt_of_le_of_ne (List.sum_nonneg (by simpa using nonneg)) total.symm
  have pooled : pooledOf jiwer similarity .cer replies =
      Decimal.rounded 4 ((replies.map errors).sum / (replies.map chars).sum) := by
    have above : replies.map (recordedAt jiwer similarity "cer_errors") = replies.map errors :=
      List.map_congr_left fun reply member => (recorded reply member).2.2.1
    have below : replies.map (recordedAt jiwer similarity "cer_chars") = replies.map chars :=
      List.map_congr_left fun reply member => (recorded reply member).2.2.2
    rw [pooledOf, Ratio.numerator, Ratio.denominator, above, below, ratioOf, if_neg total]
  have whole : Decimal.rounded 4 1 = 1 := Decimal.rounded_int 4 1
  have atMost : ∀ reply ∈ replies, recordedAt jiwer similarity "cer" reply ≤ 1 := by
    intro reply member
    rw [(recorded reply member).2.1]
    exact (Decimal.rounded_mono 4 (min_le_left _ _)).trans_eq whole
  have within : Kept jiwer .cer replies ↔ pooledOf jiwer similarity .cer replies ≤ 1 := by
    have one : (1 : ℚ) = ((10000 : ℤ) : ℚ) / 10 ^ 4 := by norm_num
    have edge : Decimal.tie 4 10000 = 20001 / 20000 := by norm_num [Decimal.tie]
    rw [pooled, one, Decimal.rounded_le_iff, edge]
    have even : (10000 : ℤ) % 2 = 0 := rfl
    simp only [even, and_true]
    rw [← le_iff_lt_or_eq, div_le_div_iff₀ totalPos (by norm_num), Kept, mul_comm (List.sum _),
      ← cast_sum fun reply => (cerCounts jiwer reply).1, ← cast_sum fun reply => (cerCounts jiwer reply).2]
    exact_mod_cast Iff.rfl
  rw [within]
  constructor
  · rintro ⟨-, reply, member, above⟩
    exact above.trans (atMost reply member)
  · intro most
    obtain ⟨low, lowMember, -, below⟩ := exists_div_le nonneg none total
    refine ⟨⟨low, lowMember, ?_⟩, ?_⟩
    · rw [Ratio.name, (recorded low lowMember).2.1, pooled]
      exact Decimal.rounded_mono 4 ((min_le_right _ _).trans below)
    · by_cases beyond : ∃ reply ∈ replies, chars reply ≤ errors reply
      · -- A row that is cut off says one, and the pool is no more.
        obtain ⟨reply, member, beyond⟩ := beyond
        refine ⟨reply, member, ?_⟩
        rw [Ratio.name, (recorded reply member).2.1,
          min_eq_left ((one_le_div (pos reply member)).mpr beyond), whole]
        exact most
      · obtain ⟨high, member, -, above⟩ := exists_le_div nonneg none total
        have under : errors high / chars high ≤ 1 :=
          (div_le_one (pos high member)).mpr (not_le.mp fun cut => beyond ⟨high, member, cut⟩).le
        refine ⟨high, member, ?_⟩
        rw [Ratio.name, (recorded high member).2.1, min_eq_right under, pooled]
        exact Decimal.rounded_mono 4 above

theorem between_brier (some_ : replies ≠ [])
    (carries : ∀ reply ∈ replies, Carries jiwer similarity .brier reply) :
    BetweenReplies jiwer similarity .brier replies (pooledOf jiwer similarity .brier replies) ↔
      Kept jiwer .brier replies := by
  let sums := fun reply => (brierCounts reply).1
  let fields := fun reply => (brierCounts reply).2
  have recorded := fun reply member => recorded_brier (carries reply member)
  have pos : ∀ reply ∈ replies, 0 < fields reply := fun reply member => (recorded reply member).1
  have pooled : pooledOf jiwer similarity .brier replies =
      Decimal.rounded 4 (pool 6 sums fields replies) := by
    have above : replies.map (recordedAt jiwer similarity "decide_brier_sum") =
        replies.map fun reply => Decimal.rounded 6 (sums reply) :=
      List.map_congr_left fun reply member => (recorded reply member).2.2.1
    have below : replies.map (recordedAt jiwer similarity "decide_fields") =
        replies.map fun reply => (fields reply : ℚ) :=
      List.map_congr_left fun reply member => (recorded reply member).2.2.2
    rw [pooledOf, Ratio.numerator, Ratio.denominator, above, below, ratioOf,
      if_neg (sum_pos some_ pos).ne', pool]
  have rates : ∀ reply ∈ replies, recordedAt jiwer similarity "decide_brier" reply =
      Decimal.rounded 4 (sums reply / fields reply) := fun reply member => (recorded reply member).2.1
  rw [Kept, ← exists_rounded_le_iff (by decide) some_ pos, ← exists_le_rounded_iff (by decide) some_ pos,
    BetweenReplies, pooled, Ratio.name]
  constructor
  · rintro ⟨⟨low, lowMember, below⟩, high, highMember, above⟩
    exact ⟨⟨low, lowMember, rates low lowMember ▸ below⟩, high, highMember, rates high highMember ▸ above⟩
  · rintro ⟨⟨low, lowMember, below⟩, high, highMember, above⟩
    exact ⟨⟨low, lowMember, (rates low lowMember).trans_le below⟩, high, highMember,
      above.trans_eq (rates high highMember).symm⟩

/-- Zero lies between the rates the scorers say where there is nothing to count, so far as they do not
    all say one. -/
theorem between_blank {ratio : Ratio} (uncut : ratio ≠ .cer) (exact_ : ratio ≠ .brier)
    (carries : ∀ reply ∈ replies, Carries jiwer similarity ratio reply) :
    BetweenReplies jiwer similarity ratio replies (pooledOf jiwer similarity ratio replies) ↔
      (∃ reply ∈ replies, recordedAt jiwer similarity ratio.denominator reply ≠ 0) ∨
        (∃ reply ∈ replies, blankRate ratio reply ≤ 0) ∧ ∃ reply ∈ replies, 0 ≤ blankRate ratio reply :=
  between_counted fun reply member => counted uncut exact_ (carries reply member)

theorem blankRate_nonneg (ratio : Ratio) (reply : Reply) : 0 ≤ blankRate ratio reply := by
  unfold blankRate
  split
  next => exact zero_le_one
  next => exact zero_le_one
  next => exact zero_le_one
  next => split <;> norm_num
  next => exact le_rfl

theorem marks_eq_zero (m : Marks) : m = ⟨0, 0, 0⟩ ↔ m.tp = 0 ∧ m.fp = 0 ∧ m.fn = 0 := by
  obtain ⟨tp, fp, fn⟩ := m
  exact Marks.mk.injEq ..  ▸ Iff.rfl

/-- Where a scorer says zero of what it cannot count, the pool does too. -/
theorem kept_of_blank {ratio : Ratio} (some_ : replies ≠ []) (zero : ∀ reply, blankRate ratio reply = 0) :
    (∃ reply ∈ replies, blankRate ratio reply ≤ 0) ∧ ∃ reply ∈ replies, 0 ≤ blankRate ratio reply := by
  obtain ⟨reply, member⟩ := List.exists_mem_of_ne_nil replies some_
  exact ⟨⟨reply, member, (zero reply).le⟩, reply, member, (zero reply).ge⟩

/-- Where it says one, there has to be something to count. -/
theorem kept_of_one {ratio : Ratio} (one : ∀ reply, blankRate ratio reply = 1) {p : Reply → Prop}
    (counts : ∀ reply ∈ replies, recordedAt jiwer similarity ratio.denominator reply ≠ 0 ↔ p reply) :
    (∃ reply ∈ replies, p reply) ↔
      (∃ reply ∈ replies, recordedAt jiwer similarity ratio.denominator reply ≠ 0) ∨
        (∃ reply ∈ replies, blankRate ratio reply ≤ 0) ∧ ∃ reply ∈ replies, 0 ≤ blankRate ratio reply := by
  have never : ¬ ∃ reply ∈ replies, blankRate ratio reply ≤ 0 := by
    rintro ⟨reply, -, most⟩
    rw [one reply] at most
    exact absurd most (by norm_num)
  rw [or_iff_left fun both => never both.1]
  exact exists_congr fun reply => and_congr_right fun member => (counts reply member).symm

theorem kept_iff {ratio : Ratio} (some_ : replies ≠ []) (uncut : ratio ≠ .cer) (exact_ : ratio ≠ .brier)
    (carries : ∀ reply ∈ replies, Carries jiwer similarity ratio reply) :
    Kept jiwer ratio replies ↔
      (∃ reply ∈ replies, recordedAt jiwer similarity ratio.denominator reply ≠ 0) ∨
        (∃ reply ∈ replies, blankRate ratio reply ≤ 0) ∧ ∃ reply ∈ replies, 0 ≤ blankRate ratio reply := by
  cases ratio with
  | cer => exact absurd rfl uncut
  | brier => exact absurd rfl exact_
  | wer | validCallRate | accuracy | emptyRate | claimsPrecision interface =>
      exact iff_of_true trivial (.inr (kept_of_blank some_ fun _ => rfl))
  | f1 =>
      refine kept_of_one (fun _ => rfl) fun reply member => ?_
      rw [Ratio.denominator, (recorded_marks (carries reply member) rfl).1, Nat.cast_ne_zero, Ne,
        Ne, marks_eq_zero]
      omega
  | recall_ =>
      refine kept_of_one (fun _ => rfl) fun reply member => ?_
      rw [Ratio.denominator, (recorded_marks (carries reply member) rfl).2.2, Nat.cast_ne_zero]
  | claimsRecall interface =>
      exact kept_of_one (fun _ => rfl) fun reply member => recorded_good (carries reply member)
  | precision =>
      have pred : ∀ reply ∈ replies, recordedAt jiwer similarity "pii_pred" reply ≠ 0 ↔
          (marks reply).tp + (marks reply).fp ≠ 0 := by
        intro reply member
        rw [(recorded_marks (carries reply member) rfl).2.1, Nat.cast_ne_zero]
      have gold : ∀ reply, blankRate .precision reply ≤ 0 ↔ (marks reply).tp + (marks reply).fn ≠ 0 := by
        intro reply
        rw [blankRate]
        split
        next none => exact iff_of_false (by norm_num) (not_not_intro none)
        next some_ => exact iff_of_true le_rfl some_
      constructor
      · rintro ⟨reply, member, counted⟩
        by_cases marked : (marks reply).tp + (marks reply).fp ≠ 0
        · exact .inl ⟨reply, member, (pred reply member).mpr marked⟩
        · have missed : (marks reply).tp + (marks reply).fn ≠ 0 := by
            rw [Ne, marks_eq_zero] at counted
            omega
          exact .inr ⟨⟨reply, member, (gold reply).mpr missed⟩, reply, member, blankRate_nonneg _ _⟩
      · rintro (⟨reply, member, marked⟩ | ⟨⟨reply, member, missed⟩, -⟩)
        · have marked := (pred reply member).mp marked
          exact ⟨reply, member, fun none => marked (by simp [none])⟩
        · have missed := (gold reply).mp missed
          exact ⟨reply, member, fun none => missed (by simp [none])⟩

section Spans

/-- Two texts without a name in them, nothing marked in either. -/
def quiet : List Reply :=
  [.marked "call me later" [] (some []), .marked "see you at 5" [] (some [])]

/-- A name that is marked, and one that is not. -/
def half : List Reply :=
  [.marked "ring Ada" [(5, 8)] (some [(5, 8)]), .marked "ring Bob" [(5, 8)] (some [])]

def sameClaim : Similarity := fun _ a b => if a = b then 1 else 0

def rowsFor (replies : List Reply) : List Row :=
  replies.map fun reply =>
    { caseId := "mail", candidate := "filter", passed := true
      metrics := (reply.metrics levenshtein sameClaim).getD [] }

end Spans

end LocalHarness.Evals
