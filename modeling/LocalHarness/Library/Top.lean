import Mathlib.Data.List.Perm.Subperm
import LocalHarness.Library.Tally

/-! # The top of a ranking

A ranking names each of its items where it first does. What is wanted can be brought into its first
places exactly where there are enough of them.
-/

namespace LocalHarness.Library.Top

open Tally

universe u

variable {α : Type u}

/-- `l[:k]`: the first `k`, or all but the last so many where `k` is negative. -/
def upTo (k : ℤ) (l : List α) : List α :=
  if 0 ≤ k then l.take k.toNat else l.take (l.length - (-k).toNat)

/-- How many of `n` there are up to `k`. -/
def reach (k : ℤ) (n : Nat) : Nat :=
  if 0 ≤ k then min k.toNat n else n - (-k).toNat

theorem length_upTo (k : ℤ) (l : List α) : (upTo k l).length = reach k l.length := by
  unfold upTo reach
  split
  · exact List.length_take
  · rw [List.length_take]
    omega

theorem upTo_sublist (k : ℤ) (l : List α) : (upTo k l).Sublist l := by
  unfold upTo
  split <;> exact List.take_sublist _ _

theorem reach_mono (k : ℤ) {m n : Nat} (le : m ≤ n) : reach k m ≤ reach k n := by
  unfold reach
  split <;> omega

/-- What comes first is in the top, so far as the top goes. -/
theorem subset_upTo {k : ℤ} {front back : List α}
    (fits : front.length ≤ reach k (front ++ back).length) : front ⊆ upTo k (front ++ back) := by
  have enough : ∀ n, front.length ≤ n → front ⊆ (front ++ back).take n := by
    intro n le x member
    rw [List.take_append, List.mem_append, List.take_of_length_le le]
    exact .inl member
  rw [reach] at fits
  rw [upTo]
  split
  next up =>
    rw [if_pos up] at fits
    exact enough _ (le_trans fits (min_le_left _ _))
  next down =>
    rw [if_neg down] at fits
    exact enough _ fits

variable [DecidableEq α]

theorem nodup_firsts (values : List α) : (firsts values).Nodup :=
  List.nodup_reverse.mpr (List.nodup_dedup _)

theorem mem_firsts {values : List α} {value : α} : value ∈ firsts values ↔ value ∈ values := by
  rw [firsts, List.mem_reverse, List.mem_dedup, List.mem_reverse]

theorem firsts_of_nodup {values : List α} (once : values.Nodup) : firsts values = values := by
  rw [firsts, (List.nodup_reverse.mpr once).dedup, List.reverse_reverse]

theorem length_firsts (values : List α) : (firsts values).length = values.dedup.length := by
  rw [firsts, List.length_reverse]
  exact (List.reverse_perm values).dedup.length_eq

theorem firsts_map {β : Type u} [DecidableEq β] {f : α → β} (injective : Function.Injective f)
    (values : List α) : firsts (values.map f) = (firsts values).map f := by
  rw [firsts, firsts, ← List.map_reverse, List.dedup_map_of_injective injective, List.map_reverse]

/-- There is a ranking of the documents with all that is wanted in its top exactly where the top of a
    ranking of all of them has as many places. -/
theorem exists_ranking_iff {k : ℤ} {wanted documents : List α} (once : wanted.Nodup)
    (known : wanted ⊆ documents) :
    (∃ ranking, ranking ⊆ documents ∧ wanted ⊆ upTo k (firsts ranking)) ↔
      wanted.length ≤ reach k (firsts documents).length := by
  constructor
  · rintro ⟨ranking, inside, top⟩
    have shorter : (firsts ranking).length ≤ (firsts documents).length :=
      (List.subperm_of_subset (nodup_firsts ranking) fun _ member =>
        mem_firsts.mpr (inside (mem_firsts.mp member))).length_le
    calc wanted.length ≤ (upTo k (firsts ranking)).length := (List.subperm_of_subset once top).length_le
      _ = reach k (firsts ranking).length := length_upTo k _
      _ ≤ reach k (firsts documents).length := reach_mono k shorter
  · intro fits
    let others := (firsts documents).filter (· ∉ wanted)
    have apart : wanted.Disjoint others := fun value wants other => by
      simpa [wants] using (List.mem_filter.mp other).2
    have nodup : (wanted ++ others).Nodup := once.append ((nodup_firsts documents).filter _) apart
    have same : (wanted ++ others).Perm (firsts documents) := by
      rw [List.perm_ext_iff_of_nodup nodup (nodup_firsts documents)]
      intro value
      rw [List.mem_append, List.mem_filter, decide_eq_true_eq]
      constructor
      · rintro (wants | other)
        · exact mem_firsts.mpr (known wants)
        · exact other.1
      · intro member
        by_cases wants : value ∈ wanted
        · exact .inl wants
        · exact .inr ⟨member, wants⟩
    refine ⟨wanted ++ others, fun value member => mem_firsts.mp (same.subset member), ?_⟩
    rw [firsts_of_nodup nodup]
    exact subset_upTo (same.length_eq ▸ fits)

end LocalHarness.Library.Top
