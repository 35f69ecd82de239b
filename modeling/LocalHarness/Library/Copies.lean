import Mathlib.Algebra.BigOperators.Group.List.Basic
import Mathlib.Algebra.Order.Field.Rat
import Mathlib.Data.List.Dedup
import Mathlib.Data.List.Sort
import Mathlib.Tactic.Ring

/-! # Every element so many times

What is counted over a list scales with the copies of its elements, and what is chosen from it (its
distinct elements, its order) does not change.
-/

namespace LocalHarness.Library.Copies

universe u v

variable {α : Type u} {β : Type v} {r : Nat}

def copies (r : Nat) (l : List α) : List α :=
  l.flatMap (List.replicate r)

@[simp] theorem copies_nil : copies r ([] : List α) = [] := rfl

theorem copies_cons (a : α) (l : List α) : copies r (a :: l) = List.replicate r a ++ copies r l := rfl

theorem copies_one (l : List α) : copies 1 l = l := by
  induction l with
  | nil => rfl
  | cons a l ih => rw [copies_cons, ih, List.replicate_one, List.singleton_append]

@[simp] theorem length_copies (l : List α) : (copies r l).length = r * l.length := by
  induction l with
  | nil => rfl
  | cons a l ih =>
      rw [copies_cons, List.length_append, List.length_replicate, ih, List.length_cons]
      ring

theorem mem_copies (pos : 0 < r) {a : α} {l : List α} : a ∈ copies r l ↔ a ∈ l := by
  simp [copies, List.mem_flatMap, Nat.ne_of_gt pos]

theorem copies_eq_nil (pos : 0 < r) {l : List α} : copies r l = [] ↔ l = [] := by
  rw [← List.length_eq_zero_iff, ← List.length_eq_zero_iff, length_copies, Nat.mul_eq_zero]
  exact or_iff_right (Nat.ne_of_gt pos)

theorem map_copies (f : α → β) (l : List α) : (copies r l).map f = copies r (l.map f) := by
  rw [copies, copies, List.map_flatMap, List.flatMap_map]
  simp only [List.map_replicate]

theorem filter_copies (p : α → Bool) (l : List α) : (copies r l).filter p = copies r (l.filter p) := by
  induction l with
  | nil => rfl
  | cons a l ih =>
      rw [copies_cons, List.filter_append, ih, List.filter_cons, List.filter_replicate]
      split
      next => rw [copies_cons]
      next => rw [List.nil_append]

theorem countP_copies (p : α → Bool) (l : List α) : (copies r l).countP p = r * l.countP p := by
  rw [List.countP_eq_length_filter, List.countP_eq_length_filter, filter_copies, length_copies]

theorem filterMap_copies (f : α → Option β) (l : List α) :
    (copies r l).filterMap f = copies r (l.filterMap f) := by
  induction l with
  | nil => rfl
  | cons a l ih =>
      rw [copies_cons, List.filterMap_append, ih, List.filterMap_replicate, List.filterMap_cons]
      cases f a with
      | none => rfl
      | some b => rfl

theorem sum_copies (l : List ℚ) : (copies r l).sum = r * l.sum := by
  induction l with
  | nil => simp
  | cons a l ih =>
      rw [copies_cons, List.sum_append, ih, List.sum_replicate, List.sum_cons, nsmul_eq_mul]
      ring

theorem flatMap_copies_subset (f : α → List β) (a : α) (l : List α) :
    (List.replicate r a).flatMap f ⊆ (a :: l).flatMap f := by
  intro b inside
  obtain ⟨a', member, made⟩ := List.mem_flatMap.mp inside
  rw [List.eq_of_mem_replicate member] at made
  exact List.mem_flatMap.mpr ⟨a, List.mem_cons_self, made⟩

/-- Copies bring nothing new, nor a new order. -/
theorem dedup_flatMap_copies [DecidableEq β] (pos : 0 < r) (f : α → List β) (l : List α) :
    ((copies r l).flatMap f).dedup = (l.flatMap f).dedup := by
  induction l with
  | nil => rfl
  | cons a l ih =>
      obtain ⟨r, rfl⟩ := Nat.exists_eq_succ_of_ne_zero (Nat.ne_of_gt pos)
      have shape : (copies (r + 1) (a :: l)).flatMap f =
          (List.replicate r a).flatMap f ++ (f a ++ (copies (r + 1) l).flatMap f) := by
        rw [copies_cons, List.replicate_succ', List.append_assoc, List.flatMap_append,
          List.flatMap_append, List.flatMap_singleton]
      have early : (List.replicate r a).flatMap f ⊆ f a ++ (copies (r + 1) l).flatMap f :=
        flatMap_copies_subset f a (copies (r + 1) l)
      rw [shape, List.Subset.dedup_append_right early, List.dedup_append, ih, ← List.dedup_append,
        List.flatMap_cons]

theorem getElem?_copies (pos : 0 < r) (l : List α) (i : Nat) : (copies r l)[i]? = l[i / r]? := by
  induction l generalizing i with
  | nil => simp
  | cons a l ih =>
      rw [copies_cons]
      rcases Nat.lt_or_ge i r with here | later
      · rw [List.getElem?_append_left (by simpa using here), List.getElem?_replicate_of_lt here,
          Nat.div_eq_of_lt here, List.getElem?_cons_zero]
      · rw [List.getElem?_append_right (by simpa using later), List.length_replicate, ih,
          Nat.div_eq_sub_div pos later, List.getElem?_cons_succ]

theorem pairwise_copies {R : α → α → Prop} (refl : ∀ a, R a a) {l : List α} (sorted : l.Pairwise R) :
    (copies r l).Pairwise R := by
  induction sorted with
  | nil => exact List.Pairwise.nil
  | cons below _ ih =>
      rw [copies_cons, List.pairwise_append]
      refine ⟨List.pairwise_replicate.mpr (.inr (refl _)), ih, fun a member b later => ?_⟩
      rw [List.eq_of_mem_replicate member]
      obtain ⟨c, inside, made⟩ := List.mem_flatMap.mp later
      exact List.eq_of_mem_replicate made ▸ below c inside

theorem insertionSort_copies [LinearOrder α] (l : List α) :
    (copies r l).insertionSort (· ≤ ·) = copies r (l.insertionSort (· ≤ ·)) := by
  have same : ((copies r l).insertionSort (· ≤ ·)).Perm (copies r (l.insertionSort (· ≤ ·))) :=
    (List.perm_insertionSort _ _).trans ((List.perm_insertionSort (· ≤ ·) l).symm.flatMap_right _)
  exact same.eq_of_pairwise' (List.pairwise_insertionSort _ _)
    (pairwise_copies le_refl (List.pairwise_insertionSort _ _))

theorem count_copies [DecidableEq α] (a : α) (l : List α) : (copies r l).count a = r * l.count a :=
  countP_copies _ l

/-- Copies of whole lists, and copies of what is in them. -/
theorem flatten_copies_perm [DecidableEq α] (ls : List (List α)) :
    (copies r ls).flatten.Perm (copies r ls.flatten) := by
  rw [List.perm_iff_count]
  intro a
  rw [count_copies, List.count_flatten, List.count_flatten, map_copies]
  induction ls with
  | nil => rfl
  | cons l ls ih =>
      rw [List.map_cons, copies_cons, List.sum_append, ih, List.sum_replicate, List.sum_cons,
        nsmul_eq_mul, Nat.cast_id, Nat.mul_add]

end LocalHarness.Library.Copies
