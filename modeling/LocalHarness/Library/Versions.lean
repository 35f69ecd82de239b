import Mathlib.Data.List.Lex
import Mathlib.Order.Nat

/-! # Versions as their components

A version is later than another where the first component in which they differ is larger, one that is not
there counting as zero. The order of lists is this order but for zeros at the end.
-/

namespace LocalHarness.Library.Versions

variable {a b : List Nat} {x y n : Nat}

/-- The first component in which they differ is larger in the first. -/
def Later (a b : List Nat) : Prop :=
  ∃ i, (∀ j < i, a.getD j 0 = b.getD j 0) ∧ b.getD i 0 < a.getD i 0

/-- More components, each of them zero. -/
def Padded (a b : List Nat) : Prop :=
  ∃ n, a = b ++ List.replicate (n + 1) 0

theorem not_later_nil : ¬ Later [] b := by
  rintro ⟨i, -, less⟩
  exact absurd less (by simp)

theorem later_cons_iff : Later (x :: a) (y :: b) ↔ y < x ∨ x = y ∧ Later a b := by
  constructor
  · rintro ⟨i, same, less⟩
    cases i with
    | zero => exact .inl less
    | succ i => exact .inr ⟨same 0 i.succ_pos, i, fun j below => same (j + 1) (Nat.succ_lt_succ below), less⟩
  · rintro (less | ⟨rfl, i, same, less⟩)
    · exact ⟨0, fun j below => absurd below j.not_lt_zero, less⟩
    · refine ⟨i + 1, fun j below => ?_, less⟩
      cases j with
      | zero => rfl
      | succ j => exact same j (Nat.lt_of_succ_lt_succ below)

theorem later_nil_iff : Later (x :: a) [] ↔ 0 < x ∨ x = 0 ∧ Later a [] := by
  constructor
  · rintro ⟨i, same, less⟩
    cases i with
    | zero => exact .inl less
    | succ i =>
        refine .inr ⟨same 0 i.succ_pos, i, fun j below => ?_, less⟩
        exact (same (j + 1) (Nat.succ_lt_succ below)).trans (by simp)
  · rintro (less | ⟨rfl, i, same, less⟩)
    · exact ⟨0, fun j below => absurd below j.not_lt_zero, less⟩
    · refine ⟨i + 1, fun j below => ?_, less⟩
      cases j with
      | zero => rfl
      | succ j => exact (same j (Nat.lt_of_succ_lt_succ below)).trans (by simp)

theorem padded_nil_iff : Padded a [] ↔ a ≠ [] ∧ ∀ x ∈ a, x = 0 := by
  constructor
  · rintro ⟨n, rfl⟩
    exact ⟨List.cons_ne_nil _ _, fun x member => List.eq_of_mem_replicate member⟩
  · rintro ⟨some_, zeros⟩
    have shape := List.eq_replicate_of_mem zeros
    obtain ⟨n, length⟩ := Nat.exists_eq_succ_of_ne_zero (List.length_pos_iff.mpr some_).ne'
    exact ⟨n, by rw [List.nil_append, shape, length]⟩

theorem padded_cons_iff : Padded (x :: a) (y :: b) ↔ x = y ∧ Padded a b := by
  constructor
  · rintro ⟨n, shape⟩
    obtain ⟨head, tail⟩ := List.cons.inj shape
    exact ⟨head, n, tail⟩
  · rintro ⟨rfl, n, rfl⟩
    exact ⟨n, rfl⟩

/-- What follows the empty version is later, or has nothing but zeros. -/
theorem later_or_padded_nil : a ≠ [] ↔ Later a [] ∨ Padded a [] := by
  induction a with
  | nil => simp [not_later_nil, padded_nil_iff]
  | cons x a ih =>
      refine iff_of_true (List.cons_ne_nil x a) ?_
      rw [later_nil_iff, padded_nil_iff]
      rcases Nat.eq_zero_or_pos x with rfl | pos
      · by_cases some_ : a = []
        · exact .inr ⟨List.cons_ne_nil _ _, by simp [some_]⟩
        · rcases ih.mp some_ with later | padded
          · exact .inl (.inr ⟨rfl, later⟩)
          · exact .inr ⟨List.cons_ne_nil _ _, List.forall_mem_cons.mpr ⟨rfl, (padded_nil_iff.mp padded).2⟩⟩
      · exact .inl (.inl pos)

/-- The order of lists, as an order of versions. -/
theorem lt_iff : b < a ↔ Later a b ∨ Padded a b := by
  induction b generalizing a with
  | nil =>
      rw [← later_or_padded_nil]
      cases a with
      | nil => exact iff_of_false (List.not_lt_nil _) fun some_ => some_ rfl
      | cons x a => exact iff_of_true (List.nil_lt_cons x a) (List.cons_ne_nil x a)
  | cons y b ih =>
      cases a with
      | nil =>
          refine iff_of_false (List.not_lt_nil _) ?_
          rintro (later | ⟨n, shape⟩)
          · exact not_later_nil later
          · cases shape
      | cons x a =>
          rw [List.cons_lt_cons_iff, ih, later_cons_iff, padded_cons_iff, eq_comm (a := y)]
          constructor
          · rintro (less | ⟨same, later | padded⟩)
            · exact .inl (.inl less)
            · exact .inl (.inr ⟨same, later⟩)
            · exact .inr ⟨same, padded⟩
          · rintro ((less | ⟨same, later⟩) | ⟨same, padded⟩)
            · exact .inl less
            · exact .inr ⟨same, .inl later⟩
            · exact .inr ⟨same, .inr padded⟩

theorem getD_padded (b : List Nat) (n i : Nat) : (b ++ List.replicate n 0).getD i 0 = b.getD i 0 := by
  rw [List.getD_eq_getElem?_getD, List.getD_eq_getElem?_getD, List.getElem?_append]
  split
  next => rfl
  next past =>
    rw [List.getElem?_eq_none (Nat.le_of_not_lt past), List.getElem?_replicate]
    split <;> rfl

/-- Zeros at the end make no version a later one. -/
theorem not_later_of_padded (padded : Padded a b) : ¬ Later a b := by
  obtain ⟨n, rfl⟩ := padded
  rintro ⟨i, -, less⟩
  rw [getD_padded] at less
  exact lt_irrefl _ less

/-- The order of lists tells a later version exactly where it is not the same with zeros at its end. -/
theorem lt_sound_iff : (b < a → Later a b) ↔ ¬ Padded a b := by
  constructor
  · exact fun sound padded => not_later_of_padded padded (sound (lt_iff.mpr (.inr padded)))
  · exact fun bare less => (lt_iff.mp less).resolve_right bare

theorem lt_later_iff : (b < a ↔ Later a b) ↔ ¬ Padded a b := by
  rw [← lt_sound_iff]
  exact ⟨Iff.mp, fun sound => ⟨sound, fun later => lt_iff.mpr (.inl later)⟩⟩

end LocalHarness.Library.Versions
