import Mathlib.Data.List.Lex
import Mathlib.Order.Lattice

/-! # Texts in the order of their letters

A text is before another when it is at the first letter in which they differ, or ends there. Cut to their
first letters two texts keep their order, unless they become one.
-/

namespace LocalHarness.Library.Lexical

universe u

variable {α : Type u} [LinearOrder α] {a b : α} {s t x y : List α} {n : Nat}

theorem cons_le_cons : a :: s ≤ b :: t ↔ a < b ∨ a = b ∧ s ≤ t := by
  rw [le_iff_lt_or_eq, List.cons_lt_cons_iff, le_iff_lt_or_eq, List.cons.injEq]
  tauto

/-- Letters in front that are as many are compared first. -/
theorem append_lt_append (same : s.length = t.length) : s ++ x < t ++ y ↔ s < t ∨ s = t ∧ x < y := by
  induction s generalizing t with
  | nil =>
      obtain rfl := List.length_eq_zero_iff.mp same.symm
      exact ⟨fun less => .inr ⟨rfl, less⟩, fun less => less.elim (fun none => absurd none (lt_irrefl _)) And.right⟩
  | cons a s ih =>
      cases t with
      | nil => cases same
      | cons b t =>
          rw [List.cons_append, List.cons_append, List.cons_lt_cons_iff, List.cons_lt_cons_iff, ih (Nat.succ.inj same),
            List.cons.injEq]
          tauto

theorem nil_le (s : List α) : [] ≤ s :=
  not_lt.mp (List.not_lt_nil s)

theorem take_le (n : Nat) (s : List α) : s.take n ≤ s := by
  induction n generalizing s with
  | zero => exact nil_le s
  | succ n ih =>
      cases s with
      | nil => exact le_rfl
      | cons a s => exact cons_le_cons.mpr (.inr ⟨rfl, ih s⟩)

theorem take_le_take (n : Nat) (le : s ≤ t) : s.take n ≤ t.take n := by
  induction n generalizing s t with
  | zero => exact le_rfl
  | succ n ih =>
      cases s with
      | nil => exact nil_le _
      | cons a s =>
          cases t with
          | nil => exact absurd (List.nil_lt_cons a s) (not_lt.mpr le)
          | cons b t => exact cons_le_cons.mpr ((cons_le_cons.mp le).imp_right fun ⟨same, rest⟩ => ⟨same, ih rest⟩)

/-- A text that is past the last of some, cut to its length, is past each of them so cut, but for a shorter
one that it begins with. -/
theorem not_lt_take_iff (le : x ≤ y) (past : y < s.take y.length) :
    ¬ x < s.take x.length ↔ x.length < y.length ∧ s.take x.length = x := by
  refine ⟨fun stays => ?_, fun ⟨_, same⟩ less => ?_⟩
  · have cut : s.take x.length ≤ x := not_lt.mp stays
    have shorter : x.length < y.length := by
      by_contra longer
      have prefixed : (s.take x.length).take y.length = s.take y.length := by
        rw [List.take_take, Nat.min_eq_left (Nat.le_of_not_lt longer)]
      have here : s.take y.length ≤ s.take x.length := prefixed ▸ take_le _ _
      exact absurd (past.trans_le (here.trans (cut.trans le))) (lt_irrefl y)
    refine ⟨shorter, le_antisymm cut ?_⟩
    calc x = x.take x.length := (List.take_length ..).symm
      _ ≤ y.take x.length := take_le_take _ le
      _ ≤ (s.take y.length).take x.length := take_le_take _ past.le
      _ = s.take x.length := by rw [List.take_take, Nat.min_eq_left shorter.le]
  · rw [same] at less
    exact lt_irrefl x less

end LocalHarness.Library.Lexical
