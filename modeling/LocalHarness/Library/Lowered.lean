import Mathlib.Algebra.GroupWithZero.Nat
import LocalHarness.Library.Find
import LocalHarness.Library.Unicode

/-! # Places in a text in lower case

A character may be several in lower case, so that what stands in the lower copy of a text stands
elsewhere in the text itself. A piece of characters that come from a single one each is found in the
copy where it is in the text, that far along as what is before it is long in lower case.
-/

namespace LocalHarness.Library.Unicode

open LocalHarness.Library.Find

variable {u : Unicode} {before after s x y piece : List Char} {c d : Char} {i : Nat}

variable (u) in
/-- As long in lower case as it is. -/
def Kept (s : List Char) : Prop :=
  (u.lower s).length = s.length

instance : Decidable (u.Kept s) :=
  inferInstanceAs (Decidable ((u.lower s).length = s.length))

variable (u) in
/-- Where this is a character of a text in lower case, it is all that one character became. -/
def Solid (c : Char) : Prop :=
  c ≠ 'σ' ∧ c ≠ 'ς' ∧ ∀ d, c ∈ u.lowerChar d → u.lowerChar d = [c]

/-! ## Lengths -/

variable (u) in
private def width (c : Char) : Nat :=
  if c = 'Σ' then 1 else (u.lowerChar c).length

theorem lowerIn_length : (u.lowerIn before after s).length = (s.map u.width).sum := by
  induction s generalizing before with
  | nil => rfl
  | cons c rest ih =>
      have here : (u.lowerAt before c (rest ++ after)).length = u.width c := by
        unfold lowerAt width
        split
        · split <;> rfl
        · rfl
      rw [lowerIn, List.length_append, ih, here, List.map_cons, List.sum_cons]

theorem lower_append_length :
    (u.lower (x ++ y)).length = (u.lower x).length + (u.lower y).length := by
  simp only [lower, lowerIn_length, List.map_append, List.sum_append]

theorem length_le_lower : s.length ≤ (u.lower s).length := by
  rw [lower, lowerIn_length]
  induction s with
  | nil => exact Nat.le_refl 0
  | cons c rest ih =>
      have one : 1 ≤ u.width c := by
        unfold width
        split
        · exact Nat.le_refl 1
        · exact List.length_pos_iff.mpr (u.lowerChar_ne_nil c)
      rw [List.map_cons, List.sum_cons, List.length_cons]
      omega

theorem lower_length_mono (part : x <+: y) : (u.lower x).length ≤ (u.lower y).length := by
  obtain ⟨rest, rfl⟩ := part
  rw [lower_append_length]
  exact Nat.le_add_right _ _

/-! ## Pieces -/

theorem Solid.lowerAt (solid : u.Solid c) (member : c ∈ u.lowerAt before d after) :
    d ≠ 'Σ' ∧ u.lowerChar d = [c] := by
  unfold Unicode.lowerAt at member
  split at member
  next =>
    have sigma : c = 'ς' ∨ c = 'σ' := by
      split at member
      · exact .inl (List.mem_singleton.mp member)
      · exact .inr (List.mem_singleton.mp member)
    exact absurd sigma (not_or.mpr ⟨solid.2.1, solid.1⟩)
  next other => exact ⟨other, solid.2.2 d member⟩

/-- What a text in lower case begins with, a part of the text becomes, whatever is around it. -/
theorem exists_of_prefix (solid : ∀ c ∈ piece, u.Solid c)
    (begins : piece <+: u.lowerIn before after s) :
    ∃ y z, s = y ++ z ∧ ∀ before after, u.lowerIn before after y = piece := by
  induction piece generalizing s before with
  | nil => exact ⟨[], s, rfl, fun _ _ => rfl⟩
  | cons c piece ih =>
      obtain ⟨solid, others⟩ := List.forall_mem_cons.mp solid
      cases s with
      | nil => exact absurd (List.prefix_nil.mp begins) (List.cons_ne_nil _ _)
      | cons d rest =>
          rw [lowerIn] at begins
          have first : c ∈ u.lowerAt before d (rest ++ after) := by
            have some_ : u.lowerAt before d (rest ++ after) ≠ [] := lowerAt_ne_nil
            obtain ⟨e, others, shape⟩ := List.exists_cons_of_ne_nil some_
            rw [shape, List.cons_append] at begins
            rw [shape, (List.cons_prefix_cons.mp begins).1]
            exact List.mem_cons_self
          obtain ⟨other, single⟩ := solid.lowerAt first
          have alone : ∀ before after, u.lowerAt before d after = [c] := fun before after => by
            rw [Unicode.lowerAt, if_neg other, single]
          rw [alone, List.singleton_append] at begins
          obtain ⟨y, z, rfl, same⟩ := ih others (List.cons_prefix_cons.mp begins).2
          refine ⟨d :: y, z, rfl, fun before after => ?_⟩
          rw [lowerIn, alone, same, List.singleton_append]

/-- What a piece is in lower case does not depend on what is around it. -/
theorem lowerIn_of_lower (solid : ∀ c ∈ piece, u.Solid c) (same : u.lower y = piece) :
    u.lowerIn before after y = piece := by
  have begins : piece <+: u.lowerIn [] [] y := List.prefix_iff_eq_append.mpr (by simp [← same, lower])
  obtain ⟨y, z, rfl, each⟩ := exists_of_prefix solid begins
  have length : (u.lower (y ++ z)).length = piece.length := congrArg List.length same
  rw [lower_append_length, lower, each] at length
  have short : z.length ≤ 0 := by
    have long := length_le_lower (u := u) (s := z)
    omega
  rw [List.eq_nil_of_length_eq_zero (Nat.le_zero.mp short), List.append_nil]
  exact each before after

theorem stands_lower_iff (solid : ∀ c ∈ piece, u.Solid c) (some_ : piece ≠ []) :
    Stands piece (u.lower s) i ↔
      ∃ x y z, s = x ++ y ++ z ∧ (u.lower x).length = i ∧ u.lower y = piece := by
  constructor
  · have general : ∀ before, Stands piece (u.lowerIn before [] s) i →
        ∃ x y z, s = x ++ y ++ z ∧ (u.lower x).length = i ∧ u.lower y = piece := by
      obtain ⟨c, others, rfl⟩ := List.exists_cons_of_ne_nil some_
      induction s generalizing i with
      | nil =>
          intro before here
          exact absurd (stands_nil.mp here).1 some_
      | cons d rest ih =>
          intro before here
          have here' := here
          rw [lowerIn] at here'
          by_cases within : i < (u.lowerAt before d (rest ++ [])).length
          · obtain ⟨-, single⟩ := (solid c List.mem_cons_self).lowerAt (here'.head within)
            obtain ⟨other, -⟩ := (solid c List.mem_cons_self).lowerAt (here'.head within)
            rw [Unicode.lowerAt, if_neg other, single, List.length_singleton] at within
            obtain rfl : i = 0 := by omega
            obtain ⟨y, z, shape, same⟩ := exists_of_prefix solid (stands_zero.mp here)
            exact ⟨[], y, z, shape, rfl, same [] []⟩
          · obtain ⟨k, rfl, there⟩ := here'.past (Nat.le_of_not_lt within)
            obtain ⟨x, y, z, rfl, length, same⟩ := ih _ there
            refine ⟨d :: x, y, z, rfl, ?_, same⟩
            have first : (u.lower [d]).length = (u.lowerAt before d (x ++ y ++ z ++ [])).length := by
              have one : (u.lowerIn before (x ++ y ++ z ++ []) [d]).length = ([d].map u.width).sum :=
                lowerIn_length
              rw [lower, lowerIn_length, ← one, lowerIn, lowerIn, List.append_nil]
              rfl
            rw [← List.singleton_append, lower_append_length, length, first]
    exact general []
  · rintro ⟨x, y, z, rfl, rfl, same⟩
    refine ⟨u.lowerIn [] (y ++ z ++ []) x, u.lowerIn (y.reverse ++ (x.reverse ++ [])) [] z, ?_, ?_⟩
    · rw [lower, List.append_assoc, lowerIn_append, lowerIn_append, lowerIn_of_lower solid same,
        List.append_assoc, List.append_assoc]
    · rw [lower, lowerIn_length, lowerIn_length]

/-! ## Characters of a tag -/

/-- The letters, but for the one that a capital of two characters in small has, and the marks of a
tag. -/
def TAG_CHARS : List Char :=
  "abcdefghjklmnopqrstuvwxyz!</>".toList

variable (u) in
/-- A capital that is such a character in lower case is that alone. -/
def Ascii : Prop :=
  ∀ c ∈ TAG_CHARS, u.Solid c

theorem ascii_small : small.Ascii := by
  intro c member
  have others : (TAG_CHARS.all fun c => c ≠ 'σ' && c ≠ 'ς' && c ≠ 'i' && c ≠ '\u0307') = true := by
    decide
  have other := List.all_eq_true.mp others c member
  simp only [Bool.and_eq_true, decide_eq_true_eq] at other
  obtain ⟨⟨⟨sigma, final⟩, letter⟩, dot⟩ := other
  refine ⟨sigma, final, fun d inside => ?_⟩
  simp only [small, smallLower] at inside ⊢
  split at inside
  · simp [letter, dot] at inside
  next plain => rw [if_neg plain, List.mem_singleton.mp inside]

end LocalHarness.Library.Unicode
