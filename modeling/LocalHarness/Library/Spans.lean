import Mathlib.Data.List.Pairwise
import Mathlib.Data.List.Sort
import Mathlib.Data.Set.Basic

/-! # Spans taken from left to right

Spans in the order of where they start, the longer first, each taken unless it starts before the end of the
last one taken. What is taken is told without the order of a list: the first span from where the last one
ends.
-/

namespace LocalHarness.Library.Spans

/-- From `start` on, up to `stop`. -/
@[ext]
structure Span where
  start : Nat
  stop : Nat
  some_ : start < stop
deriving DecidableEq

namespace Span

def length (a : Span) : Nat :=
  a.stop - a.start

def Overlap (a b : Span) : Prop :=
  a.start < b.stop ∧ b.start < a.stop

/-- `(start, -length)` is no more. -/
def Before (a b : Span) : Prop :=
  a.start < b.start ∨ a.start = b.start ∧ b.length ≤ a.length

instance : DecidableRel Overlap :=
  fun a b => inferInstanceAs (Decidable (a.start < b.stop ∧ b.start < a.stop))

instance : DecidableRel Before :=
  fun a b => inferInstanceAs (Decidable (a.start < b.start ∨ a.start = b.start ∧ b.length ≤ a.length))

variable {a b c : Span}

theorem before_refl (a : Span) : Before a a :=
  .inr ⟨rfl, le_refl _⟩

theorem Before.trans (first : Before a b) (next : Before b c) : Before a c := by
  unfold Before at *
  omega

theorem before_total (a b : Span) : Before a b ∨ Before b a := by
  unfold Before
  omega

theorem Before.le (before : Before a b) : a.start ≤ b.start := by
  unfold Before at before
  omega

theorem Before.antisymm (before : Before a b) (after : Before b a) : a = b := by
  have := a.some_
  have := b.some_
  unfold Before length at before after
  refine Span.ext ?_ ?_ <;> omega

end Span

open Span

variable {ι : Type} (span : ι → Span)

/-- The spans that are taken from a place on. -/
def scan : Nat → List ι → List ι
  | _, [] => []
  | free, x :: rest =>
      if (span x).start < free then scan free rest else x :: scan (span x).stop rest

/-- The first span that starts at a place or later. -/
def First (xs : Set ι) (free : Nat) (x : ι) : Prop :=
  x ∈ xs ∧ free ≤ (span x).start ∧ ∀ y ∈ xs, free ≤ (span y).start → Before (span x) (span y)

/-- The places that are come to from left to right: the end of the first span from each. -/
inductive Reached (xs : Set ι) : Nat → Prop
  | start : Reached xs 0
  | past {free x} : Reached xs free → First span xs free x → Reached xs (span x).stop

/-- A span that is come to from left to right. -/
def Taken (xs : Set ι) (x : ι) : Prop :=
  ∃ free, Reached span xs free ∧ First span xs free x

variable {span} {free : Nat} {x : ι} {xs rest : List ι}

theorem scan_sublist : (scan span free xs).Sublist xs := by
  induction xs generalizing free with
  | nil => exact List.Sublist.refl _
  | cons x rest ih =>
      rw [scan]
      split
      · exact ih.cons x
      · exact ih.cons_cons x

theorem le_of_mem_scan (member : x ∈ scan span free xs) : free ≤ (span x).start := by
  induction xs generalizing free with
  | nil => cases member
  | cons y rest ih =>
      rw [scan] at member
      split at member
      next => exact ih member
      next later =>
        rw [Nat.not_lt] at later
        rcases List.mem_cons.mp member with rfl | member
        · exact later
        · exact (later.trans (span y).some_.le).trans (ih member)

/-- No two of them meet. -/
theorem scan_pairwise : (scan span free xs).Pairwise fun x y => (span x).stop ≤ (span y).start := by
  induction xs generalizing free with
  | nil => exact .nil
  | cons x rest ih =>
      rw [scan]
      split
      · exact ih
      · exact List.pairwise_cons.mpr ⟨fun y => le_of_mem_scan, ih⟩

/-- A span that is left out starts within one that is taken. -/
theorem exists_of_not_mem_scan (sorted : xs.Pairwise fun x y => Before (span x) (span y))
    (member : x ∈ xs) (later : free ≤ (span x).start) (out : x ∉ scan span free xs) :
    ∃ y ∈ scan span free xs, Before (span y) (span x) ∧ (span x).start < (span y).stop := by
  induction xs generalizing free with
  | nil => cases member
  | cons y rest ih =>
      obtain ⟨before, sorted⟩ := List.pairwise_cons.mp sorted
      rw [scan] at out ⊢
      split at out
      next skipped =>
        rw [if_pos skipped]
        rcases List.mem_cons.mp member with rfl | member
        · exact absurd skipped (Nat.not_lt.mpr later)
        · exact ih sorted member later out
      next taken =>
        rw [if_neg taken]
        rw [List.mem_cons, not_or] at out
        have member := (List.mem_cons.mp member).resolve_left out.1
        by_cases within : (span x).start < (span y).stop
        · exact ⟨y, List.mem_cons_self, before x member, within⟩
        · obtain ⟨z, member, starts, stops⟩ := ih sorted member (Nat.not_lt.mp within) out.2
          exact ⟨z, List.mem_cons_of_mem y member, starts, stops⟩

/-- What is taken from a place that was come to is come to, as long as the rest has all from there on. -/
theorem taken_of_mem_scan {all : Set ι} (sorted : xs.Pairwise fun x y => Before (span x) (span y))
    (reached : Reached span all free) (within : ∀ y ∈ xs, y ∈ all)
    (left : ∀ y ∈ all, free ≤ (span y).start → y ∈ xs) (member : x ∈ scan span free xs) :
    Taken span all x := by
  induction xs generalizing free with
  | nil => cases member
  | cons y rest ih =>
      obtain ⟨before, sorted⟩ := List.pairwise_cons.mp sorted
      obtain ⟨here, within⟩ := List.forall_mem_cons.mp within
      rw [scan] at member
      split at member
      next skipped =>
        refine ih sorted reached within (fun z inside later => ?_) member
        rcases List.mem_cons.mp (left z inside later) with rfl | member
        · exact absurd skipped (Nat.not_lt.mpr later)
        · exact member
      next taken =>
        have first : First span all free y := by
          refine ⟨here, Nat.not_lt.mp taken, fun z inside later => ?_⟩
          rcases List.mem_cons.mp (left z inside later) with rfl | member
          · exact before_refl _
          · exact before z member
        rcases List.mem_cons.mp member with rfl | member
        · exact ⟨free, reached, first⟩
        · refine ih sorted (.past reached first) within (fun z inside later => ?_) member
          have later' : free ≤ (span z).start := (first.2.1.trans (span y).some_.le).trans later
          rcases List.mem_cons.mp (left z inside later') with rfl | member
          · exact absurd later (Nat.not_le.mpr (span z).some_)
          · exact member

theorem scan_disjoint {y : ι} (here : x ∈ scan span free xs) (there : y ∈ scan span free xs)
    (other : x ≠ y) : (span x).stop ≤ (span y).start ∨ (span y).stop ≤ (span x).start := by
  have apart : (scan span free xs).Pairwise fun x y =>
      (span x).stop ≤ (span y).start ∨ (span y).stop ≤ (span x).start := scan_pairwise.imp .inl
  have swap : Std.Symm fun x y => (span x).stop ≤ (span y).start ∨ (span y).stop ≤ (span x).start :=
    ⟨fun _ _ => Or.symm⟩
  exact apart.forall here there other

/-- What comes first from the end of a span that is taken is taken, or one with the same ends. -/
theorem exists_of_first (sorted : xs.Pairwise fun x y => Before (span x) (span y))
    (from_ : free = 0 ∨ ∃ z ∈ scan span 0 xs, (span z).stop = free) (first : First span {y | y ∈ xs} free x) :
    ∃ y ∈ scan span 0 xs, span y = span x := by
  obtain ⟨member, later, least⟩ := first
  by_cases here : x ∈ scan span 0 xs
  · exact ⟨x, here, rfl⟩
  · obtain ⟨y, taken, before, within⟩ := exists_of_not_mem_scan sorted member (Nat.zero_le _) here
    refine ⟨y, taken, before.antisymm (least y (scan_sublist.subset taken) ?_)⟩
    rcases from_ with rfl | ⟨z, taken', rfl⟩
    · exact Nat.zero_le _
    · by_cases same : z = y
      · rw [same] at later
        exact absurd within (Nat.not_lt.mpr later)
      · have := (span z).some_
        rcases scan_disjoint taken' taken same with apart | apart
        · exact apart
        · omega

theorem taken_iff (sorted : xs.Pairwise fun x y => Before (span x) (span y)) {a : Span} :
    (∃ x, Taken span {y | y ∈ xs} x ∧ span x = a) ↔ ∃ x ∈ scan span 0 xs, span x = a := by
  constructor
  · rintro ⟨x, ⟨free, reached, first⟩, rfl⟩
    refine exists_of_first sorted ?_ first
    clear first
    induction reached with
    | start => exact .inl rfl
    | past _ first ih =>
        obtain ⟨y, taken, same⟩ := exists_of_first sorted ih first
        exact .inr ⟨y, taken, congrArg stop same⟩
  · rintro ⟨x, taken, rfl⟩
    exact ⟨x, taken_of_mem_scan sorted .start (fun _ => id) (fun _ member _ => member) taken, rfl⟩

end LocalHarness.Library.Spans
