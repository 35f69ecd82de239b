import Mathlib.Data.List.DropRight
import Mathlib.Data.List.Infix
import Mathlib.Data.Nat.Find

/-! # Where a piece stands in a text

`find` and `rfind` are described by the places a piece stands at: the one is the first of them and
the other the last.
-/

namespace LocalHarness.Library.Find

variable {α : Type} [DecidableEq α]

/-- `str.find`: where the first `piece` starts. -/
def find (piece : List α) : List α → Option Nat
  | [] => if piece = [] then some 0 else none
  | a :: rest => if piece.isPrefixOf (a :: rest) then some 0 else (find piece rest).map (· + 1)

/-- `str.rfind`: where the last `piece` starts. -/
def rfind (piece : List α) : List α → Option Nat
  | [] => if piece = [] then some 0 else none
  | a :: rest =>
      match rfind piece rest with
      | some i => some (i + 1)
      | none => if piece.isPrefixOf (a :: rest) then some 0 else none

omit [DecidableEq α]

/-- A `piece` of the text starts at `i`. -/
def Stands (piece text : List α) (i : Nat) : Prop :=
  ∃ before after, text = before ++ piece ++ after ∧ before.length = i

variable {piece text : List α} {a : α} {i : Nat}

theorem stands_zero : Stands piece text 0 ↔ piece <+: text := by
  constructor
  · rintro ⟨before, after, rfl, length⟩
    obtain rfl := List.eq_nil_of_length_eq_zero length
    exact ⟨after, rfl⟩
  · rintro ⟨after, rfl⟩
    exact ⟨[], after, rfl, rfl⟩

theorem stands_succ : Stands piece (a :: text) (i + 1) ↔ Stands piece text i := by
  constructor
  · rintro ⟨before, after, shape, length⟩
    cases before with
    | nil => cases length
    | cons b before =>
        obtain ⟨-, shape⟩ := List.cons.inj shape
        exact ⟨before, after, shape, Nat.succ.inj length⟩
  · rintro ⟨before, after, rfl, rfl⟩
    exact ⟨a :: before, after, rfl, rfl⟩

theorem stands_nil : Stands piece ([] : List α) i ↔ piece = [] ∧ i = 0 := by
  constructor
  · rintro ⟨before, after, shape, rfl⟩
    obtain ⟨shape, -⟩ := List.append_eq_nil_iff.mp shape.symm
    obtain ⟨rfl, rfl⟩ := List.append_eq_nil_iff.mp shape
    exact ⟨rfl, rfl⟩
  · rintro ⟨rfl, rfl⟩
    exact ⟨[], [], rfl, rfl⟩

theorem infix_iff : piece <:+: text ↔ ∃ i, Stands piece text i := by
  constructor
  · rintro ⟨before, after, rfl⟩
    exact ⟨before.length, before, after, rfl, rfl⟩
  · rintro ⟨i, before, after, rfl, -⟩
    exact ⟨before, after, rfl⟩

theorem Stands.inside {before after : List α} (here : Stands piece text i) :
    Stands piece (before ++ text ++ after) (before.length + i) := by
  obtain ⟨front, back, rfl, rfl⟩ := here
  exact ⟨before ++ front, back ++ after, by simp, List.length_append⟩

theorem Stands.head {before : List α} (here : Stands (a :: piece) (before ++ text) i)
    (within : i < before.length) : a ∈ before := by
  obtain ⟨front, back, shape, rfl⟩ := here
  have at_ : (before ++ text)[front.length]? = some a := by simp [shape]
  rw [List.getElem?_append_left within] at at_
  exact List.mem_of_getElem? at_

theorem Stands.past {before : List α} (here : Stands piece (before ++ text) i)
    (past : before.length ≤ i) : ∃ k, i = before.length + k ∧ Stands piece text k := by
  induction before generalizing i with
  | nil => exact ⟨i, (Nat.zero_add i).symm, here⟩
  | cons b rest ih =>
      cases i with
      | zero => exact absurd past (Nat.not_succ_le_zero _)
      | succ i =>
          obtain ⟨k, rfl, there⟩ := ih (stands_succ.mp here) (Nat.le_of_succ_le_succ past)
          exact ⟨k, by rw [List.length_cons]; omega, there⟩

/-- A piece does not reach over what it has nothing of. -/
theorem stands_cut {before after : List α} (foreign : a ∉ piece)
    (here : Stands piece (before ++ a :: after) i) :
    Stands piece before i ∨ ∃ k, i = before.length + 1 + k ∧ Stands piece after k := by
  obtain ⟨front, back, shape, rfl⟩ := here
  rw [List.append_assoc] at shape
  rcases List.append_eq_append_iff.mp shape with ⟨middle, rfl, meet⟩ | ⟨middle, rfl, meet⟩
  · cases middle with
    | nil =>
        rw [List.nil_append] at meet
        rcases List.append_eq_cons_iff.mp meet.symm with ⟨rfl, rfl⟩ | ⟨rest, rfl, -⟩
        · exact .inl ⟨before, [], by simp, by simp⟩
        · exact absurd List.mem_cons_self foreign
    | cons b middle =>
        obtain ⟨rfl, rfl⟩ := List.cons.inj meet
        refine .inr ⟨middle.length, ?_, middle, back, by simp, rfl⟩
        rw [List.length_append, List.length_cons]
        omega
  · rcases List.append_eq_append_iff.mp meet with ⟨rest, rfl, -⟩ | ⟨rest, rfl, last⟩
    · exact .inl ⟨front, rest, by simp, rfl⟩
    · cases rest with
      | nil => exact .inl ⟨front, [], by simp, rfl⟩
      | cons b rest =>
          obtain ⟨rfl, -⟩ := List.cons.inj last
          exact absurd (List.mem_append_right middle List.mem_cons_self) foreign

theorem infix_cut {before after : List α} (foreign : a ∉ piece)
    (inside : piece <:+: before ++ a :: after) : piece <:+: before ∨ piece <:+: after := by
  obtain ⟨i, here⟩ := infix_iff.mp inside
  rcases stands_cut foreign here with left | ⟨k, -, right⟩
  · exact .inl (infix_iff.mpr ⟨i, left⟩)
  · exact .inr (infix_iff.mpr ⟨k, right⟩)

/-- What is dropped from the front ends before a letter that is kept. -/
theorem dropWhile_stop {p : α → Bool} {before after : List α} (stop : p a = false) :
    (before ++ a :: after).dropWhile p = before.dropWhile p ++ a :: after := by
  rw [List.dropWhile_append]
  split
  next none_ =>
    rw [List.isEmpty_iff.mp none_, List.nil_append, List.dropWhile_cons_of_neg (by rw [stop]; decide)]
  next => rfl

theorem rdropWhile_stop {p : α → Bool} {before after : List α} (stop : p a = false) :
    (before ++ a :: after).rdropWhile p = before ++ a :: after.rdropWhile p := by
  rw [List.rdropWhile, List.reverse_append, List.reverse_cons, List.append_assoc, List.singleton_append,
    dropWhile_stop stop, List.reverse_append, List.reverse_cons, List.reverse_reverse,
    List.append_assoc, List.singleton_append]
  rfl

/-- Nothing is dropped where the first letter is kept. -/
theorem dropWhile_eq_iff {p : α → Bool} {s : List α} : s.dropWhile p = s ↔ ∀ c ∈ s.head?, p c = false := by
  cases s with
  | nil => simp
  | cons c rest =>
      rw [List.dropWhile_cons]
      split
      next gone =>
        have shorter := (List.dropWhile_suffix p (l := rest)).length_le
        have other : rest.dropWhile p ≠ c :: rest := fun same => by
          rw [same, List.length_cons] at shorter
          omega
        simp [other, gone]
      next kept => simp [kept]

theorem rdropWhile_eq_iff {p : α → Bool} {s : List α} : s.rdropWhile p = s ↔ ∀ c ∈ s.getLast?, p c = false := by
  rw [← List.head?_reverse, ← dropWhile_eq_iff, List.rdropWhile, List.reverse_eq_iff]

variable [DecidableEq α]

/-- A text begins the same way up to a letter that the piece does not have. -/
theorem isPrefixOf_stop {before after : List α} (foreign : a ∉ piece) :
    piece.isPrefixOf (before ++ a :: after) = piece.isPrefixOf before := by
  induction piece generalizing before with
  | nil => rfl
  | cons letter piece ih =>
      rw [List.mem_cons, not_or] at foreign
      cases before with
      | nil => simp [List.isPrefixOf, Ne.symm foreign.1]
      | cons b before => rw [List.cons_append, List.isPrefixOf, List.isPrefixOf, ih foreign.2]

theorem find_eq_some_iff :
    find piece text = some i ↔ Stands piece text i ∧ ∀ j < i, ¬ Stands piece text j := by
  induction text generalizing i with
  | nil =>
      rw [find, stands_nil]
      split
      next empty =>
        simp only [empty, true_and, Option.some.injEq]
        constructor
        · rintro rfl
          exact ⟨rfl, fun j less => absurd less j.not_lt_zero⟩
        · exact fun here => here.1.symm
      next some_ => simp [some_]
  | cons a rest ih =>
      rw [find]
      split
      next here =>
        have here : Stands piece (a :: rest) 0 := stands_zero.mpr (List.isPrefixOf_iff_prefix.mp here)
        constructor
        · rintro same
          obtain rfl := Option.some.inj same
          exact ⟨here, fun j less => absurd less j.not_lt_zero⟩
        · rintro ⟨-, first⟩
          cases i with
          | zero => rfl
          | succ i => exact absurd here (first 0 i.succ_pos)
      next away =>
        have away : ¬ Stands piece (a :: rest) 0 := fun here =>
          away (List.isPrefixOf_iff_prefix.mpr (stands_zero.mp here))
        cases i with
        | zero => simp [away]
        | succ i =>
            rw [Option.map_eq_some_iff, stands_succ]
            constructor
            · rintro ⟨i, found, same⟩
              obtain rfl := Nat.succ.inj same
              obtain ⟨here, first⟩ := ih.mp found
              refine ⟨here, fun j less => ?_⟩
              cases j with
              | zero => exact away
              | succ j => exact fun there => first j (Nat.lt_of_succ_lt_succ less) (stands_succ.mp there)
            · rintro ⟨here, first⟩
              exact ⟨i, ih.mpr ⟨here, fun j less there =>
                first (j + 1) (Nat.succ_lt_succ less) (stands_succ.mpr there)⟩, rfl⟩

theorem find_eq_none_iff : find piece text = none ↔ ∀ i, ¬ Stands piece text i := by
  constructor
  · intro none i here
    -- the least of the places would have been found
    classical
    have some_ : ∃ i, Stands piece text i := ⟨i, here⟩
    have found := find_eq_some_iff.mpr ⟨Nat.find_spec some_, fun j less => Nat.find_min some_ less⟩
    rw [none] at found
    cases found
  · intro nowhere
    cases found : find piece text with
    | none => rfl
    | some i => exact absurd (find_eq_some_iff.mp found).1 (nowhere i)

theorem rfind_spec :
    (∀ i, rfind piece text = some i → Stands piece text i ∧ ∀ j, i < j → ¬ Stands piece text j) ∧
      (rfind piece text = none → ∀ i, ¬ Stands piece text i) := by
  induction text with
  | nil =>
      rw [rfind]
      split
      next empty =>
        refine ⟨fun i same => ?_, nofun⟩
        obtain rfl := Option.some.inj same
        refine ⟨stands_nil.mpr ⟨empty, rfl⟩, fun j less there => ?_⟩
        obtain ⟨-, rfl⟩ := stands_nil.mp there
        exact absurd less (Nat.lt_irrefl 0)
      next some_ => exact ⟨nofun, fun _ i there => some_ (stands_nil.mp there).1⟩
  | cons a rest ih =>
      obtain ⟨later, nowhere⟩ := ih
      rw [rfind]
      cases found : rfind piece rest with
      | some k =>
          obtain ⟨here, last⟩ := later k found
          refine ⟨fun i same => ?_, nofun⟩
          obtain rfl := Option.some.inj same
          refine ⟨stands_succ.mpr here, fun j less there => ?_⟩
          cases j with
          | zero => exact absurd less (Nat.not_lt_zero _)
          | succ j => exact last j (Nat.lt_of_succ_lt_succ less) (stands_succ.mp there)
      | none =>
          have nowhere := nowhere found
          have only : ∀ j, 0 < j → ¬ Stands piece (a :: rest) j := by
            intro j positive there
            obtain ⟨j, rfl⟩ := Nat.exists_eq_succ_of_ne_zero positive.ne'
            exact nowhere j (stands_succ.mp there)
          change (∀ i, (if piece.isPrefixOf (a :: rest) then some 0 else none) = some i → _) ∧ _
          split
          next here =>
            refine ⟨fun i same => ?_, nofun⟩
            obtain rfl := Option.some.inj same
            exact ⟨stands_zero.mpr (List.isPrefixOf_iff_prefix.mp here), only⟩
          next away =>
            refine ⟨nofun, fun _ i there => ?_⟩
            cases i with
            | zero => exact away (List.isPrefixOf_iff_prefix.mpr (stands_zero.mp there))
            | succ i => exact only _ i.succ_pos there

theorem rfind_eq_some_iff :
    rfind piece text = some i ↔ Stands piece text i ∧ ∀ j, i < j → ¬ Stands piece text j := by
  refine ⟨rfind_spec.1 i, ?_⟩
  rintro ⟨here, last⟩
  cases found : rfind piece text with
  | none => exact absurd here (rfind_spec.2 found i)
  | some k =>
      obtain ⟨there, latest⟩ := rfind_spec.1 k found
      have same : k = i := by
        rcases Nat.lt_trichotomy k i with less | same | more
        · exact absurd here (latest i less)
        · exact same
        · exact absurd there (last k more)
      rw [same]

theorem rfind_eq_none_iff : rfind piece text = none ↔ ∀ i, ¬ Stands piece text i := by
  refine ⟨rfind_spec.2, fun nowhere => ?_⟩
  cases found : rfind piece text with
  | none => rfl
  | some i => exact absurd (rfind_spec.1 i found).1 (nowhere i)

end LocalHarness.Library.Find
