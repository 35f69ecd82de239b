import LocalHarness.Library.Find

/-! # What is taken off at the ends -/

namespace LocalHarness.Library.Trim

open LocalHarness.Library.Find

variable {α : Type} {p : α → Bool} {s front back : List α}

/-- The text between its first and its last character of another kind. -/
def trim (p : α → Bool) (s : List α) : List α :=
  (s.dropWhile p).rdropWhile p

theorem trim_append_left (taken : ∀ c ∈ front, p c = true) : trim p (front ++ s) = trim p s := by
  rw [trim, List.dropWhile_append_of_pos taken, ← trim]

theorem trim_append_right (taken : ∀ c ∈ back, p c = true) : trim p (s ++ back) = trim p s := by
  have gone : back.dropWhile p = [] := List.dropWhile_eq_nil_iff.mpr taken
  have gone' : ∀ c ∈ back.reverse, p c = true := fun c member => taken c (List.mem_reverse.mp member)
  rw [trim, trim, List.dropWhile_append]
  split
  next none => rw [gone, List.isEmpty_iff.mp none]
  next => rw [List.rdropWhile, List.rdropWhile, List.reverse_append, List.dropWhile_append_of_pos gone']

theorem trim_between (p : α → Bool) (s : List α) : ∃ front back, s = front ++ trim p s ++ back ∧
    (∀ c ∈ front, p c = true) ∧ ∀ c ∈ back, p c = true := by
  refine ⟨s.takeWhile p, (s.dropWhile p).rtakeWhile p, ?_, fun c => List.mem_takeWhile_imp,
    fun c => List.mem_rtakeWhile_imp⟩
  rw [List.append_assoc, trim, List.rdropWhile_append_rtakeWhile, List.takeWhile_append_dropWhile]

theorem trim_trim (p : α → Bool) (s : List α) : trim p (trim p s) = trim p s := by
  obtain ⟨front, back, shape, taken, taken'⟩ := trim_between p s
  conv_rhs => rw [shape, trim_append_right taken', trim_append_left taken]

/-- The ends may be taken off in either order. -/
theorem trim_swap (p : α → Bool) (s : List α) : (s.rdropWhile p).dropWhile p = trim p s := by
  by_cases all : ∀ c ∈ s, p c = true
  · have none_ : s.dropWhile p = [] := List.dropWhile_eq_nil_iff.mpr all
    have none' : s.rdropWhile p = [] := List.rdropWhile_eq_nil_iff.mpr all
    rw [trim, none_, none']
    rfl
  · push Not at all
    obtain ⟨c, member, kept⟩ := all
    have kept := Bool.eq_false_iff.mpr kept
    obtain ⟨before, after, rfl⟩ := List.append_of_mem member
    rw [trim, rdropWhile_stop kept, dropWhile_stop kept, dropWhile_stop kept, rdropWhile_stop kept]

/-- A text stays as it is where neither end is taken off. -/
theorem trim_eq_iff : trim p s = s ↔
    (∀ c ∈ s.head?, p c = false) ∧ ∀ c ∈ s.getLast?, p c = false := by
  have first_iff : s.dropWhile p = s ↔ ∀ c ∈ s.head?, p c = false := dropWhile_eq_iff
  have last_iff : s.rdropWhile p = s ↔ ∀ c ∈ s.getLast?, p c = false := rdropWhile_eq_iff
  rw [← first_iff, ← last_iff]
  constructor
  · intro same
    have first : s.dropWhile p = s := by
      refine List.IsSuffix.eq_of_length (List.dropWhile_suffix p) ?_
      have shorter := (List.rdropWhile_prefix p (l := s.dropWhile p)).length_le
      rw [← trim, same] at shorter
      exact Nat.le_antisymm (List.dropWhile_suffix p).length_le shorter
    refine ⟨first, ?_⟩
    rw [trim, first] at same
    exact same
  · rintro ⟨first, last⟩
    rw [trim, first, last]

/-- A run of one kind ends where another begins. -/
theorem span_append (run : ∀ c ∈ front, p c = true) (stop : ∀ c ∈ s.head?, p c = false) :
    (front ++ s).takeWhile p = front ∧ (front ++ s).dropWhile p = s := by
  rw [List.takeWhile_append_of_pos run, List.dropWhile_append_of_pos run]
  cases s with
  | nil => exact ⟨List.append_nil front, rfl⟩
  | cons c rest =>
      have stop : ¬ p c = true := Bool.eq_false_iff.mp (stop c rfl)
      rw [List.takeWhile_cons_of_neg stop, List.dropWhile_cons_of_neg stop, List.append_nil]
      exact ⟨rfl, rfl⟩

theorem head_cons {a : α} (stop : p a = false) : ∀ c ∈ (a :: s).head?, p c = false := by
  intro c same
  obtain rfl := Option.some.inj same
  exact stop

theorem head_append (first : ∀ c ∈ front, p c = false) (next : ∀ c ∈ s.head?, p c = false) :
    ∀ c ∈ (front ++ s).head?, p c = false := by
  cases front with
  | nil => exact next
  | cons d rest => exact head_cons (first d List.mem_cons_self)

end LocalHarness.Library.Trim
