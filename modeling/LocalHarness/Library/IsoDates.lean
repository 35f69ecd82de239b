import Mathlib.Algebra.Group.Nat.Defs
import Mathlib.Data.Char
import LocalHarness.Library.Lexical

/-! # Dates in digits

A month or a day of the calendar is written with its year first and with as many digits as any other, so
that the texts are in the order of the calendar, and the month of a day is the beginning of its text.
-/

namespace LocalHarness.Library.IsoDates

open LocalHarness.Library.Lexical

/-! ## Numbers of so many digits -/

/-- The last digits of a number, this many of them. -/
def field : Nat → Nat → List Char
  | 0, _ => []
  | width + 1, n => field width (n / 10) ++ [Nat.digitChar (n % 10)]

variable {width m n : Nat}

theorem length_field (width n : Nat) : (field width n).length = width := by
  induction width generalizing n with
  | zero => rfl
  | succ width ih => rw [field, List.length_append, ih, List.length_singleton]

theorem digitChar_lt_digitChar : ∀ m < 10, ∀ n < 10, m < n → Nat.digitChar m < Nat.digitChar n := by
  decide

theorem field_lt (less : m < n) (bound : n < 10 ^ width) : field width m < field width n := by
  induction width generalizing m n with
  | zero => omega
  | succ width ih =>
      rw [field, field, append_lt_append ((length_field ..).trans (length_field ..).symm)]
      rw [Nat.pow_succ] at bound
      by_cases same : m / 10 = n / 10
      · refine .inr ⟨by rw [same], List.cons_lt_cons_iff.mpr (.inl ?_)⟩
        exact digitChar_lt_digitChar _ (Nat.mod_lt _ (by omega)) _ (Nat.mod_lt _ (by omega)) (by omega)
      · exact .inl (ih (by omega) (by omega))

theorem field_lt_iff (m_lt : m < 10 ^ width) (n_lt : n < 10 ^ width) :
    field width m < field width n ↔ m < n := by
  refine ⟨fun less => ?_, fun less => field_lt less n_lt⟩
  by_contra other
  rcases Nat.lt_or_eq_of_le (Nat.le_of_not_lt other) with more | rfl
  · exact lt_irrefl _ (less.trans (field_lt more m_lt))
  · exact lt_irrefl _ less

theorem field_inj (m_lt : m < 10 ^ width) (n_lt : n < 10 ^ width) :
    field width m = field width n ↔ m = n := by
  refine ⟨fun same => ?_, fun same => by rw [same]⟩
  rcases Nat.lt_trichotomy m n with less | same' | more
  · exact absurd (same ▸ field_lt less n_lt) (lt_irrefl _)
  · exact same'
  · exact absurd (same ▸ field_lt more m_lt) (lt_irrefl _)

/-! ## Months and days -/

structure Month where
  year : Nat
  month : Nat
  year_lt : year < 10 ^ 4
  month_pos : 0 < month
  month_le : month ≤ 12
  deriving DecidableEq

def leap (year : Nat) : Bool :=
  year % 4 == 0 && (year % 100 != 0 || year % 400 == 0)

/-- How many days a month has. -/
def Month.length (m : Month) : Nat :=
  if m.month = 2 then if leap m.year then 29 else 28
  else if m.month ∈ [4, 6, 9, 11] then 30 else 31

structure Date extends Month where
  day : Nat
  day_pos : 0 < day
  day_le : day ≤ toMonth.length
  deriving DecidableEq

/-- `YYYY-MM` -/
def Month.text (m : Month) : List Char :=
  field 4 m.year ++ '-' :: field 2 m.month

/-- `YYYY-MM-DD` -/
def Date.text (d : Date) : List Char :=
  d.toMonth.text ++ '-' :: field 2 d.day

def Month.Before (a b : Month) : Prop :=
  a.year < b.year ∨ a.year = b.year ∧ a.month < b.month

def Date.Before (a b : Date) : Prop :=
  a.toMonth.Before b.toMonth ∨ a.toMonth = b.toMonth ∧ a.day < b.day

variable (a b : Month) (c d : Date)

theorem Month.length_text : a.text.length = 7 := by
  rw [Month.text, List.length_append, List.length_cons, length_field, length_field]

theorem Date.length_text : c.text.length = 10 := by
  rw [Date.text, List.length_append, List.length_cons, Month.length_text, length_field]

theorem Month.length_le : a.length ≤ 31 := by
  unfold Month.length
  split_ifs <;> omega

theorem Date.day_lt : c.day < 10 ^ 2 := by
  have := c.day_le
  have := c.toMonth.length_le
  omega

/-- The texts of months are in the order of the calendar. -/
theorem Month.text_lt_text : a.text < b.text ↔ a.Before b := by
  have a_lt : a.month < 10 ^ 2 := by have := a.month_le; omega
  have b_lt : b.month < 10 ^ 2 := by have := b.month_le; omega
  rw [Month.text, Month.text, append_lt_append ((length_field ..).trans (length_field ..).symm),
    List.cons_lt_cons_iff, field_lt_iff a.year_lt b.year_lt, field_inj a.year_lt b.year_lt,
    field_lt_iff a_lt b_lt, Month.Before]
  simp only [lt_irrefl, false_or, true_and]

theorem Month.text_inj : a.text = b.text ↔ a = b := by
  refine ⟨fun same => ?_, fun same => by rw [same]⟩
  have a_lt : a.month < 10 ^ 2 := by have := a.month_le; omega
  have b_lt : b.month < 10 ^ 2 := by have := b.month_le; omega
  obtain ⟨years, rest⟩ := List.append_inj same ((length_field ..).trans (length_field ..).symm)
  have year := (field_inj a.year_lt b.year_lt).mp years
  have month := (field_inj a_lt b_lt).mp (List.cons.inj rest).2
  cases a
  cases b
  subst year
  subst month
  rfl

/-- The texts of days are in the order of the calendar. -/
theorem Date.text_lt_text : c.text < d.text ↔ c.Before d := by
  rw [Date.text, Date.text, append_lt_append ((Month.length_text _).trans (Month.length_text _).symm),
    List.cons_lt_cons_iff, Month.text_lt_text, Month.text_inj, field_lt_iff c.day_lt d.day_lt, Date.Before]
  simp only [lt_irrefl, false_or, true_and]

theorem Date.take_text : c.text.take 7 = c.toMonth.text := by
  rw [Date.text, List.take_left' (Month.length_text _)]

end LocalHarness.Library.IsoDates
