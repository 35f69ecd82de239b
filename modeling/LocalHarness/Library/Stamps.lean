import Mathlib.Algebra.Order.Field.Basic
import Mathlib.Algebra.Order.Ring.Rat
import Mathlib.Tactic.Linarith
import LocalHarness.Library.IsoDates

/-! # Moments in ISO 8601

A day, or a time of day with the zone it is told in. The texts of moments are in the order of time where they
are written alike, with one zone and as many decimals; they are not where they differ in these.
-/

namespace LocalHarness.Library.Stamps

open LocalHarness.Library.IsoDates LocalHarness.Library.Lexical

/-! ## Days -/

/-- How many days there are before a year, from the year 0 on. -/
def daysBefore : Nat → Nat
  | 0 => 0
  | year + 1 => daysBefore year + 365 + if leap year then 1 else 0

def monthLength (leap : Bool) (month : Nat) : Nat :=
  if month = 2 then if leap then 29 else 28 else if month ∈ [4, 6, 9, 11] then 30 else 31

/-- How many days of a year there are before a month. -/
def daysToMonth (leap : Bool) (month : Nat) : Nat :=
  [0, 31, 59, 90, 120, 151, 181, 212, 243, 273, 304, 334].getD (month - 1) 0 +
    if leap && decide (2 < month) then 1 else 0

def ordinal (d : Date) : Nat :=
  daysBefore d.year + daysToMonth (leap d.year) d.month + d.day

theorem daysToMonth_lt : ∀ leap : Bool, ∀ m < 13, ∀ n < 13, 0 < m → m < n →
    daysToMonth leap m + monthLength leap m ≤ daysToMonth leap n := by
  decide

theorem daysToMonth_le : ∀ leap : Bool, ∀ m < 13, 0 < m →
    daysToMonth leap m + monthLength leap m ≤ 365 + if leap then 1 else 0 := by
  decide

theorem daysBefore_mono {y z : Nat} (le : y ≤ z) : daysBefore y ≤ daysBefore z := by
  induction le with
  | refl => exact Nat.le_refl _
  | step _ ih =>
      rw [daysBefore, Nat.add_assoc]
      exact ih.trans (Nat.le_add_right _ _)

/-- Days are numbered in the order of the calendar. -/
theorem ordinal_lt_of_before {c d : Date} (before : c.Before d) : ordinal c < ordinal d := by
  have c_le : c.day ≤ monthLength (leap c.year) c.month := c.day_le
  have d_pos := d.day_pos
  have whole := daysToMonth_le (leap c.year) c.month (by have := c.month_le; omega) c.month_pos
  unfold ordinal
  rcases before with (year | ⟨year, month⟩) | ⟨months, day⟩
  · have years := daysBefore_mono (Nat.succ_le_of_lt year)
    rw [Nat.succ_eq_add_one, daysBefore] at years
    omega
  · have later := daysToMonth_lt (leap c.year) c.month (by have := c.month_le; omega) d.month
      (by have := d.month_le; omega) c.month_pos month
    rw [← year]
    omega
  · have year : c.year = d.year := congrArg Month.year months
    have month : c.month = d.month := congrArg Month.month months
    rw [year, month]
    omega

theorem before_trichotomy (c d : Date) : c.Before d ∨ c = d ∨ d.Before c := by
  obtain ⟨⟨cy, cm, _, _, _⟩, cd, _, _⟩ := c
  obtain ⟨⟨dy, dm, _, _, _⟩, dd, _, _⟩ := d
  simp only [Date.Before, Month.Before, Date.mk.injEq, Month.mk.injEq]
  omega

theorem ordinal_lt_iff {c d : Date} : ordinal c < ordinal d ↔ c.Before d := by
  refine ⟨fun less => ?_, ordinal_lt_of_before⟩
  rcases before_trichotomy c d with before | rfl | after
  · exact before
  · exact absurd less (Nat.lt_irrefl _)
  · exact absurd (ordinal_lt_of_before after) (Nat.not_lt_of_lt less)

theorem ordinal_inj {c d : Date} : ordinal c = ordinal d ↔ c = d := by
  refine ⟨fun same => ?_, fun same => by rw [same]⟩
  rcases before_trichotomy c d with before | same' | after
  · exact absurd (ordinal_lt_of_before before) (by omega)
  · exact same'
  · exact absurd (ordinal_lt_of_before after) (by omega)

theorem text_inj {c d : Date} : c.text = d.text ↔ c = d := by
  refine ⟨fun same => ?_, fun same => by rw [same]⟩
  rcases before_trichotomy c d with before | same' | after
  · exact absurd (same ▸ Date.text_lt_text c d |>.mpr before) (lt_irrefl _)
  · exact same'
  · exact absurd (same ▸ Date.text_lt_text d c |>.mpr after) (lt_irrefl _)

/-! ## Times of day -/

/-- A time of day, with decimals of a second where there are any. -/
structure Clock where
  hour : Nat
  minute : Nat
  second : Nat
  places : Nat
  fraction : Nat
  hour_lt : hour < 24
  minute_lt : minute < 60
  second_lt : second < 60
  fraction_lt : fraction < 10 ^ places

/-- `Z`, or how far the clocks of a zone are ahead or behind. -/
inductive Zone
  | utc
  | off (behind : Bool) (hours : Fin 24) (minutes : Fin 60)
  deriving DecidableEq

namespace Clock

/-- `hh:mm:ss`, with the decimals. -/
def text (c : Clock) : List Char :=
  field 2 c.hour ++ ':' :: (field 2 c.minute ++ ':' :: (field 2 c.second ++
    if c.places = 0 then [] else '.' :: field c.places c.fraction))

/-- The seconds since midnight. -/
def seconds (c : Clock) : ℚ :=
  (c.hour * 60 + c.minute) * 60 + c.second + c.fraction / 10 ^ c.places

end Clock

namespace Zone

def text : Zone → List Char
  | utc => ['Z']
  | off behind hours minutes => (if behind then '-' else '+') :: (field 2 hours ++ ':' :: field 2 minutes)

/-- How many seconds ahead of UTC its clocks are. -/
def offset : Zone → ℚ
  | utc => 0
  | off behind hours minutes => (if behind then -1 else 1) * ((hours * 60 + minutes) * 60)

end Zone

/-- A number and a digit in front of another number and digit. -/
theorem place_lt_iff {a b x y k : Nat} (x_lt : x < k) (y_lt : y < k) :
    a * k + x < b * k + y ↔ a < b ∨ a = b ∧ x < y := by
  rcases Nat.lt_trichotomy a b with less | rfl | more
  · have grows : (a + 1) * k ≤ b * k := Nat.mul_le_mul_right k less
    rw [Nat.succ_mul] at grows
    exact iff_of_true (by omega) (.inl less)
  · simp
  · have grows : (b + 1) * k ≤ a * k := Nat.mul_le_mul_right k more
    rw [Nat.succ_mul] at grows
    refine iff_of_false (by omega) ?_
    rintro (less | ⟨rfl, -⟩) <;> omega

namespace Clock

variable {c d : Clock}

/-- The decimals of a second since midnight. -/
def count (c : Clock) : Nat :=
  ((c.hour * 60 + c.minute) * 60 + c.second) * 10 ^ c.places + c.fraction

theorem count_lt (c : Clock) : c.count < 86400 * 10 ^ c.places := by
  have whole : (c.hour * 60 + c.minute) * 60 + c.second + 1 ≤ 86400 := by
    have := c.hour_lt
    have := c.minute_lt
    have := c.second_lt
    omega
  have grows := Nat.mul_le_mul_right (10 ^ c.places) whole
  rw [Nat.succ_mul] at grows
  have := c.fraction_lt
  rw [count]
  omega

theorem seconds_eq (c : Clock) : c.seconds = c.count / 10 ^ c.places := by
  have pos : (10 : ℚ) ^ c.places ≠ 0 := pow_ne_zero _ (by decide)
  rw [seconds, count, eq_div_iff pos, add_mul, div_mul_cancel₀ _ pos]
  push_cast
  rfl

theorem field_two_lt {m n : Nat} (m_lt : m < 60) (n_lt : n < 60) (x y : List Char) :
    field 2 m ++ x < field 2 n ++ y ↔ m < n ∨ m = n ∧ x < y := by
  have m_lt : m < 10 ^ 2 := by omega
  have n_lt : n < 10 ^ 2 := by omega
  rw [append_lt_append ((length_field ..).trans (length_field ..).symm), field_lt_iff m_lt n_lt,
    field_inj m_lt n_lt]

theorem cons_lt_same (sign : Char) (x y : List Char) : sign :: x < sign :: y ↔ x < y := by
  rw [List.cons_lt_cons_iff]
  simp

theorem decimals_lt_iff (same : c.places = d.places) (rest : List Char) :
    (if c.places = 0 then [] else '.' :: field c.places c.fraction) ++ rest <
      (if d.places = 0 then [] else '.' :: field d.places d.fraction) ++ rest ↔ c.fraction < d.fraction := by
  have c_lt := c.fraction_lt
  have d_lt := d.fraction_lt
  rw [← same] at d_lt ⊢
  split
  next none_ =>
    rw [none_, Nat.pow_zero] at c_lt d_lt
    exact iff_of_false (lt_irrefl _) (by omega)
  next =>
    rw [List.cons_append, List.cons_append, cons_lt_same,
      append_lt_append ((length_field ..).trans (length_field ..).symm), field_lt_iff c_lt d_lt]
    simp

/-- Times with as many decimals are written in their order, whatever follows them both. -/
theorem text_lt_iff (same : c.places = d.places) (rest : List Char) :
    c.text ++ rest < d.text ++ rest ↔ c.count < d.count := by
  have c_hour := c.hour_lt
  have d_hour := d.hour_lt
  have d_fraction := d.fraction_lt
  simp only [text, List.append_assoc, List.cons_append]
  rw [field_two_lt (by omega) (by omega), cons_lt_same, field_two_lt c.minute_lt d.minute_lt, cons_lt_same,
    field_two_lt c.second_lt d.second_lt, decimals_lt_iff same]
  rw [← same] at d_fraction
  rw [count, count, ← same, place_lt_iff c.fraction_lt d_fraction, place_lt_iff c.second_lt d.second_lt,
    place_lt_iff c.minute_lt d.minute_lt]
  have := c.minute_lt
  have := d.minute_lt
  have := c.second_lt
  have := d.second_lt
  omega

end Clock

/-! ## Moments -/

/-- A day, which stands for its first moment in UTC, or a time of a day. -/
structure Stamp where
  date : Date
  time : Option (Clock × Zone)

namespace Stamp

def text (s : Stamp) : List Char :=
  s.date.text ++ s.time.elim [] fun (clock, zone) => 'T' :: (clock.text ++ zone.text)

/-- What the clocks show, in seconds. -/
def reading (s : Stamp) : ℚ :=
  ordinal s.date * 86400 + s.time.elim 0 fun (clock, _) => clock.seconds

def offset (s : Stamp) : ℚ :=
  s.time.elim 0 fun (_, zone) => zone.offset

/-- The moment that is meant, in seconds of UTC. -/
def instant (s : Stamp) : ℚ :=
  s.reading - s.offset

/-- Two moments are written alike. -/
def Alike (s t : Stamp) : Prop :=
  s.time.map (fun (clock, zone) => (clock.places, zone)) = t.time.map fun (clock, zone) => (clock.places, zone)

end Stamp

namespace Stamp

variable {s t : Stamp}

/-- Moments that are written alike are in the order of their texts. -/
theorem text_lt_iff (alike : s.Alike t) : s.text < t.text ↔ s.instant < t.instant := by
  obtain ⟨d, time⟩ := s
  obtain ⟨e, time'⟩ := t
  have dates (x y : List Char) : d.text ++ x < e.text ++ y ↔ ordinal d < ordinal e ∨ ordinal d = ordinal e ∧ x < y := by
    rw [append_lt_append ((Date.length_text _).trans (Date.length_text _).symm), Date.text_lt_text, ordinal_lt_iff,
      ordinal_inj, text_inj]
  cases time with
  | none =>
      cases time' with
      | some => cases alike
      | none =>
          rw [text, text, dates]
          simp [instant, reading, offset]
  | some moment =>
      obtain ⟨c, zone⟩ := moment
      cases time' with
      | none => cases alike
      | some moment' =>
          obtain ⟨c', zone'⟩ := moment'
          obtain ⟨places, rfl⟩ := Prod.mk.inj (Option.some.inj alike)
          simp only [text, Option.elim_some]
          rw [dates, Clock.cons_lt_same, Clock.text_lt_iff places]
          have c_lt := c.count_lt
          have c'_lt := c'.count_lt
          have pos : (0 : ℚ) < 10 ^ c.places := pow_pos (by norm_num) _
          have whole (o : Nat) (c' : Clock) (same : c.places = c'.places) : (o * 86400 + c'.seconds : ℚ) =
              (o * (86400 * 10 ^ c.places) + c'.count : Nat) / 10 ^ c.places := by
            rw [Clock.seconds_eq, ← same, eq_div_iff pos.ne', add_mul, div_mul_cancel₀ _ pos.ne']
            push_cast
            rw [mul_assoc]
          rw [← places] at c'_lt
          rw [← place_lt_iff c_lt c'_lt]
          simp only [instant, reading, offset, Option.elim_some]
          rw [whole _ c rfl, whole _ c' places, sub_lt_sub_iff_right, div_lt_div_iff_of_pos_right pos, Nat.cast_lt]

end Stamp

end LocalHarness.Library.Stamps
