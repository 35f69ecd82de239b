import Mathlib.Data.List.Basic
import Mathlib.Data.List.Zip

/-! # Every row of a dataset

The rows are read a page at a time. A server may answer with fewer rows than it was asked for, but the next
page is asked for as if it had not, so that every row is read exactly where every page is full or the last.
-/

namespace LocalHarness.Benchmarks.Rows

variable {ρ : Type}

/-- An answer of the rows server, each row with its index. -/
structure Page (ρ : Type) where
  numRowsTotal : Option Nat
  rows : Option (List (Nat × ρ))

def Page.got (page : Page ρ) : List (Nat × ρ) :=
  page.rows.getD []

def PAGE : Nat := 100

/-- `_each_row`: all that it yields, or nothing if so many rounds are not enough. -/
def eachRow (rows : Nat → Nat → Page ρ) : Nat → Nat → Option Nat → Option (List (Nat × ρ))
  | 0, _, _ => none
  | fuel + 1, offset, total =>
      if total.all (offset < ·) then
        let page := rows offset PAGE
        let total := page.numRowsTotal.getD 0
        if page.got.isEmpty then some []
        else (eachRow rows fuel (offset + PAGE) (some total)).map (page.got ++ ·)
      else some []

/-! ## What a server answers -/

/-- The rows of a dataset with their indices. -/
def numbered (data : List ρ) : List (Nat × ρ) :=
  data.zipIdx.map Prod.swap

@[simp]
theorem numbered_length (data : List ρ) : (numbered data).length = data.length := by
  simp [numbered]

/-- A server of a dataset answers with the rows from an offset on, one at least while there are any and no
more than it is asked for, and knows how many there are. -/
structure Server (data : List ρ) where
  rows : Nat → Nat → Page ρ
  count : Nat → Nat → Nat
  total : ∀ offset length, (rows offset length).numRowsTotal = some data.length
  consecutive : ∀ offset length,
    (rows offset length).got = ((numbered data).drop offset).take (count offset length)
  most : ∀ offset length, count offset length ≤ length
  least : ∀ offset length, offset < data.length → 0 < length → 0 < count offset length

variable {data : List ρ} (server : Server data) {fuel offset : Nat} {total : Option Nat}

/-- The page has as many rows as are asked for, or all that are left. -/
def Full (server : Server data) (offset : Nat) : Prop :=
  (server.rows offset PAGE).got.length = min PAGE (data.length - offset)

namespace Server

theorem got_sublist (offset : Nat) :
    (server.rows offset PAGE).got.Sublist (((numbered data).drop offset).take PAGE) := by
  rw [server.consecutive]
  exact List.take_sublist_take_left (server.most offset PAGE)

theorem got_nonempty (inside : offset < data.length) : (server.rows offset PAGE).got.isEmpty = false := by
  have some_row := server.least offset PAGE inside (by decide)
  rw [server.consecutive, List.isEmpty_eq_false_iff, ← List.length_pos_iff]
  simp only [List.length_take, List.length_drop, numbered_length]
  omega

theorem got_outside (outside : data.length ≤ offset) : (server.rows offset PAGE).got = [] := by
  rw [server.consecutive, List.drop_eq_nil_of_le (by simpa using outside), List.take_nil]

theorem got_eq_iff :
    (server.rows offset PAGE).got = ((numbered data).drop offset).take PAGE ↔ Full server offset := by
  have length : (((numbered data).drop offset).take PAGE).length = min PAGE (data.length - offset) := by simp
  constructor
  · intro same
    rw [Full, same, length]
  · intro full
    exact (server.got_sublist offset).eq_of_length (full.trans length.symm)

end Server

/-! ## The pages one after another -/

theorem append_eq_append_iff_of_sublist {a b x y : List ρ} (left : a.Sublist x) (right : b.Sublist y) :
    a ++ b = x ++ y ↔ a = x ∧ b = y := by
  constructor
  · intro same
    have lengths := congrArg List.length same
    have first := left.length_le
    have second := right.length_le
    simp only [List.length_append] at lengths
    exact ⟨left.eq_of_length (by omega), right.eq_of_length (by omega)⟩
  · rintro ⟨rfl, rfl⟩
    rfl

/-- The total in hand is the one that every page restates, or none before the first page. -/
def Known (data : List ρ) (total : Option Nat) : Prop :=
  total = none ∨ total = some data.length

theorem eachRow_outside (known : Known data total) (outside : data.length ≤ offset) :
    eachRow server.rows (fuel + 1) offset total = some [] := by
  rcases known with rfl | rfl
  · simp [eachRow, server.got_outside outside]
  · have past : decide (offset < data.length) = false := decide_eq_false (by omega)
    simp [eachRow, past]

theorem eachRow_inside (known : Known data total) (inside : offset < data.length) :
    eachRow server.rows (fuel + 1) offset total
      = (eachRow server.rows fuel (offset + PAGE) (some data.length)).map
          ((server.rows offset PAGE).got ++ ·) := by
  have asked : total.all (offset < ·) = true := by
    rcases known with rfl | rfl
    · rfl
    · simpa using inside
  simp [eachRow, asked, server.got_nonempty inside, server.total]

/-- Each round moves on by a page, so that the rounds come to an end. -/
theorem eachRow_returns (known : Known data total) (enough : data.length < fuel + offset) (some_fuel : 0 < fuel) :
    ∃ out, eachRow server.rows fuel offset total = some out := by
  induction fuel generalizing offset total with
  | zero => omega
  | succ fuel ih =>
      rcases Nat.lt_or_ge offset data.length with inside | outside
      · obtain ⟨out, returned⟩ := @ih (offset + PAGE) (some data.length) (.inr rfl) (by simp only [PAGE]; omega)
          (by omega)
        exact ⟨_, by rw [eachRow_inside server known inside, returned, Option.map_some]⟩
      · exact ⟨[], eachRow_outside server known outside⟩

theorem eachRow_sublist {out : List (Nat × ρ)} (known : Known data total)
    (returned : eachRow server.rows fuel offset total = some out) :
    out.Sublist ((numbered data).drop offset) := by
  induction fuel generalizing offset total out with
  | zero => cases returned
  | succ fuel ih =>
      rcases Nat.lt_or_ge offset data.length with inside | outside
      · rw [eachRow_inside server known inside] at returned
        obtain ⟨later, rest, rfl⟩ := Option.map_eq_some_iff.mp returned
        have sublist := (server.got_sublist offset).append (ih (.inr rfl) rest)
        rwa [← List.drop_drop, List.take_append_drop] at sublist
      · rw [eachRow_outside server known outside] at returned
        cases returned
        exact List.nil_sublist _

theorem eachRow_complete_iff {out : List (Nat × ρ)} (known : Known data total)
    (returned : eachRow server.rows fuel offset total = some out) :
    out = (numbered data).drop offset ↔ ∀ k, offset + k * PAGE < data.length → Full server (offset + k * PAGE) := by
  induction fuel generalizing offset total out with
  | zero => cases returned
  | succ fuel ih =>
      rcases Nat.lt_or_ge offset data.length with inside | outside
      · rw [eachRow_inside server known inside] at returned
        obtain ⟨later, rest, rfl⟩ := Option.map_eq_some_iff.mp returned
        have parts := append_eq_append_iff_of_sublist (server.got_sublist offset)
          (eachRow_sublist server (.inr rfl) rest)
        rw [← List.drop_drop, List.take_append_drop, server.got_eq_iff, List.drop_drop,
          ih (.inr rfl) rest] at parts
        rw [parts]
        constructor
        · rintro ⟨first, others⟩ k below
          cases k with
          | zero => simpa using first
          | succ k =>
              have shifted : offset + (k + 1) * PAGE = offset + PAGE + k * PAGE := by
                rw [Nat.succ_mul]
                omega
              rw [shifted] at below ⊢
              exact others k below
        · intro full
          refine ⟨by simpa using full 0 (by simpa using inside), fun k below => ?_⟩
          have shifted : offset + PAGE + k * PAGE = offset + (k + 1) * PAGE := by
            rw [Nat.succ_mul]
            omega
          rw [shifted] at below ⊢
          exact full (k + 1) below
      · rw [eachRow_outside server known outside] at returned
        cases returned
        rw [List.drop_eq_nil_of_le (by simpa using outside)]
        refine iff_of_true rfl fun k below => ?_
        omega

/-- Every row is read once and in order exactly where each page has a hundred rows or all that are left. -/
theorem each_row_read_iff {data : List ρ} (server : Server data) :
    (∃ fuel, eachRow server.rows fuel 0 none = some (numbered data)) ↔
      ∀ k, k * PAGE < data.length → Full server (k * PAGE) := by
  have known : Known data none := .inl rfl
  constructor
  · rintro ⟨fuel, returned⟩ k below
    have complete := (eachRow_complete_iff server known returned).mp rfl k
    rw [Nat.zero_add] at complete
    exact complete below
  · intro full
    obtain ⟨out, returned⟩ := @eachRow_returns _ _ server (data.length + 1) 0 none known (by omega) (by omega)
    have complete := (eachRow_complete_iff server known returned).mpr fun k below => by
      rw [Nat.zero_add] at below ⊢
      exact full k below
    exact ⟨_, complete ▸ returned⟩

/-- Two rows, from a server that sends one row at a time. -/
def oneByOne : Server ["first", "second"] where
  rows := fun offset length => ⟨some 2, some (((numbered _).drop offset).take (min 1 length))⟩
  count := fun _ length => min 1 length
  total := fun _ _ => rfl
  consecutive := fun _ _ => rfl
  most := fun _ => Nat.min_le_right 1
  least := fun _ _ _ asked => Nat.lt_min.mpr ⟨Nat.one_pos, asked⟩

theorem second_row_skipped : ¬ ∃ fuel, eachRow oneByOne.rows fuel 0 none = some (numbered ["first", "second"]) := by
  rintro ⟨fuel, returned⟩
  have full : Full oneByOne (0 + 0 * PAGE) := (eachRow_complete_iff oneByOne (.inl rfl) returned).mp rfl 0 (by decide)
  exact absurd full (by unfold Full; decide)

end LocalHarness.Benchmarks.Rows
