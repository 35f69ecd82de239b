import Mathlib.Data.List.Basic

/-! # Texts with the matches of an expression cut out

An expression is given by how far it matches at a place: what is right before the place, and what is
from there on. Its matches are cut out from the left, none inside another. A match in what is left had
something cut out of it or right before it, as it would have been cut out otherwise.
-/

namespace LocalHarness.Library.Cutting

universe u

variable {α : Type u} (hit : Option α → List α → Option Nat)

/-- Each character and whether it is cut out, when the first so many are in a match already. -/
def marksFrom : Nat → Option α → List α → List (α × Bool)
  | _, _, [] => []
  | within + 1, _, c :: rest => (c, true) :: marksFrom within (some c) rest
  | 0, before, c :: rest =>
      match hit before (c :: rest) with
      | some n => (c, true) :: marksFrom (n - 1) (some c) rest
      | none => (c, false) :: marksFrom 0 (some c) rest

def marks (s : List α) : List (α × Bool) :=
  marksFrom hit 0 none s

def kept (marked : List (α × Bool)) : List α :=
  (marked.filter fun mark => !mark.2).map Prod.fst

/-- `re.sub` with nothing put in. -/
def sub (s : List α) : List α :=
  kept (marks hit s)

/-- `re.search` finds something. -/
def Finds (s : List α) : Prop :=
  ∃ front back, s = front ++ back ∧ (hit front.getLast? back).isSome = true

/-- What is left of a stretch is a match, and of the stretch something is cut out. -/
def Nested (s : List α) : Prop :=
  ∃ front stretch back, marks hit s = front ++ (stretch ++ back) ∧ (∃ mark ∈ stretch, mark.2 = true) ∧
    (hit (kept front).getLast? (kept stretch)).isSome = true

/-- An expression that takes a character at least, and sees no further than what it takes. -/
structure Ahead : Prop where
  empty : ∀ before, hit before [] = none
  longer : ∀ {before l} more, (hit before l).isSome = true → (hit before (l ++ more)).isSome = true
  enough : ∀ {before l n}, hit before l = some n → (hit before (l.take n)).isSome = true

@[simp] theorem kept_nil : kept ([] : List (α × Bool)) = [] := rfl

@[simp] theorem kept_append (a b : List (α × Bool)) : kept (a ++ b) = kept a ++ kept b := by
  simp [kept]

@[simp] theorem kept_cons_false (c : α) (rest : List (α × Bool)) :
    kept ((c, false) :: rest) = c :: kept rest := rfl

@[simp] theorem kept_cons_true (c : α) (rest : List (α × Bool)) :
    kept ((c, true) :: rest) = kept rest := rfl

variable {hit} {s : List α}

theorem map_fst_marksFrom (within : Nat) (before : Option α) (s : List α) :
    (marksFrom hit within before s).map Prod.fst = s := by
  induction s generalizing within before with
  | nil => cases within <;> rfl
  | cons c rest ih =>
      cases within with
      | zero =>
          rw [marksFrom]
          split <;> rw [List.map_cons, ih]
      | succ within => rw [marksFrom, List.map_cons, ih]

theorem last_or_cons (c : α) (l : List α) (before : Option α) :
    l.getLast?.or (some c) = (c :: l).getLast?.or before := by
  rw [List.getLast?_cons]
  cases l.getLast? <;> rfl

/-- A character that is kept is at a place where nothing matches. -/
theorem missed {front back : List (α × Bool)} {c : α} {within : Nat} {before : Option α}
    (shape : marksFrom hit within before s = front ++ (c, false) :: back) :
    hit ((front.map Prod.fst).getLast?.or before) (c :: back.map Prod.fst) = none := by
  induction s generalizing within before front with
  | nil =>
      have none_ : marksFrom hit within before [] = [] := by cases within <;> rfl
      rw [none_] at shape
      cases front <;> cases shape
  | cons d rest ih =>
      have later : ∀ {within' : Nat} {mark : α × Bool} {more : List (α × Bool)}, mark.1 = d →
          marksFrom hit within' (some d) rest = more ++ (c, false) :: back → front = mark :: more →
          hit ((front.map Prod.fst).getLast?.or before) (c :: back.map Prod.fst) = none := by
        intro within' mark more same shape' front'
        have found := ih shape'
        rwa [front', List.map_cons, same, ← last_or_cons]
      cases within with
      | succ within =>
          rw [marksFrom] at shape
          cases front with
          | nil => cases (List.cons.inj shape).1
          | cons mark more =>
              obtain ⟨here, shape'⟩ := List.cons.inj shape
              exact later (by rw [← here]) shape' rfl
      | zero =>
          rw [marksFrom] at shape
          cases front with
          | nil =>
              cases found : hit before (d :: rest) with
              | some n =>
                  rw [found] at shape
                  cases (List.cons.inj shape).1
              | none =>
                  rw [found] at shape
                  obtain ⟨here, rfl⟩ := List.cons.inj shape
                  obtain rfl := (Prod.mk.inj here).1
                  rwa [map_fst_marksFrom]
          | cons mark more =>
              split at shape
              all_goals
                obtain ⟨here, shape'⟩ := List.cons.inj shape
                exact later (by rw [← here]) shape' rfl

theorem sub_of_not_finds (none_ : ¬ Finds hit s) : sub hit s = s := by
  have each : ∀ (front back : List α), s = front ++ back →
      marksFrom hit 0 front.getLast? back = back.map fun c => (c, false) := by
    intro front back
    induction back generalizing front with
    | nil => exact fun _ => rfl
    | cons c rest ih =>
        intro shape
        have missed : hit front.getLast? (c :: rest) = none := by
          by_contra found
          exact none_ ⟨front, c :: rest, shape, Option.isSome_iff_ne_none.mpr found⟩
        have later := ih (front ++ [c]) (by rw [shape, List.append_assoc, List.singleton_append])
        rw [List.getLast?_concat] at later
        rw [marksFrom, missed, List.map_cons, ← later]
  rw [sub, marks, kept]
  have all := each [] s rfl
  rw [List.getLast?_nil] at all
  rw [all, List.filter_map, List.map_map]
  exact (List.map_id _).trans (List.filter_eq_self.mpr fun _ _ => rfl)

/-- What is kept cuts where its marks do, with no mark of a match at the end of the first part. -/
theorem exists_split {marked : List (α × Bool)} {x y : List α} (shape : kept marked = x ++ y) :
    ∃ a b, marked = a ++ b ∧ kept a = x ∧ kept b = y ∧ ∀ mark ∈ a.getLast?, mark.2 = false := by
  induction x generalizing marked with
  | nil => exact ⟨[], marked, rfl, rfl, shape, fun _ none_ => by cases none_⟩
  | cons c x ih =>
      induction marked with
      | nil => cases shape
      | cons mark rest ih' =>
          obtain ⟨d, cut⟩ := mark
          cases cut with
          | true =>
              obtain ⟨a, b, rfl, left, right, last⟩ := ih' shape
              refine ⟨(d, true) :: a, b, rfl, left, right, fun mark ends => last mark ?_⟩
              cases a with
              | nil => cases left
              | cons first more => rwa [List.getLast?_cons_cons] at ends
          | false =>
              obtain ⟨rfl, shape'⟩ := List.cons.inj shape
              obtain ⟨a, b, rfl, left, right, last⟩ := ih shape'
              refine ⟨(d, false) :: a, b, rfl, congrArg (d :: ·) left, right, fun mark ends => ?_⟩
              cases a with
              | nil =>
                  obtain rfl := Option.some.inj ends
                  rfl
              | cons first more =>
                  rw [List.getLast?_cons_cons] at ends
                  exact last mark ends

theorem last_kept {marked : List (α × Bool)} (last : ∀ mark ∈ marked.getLast?, mark.2 = false) :
    (kept marked).getLast? = (marked.map Prod.fst).getLast? := by
  rcases List.eq_nil_or_concat marked with rfl | ⟨front, ⟨c, cut⟩, rfl⟩
  · rfl
  · rw [List.concat_eq_append] at last ⊢
    obtain rfl : cut = false := last (c, cut) List.getLast?_concat
    rw [kept_append, kept_cons_false, kept_nil, List.map_append, List.map_cons,
      List.map_nil, List.getLast?_concat, List.getLast?_concat]

theorem map_fst_of_kept {marked : List (α × Bool)} (all : ∀ mark ∈ marked, mark.2 = false) :
    marked.map Prod.fst = kept marked := by
  rw [kept, List.filter_eq_self.mpr fun mark member => by rw [all mark member]; rfl]

/-- A match is left exactly where a match has something cut out of it or right before it. -/
theorem finds_sub_iff (ahead : Ahead hit) : Finds hit (sub hit s) ↔ Nested hit s := by
  constructor
  · rintro ⟨front, back, shape, found⟩
    obtain ⟨n, took⟩ := Option.isSome_iff_exists.mp found
    obtain ⟨a, b, shape', left, right, last⟩ := exists_split shape
    have right' : kept b = back.take n ++ back.drop n := right.trans (List.take_append_drop n back).symm
    obtain ⟨stretch, rest, rfl, left', right'', -⟩ := exists_split right'
    refine ⟨a, stretch, rest, shape', ?_, by rw [left, left']; exact ahead.enough took⟩
    -- with nothing cut out of it, the match would have been found at its place in the text
    by_contra whole
    have all : ∀ mark ∈ stretch, mark.2 = false := by
      intro mark member
      by_contra cut
      exact whole ⟨mark, member, by simpa using cut⟩
    cases stretch with
    | nil =>
        have none_ := ahead.enough took
        rw [← left', kept_nil, ahead.empty] at none_
        cases none_
    | cons mark more =>
        obtain ⟨c, cut⟩ := mark
        obtain rfl : cut = false := all (c, cut) List.mem_cons_self
        rw [List.cons_append] at shape'
        have missed := missed shape'
        rw [← last_kept last, left, Option.or_none, List.map_append, ← List.cons_append] at missed
        have whole_ : c :: more.map Prod.fst = back.take n := by
          rw [← left', ← map_fst_of_kept all]
          rfl
        have again := ahead.longer (rest.map Prod.fst) (ahead.enough took)
        rw [← whole_, missed] at again
        cases again
  · rintro ⟨front, stretch, back, shape, -, found⟩
    refine ⟨kept front, kept stretch ++ kept back, ?_, ahead.longer (kept back) found⟩
    rw [sub, shape, kept_append, kept_append]

end LocalHarness.Library.Cutting
