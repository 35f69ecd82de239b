import LocalHarness.Library.CodePoints

/-! # The lines of a text

A text ends its lines in more ways than one. What is written after a line end adds lines of its own and
changes none before it.
-/

namespace LocalHarness.Library.Str

/-- The characters `str.splitlines` cuts at. -/
def isLineEnd (c : CodePoint) : Bool :=
  (10 ≤ c.val && c.val ≤ 13) || (0x1C ≤ c.val && c.val ≤ 0x1E) || c.val = 0x85 || c.val = 0x2028 ||
    c.val = 0x2029

/-- `str.splitlines`: a line end at the end of the text begins no line. -/
def splitlines (s : Str) : List Str :=
  let parts := split isLineEnd (newlines s)
  if parts.getLast? = some [] then parts.dropLast else parts

variable {a b s : Str} {c : CodePoint} {sep : CodePoint → Bool} {p : Str → Bool}

attribute [local simp] split newlines

theorem split_ne_nil : split sep s ≠ [] := by
  cases s with
  | nil => exact List.cons_ne_nil _ _
  | cons c rest =>
      rw [split]
      split
      · exact List.cons_ne_nil _ _
      · split <;> exact List.cons_ne_nil _ _

theorem split_append (cut : sep c = true) : split sep (a ++ c :: b) = split sep a ++ split sep b := by
  induction a with
  | nil =>
      rw [List.nil_append]
      conv_lhs => rw [split, if_pos cut]
      rfl
  | cons d rest ih =>
      rw [List.cons_append, split, split, ih]
      split
      · rfl
      · have some_ : split sep rest ≠ [] := split_ne_nil
        obtain ⟨first, parts, shape⟩ := List.exists_cons_of_ne_nil some_
        rw [shape]
        rfl

theorem split_clean (clean : ∀ c ∈ s, sep c = false) : split sep s = [s] := by
  induction s with
  | nil => rfl
  | cons c rest ih =>
      obtain ⟨here, later⟩ := List.forall_mem_cons.mp clean
      rw [split, if_neg (Bool.eq_false_iff.mp here), ih later]

theorem newlines_plain (plain : c ≠ point '\r') : newlines (c :: s) = c :: newlines s := by
  rw [newlines.eq_def]
  exact if_neg plain

theorem newlines_pair : newlines (point '\r' :: point '\n' :: s) = point '\n' :: newlines s := by
  rw [newlines.eq_def]
  rfl

theorem newlines_return (other : c ≠ point '\n') :
    newlines (point '\r' :: c :: s) = point '\n' :: newlines (c :: s) := by
  rw [newlines.eq_def]
  exact if_neg other

theorem newlines_clean (clean : point '\r' ∉ s) : newlines s = s := by
  induction s with
  | nil => rfl
  | cons c rest ih =>
      rw [List.mem_cons, not_or] at clean
      rw [newlines_plain (Ne.symm clean.1), ih clean.2]

theorem return_not_mem_newlines : point '\r' ∉ newlines s := by
  fun_induction newlines s with
  | case1 => exact List.not_mem_nil
  | case2 => decide
  | case3 rest ih => exact List.not_mem_cons_of_ne_of_not_mem (by decide) ih
  | case4 d rest other ih => exact List.not_mem_cons_of_ne_of_not_mem (by decide) ih
  | case5 c rest other ih => exact List.not_mem_cons_of_ne_of_not_mem (Ne.symm other) ih

theorem splitlines_newlines : splitlines (newlines s) = splitlines s := by
  rw [splitlines, newlines_clean return_not_mem_newlines, ← splitlines]

private theorem joined_cons {x y t : Str} {d : CodePoint}
    (joined : y = x ++ t ∨ ∃ n, x = n ++ [d] ∧ y = n ++ t) :
    c :: y = c :: x ++ t ∨ ∃ n, c :: x = n ++ [d] ∧ c :: y = n ++ t := by
  rcases joined with rfl | ⟨n, rfl, rfl⟩
  · exact .inl rfl
  · exact .inr ⟨c :: n, rfl, rfl⟩

/-- A line end goes with a carriage return before it, and stands by itself without one. -/
theorem newlines_append : newlines (a ++ point '\n' :: b) = newlines a ++ point '\n' :: newlines b ∨
    ∃ n, newlines a = n ++ [point '\n'] ∧
      newlines (a ++ point '\n' :: b) = n ++ point '\n' :: newlines b := by
  fun_induction newlines a with
  | case1 => exact .inl (newlines_plain (by decide))
  | case2 => exact .inr ⟨[], rfl, newlines_pair⟩
  | case3 rest ih =>
      rw [List.cons_append, List.cons_append, newlines_pair]
      exact joined_cons ih
  | case4 d rest other ih =>
      rw [List.cons_append, List.cons_append, newlines_return other, ← List.cons_append]
      exact joined_cons ih
  | case5 c rest other ih =>
      rw [List.cons_append, newlines_plain other]
      exact joined_cons ih

theorem find_splitlines (blank : p [] = false) :
    (splitlines s).find? p = (split isLineEnd (newlines s)).find? p := by
  unfold splitlines
  simp only
  split
  next last =>
    obtain ⟨front, shape⟩ := List.getLast?_eq_some_iff.mp last
    rw [shape, List.dropLast_concat, List.find?_append, List.find?_singleton, blank]
    simp
  next => rfl

/-- The first line of some kind is found in what stands before a line end, or else after it. -/
theorem find_lines_append (blank : p [] = false) :
    (splitlines (a ++ point '\n' :: b)).find? p =
      ((splitlines a).find? p).or ((splitlines b).find? p) := by
  rw [find_splitlines blank, find_splitlines blank, find_splitlines blank]
  rcases newlines_append (a := a) (b := b) with apart | ⟨n, shape, joined⟩
  · rw [apart, split_append rfl, List.find?_append]
  · rw [shape, joined, split_append rfl, List.find?_append]
    rw [split_append (b := []) rfl, List.find?_append]
    have none : (split isLineEnd []).find? p = none := by
      rw [split, List.find?_singleton, blank]
      rfl
    rw [none, Option.or_none]

/-- A line without a line end in it. -/
theorem splitlines_line (clean : ∀ c ∈ s, isLineEnd c = false) :
    splitlines (s ++ [point '\n']) = [s] := by
  have return_ : point '\r' ∉ s ++ [point '\n'] := by
    intro member
    rcases List.mem_append.mp member with inside | last
    · exact absurd (clean _ inside) (by decide)
    · exact absurd (List.mem_singleton.mp last) (by decide)
  have parts : split isLineEnd (s ++ [point '\n']) = [s, []] := by
    rw [split_append rfl, split_clean clean]
    rfl
  unfold splitlines
  rw [newlines_clean return_, parts]
  rfl

/-- The lines of a text have no line end in them. -/
theorem clean_of_mem_split {line : Str} (member : line ∈ split sep s) : ∀ c ∈ line, sep c = false := by
  induction s generalizing line with
  | nil =>
      rw [split, List.mem_singleton] at member
      rw [member]
      exact List.forall_mem_nil _
  | cons d rest ih =>
      have some_ : split sep rest ≠ [] := split_ne_nil
      obtain ⟨first, parts, shape⟩ := List.exists_cons_of_ne_nil some_
      rw [split] at member
      split at member
      next => exact (List.mem_cons.mp member).elim (fun empty => empty ▸ List.forall_mem_nil _) ih
      next plain =>
        rw [shape] at member ih
        rcases List.mem_cons.mp member with rfl | later
        · exact List.forall_mem_cons.mpr ⟨Bool.eq_false_iff.mpr plain, ih List.mem_cons_self⟩
        · exact ih (List.mem_cons_of_mem first later)

theorem clean_of_mem_splitlines {line : Str} (member : line ∈ splitlines s) :
    ∀ c ∈ line, isLineEnd c = false := by
  unfold splitlines at member
  simp only at member
  split at member
  next => exact clean_of_mem_split (List.dropLast_subset _ member)
  next => exact clean_of_mem_split member

/-- `"\n".join(lines)` -/
def joinLines : List Str → Str
  | [] => []
  | [line] => line
  | line :: next :: rest => line ++ point '\n' :: joinLines (next :: rest)

theorem split_joinLines {lines : List Str} (some_ : lines ≠ [])
    (clean : ∀ line ∈ lines, ∀ c ∈ line, isLineEnd c = false) :
    split isLineEnd (newlines (joinLines lines)) = lines := by
  induction lines with
  | nil => exact absurd rfl some_
  | cons line rest ih =>
      obtain ⟨here, later⟩ := List.forall_mem_cons.mp clean
      have return_ : point '\r' ∉ line := fun member => absurd (here _ member) (by decide)
      cases rest with
      | nil => rw [joinLines, newlines_clean return_, split_clean here]
      | cons next rest =>
          rcases newlines_append (a := line) (b := joinLines (next :: rest)) with apart | ⟨n, shape, -⟩
          · rw [joinLines, apart, newlines_clean return_, split_append rfl, split_clean here,
              ih (List.cons_ne_nil _ _) later]
            rfl
          · rw [newlines_clean return_] at shape
            have end_ : point '\n' ∈ line := shape ▸ List.mem_append_right n List.mem_cons_self
            exact absurd (here _ end_) (by decide)

/-- Lines are read back where each has a character and none a line end. -/
theorem splitlines_joinLines {lines : List Str} (some_ : ∀ line ∈ lines, line ≠ [])
    (clean : ∀ line ∈ lines, ∀ c ∈ line, isLineEnd c = false) :
    splitlines (joinLines lines) = lines := by
  by_cases none_ : lines = []
  · rw [none_]
    rfl
  · have last : lines.getLast? ≠ some [] := fun last => some_ [] (List.mem_of_getLast? last) rfl
    unfold splitlines
    rw [split_joinLines none_ clean]
    exact if_neg last

end LocalHarness.Library.Str
