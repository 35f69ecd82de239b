import LocalHarness.Checks.Code

/-! # Code in a fence

The pattern of a fence allows letters after the ticks, and white space after these. A line with any
other character there opens no fence, and the ticks below the code are then taken for an opening.
-/

namespace LocalHarness.Checks.Code

open LocalHarness.Library
open LocalHarness.Library.Find
open LocalHarness.Checks.Extract

variable {u : Unicode} {before info body after s front back : List Char}

/-! ## White space at the ends -/

theorem strip_append_left (spaces : ∀ c ∈ front, Text.isSpace c = true) :
    strip (front ++ s) = strip s := by
  rw [strip, List.dropWhile_append_of_pos spaces, ← strip]

theorem strip_append_right (spaces : ∀ c ∈ back, Text.isSpace c = true) :
    strip (s ++ back) = strip s := by
  have gone : back.dropWhile Text.isSpace = [] := List.dropWhile_eq_nil_iff.mpr spaces
  have gone' : ∀ c ∈ back.reverse, Text.isSpace c = true := fun c member =>
    spaces c (List.mem_reverse.mp member)
  rw [strip, strip, List.dropWhile_append]
  split
  next none => rw [gone, List.isEmpty_iff.mp none]
  next => rw [List.rdropWhile, List.rdropWhile, List.reverse_append, List.dropWhile_append_of_pos gone']

/-- A text is what `strip` leaves, between spaces. -/
theorem strip_between (s : List Char) : ∃ front back, s = front ++ strip s ++ back ∧
    (∀ c ∈ front, Text.isSpace c = true) ∧ ∀ c ∈ back, Text.isSpace c = true := by
  refine ⟨s.takeWhile Text.isSpace, (s.dropWhile Text.isSpace).rtakeWhile Text.isSpace, ?_,
    fun c => List.mem_takeWhile_imp, fun c => List.mem_rtakeWhile_imp⟩
  rw [List.append_assoc, strip, List.rdropWhile_append_rtakeWhile, List.takeWhile_append_dropWhile]

theorem strip_strip (s : List Char) : strip (strip s) = strip s := by
  obtain ⟨front, back, shape, spaces, spaces'⟩ := strip_between s
  conv_rhs => rw [shape, strip_append_right spaces', strip_append_left spaces]

theorem not_space_of_mem_ticks {c : Char} (member : c ∈ TICKS) : Text.isSpace c = false := by
  obtain rfl : c = '`' := by simpa [TICKS] using member
  rfl

theorem ticks_of_append_left (spaces : ∀ c ∈ front, Text.isSpace c = true)
    (inside : TICKS <:+: front ++ s) : TICKS <:+: s := by
  induction front with
  | nil => exact inside
  | cons c rest ih =>
      obtain ⟨space, spaces⟩ := List.forall_mem_cons.mp spaces
      have foreign : c ∉ TICKS := fun member => by
        rw [not_space_of_mem_ticks member] at space
        cases space
      have inside : TICKS <:+: [] ++ c :: (rest ++ s) := inside
      rcases infix_cut foreign inside with none | rest
      · exact absurd (List.infix_nil.mp none) (List.cons_ne_nil _ _)
      · exact ih spaces rest

theorem ticks_of_append_right (spaces : ∀ c ∈ back, Text.isSpace c = true)
    (inside : TICKS <:+: s ++ back) : TICKS <:+: s := by
  cases back with
  | nil => rwa [List.append_nil] at inside
  | cons c rest =>
      obtain ⟨space, spaces⟩ := List.forall_mem_cons.mp spaces
      have foreign : c ∉ TICKS := fun member => by
        rw [not_space_of_mem_ticks member] at space
        cases space
      rcases infix_cut foreign inside with here | later
      · exact here
      · have none : TICKS <:+: [] := ticks_of_append_left spaces (by rwa [List.append_nil])
        exact absurd (List.infix_nil.mp none) (List.cons_ne_nil _ _)

theorem ticks_strip : TICKS <:+: strip s ↔ TICKS <:+: s := by
  obtain ⟨front, back, shape, spaces, spaces'⟩ := strip_between s
  constructor
  · intro inside
    rw [shape]
    exact inside.trans ⟨front, back, rfl⟩
  · intro inside
    rw [shape] at inside
    exact ticks_of_append_left spaces (ticks_of_append_right spaces' inside)

/-! ## The line of the fence -/

/-- What the pattern allows after the ticks: letters of ASCII, and white space after them. -/
def Recognised (info : List Char) : Prop :=
  ∀ c ∈ info.dropWhile Char.isAlpha, Text.isSpace c = true

instance : Decidable (Recognised info) :=
  decidable_of_iff ((info.dropWhile Char.isAlpha).all Text.isSpace = true) List.all_eq_true

theorem dropWhile_line {p : Char → Bool} (stop : p '\n' = false) (s : List Char) :
    (info ++ '\n' :: s).dropWhile p = info.dropWhile p ++ '\n' :: s := by
  rw [List.dropWhile_append]
  split
  next none =>
    rw [List.dropWhile_cons_of_neg (Bool.eq_false_iff.mp stop), List.isEmpty_iff.mp none,
      List.nil_append]
  next => rfl

/-- On a line with anything else the ticks open no fence. -/
theorem fenceAt_unrecognised (line : '\n' ∉ info) (other : ¬ Recognised info) :
    fenceAt (TICKS ++ (info ++ '\n' :: s)) = none := by
  obtain ⟨c, member, solid⟩ : ∃ c ∈ info.dropWhile Char.isAlpha, ¬ Text.isSpace c = true := by
    simpa [Recognised] using other
  obtain ⟨spaces, rest, shape⟩ := List.append_of_mem member
  have blank : '\n' ∉ ((info ++ '\n' :: s).dropWhile Char.isAlpha).takeWhile Text.isSpace := by
    intro inside
    rw [dropWhile_line rfl, shape, List.append_assoc, List.takeWhile_append] at inside
    have within : '\n' ∈ spaces := by
      split at inside
      · rw [List.cons_append, List.takeWhile_cons_of_neg solid, List.append_nil] at inside
        exact inside
      · exact (List.takeWhile_sublist _).subset inside
    exact line ((List.dropWhile_sublist _).subset (shape ▸ List.mem_append_left _ within))
  unfold fenceAt
  split
  · rw [List.drop_left]
    exact if_neg blank
  · rfl

/-- The ticks below the code are the first after it. -/
theorem find_close (plain : ¬ TICKS <:+: body) (part : body ++ ['\n'] = front ++ s) :
    find TICKS (s ++ (TICKS ++ after)) = some s.length := by
  refine find_eq_some_iff.mpr ⟨⟨s, after, by simp, rfl⟩, fun j less here => ?_⟩
  rcases List.eq_nil_or_concat s with rfl | ⟨code, last, rfl⟩
  · exact absurd less j.not_lt_zero
  · rw [List.concat_eq_append] at part less here
    rw [← List.append_assoc] at part
    obtain ⟨rfl, same⟩ := List.append_inj' part rfl
    obtain rfl := List.singleton_inj.mp same
    rw [List.append_assoc, List.singleton_append] at here
    rcases stands_cut (by decide) here with within | ⟨k, rfl, -⟩
    · exact plain ((infix_iff.mpr ⟨j, within⟩).trans (List.suffix_append _ _).isInfix)
    · rw [List.length_append, List.length_singleton] at less
      omega

/-- White space at the start ends before the ticks do. -/
theorem code_of_cut (spaces : ∀ c ∈ front, Text.isSpace c = true)
    (cut : front ++ s = body ++ '\n' :: (TICKS ++ after)) :
    ∃ g, body ++ ['\n'] = front ++ g ∧ s = g ++ (TICKS ++ after) := by
  rw [List.append_cons] at cut
  rcases List.append_eq_append_iff.mp cut with ⟨g, code, here⟩ | ⟨more, rfl, shape⟩
  · exact ⟨g, code, here⟩
  · cases more with
    | nil => exact ⟨[], by rw [List.append_nil, List.append_nil], shape.symm⟩
    | cons c more =>
        obtain ⟨rfl, -⟩ := List.cons.inj shape
        have space := spaces '`' (List.mem_append_right _ List.mem_cons_self)
        cases space

/-- A fence that is recognised holds the code, less some of the space before it. -/
theorem fenceAt_recognised (known : Recognised info) (plain : ¬ TICKS <:+: body) :
    ∃ g, fenceAt (TICKS ++ (info ++ '\n' :: (body ++ '\n' :: (TICKS ++ after)))) = some g ∧
      strip g = strip body := by
  set rest := body ++ '\n' :: (TICKS ++ after) with restDef
  have blank : ((info ++ '\n' :: rest).dropWhile Char.isAlpha).takeWhile Text.isSpace =
      info.dropWhile Char.isAlpha ++ '\n' :: rest.takeWhile Text.isSpace := by
    rw [dropWhile_line rfl, List.takeWhile_append_of_pos known, List.takeWhile_cons_of_pos rfl]
  have solid : ((info ++ '\n' :: rest).dropWhile Char.isAlpha).dropWhile Text.isSpace =
      rest.dropWhile Text.isSpace := by
    rw [dropWhile_line rfl, List.dropWhile_append_of_pos known, List.dropWhile_cons_of_pos rfl]
  -- the part that is searched for the closing ticks starts after the last line end of the space
  set inside := (rest.takeWhile Text.isSpace).rtakeWhile (· ≠ '\n') ++ rest.dropWhile Text.isSpace
  have cut : (rest.takeWhile Text.isSpace).rdropWhile (· ≠ '\n') ++ inside = rest := by
    rw [← List.append_assoc, List.rdropWhile_append_rtakeWhile, List.takeWhile_append_dropWhile]
  have spaces : ∀ c ∈ (rest.takeWhile Text.isSpace).rdropWhile (· ≠ '\n'),
      Text.isSpace c = true := fun c member =>
    List.mem_takeWhile_imp ((List.rdropWhile_prefix _ _).subset member)
  obtain ⟨g, code, here⟩ := code_of_cut spaces cut
  refine ⟨g, ?_, ?_⟩
  · unfold fenceAt
    rw [if_pos (List.isPrefixOf_iff_prefix.mpr (List.prefix_append _ _)), List.drop_left]
    simp only [blank, solid]
    rw [if_pos (List.mem_append_right _ List.mem_cons_self), rtakeWhile_stop rfl]
    change (find TICKS inside).map (fun i => inside.take i) = some g
    rw [here, find_close plain code, Option.map_some, List.take_left]
  · rw [← strip_append_left spaces, ← code]
    exact strip_append_right (List.forall_mem_singleton.mpr rfl)

/-! ## The reply -/

/-- The code between the lines of a fence, with prose before and after it. -/
def reply (before info body after : List Char) : List Char :=
  before ++ (TICKS ++ (info ++ '\n' :: (body ++ '\n' :: (TICKS ++ after))))

/-- No other ticks are in the reply, and the line of the fence is one line. -/
structure Fenced (before info body after : List Char) : Prop where
  before : ¬ TICKS <:+: before
  ticks : '`' ∉ info
  line : '\n' ∉ info
  body : ¬ TICKS <:+: body
  after : ¬ TICKS <:+: after

theorem fence_recognised (fenced : Fenced before info body after) (known : Recognised info) :
    ∃ g, fence (reply before info body after) = some g ∧ strip g = strip body := by
  obtain ⟨g, found, same⟩ : ∃ g, fenceAt (TICKS ++
      (info ++ '\n' :: (body ++ '\n' :: (TICKS ++ after)))) = some g ∧ strip g = strip body :=
    fenceAt_recognised known fenced.body
  refine ⟨g, ?_, same⟩
  rw [reply, fence_skip fenced.before]
  unfold TICKS at found ⊢
  rw [List.cons_append, fence, ← List.cons_append, found, Option.some_or]

theorem fence_unrecognised (fenced : Fenced before info body after) (other : ¬ Recognised info) :
    fence (reply before info body after) = none := by
  -- past the first tick there is prose up to the ticks below the code
  have prose : ¬ TICKS <:+: ['`', '`'] ++ (info ++ '\n' :: (body ++ ['\n'])) := by
    intro inside
    rw [← List.append_assoc] at inside
    rcases infix_cut (by decide) inside with opening | code
    · obtain ⟨c, rest, rfl⟩ : ∃ c rest, info = c :: rest := by
        cases info with
        | nil => exact absurd (List.forall_mem_nil _) other
        | cons c rest => exact ⟨c, rest, rfl⟩
      have plain : c ∉ TICKS := fun member =>
        fenced.ticks (List.eq_of_mem_replicate (n := 3) member ▸ List.mem_cons_self)
      rcases infix_cut plain opening with short | rest
      · exact absurd short.length_le (by decide)
      · exact fenced.ticks (List.mem_cons_of_mem c (rest.subset (by decide)))
    · rcases infix_cut (by decide) code with here | none
      · exact fenced.body here
      · exact absurd (List.infix_nil.mp none) (List.cons_ne_nil _ _)
  have later : fence (['`', '`'] ++ (info ++ '\n' :: (body ++ ['\n'])) ++ (TICKS ++ after)) =
      fence (TICKS ++ after) := fence_skip prose
  rw [fence_of_last fenced.after] at later
  rw [reply, fence_skip fenced.before]
  have first := fenceAt_unrecognised (s := body ++ '\n' :: (TICKS ++ after)) fenced.line other
  have shape : TICKS ++ (info ++ '\n' :: (body ++ '\n' :: (TICKS ++ after))) =
      '`' :: (['`', '`'] ++ (info ++ '\n' :: (body ++ ['\n'])) ++ (TICKS ++ after)) := by
    simp [TICKS]
  rw [shape] at first ⊢
  rw [fence, first, later, Option.none_or]

theorem recover_eq (u : Unicode) (s : List Char) : recover u s = strip (searched s) := rfl

/-- The code comes out of its fence where the pattern allows for the line of the fence, and nowhere
else. -/
theorem unfenced_iff (u : Unicode) (fenced : Fenced before info body after) :
    (strip (recover u (reply before info body after)) = strip body ∧
      strip (recover u body) = strip body) ↔ Recognised info := by
  have bare : strip (recover u body) = strip body := by
    rw [recover_eq, searched, fence_of_plain fenced.body, Option.getD_none, strip_strip]
  constructor
  · rintro ⟨same, -⟩
    by_contra other
    rw [recover_eq, searched, fence_unrecognised fenced other, Option.getD_none, strip_strip] at same
    have ticks : TICKS <:+: reply before info body after :=
      ⟨before, info ++ '\n' :: (body ++ '\n' :: (TICKS ++ after)), by simp [reply]⟩
    rw [← ticks_strip, same, ticks_strip] at ticks
    exact fenced.body ticks
  · intro known
    obtain ⟨g, found, same⟩ := fence_recognised fenced known
    refine ⟨?_, bare⟩
    rw [recover_eq, searched, found, Option.getD_some, strip_strip, same]

theorem recovers_python :
    strip (recover Unicode.small (reply "Here:\n".toList "python".toList "x = 1".toList [])) =
        strip "x = 1".toList ∧
      strip (recover Unicode.small "x = 1".toList) = strip "x = 1".toList :=
  (unfenced_iff Unicode.small ⟨by decide, by decide, by decide, by decide, by decide⟩).mpr
    (by decide)

/-- With a digit after the name of the language the whole reply passes for code. -/
theorem python3_left_in_fence :
    Fenced "Here:\n".toList "python3".toList "x = 1".toList [] ∧
      strip (recover Unicode.small (reply "Here:\n".toList "python3".toList "x = 1".toList [])) =
        "Here:\n```python3\nx = 1\n```".toList ∧
      strip (recover Unicode.small (reply "Here:\n".toList "python3".toList "x = 1".toList [])) ≠
        strip "x = 1".toList :=
  ⟨⟨by decide, by decide, by decide, by decide, by decide⟩, by decide, by decide⟩

end LocalHarness.Checks.Code
