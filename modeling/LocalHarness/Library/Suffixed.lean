import Mathlib.Data.List.Basic

/-! # Labels with options written after them

A label is followed by its options, `label@key=value,key=value`, with nothing that marks the
label itself. Two of them are written the same when they are the same, or when the one label
runs on as the other's first option does.
-/

namespace LocalHarness.Library.Suffixed

universe u

variable {α : Type u} (mark sep eq : α)

def item (option : List α × List α) : List α :=
  option.1 ++ eq :: option.2

/-- The options after the first. -/
def more : List (List α × List α) → List α
  | [] => []
  | option :: rest => sep :: (item eq option ++ more rest)

def suffix : List (List α × List α) → List α
  | [] => []
  | option :: rest => mark :: (item eq option ++ more sep eq rest)

/-- No key holds the mark or the equals sign, and no option the separator. -/
structure Clean (options : List (List α × List α)) : Prop where
  noMark : ∀ option ∈ options, mark ∉ option.1
  noEq : ∀ option ∈ options, eq ∉ option.1
  noSep : ∀ option ∈ options, sep ∉ item eq option

/-- The label goes on as the first of the options is written. -/
def RunsOn (label : List α) (options : List (List α × List α)) (label' : List α)
    (options' : List (List α × List α)) : Prop :=
  ∃ key value rest ending, options = (key, value) :: rest ∧
    label' = label ++ mark :: (key ++ eq :: ending) ∧
      value ++ more sep eq rest = ending ++ suffix mark sep eq options'

variable {mark sep eq}

/-- A list is cut at its first separator in one way. -/
theorem cut_unique {a : α} {front front' back back' : List α} (clean : a ∉ front) (clean' : a ∉ front')
    (same : front ++ a :: back = front' ++ a :: back') : front = front' ∧ back = back' := by
  induction front generalizing front' with
  | nil =>
      cases front' with
      | nil => exact ⟨rfl, (List.cons.inj same).2⟩
      | cons c front' => exact absurd ((List.cons.inj same).1 ▸ List.mem_cons_self) clean'
  | cons c front ih =>
      cases front' with
      | nil => exact absurd ((List.cons.inj same).1 ▸ List.mem_cons_self) clean
      | cons c' front' =>
          obtain ⟨rfl, later⟩ := List.cons.inj same
          obtain ⟨rfl, backs⟩ := ih (fun member => clean (List.mem_cons_of_mem _ member))
            (fun member => clean' (List.mem_cons_of_mem _ member)) later
          exact ⟨rfl, backs⟩

theorem Clean.tail {option : List α × List α} {rest : List (List α × List α)}
    (clean : Clean mark sep eq (option :: rest)) : Clean mark sep eq rest where
  noMark := fun option member => clean.noMark option (List.mem_cons_of_mem _ member)
  noEq := fun option member => clean.noEq option (List.mem_cons_of_mem _ member)
  noSep := fun option member => clean.noSep option (List.mem_cons_of_mem _ member)

theorem more_cut {a b : List α} {rest rest' : List (List α × List α)} (cleanA : sep ∉ a)
    (cleanB : sep ∉ b) (same : a ++ more sep eq rest = b ++ more sep eq rest') :
    a = b ∧ more sep eq rest = more sep eq rest' := by
  cases rest with
  | nil =>
      cases rest' with
      | nil => simpa [more] using same
      | cons option' rest' =>
          rw [more, List.append_nil] at same
          exact absurd (same ▸ List.mem_append_right b List.mem_cons_self) cleanA
  | cons option rest =>
      cases rest' with
      | nil =>
          rw [more, more, List.append_nil] at same
          exact absurd (same ▸ List.mem_append_right a List.mem_cons_self) cleanB
      | cons option' rest' =>
          rw [more, more] at same
          obtain ⟨first, others⟩ := cut_unique cleanA cleanB same
          rw [more, more, others]
          exact ⟨first, rfl⟩

theorem item_injective {option option' : List α × List α} (clean : eq ∉ option.1)
    (clean' : eq ∉ option'.1) (same : item eq option = item eq option') : option = option' := by
  obtain ⟨keys, values⟩ := cut_unique clean clean' same
  exact Prod.ext keys values

theorem more_injective {options options' : List (List α × List α)} (clean : Clean mark sep eq options)
    (clean' : Clean mark sep eq options') (same : more sep eq options = more sep eq options') :
    options = options' := by
  induction options generalizing options' with
  | nil =>
      cases options' with
      | nil => rfl
      | cons option' rest' => cases same
  | cons option rest ih =>
      cases options' with
      | nil => cases same
      | cons option' rest' =>
          rw [more, more, List.cons.injEq] at same
          obtain ⟨items, others⟩ := more_cut (clean.noSep option List.mem_cons_self)
            (clean'.noSep option' List.mem_cons_self) same.2
          have first := item_injective (clean.noEq option List.mem_cons_self)
            (clean'.noEq option' List.mem_cons_self) items
          rw [first, ih clean.tail clean'.tail others]

theorem suffix_injective {options options' : List (List α × List α)}
    (clean : Clean mark sep eq options) (clean' : Clean mark sep eq options')
    (same : suffix mark sep eq options = suffix mark sep eq options') : options = options' := by
  cases options with
  | nil =>
      cases options' with
      | nil => rfl
      | cons option' rest' => cases same
  | cons option rest =>
      cases options' with
      | nil => cases same
      | cons option' rest' =>
          rw [suffix, suffix, List.cons.injEq] at same
          exact more_injective clean clean' (congrArg (List.cons sep) same.2)

theorem RunsOn.written {label label' : List α} {options options' : List (List α × List α)}
    (runs : RunsOn mark sep eq label options label' options') :
    label ++ suffix mark sep eq options = label' ++ suffix mark sep eq options' := by
  obtain ⟨key, value, rest, ending, rfl, rfl, same⟩ := runs
  simp only [suffix, item, List.append_assoc, List.cons_append, same]

theorem RunsOn.longer {label label' : List α} {options options' : List (List α × List α)}
    (runs : RunsOn mark sep eq label options label' options') : label.length < label'.length := by
  obtain ⟨key, value, rest, ending, rfl, rfl, same⟩ := runs
  simp

/-- What follows a label, when it is not the options, is how the first of them begins. -/
theorem runsOn_of_suffix {label extra : List α} {options options' : List (List α × List α)}
    (clean : Clean mark sep eq options) (apart : mark ≠ eq) (some_ : extra ≠ [])
    (same : suffix mark sep eq options = extra ++ suffix mark sep eq options') :
    RunsOn mark sep eq label options (label ++ extra) options' := by
  cases options with
  | nil =>
      rw [suffix] at same
      exact absurd (List.append_eq_nil_iff.mp same.symm).1 some_
  | cons option rest =>
      obtain ⟨key, value⟩ := option
      obtain ⟨first, extra, rfl⟩ := List.exists_cons_of_ne_nil some_
      rw [suffix, List.cons_append, List.cons.injEq, item, List.append_assoc] at same
      obtain ⟨rfl, same⟩ := same
      have keyClean := clean.noMark (key, value) List.mem_cons_self
      -- The key ends before the mark that another option would begin with.
      obtain ⟨more_, rfl, after⟩ | ⟨cut, keyed, after⟩ := List.append_eq_append_iff.mp same
      · cases more_ with
        | nil =>
            cases options' with
            | nil => cases after
            | cons option' rest' => exact absurd (List.cons.inj after).1.symm apart
        | cons c ending =>
            obtain ⟨rfl, values⟩ := List.cons.inj after
            exact ⟨key, value, rest, ending, rfl, rfl, values⟩
      · cases cut with
        | nil =>
            cases options' with
            | nil => cases after
            | cons option' rest' => exact absurd (List.cons.inj after).1 apart
        | cons c cut =>
            cases options' with
            | nil => cases after
            | cons option' rest' =>
                obtain ⟨rfl, -⟩ := List.cons.inj after
                exact absurd (keyed ▸ List.mem_append_right extra List.mem_cons_self) keyClean

/-- Two labels with their options are written the same exactly where they are the same or one
    label runs on as the options of the other. -/
theorem written_eq_iff {label label' : List α} {options options' : List (List α × List α)}
    (clean : Clean mark sep eq options) (clean' : Clean mark sep eq options') (apart : mark ≠ eq) :
    label ++ suffix mark sep eq options = label' ++ suffix mark sep eq options' ↔
      (label = label' ∧ options = options') ∨ RunsOn mark sep eq label options label' options' ∨
        RunsOn mark sep eq label' options' label options := by
  constructor
  · intro same
    obtain ⟨extra, rfl, after⟩ | ⟨extra, rfl, after⟩ := List.append_eq_append_iff.mp same
    · by_cases none : extra = []
      · subst none
        exact .inl ⟨(List.append_nil label).symm, suffix_injective clean clean' after⟩
      · exact .inr (.inl (runsOn_of_suffix clean apart none after))
    · by_cases none : extra = []
      · subst none
        exact .inl ⟨List.append_nil label', (suffix_injective clean' clean after).symm⟩
      · exact .inr (.inr (runsOn_of_suffix clean' apart none after))
  · rintro (⟨rfl, rfl⟩ | runs | runs)
    · rfl
    · exact runs.written
    · exact runs.written.symm

end LocalHarness.Library.Suffixed
