import Mathlib.Data.List.Induction
import Mathlib.Data.List.Perm.Basic

/-! # The newest entry of a kind

Entries come one after the other, each later than those before it. Of those that meet a property
the last one is the newest, in whatever order the entries are listed.
-/

namespace LocalHarness.Library

variable {α : Type} {earlier : α → α → Prop} {p q : α → Prop} {entries : List α} {a b x : α}

/-- An entry that meets the property, every other that does being earlier. -/
structure Newest (earlier : α → α → Prop) (p : α → Prop) (entries : List α) (a : α) : Prop where
  mem : a ∈ entries
  meets : p a
  last : ∀ b ∈ entries, p b → b = a ∨ earlier b a

theorem Newest.unique (asymm : ∀ a b, earlier a b → ¬ earlier b a)
    (first : Newest earlier p entries a) (second : Newest earlier p entries b) : a = b := by
  rcases second.last a first.mem first.meets with same | before
  · exact same
  · rcases first.last b second.mem second.meets with same | after
    · exact same.symm
    · exact absurd after (asymm a b before)

@[simp] theorem not_newest_nil : ¬ Newest earlier p [] a :=
  fun newest => List.not_mem_nil newest.mem

theorem newest_congr (same : ∀ b ∈ entries, p b ↔ q b) :
    Newest earlier p entries a ↔ Newest earlier q entries a := by
  constructor
  · rintro ⟨mem, meets, last⟩
    exact ⟨mem, (same a mem).mp meets, fun b inside met => last b inside ((same b inside).mpr met)⟩
  · rintro ⟨mem, meets, last⟩
    exact ⟨mem, (same a mem).mpr meets, fun b inside met => last b inside ((same b inside).mp met)⟩

theorem newest_perm {others : List α} (same : entries.Perm others) :
    Newest earlier p entries a ↔ Newest earlier p others a := by
  constructor
  · rintro ⟨mem, meets, last⟩
    exact ⟨same.mem_iff.mp mem, meets, fun b inside => last b (same.mem_iff.mpr inside)⟩
  · rintro ⟨mem, meets, last⟩
    exact ⟨same.mem_iff.mpr mem, meets, fun b inside => last b (same.mem_iff.mp inside)⟩

/-- An entry later than all others is the newest of any kind it is of. -/
theorem newest_concat (asymm : ∀ a b, earlier a b → ¬ earlier b a)
    (later : ∀ b ∈ entries, earlier b x) (meets : p x) :
    Newest earlier p (entries ++ [x]) a ↔ a = x := by
  have newest : Newest earlier p (entries ++ [x]) x := by
    refine ⟨List.mem_append_right _ (List.mem_singleton_self x), meets, fun b inside _ => ?_⟩
    rcases List.mem_append.mp inside with before | here
    · exact .inr (later b before)
    · exact .inl (List.mem_singleton.mp here)
  exact ⟨fun other => other.unique asymm newest, fun same => same ▸ newest⟩

/-- An entry of another kind changes nothing. -/
theorem newest_concat_of_not (misses : ¬ p x) :
    Newest earlier p (entries ++ [x]) a ↔ Newest earlier p entries a := by
  constructor
  · rintro ⟨mem, meets, last⟩
    refine ⟨?_, meets, fun b inside => last b (List.mem_append_left _ inside)⟩
    rcases List.mem_append.mp mem with before | here
    · exact before
    · exact absurd (List.mem_singleton.mp here ▸ meets) misses
  · rintro ⟨mem, meets, last⟩
    refine ⟨List.mem_append_left _ mem, meets, fun b inside met => ?_⟩
    rcases List.mem_append.mp inside with before | here
    · exact last b before met
    · exact absurd (List.mem_singleton.mp here ▸ met) misses

/-- Of entries in their order, one is the newest of a kind that any is of. -/
theorem exists_newest (ordered : entries.Pairwise earlier) (some_ : ∃ b ∈ entries, p b) :
    ∃ a, Newest earlier p entries a := by
  induction entries using List.reverseRecOn with
  | nil =>
      obtain ⟨b, inside, -⟩ := some_
      cases inside
  | append_singleton front x ih =>
      obtain ⟨sorted, -, later⟩ := List.pairwise_append.mp ordered
      by_cases meets : p x
      · refine ⟨x, List.mem_append_right _ (List.mem_singleton_self x), meets, fun b inside _ => ?_⟩
        rcases List.mem_append.mp inside with before | here
        · exact .inr (later b before x (List.mem_singleton_self x))
        · exact .inl (List.mem_singleton.mp here)
      · obtain ⟨b, inside, met⟩ := some_
        rcases List.mem_append.mp inside with before | here
        · obtain ⟨a, newest⟩ := ih sorted ⟨b, before, met⟩
          exact ⟨a, (newest_concat_of_not meets).mpr newest⟩
        · exact absurd (List.mem_singleton.mp here ▸ met) meets

end LocalHarness.Library
