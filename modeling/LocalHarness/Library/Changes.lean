import Mathlib.Data.Finmap
import Mathlib.Data.Finset.Card

/-! # What changed between two sets of results

Two tables hold results by key, and a test says which of them passed. On the keys both hold
a result is lost, gained or unchanged; the three counts add up to the keys they share.
-/

namespace LocalHarness.Library.Changes

universe u v

variable {κ : Type u} [DecidableEq κ] {α : Type v} (passed : α → Bool)

def shared (before after : Finmap fun _ : κ => α) : Finset κ :=
  before.keys ∩ after.keys

def lost (before after : Finmap fun _ : κ => α) : Finset κ :=
  (shared before after).filter fun key =>
    (before.lookup key).map passed = some true ∧ (after.lookup key).map passed = some false

def gained (before after : Finmap fun _ : κ => α) : Finset κ :=
  (shared before after).filter fun key =>
    (before.lookup key).map passed = some false ∧ (after.lookup key).map passed = some true

theorem lost_add_gained_le (before after : Finmap fun _ : κ => α) :
    (lost passed before after).card + (gained passed before after).card ≤
      (shared before after).card := by
  have apart : Disjoint (lost passed before after) (gained passed before after) := by
    rw [Finset.disjoint_left]
    intro key dropped won
    have was := (Finset.mem_filter.mp dropped).2.1
    have not_ := (Finset.mem_filter.mp won).2.1
    rw [was] at not_
    cases not_
  rw [← Finset.card_union_of_disjoint apart]
  exact Finset.card_le_card (Finset.union_subset (Finset.filter_subset _ _) (Finset.filter_subset _ _))

theorem lost_of_apart {before after : Finmap fun _ : κ => α} (apart : shared before after = ∅) :
    lost passed before after = ∅ := by
  rw [lost, apart, Finset.filter_empty]

theorem gained_of_apart {before after : Finmap fun _ : κ => α} (apart : shared before after = ∅) :
    gained passed before after = ∅ := by
  rw [gained, apart, Finset.filter_empty]

end LocalHarness.Library.Changes
