import Mathlib.Algebra.BigOperators.Group.List.Basic
import Mathlib.Algebra.GroupWithZero.Nat
import Mathlib.Data.List.Count
import Mathlib.Data.List.Dedup
import Mathlib.Data.List.Nodup
import Mathlib.Data.List.Sort

/-! # Counting votes

The values of a list by how often they occur, and the one that occurs most often, where a
single one does. Neither the count nor the winner depends on the order of the list.
-/

namespace LocalHarness.Library.Tally

universe u

variable {α : Type u} [DecidableEq α]

/-- The values of a list, each once, in the order they are first met. -/
def firsts (values : List α) : List α :=
  values.reverse.dedup.reverse

/-- The values with their counts, the most frequent first. -/
def mostCommon (values : List α) : List (α × Nat) :=
  ((firsts values).map fun value => (value, values.count value)).insertionSort fun a b => b.2 ≤ a.2

/-- The value that occurs more often than every other. -/
def plurality (values : List α) : Option α :=
  match mostCommon values with
  | [] => none
  | [first] => some first.1
  | first :: second :: _ => if first.2 = second.2 then none else some first.1

theorem mem_mostCommon {values : List α} {entry : α × Nat} :
    entry ∈ mostCommon values ↔ entry.1 ∈ values ∧ entry.2 = values.count entry.1 := by
  obtain ⟨value, n⟩ := entry
  rw [mostCommon, List.mem_insertionSort, List.mem_map]
  constructor
  · rintro ⟨other, member, same⟩
    obtain ⟨rfl, rfl⟩ := Prod.mk.injEq .. ▸ same
    exact ⟨by simpa [firsts] using member, rfl⟩
  · rintro ⟨member, count⟩
    exact ⟨value, by simpa [firsts] using member, Prod.ext rfl count.symm⟩

theorem mem_mostCommon_count {values : List α} {value : α} (member : value ∈ values) :
    (value, values.count value) ∈ mostCommon values :=
  mem_mostCommon.mpr ⟨member, rfl⟩

theorem nodup_mostCommon (values : List α) : ((mostCommon values).map Prod.fst).Nodup := by
  have perm := (List.perm_insertionSort (fun a b : α × Nat => b.2 ≤ a.2)
    ((firsts values).map fun value => (value, values.count value))).map Prod.fst
  rw [mostCommon, perm.nodup_iff, List.map_map]
  have same : (Prod.fst ∘ fun value => (value, values.count value)) = id := rfl
  rw [same, List.map_id, firsts, List.nodup_reverse]
  exact List.nodup_dedup _

theorem mostCommon_sorted (values : List α) :
    (mostCommon values).Pairwise fun a b => b.2 ≤ a.2 := by
  have : Std.Total fun a b : α × Nat => b.2 ≤ a.2 := ⟨fun a b => Nat.le_total b.2 a.2⟩
  have : IsTrans (α × Nat) fun a b => b.2 ≤ a.2 := ⟨fun _ _ _ first second => second.trans first⟩
  exact List.pairwise_insertionSort _ _

/-- One value leads every other. -/
def Leads (values : List α) (value : α) : Prop :=
  value ∈ values ∧ ∀ other ∈ values, other ≠ value → values.count other < values.count value

theorem Leads.unique {values : List α} {value value' : α} (leads : Leads values value)
    (leads' : Leads values value') : value = value' := by
  by_contra apart
  have less := leads.2 value' leads'.1 (Ne.symm apart)
  have more := leads'.2 value leads.1 apart
  omega

theorem leads_first {values : List α} {first second : α × Nat} {rest : List (α × Nat)}
    (shape : mostCommon values = first :: second :: rest) :
    Leads values first.1 ↔ first.2 ≠ second.2 := by
  have sorted := mostCommon_sorted values
  have distinct := nodup_mostCommon values
  rw [shape] at sorted distinct
  obtain ⟨most, sorted⟩ := List.pairwise_cons.mp sorted
  obtain ⟨below, -⟩ := List.pairwise_cons.mp sorted
  obtain ⟨member, count⟩ := mem_mostCommon.mp (shape ▸ List.mem_cons_self : first ∈ mostCommon values)
  obtain ⟨member', count'⟩ := mem_mostCommon.mp
    (shape ▸ List.mem_cons_of_mem _ List.mem_cons_self : second ∈ mostCommon values)
  constructor
  · intro leads tied
    have apart : second.1 ≠ first.1 := by
      intro same
      exact (List.nodup_cons.mp distinct).1 (same ▸ List.mem_cons_self)
    have less := leads.2 second.1 member' apart
    omega
  · intro untied
    refine ⟨member, fun other present apart => ?_⟩
    have listed := mem_mostCommon_count present
    rw [shape] at listed
    have atMost := most second List.mem_cons_self
    rcases List.mem_cons.mp listed with here | later
    · exact absurd (congrArg Prod.fst here) apart
    · rcases List.mem_cons.mp later with here | later
      · have same : values.count other = second.2 := congrArg Prod.snd here
        omega
      · have less := below _ later
        simp only at less
        omega

theorem plurality_eq_some {values : List α} {value : α} :
    plurality values = some value ↔ Leads values value := by
  have lead : ∀ {first : α × Nat} {rest : List (α × Nat)}, mostCommon values = first :: rest →
      Leads values value → value = first.1 := by
    intro first rest shape leads
    by_contra apart
    obtain ⟨member, count⟩ := mem_mostCommon.mp (shape ▸ List.mem_cons_self : first ∈ mostCommon values)
    have less := leads.2 first.1 member (Ne.symm apart)
    have listed := mem_mostCommon_count leads.1
    have sorted := mostCommon_sorted values
    rw [shape] at listed sorted
    rcases List.mem_cons.mp listed with here | later
    · exact apart (congrArg Prod.fst here)
    · have atMost := (List.pairwise_cons.mp sorted).1 _ later
      simp only at atMost
      omega
  rw [plurality]
  split
  next shape =>
    have empty : ∀ v, v ∉ values := by
      intro v member
      have listed := mem_mostCommon_count member
      rw [shape] at listed
      cases listed
    constructor
    · nofun
    · intro leads
      exact absurd leads.1 (empty value)
  next first shape =>
    rw [Option.some.injEq]
    constructor
    · rintro rfl
      refine ⟨(mem_mostCommon.mp (shape ▸ List.mem_cons_self : first ∈ mostCommon values)).1, ?_⟩
      intro other member apart
      have listed := mem_mostCommon_count member
      rw [shape, List.mem_singleton] at listed
      exact absurd (congrArg Prod.fst listed) apart
    · exact fun leads => (lead shape leads).symm
  next first second rest shape =>
    split
    next tied =>
      constructor
      · nofun
      · intro leads
        exact absurd tied ((leads_first shape).mp (lead shape leads ▸ leads))
    next untied =>
      rw [Option.some.injEq]
      constructor
      · rintro rfl
        exact (leads_first shape).mpr untied
      · exact fun leads => (lead shape leads).symm

theorem plurality_perm {values values' : List α} (same : values.Perm values') :
    plurality values = plurality values' := by
  apply Option.ext
  intro value
  simp only [plurality_eq_some, Leads, same.mem_iff, same.count_eq]

/-- Counted class by class, what is in some class is counted once. -/
theorem sum_countP_class {β : Type*} (classOf : β → Option α) (classes : List α) (once : classes.Nodup)
    (complete : ∀ c, c ∈ classes) (l : List β) :
    (classes.map fun c => l.countP fun x => classOf x = some c).sum =
      l.countP fun x => (classOf x).isSome := by
  induction l with
  | nil => simp
  | cons x rest ih =>
      simp only [List.countP_cons, List.sum_map_add, ih, decide_eq_true_eq]
      congr 1
      cases classOf x with
      | none => simp
      | some c =>
          rw [List.sum_map_eq_nsmul_single c, List.count_eq_one_of_mem once (complete c)]
          · simp
          · intro other apart _
            exact if_neg fun same => apart (Option.some.inj same).symm

end LocalHarness.Library.Tally
