import Mathlib.Data.List.Pairwise
import Mathlib.Order.Lattice
import Mathlib.Order.Nat

/-! # Tables of rows keyed by ascending ids

The shape of a database table with an integer primary key: the rows in id order,
each id once. A row is inserted above every id present, updated or deleted under
its id; a table out of order or with a repeated id cannot be built.
-/

namespace LocalHarness.Library

universe u

/-- Rows in the order of their ids. -/
structure Table (ρ : Type u) where
  rows : List (Nat × ρ)
  ordered : (rows.map Prod.fst).Pairwise (· < ·)
  deriving DecidableEq

namespace Table

variable {ρ : Type u}

@[ext] theorem ext {t t' : Table ρ} (same : t.rows = t'.rows) : t = t' := by
  cases t
  cases t'
  simpa using same

instance : EmptyCollection (Table ρ) := ⟨⟨[], .nil⟩⟩

instance : Inhabited (Table ρ) := ⟨∅⟩

@[simp] theorem rows_empty : (∅ : Table ρ).rows = [] := rfl

def ids (t : Table ρ) : List Nat :=
  t.rows.map Prod.fst

/-- The row under `id`, if there is one. -/
def find? (t : Table ρ) (id : Nat) : Option ρ :=
  (t.rows.find? fun row => row.1 == id).map Prod.snd

/-- `id` is above every id present, so a row may be inserted under it. -/
def Above (t : Table ρ) (id : Nat) : Prop :=
  ∀ present ∈ t.ids, present < id

instance (t : Table ρ) (id : Nat) : Decidable (t.Above id) :=
  inferInstanceAs (Decidable (∀ present ∈ t.ids, present < id))

/-- One more than the largest id, or one. -/
def nextId (t : Table ρ) : Nat :=
  t.ids.foldr max 0 + 1

def insert (t : Table ρ) (id : Nat) (row : ρ) (above : t.Above id) : Table ρ where
  rows := t.rows ++ [(id, row)]
  ordered := by
    rw [List.map_append, List.pairwise_append]
    refine ⟨t.ordered, List.pairwise_singleton _ _, ?_⟩
    intro present member new single
    rw [List.map_singleton, List.mem_singleton] at single
    exact single ▸ above present member

def delete (t : Table ρ) (id : Nat) : Table ρ where
  rows := t.rows.filter fun row => row.1 != id
  ordered := t.ordered.sublist (List.Sublist.map _ List.filter_sublist)

def update (t : Table ρ) (id : Nat) (change : ρ → ρ) : Table ρ where
  rows := t.rows.map fun row => if row.1 = id then (row.1, change row.2) else row
  ordered := by
    have same : (t.rows.map fun row => if row.1 = id then (row.1, change row.2) else row).map
        Prod.fst = t.rows.map Prod.fst := by
      rw [List.map_map]
      apply List.map_congr_left
      intro row _
      by_cases here : row.1 = id <;> simp [here]
    rw [same]
    exact t.ordered

theorem nodup (t : Table ρ) : t.ids.Nodup :=
  t.ordered.imp fun below => Nat.ne_of_lt below

theorem mem_ids {t : Table ρ} {id : Nat} : id ∈ t.ids ↔ ∃ row, (id, row) ∈ t.rows := by
  simp [ids]

theorem le_nextId {t : Table ρ} {id : Nat} (present : id ∈ t.ids) : id < t.nextId := by
  have largest : ∀ l : List Nat, id ∈ l → id ≤ l.foldr max 0 := by
    intro l member
    induction l with
    | nil => cases member
    | cons a as ih =>
        simp only [List.foldr_cons]
        rcases List.mem_cons.mp member with same | inside
        · exact same ▸ le_max_left _ _
        · exact le_trans (ih inside) (le_max_right _ _)
  have bound := largest t.ids present
  unfold nextId
  omega

theorem above_nextId (t : Table ρ) : t.Above t.nextId :=
  fun _ present => le_nextId present

@[simp] theorem nextId_pos (t : Table ρ) : 0 < t.nextId := Nat.succ_pos _

/-- Looking a row up and finding it among the rows are the same. -/
theorem find?_eq_some {t : Table ρ} {id : Nat} {row : ρ} :
    t.find? id = some row ↔ (id, row) ∈ t.rows := by
  obtain ⟨rows, ordered⟩ := t
  unfold find?
  induction rows with
  | nil => simp
  | cons head rest ih =>
      simp only [List.map_cons, List.pairwise_cons] at ordered
      by_cases here : head.1 = id
      · have gone : (id, row) ∉ rest := by
          intro inside
          have below := ordered.1 id (List.mem_map_of_mem (f := Prod.fst) inside)
          omega
        simp only [List.find?_cons, here, beq_self_eq_true, Option.map_some, Option.some.injEq,
          List.mem_cons, gone, or_false]
        rw [← here]
        constructor
        · intro same
          exact same ▸ rfl
        · intro same
          rw [← same]
      · have other : (head.1 == id) = false := by simp [here]
        simp only [List.find?_cons, other, List.mem_cons]
        rw [ih ordered.2]
        constructor
        · exact Or.inr
        · rintro (same | inside)
          · exact absurd (congrArg Prod.fst same).symm here
          · exact inside

theorem find?_eq_none {t : Table ρ} {id : Nat} : t.find? id = none ↔ id ∉ t.ids := by
  rw [mem_ids, Option.eq_none_iff_forall_not_mem]
  simp only [Option.mem_def, find?_eq_some, not_exists]

theorem mem_ids_of_find? {t : Table ρ} {id : Nat} {row : ρ} (found : t.find? id = some row) :
    id ∈ t.ids :=
  mem_ids.mpr ⟨row, find?_eq_some.mp found⟩

theorem find?_of_mem_ids {t : Table ρ} {id : Nat} (present : id ∈ t.ids) :
    ∃ row, t.find? id = some row := by
  obtain ⟨row, member⟩ := mem_ids.mp present
  exact ⟨row, find?_eq_some.mpr member⟩

theorem Above.not_mem {t : Table ρ} {id : Nat} (above : t.Above id) : id ∉ t.ids :=
  fun present => lt_irrefl id (above id present)

theorem Above.find? {t : Table ρ} {id : Nat} (above : t.Above id) : t.find? id = none :=
  find?_eq_none.mpr above.not_mem

@[simp] theorem find?_empty (id : Nat) : (∅ : Table ρ).find? id = none := rfl

@[simp] theorem rows_insert (t : Table ρ) (id : Nat) (row : ρ) (above : t.Above id) :
    (t.insert id row above).rows = t.rows ++ [(id, row)] := rfl

@[simp] theorem mem_ids_insert {t : Table ρ} {id other : Nat} {row : ρ} (above : t.Above id) :
    other ∈ (t.insert id row above).ids ↔ other ∈ t.ids ∨ other = id := by
  simp [ids]

theorem find?_insert (t : Table ρ) (id other : Nat) (row : ρ) (above : t.Above id) :
    (t.insert id row above).find? other = if other = id then some row else t.find? other := by
  by_cases here : other = id
  · subst here
    simp [find?_eq_some]
  · rw [if_neg here]
    apply Option.ext
    intro found
    simp [find?_eq_some, here]

@[simp] theorem find?_insert_self (t : Table ρ) (id : Nat) (row : ρ) (above : t.Above id) :
    (t.insert id row above).find? id = some row := by
  simp [find?_insert]

theorem mem_rows_delete {t : Table ρ} {id : Nat} {row : Nat × ρ} :
    row ∈ (t.delete id).rows ↔ row ∈ t.rows ∧ row.1 ≠ id := by
  simp [delete]

theorem mem_ids_delete {t : Table ρ} {id other : Nat} :
    other ∈ (t.delete id).ids ↔ other ∈ t.ids ∧ other ≠ id := by
  simp only [mem_ids, mem_rows_delete]
  simp

theorem find?_delete (t : Table ρ) (id other : Nat) :
    (t.delete id).find? other = if other = id then none else t.find? other := by
  apply Option.ext
  intro found
  by_cases here : other = id <;> simp [find?_eq_some, mem_rows_delete, here]

theorem delete_of_not_mem {t : Table ρ} {id : Nat} (missing : id ∉ t.ids) : t.delete id = t := by
  apply ext
  simp only [delete, List.filter_eq_self, bne_iff_ne]
  intro row member same
  exact missing (same ▸ List.mem_map_of_mem member)

/-- Withdrawing a row just inserted leaves the table as it was. -/
theorem delete_insert (t : Table ρ) (id : Nat) (row : ρ) (above : t.Above id) :
    (t.insert id row above).delete id = t := by
  apply ext
  have rest : (t.delete id).rows = t.rows := congrArg rows (delete_of_not_mem above.not_mem)
  simpa [delete] using rest

theorem Above.delete {t : Table ρ} {id other : Nat} (above : t.Above id) :
    (t.delete other).Above id :=
  fun present member => above present (mem_ids_delete.mp member).1

theorem delete_insert_of_ne {t : Table ρ} {id other : Nat} {row : ρ} (above : t.Above id)
    (different : id ≠ other) :
    (t.insert id row above).delete other = (t.delete other).insert id row above.delete := by
  apply ext
  simp [Table.delete, different]

theorem delete_comm (t : Table ρ) (id other : Nat) :
    (t.delete id).delete other = (t.delete other).delete id := by
  apply ext
  simp only [delete, List.filter_filter]
  congr 1
  funext row
  exact Bool.and_comm _ _

@[simp] theorem ids_update (t : Table ρ) (id : Nat) (change : ρ → ρ) :
    (t.update id change).ids = t.ids := by
  simp only [ids, update, List.map_map]
  apply List.map_congr_left
  intro row _
  by_cases here : row.1 = id <;> simp [here]

theorem mem_rows_update {t : Table ρ} {id : Nat} {change : ρ → ρ} {row : Nat × ρ} :
    row ∈ (t.update id change).rows ↔
      ∃ old ∈ t.rows, (if old.1 = id then (old.1, change old.2) else old) = row :=
  List.mem_map

theorem find?_update (t : Table ρ) (id other : Nat) (change : ρ → ρ) :
    (t.update id change).find? other =
      if other = id then (t.find? other).map change else t.find? other := by
  have keyed : ((fun row : Nat × ρ => row.1 == other) ∘
      fun row => if row.1 = id then (row.1, change row.2) else row) =
      fun row => row.1 == other := by
    funext row
    by_cases here : row.1 = id <;> simp [here]
  simp only [find?, update, List.find?_map, keyed]
  cases found : t.rows.find? fun row => row.1 == other with
  | none => simp
  | some row =>
      have same : row.1 = other := by simpa using List.find?_some found
      simp only [Option.map_some, same]
      split <;> rfl

@[simp] theorem find?_update_self (t : Table ρ) (id : Nat) (change : ρ → ρ) :
    (t.update id change).find? id = (t.find? id).map change := by
  simp [find?_update]

theorem find?_update_of_ne {t : Table ρ} {id other : Nat} (change : ρ → ρ)
    (different : other ≠ id) : (t.update id change).find? other = t.find? other := by
  simp [find?_update, different]

/-- One change to every row. -/
def updateAll (t : Table ρ) (change : ρ → ρ) : Table ρ where
  rows := t.rows.map fun row => (row.1, change row.2)
  ordered := by
    have same : (t.rows.map fun row => (row.1, change row.2)).map Prod.fst =
        t.rows.map Prod.fst := by
      rw [List.map_map]
      rfl
    rw [same]
    exact t.ordered

@[simp] theorem ids_updateAll (t : Table ρ) (change : ρ → ρ) : (t.updateAll change).ids = t.ids := by
  simp only [ids, updateAll, List.map_map]
  rfl

@[simp] theorem find?_updateAll (t : Table ρ) (change : ρ → ρ) (id : Nat) :
    (t.updateAll change).find? id = (t.find? id).map change := by
  simp only [find?, updateAll, List.find?_map, Option.map_map]
  rfl

theorem update_update (t : Table ρ) (id : Nat) (change next : ρ → ρ) :
    (t.update id change).update id next = t.update id fun row => next (change row) := by
  apply ext
  simp only [update, List.map_map]
  apply List.map_congr_left
  intro row _
  by_cases here : row.1 = id <;> simp [here]

/-- An update that changes nothing under its id is no update. -/
theorem update_eq_self {t : Table ρ} {id : Nat} {change : ρ → ρ}
    (same : ∀ row, t.find? id = some row → change row = row) : t.update id change = t := by
  apply ext
  conv_rhs => rw [← List.map_id t.rows]
  apply List.map_congr_left
  intro row member
  by_cases here : row.1 = id
  · have found : t.find? id = some row.2 := find?_eq_some.mpr (here ▸ member)
    rw [if_pos here, same row.2 found, id_eq]
  · rw [if_neg here, id_eq]

theorem delete_update (t : Table ρ) (id other : Nat) (change : ρ → ρ) :
    (t.update id change).delete other = (t.delete other).update id change := by
  apply ext
  simp only [update, delete, List.filter_map]
  congr 2
  funext row
  by_cases here : row.1 = id <;> simp [here]

@[simp] theorem delete_update_self (t : Table ρ) (id : Nat) (change : ρ → ρ) :
    (t.update id change).delete id = t.delete id := by
  rw [delete_update]
  apply update_eq_self
  intro row found
  simp [find?_delete] at found

/-- Two lists of rows in ascending id order with the same members are one list. -/
theorem eq_of_ascending {first second : List (Nat × ρ)}
    (left : (first.map Prod.fst).Pairwise (· < ·)) (right : (second.map Prod.fst).Pairwise (· < ·))
    (same : ∀ row, row ∈ first ↔ row ∈ second) : first = second := by
  rw [List.pairwise_map] at left right
  have distinct : ∀ {l : List (Nat × ρ)}, l.Pairwise (fun a b => a.1 < b.1) → l.Nodup := by
    intro l ascending
    exact ascending.imp fun below equal => by simp [equal] at below
  refine List.Perm.eq_of_pairwise (fun a b _ _ below above => ?_) left right
    ((List.perm_ext_iff_of_nodup (distinct left) (distinct right)).mpr same)
  exact absurd (Nat.lt_trans below above) (Nat.lt_irrefl _)

end Table

end LocalHarness.Library
