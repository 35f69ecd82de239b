import Mathlib.Data.List.Induction
import Mathlib.Data.List.Nodup
import Mathlib.Data.List.Pairwise

/-! # Requests that are made again

A ledger of requests in the order they were made. Before another one of a kind is made the newest of that kind has
to be settled, and what it was settled as may hold the next one back. This is kept by settling any of them and by
making several at once of different kinds; one of a kind is open at a time.
-/

namespace LocalHarness.Library

universe u v

/-- What a ledger's rows are read for; `free a b` says that `a`, settled, did not hold `b` back. -/
structure Asked (ρ : Type u) (κ : Type v) where
  kind : ρ → κ
  settled : ρ → Bool
  free : ρ → ρ → Prop

namespace Asked

variable {ρ : Type u} {κ : Type v} [DecidableEq κ] (k : Asked ρ κ)

/-- The newest request of a kind. -/
def latest (rows : List ρ) (kind : κ) : Option ρ :=
  (rows.filter fun r => k.kind r = kind).getLast?

/-- Each request was made after the newest of its kind before it had been settled and let it be made. -/
def Orderly (rows : List ρ) : Prop :=
  ∀ front b back, rows = front ++ b :: back → ∀ a, k.latest front (k.kind b) = some a →
    k.settled a = true ∧ k.free a b

/-- A change of rows that may settle some of them, and takes back nothing that was settled. -/
structure Settles (f : ρ → ρ) : Prop where
  kind : ∀ r, k.kind (f r) = k.kind r
  settled : ∀ r, k.settled r = true → k.settled (f r) = true
  before : ∀ a b, k.settled a = true → k.free a b → k.free (f a) b
  after : ∀ a b, k.free a b → k.free a (f b)

variable {k} {rows asked : List ρ} {f : ρ → ρ} {b : ρ}

theorem orderly_nil : k.Orderly [] := by
  intro front b back shape
  cases front <;> cases shape

theorem Orderly.left {back : List ρ} (orderly : k.Orderly (rows ++ back)) : k.Orderly rows := by
  intro front b rest shape
  exact orderly front b (rest ++ back) (by rw [shape, List.append_assoc, List.cons_append])

theorem latest_map (settles : k.Settles f) (kind : κ) :
    k.latest (rows.map f) kind = (k.latest rows kind).map f := by
  have same : (rows.map f).filter (fun r => k.kind r = kind) = (rows.filter fun r => k.kind r = kind).map f := by
    rw [List.filter_map]
    refine congrArg (List.map f) (List.filter_congr fun r _ => ?_)
    rw [Function.comp_apply, settles.kind]
  rw [latest, same, List.getLast?_map]
  rfl

/-- Settling keeps the order. -/
theorem Orderly.settle (orderly : k.Orderly rows) (settles : k.Settles f) : k.Orderly (rows.map f) := by
  intro front b back shape a newest
  obtain ⟨front', others, rfl, rfl, tail⟩ := List.map_eq_append_iff.mp shape
  obtain ⟨b', back', rfl, rfl, rfl⟩ := List.map_eq_cons_iff.mp tail
  rw [latest_map settles, settles.kind] at newest
  obtain ⟨a', newest', rfl⟩ := Option.map_eq_some_iff.mp newest
  obtain ⟨done, free⟩ := orderly front' b' back' rfl a' newest'
  exact ⟨settles.settled a' done, settles.after _ b' (settles.before a' b' done free)⟩

/-- One more is made, where the newest of its kind lets it. -/
theorem Orderly.ask (orderly : k.Orderly rows)
    (may : ∀ a, k.latest rows (k.kind b) = some a → k.settled a = true ∧ k.free a b) :
    k.Orderly (rows ++ [b]) := by
  intro front c back shape
  rcases List.append_eq_append_iff.mp shape with ⟨between, rfl, last⟩ | ⟨between, rfl, last⟩
  · cases between with
    | nil =>
        obtain ⟨rfl, rfl⟩ := List.cons.inj last
        simpa using may
    | cons first rest =>
        obtain ⟨-, none_⟩ := List.cons.inj last
        exact absurd none_.symm (by simp)
  · cases between with
    | nil =>
        obtain ⟨rfl, rfl⟩ := List.cons.inj last
        simpa using may
    | cons first rest =>
        obtain ⟨rfl, rfl⟩ := List.cons.inj last
        exact orderly front c rest rfl

theorem latest_append_of_other {kind : κ} (other : ∀ r ∈ asked, k.kind r ≠ kind) :
    k.latest (rows ++ asked) kind = k.latest rows kind := by
  have none_ : asked.filter (fun r => k.kind r = kind) = [] := by
    rw [List.filter_eq_nil_iff]
    exact fun r member => by simpa using other r member
  rw [latest, List.filter_append, none_, List.append_nil]
  rfl

/-- Several of different kinds are made, each let by the newest of its kind before them. -/
theorem Orderly.ask_all (orderly : k.Orderly rows) (distinct : (asked.map k.kind).Nodup)
    (may : ∀ b ∈ asked, ∀ a, k.latest rows (k.kind b) = some a → k.settled a = true ∧ k.free a b) :
    k.Orderly (rows ++ asked) := by
  induction asked using List.reverseRecOn with
  | nil => rwa [List.append_nil]
  | append_singleton front last ih =>
      rw [List.map_append, List.nodup_append] at distinct
      obtain ⟨once, -, apart⟩ := distinct
      have earlier := ih once fun b member => may b (List.mem_append_left _ member)
      rw [← List.append_assoc]
      refine earlier.ask fun a newest => ?_
      rw [latest_append_of_other fun r member =>
        apart _ (List.mem_map_of_mem member) _ (List.mem_map_of_mem List.mem_cons_self)] at newest
      exact may last (List.mem_append_right _ List.mem_cons_self) a newest

/-- What is so of every request that let another be made is so of all but the newest of a kind. -/
theorem Orderly.pairwise (orderly : k.Orderly rows) {p : ρ → Prop}
    (each : ∀ a b, k.settled a = true → k.free a b → p a) :
    rows.Pairwise fun a b => k.kind a = k.kind b → p a := by
  induction rows using List.reverseRecOn with
  | nil => exact .nil
  | append_singleton front last ih =>
      have before := ih orderly.left
      refine List.pairwise_append.mpr ⟨before, List.pairwise_singleton _ _, fun a member b single same => ?_⟩
      obtain rfl := List.mem_singleton.mp single
      have inside : a ∈ front.filter fun r => k.kind r = k.kind b := List.mem_filter.mpr ⟨member, by simpa using same⟩
      obtain ⟨init, newest, shape⟩ := (List.eq_nil_or_concat _).resolve_left (List.ne_nil_of_mem inside)
      rw [List.concat_eq_append] at shape
      have last_ : k.latest front (k.kind b) = some newest := by rw [latest, shape, List.getLast?_concat]
      obtain ⟨done, free⟩ := orderly front b [] rfl newest last_
      rw [shape] at inside
      rcases List.mem_append.mp inside with older | here
      · -- an older one made way for the newest of its kind
        have ordered := before.sublist (List.filter_sublist (p := fun r => decide (k.kind r = k.kind b)))
        rw [shape, List.pairwise_append] at ordered
        have kinds : k.kind newest = k.kind b := by
          have member : newest ∈ front.filter fun r => k.kind r = k.kind b := by
            rw [shape]
            exact List.mem_append_right _ List.mem_cons_self
          simpa using (List.mem_filter.mp member).2
        exact ordered.2.2 a older newest List.mem_cons_self (same.trans kinds.symm)
      · obtain rfl := List.mem_singleton.mp here
        exact each a b done free

/-- One of a kind is open at a time. -/
theorem Orderly.open_once (orderly : k.Orderly rows) (kind : κ) :
    (rows.countP fun r => k.kind r = kind && !k.settled r) ≤ 1 := by
  have ordered := (orderly.pairwise fun _ _ done _ => done).sublist
    (List.filter_sublist (p := fun r => k.kind r = kind && !k.settled r))
  rw [List.countP_eq_length_filter]
  have member : ∀ r ∈ rows.filter (fun r => k.kind r = kind && !k.settled r),
      k.kind r = kind ∧ k.settled r = false := by
    intro r inside
    simpa using (List.mem_filter.mp inside).2
  generalize rows.filter (fun r => k.kind r = kind && !k.settled r) = opened at ordered member
  cases opened with
  | nil => exact Nat.zero_le 1
  | cons a others =>
      cases others with
      | nil => exact Nat.le_refl 1
      | cons b rest =>
          obtain ⟨kind_a, open_a⟩ := member a List.mem_cons_self
          have kind_b := (member b (List.mem_cons_of_mem a List.mem_cons_self)).1
          have done := (List.pairwise_cons.mp ordered).1 b List.mem_cons_self (kind_a.trans kind_b.symm)
          rw [done] at open_a
          cases open_a

end Asked

end LocalHarness.Library
