import LocalHarness.Library.Groups
import Mathlib.Data.List.Sort
import Mathlib.Order.Monotone.Basic

/-! # The place of an element in a sorted list

An element is among the first `n` of a sorted list exactly where fewer than `n` are less than it. Of
an element that is there once, the others are the rest.
-/

namespace LocalHarness.Library.Ranked

universe u

variable {α : Type u} [LinearOrder α] {l : List α} {a : α}

/-- How many elements come before. -/
def rank (l : List α) (a : α) : Nat :=
  l.countP (· < a)

theorem rank_perm {l' : List α} (same : l.Perm l') (a : α) : rank l a = rank l' a :=
  same.countP_eq _

theorem mem_take_iff (sorted : l.Pairwise (· ≤ ·)) (member : a ∈ l) {n : Nat} :
    a ∈ l.take n ↔ rank l a < n := by
  induction sorted generalizing n with
  | nil => cases member
  | @cons b rest least _ ih =>
      cases n with
      | zero => simp
      | succ n =>
          rw [List.take_succ_cons, List.mem_cons, rank, List.countP_cons]
          rcases lt_or_ge b a with before | after
          · have later : a ∈ rest := (List.mem_cons.mp member).resolve_left before.ne'
            rw [if_pos (decide_eq_true before), ← rank, Nat.succ_lt_succ_iff, or_iff_right before.ne']
            exact ih later
          · have none_ : rest.countP (· < a) = 0 := by
              rw [List.countP_eq_zero]
              intro c inside
              simpa using after.trans (least c inside)
            have first : a = b := by
              rcases List.mem_cons.mp member with same | later
              · exact same
              · exact le_antisymm after (least a later)
            rw [none_, if_neg (by simpa using after)]
            exact iff_of_true (.inl first) (Nat.succ_pos n)

theorem mem_drop_iff (once : l.countP (· = a) = 1) {n : Nat} : a ∈ l.drop n ↔ a ∉ l.take n := by
  have split : (l.take n).countP (· = a) + (l.drop n).countP (· = a) = 1 := by
    rw [← List.countP_append, List.take_append_drop, once]
  have there : ∀ part : List α, a ∈ part ↔ 0 < part.countP (· = a) := by
    intro part
    rw [List.countP_pos_iff]
    simp
  rw [there, there]
  omega

end LocalHarness.Library.Ranked

/-! ## Order from the other end

What turns an order round turns a sorted list round: the entry so far from one end comes from the entry
as far from the other.
-/

namespace LocalHarness.Library

variable {α β : Type} [LinearOrder α] [LinearOrder β] {f : α → β} {l : List α}

theorem insertionSort_map_antitone (turns : Antitone f) :
    (l.map f).insertionSort (· ≤ ·) = ((l.insertionSort (· ≤ ·)).map f).reverse := by
  refine List.Perm.eq_of_pairwise' (List.pairwise_insertionSort _ _) ?_ ?_
  · rw [List.pairwise_reverse, List.pairwise_map]
    exact (List.pairwise_insertionSort (· ≤ ·) l).imp fun le => turns le
  · exact (List.perm_insertionSort _ _).trans
      (((List.perm_insertionSort (· ≤ ·) l).symm.map f).trans (List.reverse_perm _).symm)

theorem getElem?_insertionSort_antitone (turns : Antitone f) {i j : Nat} (ends : i + j + 1 = l.length) :
    ((l.map f).insertionSort (· ≤ ·))[i]? = ((l.insertionSort (· ≤ ·))[j]?).map f := by
  have length : ((l.insertionSort (· ≤ ·)).map f).length = l.length := by
    rw [List.length_map, List.length_insertionSort]
  rw [insertionSort_map_antitone turns, List.getElem?_reverse (by omega), List.getElem?_map, length]
  congr 2
  omega

end LocalHarness.Library

/-! ## The least of each kind

Of the items of each kind the first in an order is kept. Whatever else is left out, the least are the same as long as
they are there themselves.
-/

namespace LocalHarness.Library.Leasts

open Groups

universe u v w

variable {α : Type u} {κ : Type v} {ι : Type w} [DecidableEq κ] [LinearOrder ι] (order : α → ι) (kind : α → κ)

/-- The first of each kind, in the order of `order`. -/
def leasts (items : List α) : List α :=
  firsts kind (items.insertionSort fun a b => order a ≤ order b)

variable {order kind} {items : List α} {a : α}

/-- Items that stand in one place are one item. -/
def Apart (order : α → ι) (items : List α) : Prop :=
  ∀ a ∈ items, ∀ b ∈ items, order a = order b → a = b

omit [LinearOrder ι] in
theorem Apart.subset {others : List α} (apart : Apart order items) (within : others ⊆ items) : Apart order others :=
  fun a inside b inside' => apart a (within inside) b (within inside')

theorem mem_of_mem_leasts (member : a ∈ leasts order kind items) : a ∈ items :=
  (List.mem_insertionSort _).mp ((firsts_sublist kind _).subset member)

variable (order) in
theorem sorted_insertionSort (items : List α) :
    (items.insertionSort fun a b => order a ≤ order b).Pairwise fun a b => order a ≤ order b := by
  have : Std.Total fun a b : α => order a ≤ order b := ⟨fun a b => le_total (order a) (order b)⟩
  have : IsTrans α fun a b => order a ≤ order b := ⟨fun _ _ _ => le_trans⟩
  exact List.pairwise_insertionSort _ _

/-- What is kept of a kind stands before all of that kind. -/
theorem le_of_mem_leasts {b : α} (member : a ∈ leasts order kind items) (other : b ∈ items) (same : kind b = kind a) :
    order a ≤ order b := by
  have found := find_of_mem_firsts kind member
  obtain ⟨-, before, after, shape, none_⟩ := List.find?_eq_some_iff_append.mp found
  have sorted := sorted_insertionSort order items
  have inside := (List.mem_insertionSort fun a b => order a ≤ order b).mpr other
  rw [shape] at sorted inside
  rcases List.mem_append.mp inside with early | late
  · have differs := none_ b early
    simp [same] at differs
  · rcases List.mem_cons.mp late with rfl | late
    · exact le_refl _
    · exact (List.pairwise_cons.mp (List.pairwise_append.mp sorted).2.1).1 b late

variable (order kind) in
theorem exists_leasts (member : a ∈ items) : ∃ b ∈ leasts order kind items, kind b = kind a := by
  have listed : kind a ∈ (items.insertionSort fun a b => order a ≤ order b).map kind :=
    List.mem_map_of_mem ((List.mem_insertionSort _).mpr member)
  obtain ⟨b, kept, same⟩ := List.mem_map.mp ((mem_map_firsts kind).mpr listed)
  exact ⟨b, kept, same⟩

theorem mem_leasts (apart : Apart order items) :
    a ∈ leasts order kind items ↔ a ∈ items ∧ ∀ b ∈ items, kind b = kind a → order a ≤ order b := by
  constructor
  · intro member
    exact ⟨mem_of_mem_leasts member, fun b => le_of_mem_leasts member⟩
  · rintro ⟨member, least⟩
    obtain ⟨b, kept, same⟩ := exists_leasts order kind member
    have inside := mem_of_mem_leasts kept
    have equal := le_antisymm (least b inside same) (le_of_mem_leasts kept member same.symm)
    rw [apart a member b inside equal]
    exact kept

variable (order kind) in
theorem kinds_leasts (items : List α) : ((leasts order kind items).map kind).Nodup :=
  map_firsts_nodup kind _

theorem sorted_leasts (items : List α) : (leasts order kind items).Pairwise fun a b => order a ≤ order b :=
  (sorted_insertionSort order items).sublist (firsts_sublist kind _)

/-- The least of each kind are those of any list between them and all items. -/
theorem leasts_of_between {others : List α} (apart : Apart order items) (lower : leasts order kind items ⊆ others)
    (upper : others ⊆ items) : leasts order kind others = leasts order kind items := by
  have mem (a : α) : a ∈ leasts order kind others ↔ a ∈ leasts order kind items := by
    rw [mem_leasts (apart.subset upper), mem_leasts apart]
    constructor
    · rintro ⟨member, least⟩
      refine ⟨upper member, fun b inside same => ?_⟩
      obtain ⟨c, kept, same'⟩ := exists_leasts order kind inside
      exact (least c (lower kept) (same'.trans same)).trans (le_of_mem_leasts kept inside same'.symm)
    · rintro ⟨member, least⟩
      exact ⟨lower ((mem_leasts apart).mpr ⟨member, least⟩), fun b inside => least b (upper inside)⟩
  have once (items : List α) : (leasts order kind items).Nodup := (kinds_leasts order kind items).of_map
  refine ((List.perm_ext_iff_of_nodup (once _) (once _)).mpr mem).eq_of_pairwise ?_ (sorted_leasts _) (sorted_leasts _)
  intro a b inside inside' first second
  exact apart a (upper (mem_of_mem_leasts inside)) b (mem_of_mem_leasts inside') (le_antisymm first second)

/-- What is done to each item without moving it or changing its kind is done to the least ones. -/
theorem leasts_map {β : Type u} {order' : β → ι} {kind' : β → κ} (f : α → β) (moved : ∀ a, order' (f a) = order a)
    (changed : ∀ a, kind' (f a) = kind a) (items : List α) :
    leasts order' kind' (items.map f) = (leasts order kind items).map f := by
  rw [leasts, leasts, ← firsts_map f changed,
    List.map_insertionSort (fun a b => order a ≤ order b) fun a b => order' a ≤ order' b]
  exact fun a _ b _ => by rw [moved, moved]

end LocalHarness.Library.Leasts
