import Mathlib.Data.List.Perm.Basic

/-! # Comparisons that skip what is left unsaid

Two records are matched by a strict part, on which they must agree, and a lenient
part, which counts only where both say something. The lenient part is symmetric and
not transitive, so a list each of whose members matches one of them need not match
throughout.
-/

namespace LocalHarness.Library

universe u

/-- Equal where both are stated. -/
def Agree {β : Type u} (x y : Option β) : Prop :=
  ∀ a ∈ x, ∀ b ∈ y, a = b

namespace Agree

variable {β : Type u} {x y : Option β}

instance [DecidableEq β] : (x y : Option β) → Decidable (Agree x y)
  | none, _ => .isTrue nofun
  | some _, none => .isTrue nofun
  | some a, some b => decidable_of_iff (a = b) (by simp [Agree])

theorem symm (agree : Agree x y) : Agree y x :=
  fun b hb a ha => (agree a ha b hb).symm

@[simp] theorem some_iff {a b : β} : Agree (some a) (some b) ↔ a = b := by
  simp [Agree]

@[simp] theorem none_left : Agree none y := nofun

@[simp] theorem none_right : Agree x none := nofun

end Agree

namespace Lenient

variable {α : Type u} {strict lenient : α → α → Prop}

/-- The members of a list match one another. -/
def Throughout (strict lenient : α → α → Prop) (members : List α) : Prop :=
  members.Pairwise fun a b => strict a b ∧ lenient a b

/-- The first of a list matches each of the others. -/
def FromFirst (strict lenient : α → α → Prop) : List α → Prop
  | [] => True
  | first :: others => ∀ other ∈ others, strict first other ∧ lenient first other

theorem Throughout.fromFirst {members : List α} (throughout : Throughout strict lenient members) :
    FromFirst strict lenient members := by
  cases members with
  | nil => trivial
  | cons first others => exact (List.pairwise_cons.mp throughout).1

/-- The strict part passes through the first, so only the lenient part is left to hold. -/
theorem throughout_cons_iff (symm : ∀ a b, strict a b → strict b a)
    (trans : ∀ a b c, strict a b → strict b c → strict a c) {first : α} {others : List α}
    (each : FromFirst strict lenient (first :: others)) :
    Throughout strict lenient (first :: others) ↔ others.Pairwise lenient := by
  constructor
  · intro throughout
    exact (List.pairwise_cons.mp throughout).2.imp And.right
  · intro agree
    refine List.pairwise_cons.mpr ⟨each, agree.imp_of_mem ?_⟩
    intro a b insideA insideB lenientAB
    exact ⟨trans a first b (symm first a (each a insideA).1) (each b insideB).1, lenientAB⟩

theorem Throughout.perm (symmStrict : ∀ a b, strict a b → strict b a)
    (symmLenient : ∀ a b, lenient a b → lenient b a) {members others : List α}
    (same : members.Perm others) (throughout : Throughout strict lenient members) :
    Throughout strict lenient others :=
  (same.pairwise_iff fun {a b} both => ⟨symmStrict a b both.1, symmLenient a b both.2⟩).mp throughout

/-- The one gate of the first member is as good as all of them, in every order,
    exactly when no member that matches all the others leaves two of them in conflict. -/
theorem fromFirst_sound_iff (strict lenient : α → α → Prop)
    (symmStrict : ∀ a b, strict a b → strict b a)
    (trans : ∀ a b c, strict a b → strict b c → strict a c)
    (symmLenient : ∀ a b, lenient a b → lenient b a) (members : List α) :
    ((FromFirst strict lenient members → Throughout strict lenient members) ∧
        ∀ reordered, members.Perm reordered →
          (FromFirst strict lenient members ↔ FromFirst strict lenient reordered)) ↔
      ∀ first others, members.Perm (first :: others) →
        FromFirst strict lenient (first :: others) → others.Pairwise lenient := by
  constructor
  · rintro ⟨sound, anyOrder⟩ first others same each
    have throughout := sound ((anyOrder _ same).mpr each)
    have reordered := throughout.perm symmStrict symmLenient same
    exact (throughout_cons_iff symmStrict trans each).mp reordered
  · intro noConflict
    have sound : ∀ reordered, members.Perm reordered → FromFirst strict lenient reordered →
        Throughout strict lenient reordered := by
      intro reordered same each
      cases reordered with
      | nil => exact List.Pairwise.nil
      | cons first others =>
          exact (throughout_cons_iff symmStrict trans each).mpr (noConflict first others same each)
    refine ⟨sound members (.refl _), fun reordered same => ⟨fun each => ?_, fun each => ?_⟩⟩
    · exact ((sound members (.refl _) each).perm symmStrict symmLenient same).fromFirst
    · exact ((sound reordered same each).perm symmStrict symmLenient same.symm).fromFirst

end Lenient

end LocalHarness.Library
