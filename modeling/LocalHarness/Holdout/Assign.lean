import LocalHarness.Adopt.Paired
import LocalHarness.Library.Ranked
import Mathlib.Data.Prod.Lex
import Mathlib.Data.String.Basic

/-! # Which cases are held out

A case is held out by what is drawn for its content, and a minimum on each side is filled up by the
order of the draws.
-/

namespace LocalHarness.Holdout

open LocalHarness.Library Ranked
open LocalHarness.Adopt (Split MIN_HOLDOUT MIN_DEV)

def FRACTION : ℚ := 3 / 10

structure Case where
  id : String
  modality : String
  /-- What the digest reads beside the id. -/
  content : String
  deriving DecidableEq

/-- `_draw`: a number from 0 up to 1, by the digest of a case. -/
abbrev Draw := Case → ℚ

variable (draw : Draw)

/-- What the cases are ordered by. -/
def key (c : Case) : ℚ ×ₗ String :=
  toLex (draw c, c.id)

def drawn (cases : List Case) : List (ℚ ×ₗ String) :=
  (cases.map (key draw)).insertionSort (· ≤ ·)

def sortedIds (drawn : List (ℚ ×ₗ String)) : List String :=
  (drawn.map fun t => (ofLex t).2).insertionSort (· ≤ ·)

/-- How many are held out. -/
def heldOut (drawn : List (ℚ ×ₗ String)) : Nat :=
  min (max (drawn.countP fun t => (ofLex t).1 < FRACTION) MIN_HOLDOUT) (drawn.length - MIN_DEV)

def assign (lane : String) (cases : List Case) : Split :=
  let drawn := drawn draw cases
  if drawn.length < MIN_HOLDOUT + MIN_DEV then
    { lane, dev := sortedIds drawn, holdout := sortedIds drawn, tooSmall := true }
  else
    let n := heldOut drawn
    { lane, dev := sortedIds (drawn.drop n), holdout := sortedIds (drawn.take n), tooSmall := false }

/-! ## The side of a case -/

/-- The only case of the list with its id. -/
def Sole (cases : List Case) (c : Case) : Prop :=
  cases.filter (fun other => other.id = c.id) = [c]

instance (cases : List Case) (c : Case) : Decidable (Sole cases c) :=
  inferInstanceAs (Decidable (cases.filter (fun other => other.id = c.id) = [c]))

/-- Too few cases to split, so that each is on both sides. -/
def TooFew (cases : List Case) : Prop :=
  cases.length < MIN_HOLDOUT + MIN_DEV

/-- How many cases are drawn before this one. -/
def place (cases : List Case) (c : Case) : Nat :=
  rank (cases.map (key draw)) (key draw c)

/-- Held out for the minimum, though it is not drawn for it. -/
def PulledIn (cases : List Case) (c : Case) : Prop :=
  ¬ TooFew cases ∧ FRACTION ≤ draw c ∧ place draw cases c < MIN_HOLDOUT

/-- Kept for the minimum of the other side, though it is drawn to be held out. -/
def PushedOut (cases : List Case) (c : Case) : Prop :=
  ¬ TooFew cases ∧ draw c < FRACTION ∧ cases.length - MIN_DEV ≤ place draw cases c

variable {cases : List Case} {c : Case}

theorem Sole.mem (sole : Sole cases c) : c ∈ cases :=
  List.mem_of_mem_filter (sole ▸ List.mem_singleton_self c)

theorem Sole.eq (sole : Sole cases c) {other : Case} (member : other ∈ cases) (named : other.id = c.id) :
    other = c := by
  have inside : other ∈ cases.filter fun other => other.id = c.id :=
    List.mem_filter.mpr ⟨member, decide_eq_true named⟩
  rw [sole] at inside
  exact List.mem_singleton.mp inside

theorem drawn_perm (cases : List Case) : (drawn draw cases).Perm (cases.map (key draw)) :=
  List.perm_insertionSort _ _

theorem length_drawn (cases : List Case) : (drawn draw cases).length = cases.length := by
  rw [(drawn_perm draw cases).length_eq, List.length_map]

theorem count_drawn (sole : Sole cases c) : (drawn draw cases).countP (· = key draw c) = 1 := by
  have named : cases.filter (fun other => key draw other = key draw c) =
      cases.filter fun other => other.id = c.id := by
    apply List.filter_congr
    intro other member
    refine decide_eq_decide.mpr ⟨fun same => congrArg (fun t => (ofLex t).2) same, fun same => ?_⟩
    rw [sole.eq member same]
  rw [(drawn_perm draw cases).countP_eq, List.countP_map, List.countP_eq_length_filter]
  exact congrArg List.length (named.trans sole)

/-- Of the ids of a part, the one of a case without namesakes is there for that case. -/
theorem mem_sortedIds (sole : Sole cases c) {part : List (ℚ ×ₗ String)} (within : part ⊆ drawn draw cases) :
    c.id ∈ sortedIds part ↔ key draw c ∈ part := by
  rw [sortedIds, List.mem_insertionSort, List.mem_map]
  constructor
  · rintro ⟨t, member, named⟩
    obtain ⟨other, listed, rfl⟩ := List.mem_map.mp ((drawn_perm draw cases).mem_iff.mp (within member))
    rwa [sole.eq listed named] at member
  · exact fun member => ⟨_, member, rfl⟩

theorem assign_sides (lane : String) (sole : Sole cases c) :
    (c.id ∈ (assign draw lane cases).holdout ↔
        TooFew cases ∨ place draw cases c < heldOut (drawn draw cases)) ∧
      (c.id ∈ (assign draw lane cases).dev ↔
        TooFew cases ∨ ¬ place draw cases c < heldOut (drawn draw cases)) := by
  have listed : key draw c ∈ drawn draw cases :=
    (drawn_perm draw cases).mem_iff.mpr (List.mem_map_of_mem sole.mem)
  have ranked : rank (drawn draw cases) (key draw c) = place draw cases c :=
    rank_perm (drawn_perm draw cases) _
  have taken := mem_take_iff (n := heldOut (drawn draw cases))
    (List.pairwise_insertionSort (· ≤ ·) (cases.map (key draw))) listed
  rw [← drawn, ranked] at taken
  have rest := mem_drop_iff (n := heldOut (drawn draw cases)) (count_drawn draw sole)
  unfold assign TooFew
  dsimp only
  rw [length_drawn]
  split
  next few =>
    simp only [few, true_or, iff_true]
    have both := (mem_sortedIds draw sole (List.Subset.refl _)).mpr listed
    exact ⟨both, both⟩
  next many =>
    simp only [many, false_or]
    rw [mem_sortedIds draw sole (List.take_subset _ _), mem_sortedIds draw sole (List.drop_subset _ _),
      rest, taken]
    exact ⟨Iff.rfl, Iff.rfl⟩

/-- How many cases are drawn to be held out. -/
def below (cases : List Case) : Nat :=
  cases.countP fun c => draw c < FRACTION

theorem heldOut_drawn (cases : List Case) :
    heldOut (drawn draw cases) = min (max (below draw cases) MIN_HOLDOUT) (cases.length - MIN_DEV) := by
  rw [heldOut, length_drawn, (drawn_perm draw cases).countP_eq, List.countP_map]
  rfl

theorem place_lt_below (member : c ∈ cases) (low : draw c < FRACTION) :
    place draw cases c < below draw cases := by
  have split := List.perm_cons_erase member
  have before : place draw cases c = (cases.erase c).countP fun other => key draw other < key draw c := by
    rw [place, rank, List.countP_map, split.countP_eq, List.countP_cons_of_neg (by simp)]
    rfl
  rw [before, below, split.countP_eq, List.countP_cons_of_pos (by simpa using low), Nat.lt_succ_iff]
  apply List.countP_mono_left
  intro other _ less
  have earlier := Prod.Lex.toLex_lt_toLex.mp (of_decide_eq_true less)
  apply decide_eq_true
  rcases earlier with less | ⟨same, -⟩
  · exact less.trans low
  · exact same.trans_lt low

theorem below_le_place (high : FRACTION ≤ draw c) : below draw cases ≤ place draw cases c := by
  rw [place, rank, List.countP_map]
  apply List.countP_mono_left
  intro other _ less
  apply decide_eq_true
  exact Prod.Lex.toLex_lt_toLex.mpr (.inl ((of_decide_eq_true less).trans_le high))

/-- The minimum aside, a case is held out by its own draw. -/
theorem place_lt_heldOut (member : c ∈ cases) (many : ¬ TooFew cases) :
    place draw cases c < heldOut (drawn draw cases) ↔
      PulledIn draw cases c ∨ draw c < FRACTION ∧ ¬ PushedOut draw cases c := by
  unfold PulledIn PushedOut
  rw [heldOut_drawn]
  unfold TooFew at many ⊢
  have least : MIN_HOLDOUT = 3 := rfl
  have least' : MIN_DEV = 3 := rfl
  rcases lt_or_ge (draw c) FRACTION with low | high
  · have before := place_lt_below draw member low
    simp only [low, not_le.mpr low, many, true_and, false_and, and_false, not_false_eq_true, false_or]
    omega
  · have after : below draw cases ≤ place draw cases c := below_le_place draw high
    simp only [high, not_lt.mpr high, many, true_and, false_and, not_false_eq_true, or_false]
    omega

/-- A case drawn to be held out is, unless it is pushed out. -/
theorem low_sides (lane : String) (sole : Sole cases c) (low : draw c < FRACTION) :
    (c.id ∈ (assign draw lane cases).holdout ↔ ¬ PushedOut draw cases c) ∧
      (c.id ∈ (assign draw lane cases).dev ↔ TooFew cases ∨ PushedOut draw cases c) := by
  have sides := assign_sides draw lane sole
  have held := place_lt_heldOut draw sole.mem
  rw [sides.1, sides.2]
  by_cases few : TooFew cases
  · have stays : ¬ PushedOut draw cases c := fun pushed => pushed.1 few
    simp only [few, stays, true_or, not_false_eq_true, and_self]
  · have drawn : ¬ PulledIn draw cases c := fun pulled => absurd low (not_lt.mpr pulled.2.1)
    rw [held few]
    simp only [few, drawn, low, true_and, false_or, not_not, and_self]

/-- A case drawn to be kept is, unless it is pulled in. -/
theorem high_sides (lane : String) (sole : Sole cases c) (high : FRACTION ≤ draw c) :
    (c.id ∈ (assign draw lane cases).holdout ↔ TooFew cases ∨ PulledIn draw cases c) ∧
      (c.id ∈ (assign draw lane cases).dev ↔ ¬ PulledIn draw cases c) := by
  have sides := assign_sides draw lane sole
  have held := place_lt_heldOut draw sole.mem
  rw [sides.1, sides.2]
  by_cases few : TooFew cases
  · have stays : ¬ PulledIn draw cases c := fun pulled => pulled.1 few
    simp only [few, stays, true_or, not_false_eq_true, and_self]
  · rw [held few]
    simp only [few, not_lt.mpr high, false_and, false_or, or_false, and_self]

/-! ## When the other cases change -/

/-- The case is on the same sides of both splits. -/
def KeepsSides (lane : String) (before after : List Case) (c : Case) : Prop :=
  (c.id ∈ (assign draw lane before).holdout ↔ c.id ∈ (assign draw lane after).holdout) ∧
    (c.id ∈ (assign draw lane before).dev ↔ c.id ∈ (assign draw lane after).dev)

/-- The minimum does the same with the case in both lists. -/
structure TreatedAlike (before after : List Case) (c : Case) : Prop where
  few : TooFew before ↔ TooFew after
  pulled : PulledIn draw before c ↔ PulledIn draw after c
  pushed : PushedOut draw before c ↔ PushedOut draw after c

theorem or_alike {few few' moved moved' : Prop} (apart : moved → ¬ few) (apart' : moved' → ¬ few')
    (same : moved ↔ moved') : (few ∨ moved ↔ few' ∨ moved') ↔ (few ↔ few') := by
  by_cases moves : moved
  · have moves' := same.mp moves
    exact iff_of_true (iff_of_true (.inr moves) (.inr moves'))
      (iff_of_false (apart moves) (apart' moves'))
  · rw [or_iff_left moves, or_iff_left fun moves' => moves (same.mpr moves')]

/-- An unchanged case keeps its side exactly where the minimum does the same with it: its side comes
    from its own draw, but for the minimum. -/
theorem keepsSides_iff (lane : String) {before after : List Case} {c : Case} (sole : Sole before c)
    (sole' : Sole after c) : KeepsSides draw lane before after c ↔ TreatedAlike draw before after c := by
  unfold KeepsSides
  rcases lt_or_ge (draw c) FRACTION with low | high
  · obtain ⟨held, kept⟩ := low_sides draw lane sole low
    obtain ⟨held', kept'⟩ := low_sides draw lane sole' low
    have drawn : ∀ cases, ¬ PulledIn draw cases c := fun _ pulled => absurd low (not_lt.mpr pulled.2.1)
    rw [held, held', kept, kept', not_iff_not]
    constructor
    · rintro ⟨pushed, few⟩
      exact ⟨(or_alike And.left And.left pushed).mp few, iff_of_false (drawn _) (drawn _), pushed⟩
    · intro alike
      exact ⟨alike.pushed, (or_alike And.left And.left alike.pushed).mpr alike.few⟩
  · obtain ⟨held, kept⟩ := high_sides draw lane sole high
    obtain ⟨held', kept'⟩ := high_sides draw lane sole' high
    have drawn : ∀ cases, ¬ PushedOut draw cases c := fun _ pushed => absurd pushed.2.1 (not_lt.mpr high)
    rw [held, held', kept, kept', not_iff_not]
    constructor
    · rintro ⟨few, pulled⟩
      exact ⟨(or_alike And.left And.left pulled).mp few, pulled, iff_of_false (drawn _) (drawn _)⟩
    · intro alike
      exact ⟨(or_alike And.left And.left alike.pulled).mpr alike.few, alike.pulled⟩

/-- Cases of one prompt. -/
def greeting (id : String) : Case :=
  { id, modality := "svg", content := "Say hello." }

/-- What is drawn for them. -/
def greeted : Draw := fun c =>
  (([("a", 145907602320624), ("b", 48191863690299), ("c", 197884207064563), ("d", 184229589771077),
    ("f", 177031608832560), ("g", 22009720578331), ("h", 21358186578972), ("k", 17046828889007),
    ("l", 32783989975474), ("m", 169224517069017), ("o", 117105826629174)].lookup c.id).getD 0 : Nat) /
      16 ^ 12

def six : List Case :=
  ["a", "c", "d", "f", "m", "o"].map greeting

/-- A case that is drawn late stays where it is when one is added. -/
theorem late_stays : KeepsSides greeted "svg" six (greeting "b" :: six) (greeting "c") := by
  refine (keepsSides_iff greeted "svg" (by decide) (by decide)).mpr ⟨?_, ?_, ?_⟩
  · unfold TooFew
    decide
  · unfold PulledIn TooFew
    decide +kernel
  · unfold PushedOut TooFew
    decide +kernel

/-- None of six cases is drawn to be held out, so the first three are. One more that is drawn sends the
    third back. -/
theorem third_moves :
    Sole six (greeting "m") ∧ Sole (greeting "b" :: six) (greeting "m") ∧
      "m" ∈ (assign greeted "svg" six).holdout ∧ "m" ∉ (assign greeted "svg" six).dev ∧
        "m" ∈ (assign greeted "svg" (greeting "b" :: six)).dev ∧
          "m" ∉ (assign greeted "svg" (greeting "b" :: six)).holdout := by
  refine ⟨by decide, by decide, ?_⟩
  decide +kernel

end LocalHarness.Holdout
