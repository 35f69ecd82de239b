import LocalHarness.Holdout.Assign
import LocalHarness.Library.Groups

/-! # The cases on one side

A list of cases from several lanes is filtered by the ids on that side of any of their lanes. A lane
that has the id of another's case on that side lets it through.
-/

namespace LocalHarness.Holdout

open LocalHarness.Library
open LocalHarness.Adopt (Side Split MIN_HOLDOUT MIN_DEV)

variable (draw : Draw)

/-- The ids on a side of a split. -/
def idsOn (split : Split) : Side → List String
  | .dev => split.dev
  | .holdout => split.holdout

def inLane (cases : List Case) (lane : String) : List Case :=
  cases.filter fun c => c.modality = lane

def lanes (cases : List Case) : List String :=
  (cases.map Case.modality).dedup

/-- The split of a lane among these cases. -/
def splitOf (cases : List Case) (lane : String) : Split :=
  assign draw lane (inLane cases lane)

/-- The ids to keep. -/
def keep (cases : List Case) (side : Side) : List String :=
  (lanes cases).flatMap fun lane => idsOn (splitOf draw cases lane) side

def onSide (cases : List Case) (side : Side) : List Case :=
  cases.filter fun c => c.id ∈ keep draw cases side

def only (cases : List Case) (side : String) : Except String (List Case) :=
  if side = "all" then .ok cases
  else if side = "dev" then .ok (onSide draw cases .dev)
  else if side = "holdout" then .ok (onSide draw cases .holdout)
  else .error ("unknown split " ++ Text.quoted side ++ "; known: all, dev, holdout")

/-! ## A split has all cases of its lane, and its minimum on each side -/

variable {cases : List Case} {side : Side}

theorem assign_perm {cases' : List Case} (same : cases.Perm cases') (lane : String) :
    assign draw lane cases = assign draw lane cases' := by
  have sorted : drawn draw cases = drawn draw cases' :=
    ((drawn_perm draw cases).trans ((same.map _).trans (drawn_perm draw cases').symm)).eq_of_pairwise'
      (List.pairwise_insertionSort _ _) (List.pairwise_insertionSort _ _)
  unfold assign
  rw [sorted]

theorem splitOf_perm {cases' : List Case} (same : cases.Perm cases') (lane : String) :
    splitOf draw cases lane = splitOf draw cases' lane :=
  assign_perm draw (same.filter _) lane

/-- A side of a split is a part of its cases. -/
theorem idsOn_part (lane : String) (cases : List Case) (side : Side) :
    ∃ part : List (ℚ ×ₗ String), part.Sublist (drawn draw cases) ∧
      idsOn (assign draw lane cases) side = sortedIds part := by
  unfold assign
  dsimp only
  split
  next =>
    cases side with
    | dev => exact ⟨_, List.Sublist.refl _, rfl⟩
    | holdout => exact ⟨_, List.Sublist.refl _, rfl⟩
  next =>
    cases side with
    | dev => exact ⟨_, List.drop_sublist _ _, rfl⟩
    | holdout => exact ⟨_, List.take_sublist _ _, rfl⟩

theorem mem_of_idsOn {lane id : String} (member : id ∈ idsOn (assign draw lane cases) side) :
    ∃ c ∈ cases, c.id = id := by
  obtain ⟨part, within, shape⟩ := idsOn_part draw lane cases side
  rw [shape, sortedIds, List.mem_insertionSort] at member
  obtain ⟨t, inside, rfl⟩ := List.mem_map.mp member
  obtain ⟨c, listed, rfl⟩ := List.mem_map.mp
    ((drawn_perm draw cases).mem_iff.mp (within.subset inside))
  exact ⟨c, listed, rfl⟩

/-- There are as many cases on a side as it has ids, or more. -/
theorem length_idsOn_le (lane : String) (cases : List Case) (side : Side) :
    (idsOn (assign draw lane cases) side).length ≤
      cases.countP fun c => c.id ∈ idsOn (assign draw lane cases) side := by
  obtain ⟨part, within, shape⟩ := idsOn_part draw lane cases side
  have counted : (cases.countP fun c => c.id ∈ sortedIds part) =
      (drawn draw cases).countP fun t => (ofLex t).2 ∈ sortedIds part := by
    rw [(drawn_perm draw cases).countP_eq, List.countP_map]
    rfl
  have all : part.countP (fun t => (ofLex t).2 ∈ sortedIds part) = part.length := by
    rw [List.countP_eq_length]
    intro t inside
    rw [decide_eq_true_iff, sortedIds, List.mem_insertionSort]
    exact List.mem_map_of_mem inside
  have length : (sortedIds part).length = part.length := by
    rw [sortedIds, List.length_insertionSort, List.length_map]
  rw [shape, counted, length, ← all]
  exact within.countP_le

theorem mem_sides {c : Case} (member : c ∈ cases) (lane : String) :
    c.id ∈ idsOn (assign draw lane cases) .dev ∨ c.id ∈ idsOn (assign draw lane cases) .holdout := by
  have listed : c.id ∈ (drawn draw cases).map fun t => (ofLex t).2 :=
    List.mem_map.mpr ⟨_, (drawn_perm draw cases).mem_iff.mpr (List.mem_map_of_mem member), rfl⟩
  unfold assign
  dsimp only
  split
  next => exact .inl (List.mem_insertionSort _ |>.mpr listed)
  next =>
    rw [← List.take_append_drop (heldOut (drawn draw cases)) (drawn draw cases), List.map_append,
      List.mem_append] at listed
    rcases listed with held | kept
    · exact .inr (List.mem_insertionSort _ |>.mpr held)
    · exact .inl (List.mem_insertionSort _ |>.mpr kept)

theorem least_idsOn (lane : String) (many : (assign draw lane cases).tooSmall = false) :
    MIN_DEV ≤ (idsOn (assign draw lane cases) .dev).length ∧
      MIN_HOLDOUT ≤ (idsOn (assign draw lane cases) .holdout).length := by
  have least : MIN_HOLDOUT = 3 := rfl
  have least' : MIN_DEV = 3 := rfl
  unfold assign at many ⊢
  dsimp only at many ⊢
  split at many
  next => cases many
  next enough =>
    rw [if_neg enough]
    simp only [idsOn, sortedIds, List.length_insertionSort, List.length_map, List.length_take,
      List.length_drop, heldOut]
    omega

/-! ## The filter -/

/-- Two cases with one id are on the same sides, each of its own lane. -/
def NoLeak (cases : List Case) : Prop :=
  ∀ c ∈ cases, ∀ other ∈ cases, other.id = c.id → ∀ side,
    other.id ∈ idsOn (splitOf draw cases other.modality) side →
      c.id ∈ idsOn (splitOf draw cases c.modality) side

/-- No id of a lane that is split is on both of its sides. -/
def Apart (cases : List Case) : Prop :=
  ∀ c ∈ cases, (splitOf draw cases c.modality).tooSmall = false →
    c.id ∈ idsOn (splitOf draw cases c.modality) .dev →
      c.id ∉ idsOn (splitOf draw cases c.modality) .holdout

/-- What is kept is what the lanes' own splits put on a side. -/
structure Faithful (cases : List Case) : Prop where
  own : ∀ side, ∀ c ∈ cases,
    c ∈ onSide draw cases side ↔ c.id ∈ idsOn (splitOf draw cases c.modality) side
  once : ∀ lane, (splitOf draw cases lane).tooSmall = false →
    (inLane (onSide draw cases .dev ++ onSide draw cases .holdout) lane).Perm (inLane cases lane)
  least : ∀ lane, (splitOf draw cases lane).tooSmall = false →
    MIN_DEV ≤ (inLane (onSide draw cases .dev) lane).length ∧
      MIN_HOLDOUT ≤ (inLane (onSide draw cases .holdout) lane).length
  order : ∀ cases', cases.Perm cases' → ∀ side,
    (onSide draw cases side).Perm (onSide draw cases' side)

theorem mem_inLane {c : Case} (member : c ∈ cases) : c ∈ inLane cases c.modality :=
  List.mem_filter.mpr ⟨member, decide_eq_true rfl⟩

theorem mem_keep {id : String} :
    id ∈ keep draw cases side ↔ ∃ other ∈ cases, id ∈ idsOn (splitOf draw cases other.modality) side := by
  unfold keep lanes
  simp only [List.mem_flatMap, List.mem_dedup, List.mem_map, exists_exists_and_eq_and]

theorem mem_onSide {c : Case} (member : c ∈ cases) :
    c ∈ onSide draw cases side ↔ c.id ∈ keep draw cases side := by
  rw [onSide, List.mem_filter, decide_eq_true_iff]
  exact and_iff_right member

theorem own_iff : (∀ side, ∀ c ∈ cases,
    c ∈ onSide draw cases side ↔ c.id ∈ idsOn (splitOf draw cases c.modality) side) ↔
      NoLeak draw cases := by
  constructor
  · intro own c member other member' named side held
    refine (own side c member).mp ((mem_onSide draw member).mpr ((mem_keep draw).mpr ⟨other, member', ?_⟩))
    rwa [← named]
  · intro noLeak side c member
    rw [mem_onSide draw member, mem_keep]
    refine ⟨fun ⟨lender, listed, held⟩ => ?_, fun held => ⟨c, member, held⟩⟩
    obtain ⟨other, inside, named⟩ := mem_of_idsOn draw held
    obtain ⟨member', same⟩ := List.mem_filter.mp inside
    rw [← of_decide_eq_true same, ← named] at held
    exact noLeak c member other member' named side held

theorem keep_perm {cases' : List Case} (same : cases.Perm cases') {id : String} :
    id ∈ keep draw cases side ↔ id ∈ keep draw cases' side := by
  rw [mem_keep, mem_keep]
  simp only [same.mem_iff, splitOf_perm draw same]

theorem onSide_perm {cases' : List Case} (same : cases.Perm cases') (side : Side) :
    (onSide draw cases side).Perm (onSide draw cases' side) := by
  refine (same.filter _).trans (List.Perm.of_eq (List.filter_congr fun c _ => ?_))
  exact decide_eq_decide.mpr (keep_perm draw same)

theorem inLane_onSide (lane : String) (side : Side) :
    inLane (onSide draw cases side) lane =
      (inLane cases lane).filter fun c => c.id ∈ keep draw cases side := by
  rw [inLane, onSide, List.filter_comm]
  rfl

/-- What is kept of a lane has at least the ids of its side. -/
theorem length_onSide (lane : String) (side : Side) :
    (idsOn (splitOf draw cases lane) side).length ≤ (inLane (onSide draw cases side) lane).length := by
  refine (length_idsOn_le draw lane (inLane cases lane) side).trans ?_
  rw [inLane_onSide, ← List.countP_eq_length_filter]
  apply List.countP_mono_left
  intro c member held
  rw [decide_eq_true_iff] at held ⊢
  obtain ⟨listed, named⟩ := List.mem_filter.mp member
  refine (mem_keep draw).mpr ⟨c, listed, ?_⟩
  rw [of_decide_eq_true named]
  exact held

theorem least_onSide (lane : String) (many : (splitOf draw cases lane).tooSmall = false) :
    MIN_DEV ≤ (inLane (onSide draw cases .dev) lane).length ∧
      MIN_HOLDOUT ≤ (inLane (onSide draw cases .holdout) lane).length := by
  obtain ⟨dev, holdout⟩ := least_idsOn draw lane many
  exact ⟨dev.trans (length_onSide draw lane .dev), holdout.trans (length_onSide draw lane .holdout)⟩

/-- A filtered list and what was filtered out are the list, exactly where each element is in one. -/
theorem filter_append_perm_iff {α : Type} [DecidableEq α] {p q : α → Bool} {l : List α} :
    (l.filter p ++ l.filter q).Perm l ↔ ∀ a ∈ l, q a = !p a := by
  constructor
  · intro same a member
    have counts := same.count_eq a
    have there := List.count_pos_iff.mpr member
    rw [List.count_append] at counts
    cases first : p a <;> cases second : q a
    · rw [List.count_eq_zero_of_not_mem (by simp [first]),
        List.count_eq_zero_of_not_mem (by simp [second])] at counts
      omega
    · rfl
    · rfl
    · rw [List.count_filter first, List.count_filter second] at counts
      omega
  · intro apart
    have rest : l.filter q = l.filter fun a => !p a := List.filter_congr apart
    rw [rest]
    exact List.filter_append_perm p l

theorem decide_opposite {p q : Prop} [Decidable p] [Decidable q] (either : p ∨ q) :
    decide q = !decide p ↔ (p → ¬ q) := by
  by_cases first : p
  · simp [first]
  · simp [first, either.resolve_left first]

theorem once_iff (own : ∀ side, ∀ c ∈ cases,
    c ∈ onSide draw cases side ↔ c.id ∈ idsOn (splitOf draw cases c.modality) side) :
    (∀ lane, (splitOf draw cases lane).tooSmall = false →
      (inLane (onSide draw cases .dev ++ onSide draw cases .holdout) lane).Perm (inLane cases lane)) ↔
      Apart draw cases := by
  have parted : ∀ lane, (inLane (onSide draw cases .dev ++ onSide draw cases .holdout) lane).Perm
      (inLane cases lane) ↔ ∀ c ∈ inLane cases lane,
        decide (c.id ∈ keep draw cases .holdout) = !decide (c.id ∈ keep draw cases .dev) := by
    intro lane
    rw [inLane, List.filter_append, ← inLane, ← inLane, inLane_onSide, inLane_onSide]
    exact filter_append_perm_iff
  have kept : ∀ side, ∀ c ∈ cases,
      c.id ∈ keep draw cases side ↔ c.id ∈ idsOn (splitOf draw cases c.modality) side :=
    fun side c member => (mem_onSide draw member).symm.trans (own side c member)
  constructor
  · intro once c member many dev
    have split := (parted c.modality).mp (once c.modality many) c (mem_inLane member)
    rw [decide_opposite (.inl ((kept .dev c member).mpr dev))] at split
    exact fun held => split ((kept .dev c member).mpr dev) ((kept .holdout c member).mpr held)
  · intro apart lane many
    refine (parted lane).mpr fun c inside => ?_
    obtain ⟨member, named⟩ := List.mem_filter.mp inside
    have same := of_decide_eq_true named
    have either := mem_sides draw inside lane
    rw [← splitOf, ← same, ← kept .dev c member, ← kept .holdout c member] at either
    rw [decide_opposite either, kept .dev c member, kept .holdout c member]
    exact apart c member (same ▸ many)

/-- The filter keeps what the lanes' own splits say exactly where no id is on different sides of two
    lanes that have it, or on both of one that is split. -/
theorem only_faithful_iff (cases : List Case) :
    only draw cases "dev" = .ok (onSide draw cases .dev) ∧
      only draw cases "holdout" = .ok (onSide draw cases .holdout) ∧
        (Faithful draw cases ↔ NoLeak draw cases ∧ Apart draw cases) := by
  refine ⟨rfl, rfl, fun faithful => ?_, fun ⟨noLeak, apart⟩ => ?_⟩
  · exact ⟨(own_iff draw).mp faithful.own, (once_iff draw faithful.own).mp faithful.once⟩
  · have own := (own_iff draw).mpr noLeak
    exact
      { own := own
        once := (once_iff draw own).mpr apart
        least := least_onSide draw
        order := fun cases' same side => onSide_perm draw same side }

/-- Distinct ids are enough. -/
theorem noLeak_of_distinct (distinct : (cases.map Case.id).Nodup) : NoLeak draw cases := by
  intro c member other member' named side held
  rwa [List.inj_on_of_nodup_map distinct member' member named] at held

theorem apart_of_distinct (distinct : (cases.map Case.id).Nodup) : Apart draw cases := by
  intro c member many dev held
  have sole : Sole (inLane cases c.modality) c :=
    Groups.filter_key Case.id (distinct.sublist (List.filter_sublist.map _)) (mem_inLane member)
  have split : ¬ TooFew (inLane cases c.modality) := by
    intro few
    unfold TooFew at few
    rw [splitOf, assign, length_drawn, if_pos few] at many
    cases many
  obtain ⟨holdout, kept⟩ := assign_sides draw c.modality sole
  exact (kept.mp dev).resolve_left split ((holdout.mp held).resolve_left split)

/-- A lane whose cases have the ids of another's. -/
def leaking : List Case :=
  six ++ ["g", "h", "k", "l", "b", "m"].map fun id => { greeting id with modality := "web" }

/-- The web lane has a case on its dev side whose id is on the other's holdout, and lets it through. -/
theorem held_out_leaks :
    greeting "m" ∈ leaking ∧ "m" ∈ idsOn (splitOf greeted leaking "svg") .holdout ∧
      "m" ∉ idsOn (splitOf greeted leaking "svg") .dev ∧
        ∃ kept, only greeted leaking "dev" = .ok kept ∧ greeting "m" ∈ kept := by
  refine ⟨by decide +kernel, by decide +kernel, by decide +kernel, _, rfl, by decide +kernel⟩

end LocalHarness.Holdout
