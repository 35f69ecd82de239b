import Mathlib.Data.List.Count
import Mathlib.Data.List.Dedup
import Mathlib.Data.List.Induction
import Mathlib.Data.List.Nodup
import LocalHarness.Library.Groups

/-! # Dictionaries in the order they were filled

A key is set in the place it was first given. Of the values set under one key only the last is
kept, so the values of a dictionary filled from a list are those of the list exactly where no
key is set a second time.
-/

namespace LocalHarness.Library

universe u v

/-- The items of a dictionary, each key once. -/
structure Ordered (κ : Type u) (α : Type v) where
  items : List (κ × α)
  once : (items.map Prod.fst).Nodup

namespace Ordered

variable {κ : Type u} {α : Type v}

instance : EmptyCollection (Ordered κ α) := ⟨⟨[], .nil⟩⟩

def keys (dict : Ordered κ α) : List κ :=
  dict.items.map Prod.fst

def values (dict : Ordered κ α) : List α :=
  dict.items.map Prod.snd

/-- The last value a list gives a key. -/
def Last (items : List (κ × α)) (key : κ) (value : α) : Prop :=
  ∃ front back, items = front ++ (key, value) :: back ∧ ∀ item ∈ back, item.1 ≠ key

/-- Under one key nothing but a blank comes before another value. -/
def Unrepeated (blank : α) (items : List (κ × α)) : Prop :=
  items.Pairwise fun item later => item.1 = later.1 → item.2 = blank

theorem unrepeated_concat {blank : α} {items : List (κ × α)} {key : κ} {value : α} :
    Unrepeated blank (items ++ [(key, value)]) ↔
      Unrepeated blank items ∧ ∀ item ∈ items, item.1 = key → item.2 = blank := by
  rw [Unrepeated, List.pairwise_append]
  simp [Unrepeated]

/-- A key's last value tells whether any was given it. -/
theorem Last.blank_iff {blank : α} {items : List (κ × α)} {key : κ} {value : α}
    (last : Last items key value) (unrepeated : Unrepeated blank items) :
    value = blank ↔ ∀ item ∈ items, item.1 = key → item.2 = blank := by
  obtain ⟨front, back, rfl, later⟩ := last
  constructor
  · intro none item member same
    rcases List.mem_append.mp member with before | here
    · exact (List.pairwise_append.mp unrepeated).2.2 item before _ List.mem_cons_self same
    · rcases List.mem_cons.mp here with here | after
      · rw [here]
        exact none
      · exact absurd same (later item after)
  · exact fun all => all (key, value) (by simp) rfl

theorem last_concat {items : List (κ × α)} {key here : κ} {value new : α} :
    Last (items ++ [(here, new)]) key value ↔
      key = here ∧ value = new ∨ key ≠ here ∧ Last items key value := by
  constructor
  · rintro ⟨front, back, split, later⟩
    rcases List.eq_nil_or_concat back with rfl | ⟨back, item, rfl⟩
    · obtain ⟨-, same⟩ := List.append_inj' split rfl
      cases same
      exact .inl ⟨rfl, rfl⟩
    · have split' : items ++ [(here, new)] = (front ++ (key, value) :: back) ++ [item] := by simpa using split
      obtain ⟨before, same⟩ := List.append_inj' split' rfl
      have apart := later item (by simp)
      cases same
      exact .inr ⟨Ne.symm apart, front, back, before, fun item member => later item (by simp [member])⟩
  · rintro (⟨rfl, rfl⟩ | ⟨apart, front, back, rfl, later⟩)
    · exact ⟨items, [], rfl, List.forall_mem_nil _⟩
    · refine ⟨front, back ++ [(here, new)], by simp, fun item member => ?_⟩
      rcases List.mem_append.mp member with old | last
      · exact later item old
      · rw [List.mem_singleton.mp last]
        exact Ne.symm apart

theorem Last.mem {items : List (κ × α)} {key : κ} {value : α} (last : Last items key value) :
    (key, value) ∈ items := by
  obtain ⟨front, back, rfl, -⟩ := last
  exact List.mem_append_right _ List.mem_cons_self

/-- The last value is the one that is no blank, if there is one. -/
theorem Last.eq_of_solid {blank : α} {items : List (κ × α)} {key : κ} {value solid : α}
    (last : Last items key value) (unrepeated : Unrepeated blank items)
    (member : (key, solid) ∈ items) (some_ : solid ≠ blank) : solid = value := by
  obtain ⟨front, back, rfl, later⟩ := last
  rcases List.mem_append.mp member with before | here
  · exact absurd ((List.pairwise_append.mp unrepeated).2.2 _ before _ List.mem_cons_self rfl) some_
  · rcases List.mem_cons.mp here with here | after
    · exact congrArg Prod.snd here
    · exact absurd rfl (later _ after)

variable [DecidableEq κ]

def get? (dict : Ordered κ α) (key : κ) : Option α :=
  (dict.items.find? fun item => item.1 = key).map Prod.snd

/-- The items once a key is set. -/
def setItem (items : List (κ × α)) (key : κ) (value : α) : List (κ × α) :=
  if key ∈ items.map Prod.fst then
    items.map fun item => if item.1 = key then (key, value) else item
  else items ++ [(key, value)]

theorem setItem_absent {items : List (κ × α)} {key : κ} (value : α)
    (absent : key ∉ items.map Prod.fst) : setItem items key value = items ++ [(key, value)] :=
  if_neg absent

theorem setItem_present {items : List (κ × α)} {key : κ} (value : α)
    (present : key ∈ items.map Prod.fst) :
    (setItem items key value).map Prod.fst = items.map Prod.fst := by
  rw [setItem, if_pos present, List.map_map]
  apply List.map_congr_left
  intro item _
  rw [Function.comp_apply]
  split
  next here => exact here.symm
  next => rfl

theorem setItem_once {items : List (κ × α)} (once : (items.map Prod.fst).Nodup) (key : κ)
    (value : α) : ((setItem items key value).map Prod.fst).Nodup := by
  by_cases present : key ∈ items.map Prod.fst
  · rwa [setItem_present value present]
  · rw [setItem_absent value present, List.map_append]
    exact once.append (List.nodup_singleton _) (List.disjoint_singleton.mpr present)

/-- A key is set again in its place, and the other items are left alone. -/
theorem setItem_cut {front back : List (κ × α)} {key : κ} {old : α} (value : α)
    (once : ((front ++ (key, old) :: back).map Prod.fst).Nodup) :
    setItem (front ++ (key, old) :: back) key value = front ++ (key, value) :: back := by
  have others : ∀ item ∈ front ++ back, item.1 ≠ key := by
    intro item member same
    rw [List.map_append, List.map_cons, List.nodup_middle, List.nodup_cons, ← List.map_append] at once
    have found := List.mem_map_of_mem (f := Prod.fst) member
    exact once.1 (same ▸ found)
  have kept : ∀ part : List (κ × α), (∀ item ∈ part, item.1 ≠ key) →
      part.map (fun item => if item.1 = key then (key, value) else item) = part := by
    intro part apart
    conv_rhs => rw [← List.map_id part]
    exact List.map_congr_left fun item member => if_neg (apart item member)
  rw [setItem, if_pos (by simp), List.map_append, List.map_cons, if_pos rfl,
    kept front fun item member => others item (List.mem_append_left _ member),
    kept back fun item member => others item (List.mem_append_right _ member)]

def insert (dict : Ordered κ α) (key : κ) (value : α) : Ordered κ α where
  items := setItem dict.items key value
  once := setItem_once dict.once key value

theorem items_insert (dict : Ordered κ α) (key : κ) (value : α) :
    (dict.insert key value).items = setItem dict.items key value := rfl

theorem mem_insert {dict : Ordered κ α} {key other : κ} {value old : α} :
    (other, old) ∈ (dict.insert key value).items ↔
      other = key ∧ old = value ∨ other ≠ key ∧ (other, old) ∈ dict.items := by
  rw [items_insert]
  by_cases present : key ∈ dict.items.map Prod.fst
  · rw [show setItem dict.items key value = _ from if_pos present, List.mem_map]
    constructor
    · rintro ⟨item, member, same⟩
      split at same
      next => exact .inl (Prod.mk.injEq .. ▸ same.symm)
      next apart =>
        subst same
        exact .inr ⟨apart, member⟩
    · rintro (⟨rfl, rfl⟩ | ⟨apart, member⟩)
      · obtain ⟨item, member, same⟩ := List.mem_map.mp present
        exact ⟨item, member, if_pos same⟩
      · exact ⟨(other, old), member, if_neg apart⟩
  · rw [setItem_absent value present, List.mem_append, List.mem_singleton, Prod.mk.injEq, or_comm]
    refine or_congr_right (and_iff_right_of_imp ?_).symm
    rintro member rfl
    exact present (List.mem_map_of_mem member)

theorem get?_eq_some {dict : Ordered κ α} {key : κ} {value : α} :
    dict.get? key = some value ↔ (key, value) ∈ dict.items := by
  rw [get?, Option.map_eq_some_iff]
  constructor
  · rintro ⟨item, found, rfl⟩
    have named := List.find?_some found
    rw [← of_decide_eq_true named]
    exact List.mem_of_find?_eq_some found
  · intro member
    cases found : dict.items.find? fun item => item.1 = key with
    | none =>
        have apart := List.find?_eq_none.mp found _ member
        simp at apart
    | some item =>
        have inside := List.mem_of_find?_eq_some found
        have named := List.find?_some found
        have same := List.inj_on_of_nodup_map dict.once inside member (of_decide_eq_true named)
        exact ⟨item, rfl, by rw [same]⟩

theorem get?_insert (dict : Ordered κ α) (key other : κ) (value : α) :
    (dict.insert key value).get? other = if other = key then some value else dict.get? other := by
  ext old
  rw [get?_eq_some, mem_insert]
  split
  next same => simp [same, eq_comm]
  next apart => simp [apart, get?_eq_some]

theorem mem_keys {dict : Ordered κ α} {key : κ} : key ∈ dict.keys ↔ ∃ value, dict.get? key = some value := by
  simp only [keys, List.mem_map, get?_eq_some, Prod.exists, exists_and_right, exists_eq_right]

/-- The same keys, each with what `f` makes of its value. -/
def mapValues {β : Type v} (f : α → β) (dict : Ordered κ α) : Ordered κ β where
  items := dict.items.map fun item => (item.1, f item.2)
  once := by
    rw [List.map_map]
    exact dict.once

theorem get?_mapValues {β : Type v} (f : α → β) (dict : Ordered κ α) (key : κ) :
    (dict.mapValues f).get? key = (dict.get? key).map f := by
  rw [get?, get?, mapValues, List.find?_map, Option.map_map, Option.map_map]
  rfl

/-- The items of a list under their keys, `setdefault(key, []).append(item)` of one after the other. -/
def groupBy (key : α → κ) (items : List α) : Ordered κ (List α) :=
  items.foldl (fun dict item => dict.insert (key item) ((dict.get? (key item)).getD [] ++ [item])) ∅

theorem groupBy_concat (key : α → κ) (items : List α) (item : α) :
    groupBy key (items ++ [item]) = (groupBy key items).insert (key item)
      (((groupBy key items).get? (key item)).getD [] ++ [item]) := by
  rw [groupBy, List.foldl_append, List.foldl_cons, List.foldl_nil, groupBy]

/-- Under a key stand the items that have it, in their order. -/
theorem get?_groupBy (key : α → κ) (items : List α) (name : κ) :
    (groupBy key items).get? name =
      if items.filter (fun item => key item = name) = [] then none
      else some (items.filter fun item => key item = name) := by
  induction items using List.reverseRecOn with
  | nil => rfl
  | append_singleton items item ih =>
      rw [groupBy_concat, get?_insert, List.filter_append]
      split
      next same =>
        subst same
        have one : [item].filter (fun other => key other = key item) = [item] := by simp
        have before : ((groupBy key items).get? (key item)).getD [] =
            items.filter fun other => key other = key item := by
          rw [ih]
          split
          next none => exact none.symm
          next => rfl
        rw [one, before, if_neg (List.append_ne_nil_of_right_ne_nil _ (List.cons_ne_nil _ _))]
      next apart =>
        have other : [item].filter (fun item => key item = name) = [] := by simp [Ne.symm apart]
        rw [ih, other, List.append_nil]

/-- Each item is put in with what stands under its key so far. -/
def gather {β : Type v} (key : β → κ) (step : Option α → β → α) (dict : Ordered κ α) (items : List β) :
    Ordered κ α :=
  items.foldl (fun dict item => dict.insert (key item) (step (dict.get? (key item)) item)) dict

/-- Under a key comes to stand what its own items make, whatever comes between them. -/
theorem get?_gather {β : Type v} (key : β → κ) (step : Option α → β → α) (dict : Ordered κ α)
    (items : List β) (name : κ) :
    (gather key step dict items).get? name =
      (items.filter fun item => key item = name).foldl (fun old item => some (step old item))
        (dict.get? name) := by
  induction items generalizing dict with
  | nil => rfl
  | cons item items ih =>
      rw [gather, List.foldl_cons, ← gather, ih, get?_insert]
      by_cases same : key item = name
      · rw [if_pos same.symm, List.filter_cons, if_pos (decide_eq_true same), List.foldl_cons, same]
      · rw [if_neg (Ne.symm same), List.filter_cons, if_neg (by simpa using same)]

/-- A dictionary filled from a list. -/
def fill (items : List (κ × α)) : Ordered κ α :=
  items.foldl (fun dict item => dict.insert item.1 item.2) ∅

theorem fill_concat (items : List (κ × α)) (key : κ) (value : α) :
    fill (items ++ [(key, value)]) = (fill items).insert key value := by
  rw [fill, List.foldl_append, List.foldl_cons, List.foldl_nil, fill]

theorem mem_keys_fill {items : List (κ × α)} {key : κ} :
    key ∈ (fill items).keys ↔ key ∈ items.map Prod.fst := by
  induction items using List.reverseRecOn with
  | nil => exact Iff.rfl
  | append_singleton items item ih =>
      obtain ⟨here, value⟩ := item
      rw [fill_concat, List.map_append, List.mem_append, ← ih]
      by_cases present : here ∈ (fill items).keys
      · have same : ((fill items).insert here value).keys = (fill items).keys :=
          setItem_present value present
        rw [same]
        constructor
        · exact .inl
        · rintro (member | new)
          · exact member
          · exact List.mem_singleton.mp new ▸ present
      · have grown : ((fill items).insert here value).keys = (fill items).keys ++ [here] := by
          rw [keys, items_insert, setItem_absent value present, List.map_append]
          rfl
        rw [grown, List.mem_append]
        rfl

/-- Under each key stands the last value that the list gives it. -/
theorem mem_fill_iff {items : List (κ × α)} {key : κ} {value : α} :
    (key, value) ∈ (fill items).items ↔ Last items key value := by
  induction items using List.reverseRecOn with
  | nil => exact ⟨fun member => absurd member List.not_mem_nil, fun last => absurd last.mem List.not_mem_nil⟩
  | append_singleton items item ih =>
      obtain ⟨here, new⟩ := item
      rw [fill_concat, mem_insert, last_concat, ih]

theorem fill_of_once {items : List (κ × α)} (once : (items.map Prod.fst).Nodup) :
    (fill items).items = items := by
  induction items using List.reverseRecOn with
  | nil => rfl
  | append_singleton items item ih =>
      rw [List.map_append, List.nodup_append] at once
      have before := ih once.1
      rw [fill_concat, items_insert, before]
      exact setItem_absent item.2 fun member => once.2.2 _ member _ List.mem_cons_self rfl

theorem length_fill (items : List (κ × α)) :
    (fill items).items.length = (items.map Prod.fst).dedup.length := by
  have perm : (fill items).keys.Perm (items.map Prod.fst).dedup := by
    refine (List.perm_ext_iff_of_nodup (fill items).once (List.nodup_dedup _)).mpr fun key => ?_
    rw [List.mem_dedup]
    exact mem_keys_fill
  rw [← perm.length_eq, keys, List.length_map]

/-- A dictionary has as many items as the list where no key of the list comes twice. -/
theorem length_fill_iff {items : List (κ × α)} :
    (fill items).items.length = items.length ↔ (items.map Prod.fst).Nodup := by
  refine ⟨fun same => ?_, fun once => by rw [fill_of_once once]⟩
  have length : (items.map Prod.fst).dedup.length = (items.map Prod.fst).length := by
    rw [← length_fill, same, List.length_map]
  exact List.dedup_eq_self.mp ((List.dedup_sublist _).eq_of_length length)

/-! ## What a dictionary leaves out -/

variable [DecidableEq α]

/-- What stands under one key. -/
theorem filter_items (dict : Ordered κ α) (key : κ) :
    dict.items.filter (fun item => item.1 = key) = ((dict.get? key).map (Prod.mk key)).toList := by
  cases held : dict.get? key with
  | none =>
      refine List.filter_eq_nil_iff.mpr fun item member here => ?_
      obtain rfl := of_decide_eq_true here
      rw [get?_eq_some.mpr member] at held
      cases held
  | some value => exact Groups.filter_key Prod.fst dict.once (get?_eq_some.mp held)

theorem count_insert_absent {dict : Ordered κ α} {key : κ} (value w : α) (absent : key ∉ dict.keys) :
    (dict.insert key value).values.count w = dict.values.count w + [value].count w := by
  rw [values, items_insert, setItem_absent value absent, List.map_append, List.count_append]
  rfl

theorem count_insert_present {dict : Ordered κ α} {key : κ} {old : α} (value w : α)
    (present : (key, old) ∈ dict.items) :
    (dict.insert key value).values.count w + [old].count w =
      dict.values.count w + [value].count w := by
  obtain ⟨front, back, shape⟩ := List.append_of_mem present
  have set : (dict.insert key value).items = front ++ (key, value) :: back := by
    rw [items_insert, shape]
    exact setItem_cut value (shape ▸ dict.once)
  simp only [values, set, shape, List.map_append, List.map_cons, List.count_append, List.count_cons,
    List.count_nil]
  omega

theorem count_fill_le (items : List (κ × α)) (w : α) :
    (fill items).values.count w ≤ (items.map Prod.snd).count w := by
  induction items using List.reverseRecOn with
  | nil => exact Nat.le_refl _
  | append_singleton items item ih =>
      obtain ⟨key, value⟩ := item
      rw [fill_concat, List.map_append, List.count_append]
      by_cases present : key ∈ (fill items).keys
      · obtain ⟨⟨_, old⟩, member, rfl⟩ := List.mem_map.mp present
        have moved := count_insert_present value w member
        simp only [List.map_cons, List.map_nil]
        omega
      · rw [count_insert_absent value w present]
        exact Nat.add_le_add_right ih _

/-- A dictionary has every value of the list it was filled from, blanks aside, exactly where no
    value is followed by another under its key. -/
theorem count_fill_iff (blank : α) (items : List (κ × α)) :
    (∀ w, w ≠ blank → (fill items).values.count w = (items.map Prod.snd).count w) ↔
      Unrepeated blank items := by
  induction items using List.reverseRecOn with
  | nil => exact iff_of_true (fun _ _ => rfl) .nil
  | append_singleton items item ih =>
      obtain ⟨key, value⟩ := item
      rw [fill_concat, unrepeated_concat, ← ih, List.map_append]
      by_cases present : key ∈ (fill items).keys
      · obtain ⟨⟨_, old⟩, member, rfl⟩ := List.mem_map.mp present
        have last := mem_fill_iff.mp member
        have moved := fun w => count_insert_present value w member
        constructor
        · intro same
          -- The value set before is gone, so it was a blank.
          have was : old = blank := by
            by_contra solid
            have gone := same old solid
            have most := count_fill_le items old
            have here := moved old
            rw [List.count_append] at gone
            simp only [List.map_cons, List.map_nil, List.count_singleton_self] at gone here
            omega
          have kept : ∀ w, w ≠ blank →
              (fill items).values.count w = (items.map Prod.snd).count w := by
            intro w solid
            have none : [old].count w = 0 := List.count_eq_zero.mpr (by simpa [was] using solid)
            have here := moved w
            have all := same w solid
            rw [List.count_append] at all
            simp only [List.map_cons, List.map_nil] at all
            omega
          exact ⟨kept, (last.blank_iff (ih.mp kept)).mp was⟩
        · rintro ⟨kept, blanks⟩ w solid
          have was := (last.blank_iff (ih.mp kept)).mpr blanks
          have none : [old].count w = 0 := List.count_eq_zero.mpr (by simpa [was] using solid)
          have here := moved w
          rw [none, kept w solid] at here
          rw [List.count_append]
          exact here
      · have fresh : ∀ item ∈ items, item.1 = key → item.2 = blank := by
          rintro item member rfl
          exact absurd (mem_keys_fill.mpr (List.mem_map_of_mem member)) present
        have added := fun w => count_insert_absent value w present
        refine ⟨fun same => ⟨fun w solid => ?_, fresh⟩, fun same w solid => ?_⟩
        · have all := same w solid
          rw [added, List.count_append] at all
          exact Nat.add_right_cancel all
        · rw [added, List.count_append, same.1 w solid]
          rfl

end Ordered

end LocalHarness.Library
