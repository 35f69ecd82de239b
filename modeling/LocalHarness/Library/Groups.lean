import Mathlib.Data.List.Basic
import Mathlib.Data.List.Induction
import Mathlib.Data.List.Nodup

/-! # Groups by a relation that does not pass on

Items are put one by one into the first group all of whose members they match. Every item is in
one group and any two of a group match. Where the match also asks for one key, the groups made
without asking for it keep the key exactly where no item first fits a group of another key.
-/

namespace LocalHarness.Library.Groups

universe u v

variable {α : Type u} {κ : Type v} (same : α → α → Bool)

def fits (item : α) (group : List α) : Bool :=
  group.all (same item)

/-- Into the first group it fits, or one of its own. -/
def place : List (List α) → α → List (List α)
  | [], item => [[item]]
  | group :: groups, item =>
      if fits same item group then (group ++ [item]) :: groups else group :: place groups item

def grouped (items : List α) : List (List α) :=
  items.foldl (place same) []

@[simp] theorem grouped_nil : grouped same [] = [] := rfl

@[simp] theorem grouped_concat (items : List α) (item : α) :
    grouped same (items ++ [item]) = place same (grouped same items) item := by
  rw [grouped, List.foldl_append, List.foldl_cons, List.foldl_nil, grouped]

variable {same}

/-- A group after an item is placed was there before, or has the item at its end. -/
theorem mem_place {groups : List (List α)} {item : α} {group : List α}
    (member : group ∈ place same groups item) :
    group ∈ groups ∨ group = [item] ∨
      ∃ before ∈ groups, fits same item before = true ∧ group = before ++ [item] := by
  induction groups with
  | nil => exact .inr (.inl (List.mem_singleton.mp member))
  | cons first rest ih =>
      rw [place] at member
      split at member
      next fit =>
        rcases List.mem_cons.mp member with rfl | later
        · exact .inr (.inr ⟨first, List.mem_cons_self, fit, rfl⟩)
        · exact .inl (List.mem_cons_of_mem _ later)
      next =>
        rcases List.mem_cons.mp member with rfl | later
        · exact .inl List.mem_cons_self
        · rcases ih later with old | alone | ⟨before, inside, fit, shape⟩
          · exact .inl (List.mem_cons_of_mem _ old)
          · exact .inr (.inl alone)
          · exact .inr (.inr ⟨before, List.mem_cons_of_mem _ inside, fit, shape⟩)

theorem place_perm (groups : List (List α)) (item : α) :
    (place same groups item).flatten.Perm (groups.flatten ++ [item]) := by
  induction groups with
  | nil => exact .refl _
  | cons first rest ih =>
      rw [place]
      split
      · rw [List.flatten_cons, List.flatten_cons, List.append_assoc, List.append_assoc]
        exact .append_left first List.perm_append_comm
      · rw [List.flatten_cons, List.flatten_cons, List.append_assoc]
        exact .append_left first ih

/-! ## What the groups are -/

/-- Every item is in one group. -/
theorem grouped_perm (items : List α) : (grouped same items).flatten.Perm items := by
  induction items using List.reverseRecOn with
  | nil => exact .nil
  | append_singleton items item ih =>
      rw [grouped_concat]
      exact (place_perm _ item).trans (ih.append_right [item])

/-- Any two of a group match, the later with the earlier. -/
theorem grouped_mutual (items : List α) :
    ∀ group ∈ grouped same items, group.Pairwise fun earlier later => same later earlier = true := by
  induction items using List.reverseRecOn with
  | nil => nofun
  | append_singleton items item ih =>
      intro group member
      rw [grouped_concat] at member
      rcases mem_place member with old | rfl | ⟨before, inside, fit, rfl⟩
      · exact ih group old
      · exact List.pairwise_singleton _ item
      · refine List.pairwise_append.mpr ⟨ih before inside, List.pairwise_singleton _ item, ?_⟩
        intro earlier here later last
        rw [List.mem_singleton.mp last]
        exact List.all_eq_true.mp fit earlier here

/-- A group has its members in the order of the items. -/
theorem grouped_sublist (items : List α) :
    ∀ group ∈ grouped same items, group.Sublist items := by
  induction items using List.reverseRecOn with
  | nil => nofun
  | append_singleton items item ih =>
      intro group member
      rw [grouped_concat] at member
      rcases mem_place member with old | rfl | ⟨before, inside, -, rfl⟩
      · exact (ih group old).trans (List.sublist_append_left items [item])
      · exact List.sublist_append_right items [item]
      · exact (ih before inside).append (.refl [item])

/-- Of lists that have no member twice, one holds a given member. -/
theorem countP_mem_flatten [DecidableEq α] {groups : List (List α)} (once : groups.flatten.Nodup)
    {item : α} (member : item ∈ groups.flatten) : groups.countP (item ∈ ·) = 1 := by
  induction groups with
  | nil => cases member
  | cons first rest ih =>
      rw [List.flatten_cons] at once member
      obtain ⟨-, onceRest, apart⟩ := List.nodup_append.mp once
      by_cases here : item ∈ first
      · have elsewhere : rest.countP (item ∈ ·) = 0 := by
          refine List.countP_eq_zero.mpr fun group inside held => ?_
          have there : item ∈ rest.flatten := List.mem_flatten.mpr ⟨group, inside, by simpa using held⟩
          exact apart item here item there rfl
        rw [List.countP_cons_of_pos (by simpa using here), elsewhere]
      · rw [List.countP_cons_of_neg (by simpa using here)]
        exact ih onceRest ((List.mem_append.mp member).resolve_left here)

/-! ## The first of each key -/

section

variable [DecidableEq κ] (key : α → κ)

/-- The items without those whose key an earlier item has. -/
def firsts (items : List α) : List α :=
  items.foldl (fun kept item => if key item ∈ kept.map key then kept else kept ++ [item]) []

theorem firsts_concat (items : List α) (item : α) :
    firsts key (items ++ [item]) =
      if key item ∈ (firsts key items).map key then firsts key items
      else firsts key items ++ [item] := by
  rw [firsts, List.foldl_append, List.foldl_cons, List.foldl_nil, firsts]

theorem map_firsts_nodup (items : List α) : ((firsts key items).map key).Nodup := by
  induction items using List.reverseRecOn with
  | nil => exact .nil
  | append_singleton items item ih =>
      rw [firsts_concat]
      split
      next => exact ih
      next absent =>
        rw [List.map_append, List.map_singleton]
        exact List.nodup_append.mpr ⟨ih, List.nodup_singleton _, fun a inside b last eq =>
          absent (List.mem_singleton.mp last ▸ eq ▸ inside)⟩

theorem mem_map_firsts {items : List α} {k : κ} :
    k ∈ (firsts key items).map key ↔ k ∈ items.map key := by
  induction items using List.reverseRecOn with
  | nil => rfl
  | append_singleton items item ih =>
      rw [firsts_concat, List.map_append, List.map_singleton, List.mem_append, List.mem_singleton, ← ih]
      split
      next present =>
        exact ⟨.inl, fun either => either.elim id fun last => last ▸ present⟩
      next => rw [List.map_append, List.map_singleton, List.mem_append, List.mem_singleton]

theorem firsts_sublist (items : List α) : (firsts key items).Sublist items := by
  induction items using List.reverseRecOn with
  | nil => exact List.Sublist.refl _
  | append_singleton items item ih =>
      rw [firsts_concat]
      split
      next => exact ih.trans (List.sublist_append_left _ _)
      next => exact ih.append (List.Sublist.refl _)

theorem firsts_map {β : Type u} {key' : β → κ} {key : α → κ} (f : α → β) (same : ∀ a, key' (f a) = key a)
    (items : List α) : firsts key' (items.map f) = (firsts key items).map f := by
  induction items using List.reverseRecOn with
  | nil => rfl
  | append_singleton items item ih =>
      have keys : ((firsts key items).map f).map key' = (firsts key items).map key := by
        rw [List.map_map]
        exact List.map_congr_left fun a _ => same a
      rw [List.map_append, List.map_singleton, firsts_concat, firsts_concat, ih, keys, same]
      split
      next => rfl
      next => rw [List.map_append, List.map_singleton]

/-- Where the keys differ, an item is all there is of its key. -/
theorem filter_key [DecidableEq α] {items : List α} (once : (items.map key).Nodup) {item : α}
    (member : item ∈ items) : items.filter (fun other => key other = key item) = [item] := by
  have apart := List.inj_on_of_nodup_map once
  have same : items.filter (fun other => key other = key item) =
      items.filter (fun other => other = item) := by
    apply List.filter_congr
    intro other inside
    exact decide_eq_decide.mpr ⟨fun named => apart inside member named, fun same => same ▸ rfl⟩
  rw [same, List.filter_eq, List.count_eq_one_of_mem once.of_map member, List.replicate_one]

/-- What is kept under a key is the first item of that key. -/
theorem find_of_mem_firsts {items : List α} {item : α} (kept : item ∈ firsts key items) :
    items.find? (fun other => key other = key item) = some item := by
  induction items using List.reverseRecOn with
  | nil => cases kept
  | append_singleton items last ih =>
      rw [firsts_concat] at kept
      split at kept
      next => rw [List.find?_append, ih kept, Option.some_or]
      next absent =>
        rcases List.mem_append.mp kept with inside | here
        · rw [List.find?_append, ih inside, Option.some_or]
        · obtain rfl := List.mem_singleton.mp here
          have before : items.find? (fun other => key other = key item) = none := by
            refine List.find?_eq_none.mpr fun other member same => absent ?_
            exact (mem_map_firsts key).mpr
              (List.mem_map.mpr ⟨other, member, of_decide_eq_true same⟩)
          rw [List.find?_append, before, Option.none_or, List.find?_cons_of_pos (by simp)]

end

/-! ## Groups that keep a key -/

variable (same) (key : α → κ)

/-- The members of every group have one key. -/
def Uniform (groups : List (List α)) : Prop :=
  ∀ group ∈ groups, ∀ a ∈ group, ∀ b ∈ group, key a = key b

/-- The first group an item fits, key apart, has its key. -/
def FirstFitKeeps (groups : List (List α)) (item : α) : Prop :=
  ∀ group, groups.find? (fits same item) = some group → ∀ member ∈ group, key member = key item

variable {same key}

theorem firstFitKeeps_cons {first : List α} {rest : List (List α)} {item : α} :
    FirstFitKeeps same key (first :: rest) item ↔
      if fits same item first then ∀ member ∈ first, key member = key item
      else FirstFitKeeps same key rest item := by
  unfold FirstFitKeeps
  split
  next fit => simp [List.find?_cons_of_pos, fit]
  next misfit => simp [List.find?_cons_of_neg, misfit]

theorem uniform_cons {first : List α} {rest : List (List α)} :
    Uniform key (first :: rest) ↔ (∀ a ∈ first, ∀ b ∈ first, key a = key b) ∧ Uniform key rest :=
  List.forall_mem_cons

theorem uniform_place {groups : List (List α)} {item : α} :
    Uniform key (place same groups item) ↔
      Uniform key groups ∧ FirstFitKeeps same key groups item := by
  induction groups with
  | nil => simp [place, Uniform, FirstFitKeeps]
  | cons first rest ih =>
      rw [place, firstFitKeeps_cons, uniform_cons]
      split
      next fit =>
        rw [uniform_cons]
        constructor
        · rintro ⟨all, others⟩
          have inside : ∀ {a}, a ∈ first → a ∈ first ++ [item] := fun h => List.mem_append_left _ h
          exact ⟨⟨fun a ha b hb => all a (inside ha) b (inside hb), others⟩,
            fun a ha => all a (inside ha) item (List.mem_append_right _ List.mem_cons_self)⟩
        · rintro ⟨⟨all, others⟩, keeps⟩
          have keyOf : ∀ a ∈ first ++ [item], key a = key item := by
            intro a member
            rcases List.mem_append.mp member with old | last
            · exact keeps a old
            · rw [List.mem_singleton.mp last]
          exact ⟨fun a ha b hb => (keyOf a ha).trans (keyOf b hb).symm, others⟩
      next => rw [uniform_cons, ih, and_assoc]

/-- The match that asks for one key too. -/
def keyed [DecidableEq κ] (same : α → α → Bool) (key : α → κ) (a b : α) : Bool :=
  same a b && key a = key b

variable [DecidableEq κ]

theorem fits_keyed {item : α} {group : List α} :
    fits (keyed same key) item group = true ↔
      fits same item group = true ∧ ∀ member ∈ group, key member = key item := by
  simp only [fits, keyed, List.all_eq_true, Bool.and_eq_true, decide_eq_true_eq]
  exact ⟨fun both => ⟨fun a h => (both a h).1, fun a h => (both a h).2.symm⟩,
    fun both a h => ⟨both.1 a h, (both.2 a h).symm⟩⟩

/-- An item whose first fit has its key goes where it would if the key were asked for. -/
theorem place_keyed {groups : List (List α)} {item : α}
    (keeps : FirstFitKeeps same key groups item) :
    place (keyed same key) groups item = place same groups item := by
  induction groups with
  | nil => rfl
  | cons first rest ih =>
      rw [firstFitKeeps_cons] at keeps
      rw [place, place]
      by_cases fit : fits same item first = true
      · rw [if_pos fit] at keeps
        rw [if_pos fit, if_pos (fits_keyed.mpr ⟨fit, keeps⟩)]
      · rw [if_neg fit] at keeps
        rw [if_neg fit, if_neg fun strict => fit (fits_keyed.mp strict).1, ih keeps]

/-- While the groups keep the key they are those made by asking for it. -/
theorem grouped_keyed (items : List α) (uniform : Uniform key (grouped same items)) :
    grouped (keyed same key) items = grouped same items := by
  induction items using List.reverseRecOn with
  | nil => rfl
  | append_singleton items item ih =>
      rw [grouped_concat] at uniform
      obtain ⟨before, keeps⟩ := uniform_place.mp uniform
      rw [grouped_concat, grouped_concat, ih before, place_keyed keeps]

/-- The groups keep the key exactly where each item, among the groups that the items before it make
    by the match and the key, first fits one of its own key. -/
theorem grouped_uniform_iff (items : List α) :
    Uniform key (grouped same items) ↔ ∀ front item back, items = front ++ item :: back →
      FirstFitKeeps same key (grouped (keyed same key) front) item := by
  induction items using List.reverseRecOn with
  | nil => simp [Uniform]
  | append_singleton items last ih =>
      rw [grouped_concat, uniform_place]
      constructor
      · rintro ⟨before, keeps⟩ front item back shape
        rcases List.eq_nil_or_concat back with rfl | ⟨middle, end_, rfl⟩
        · obtain ⟨rfl, rfl⟩ := List.append_inj' shape rfl |>.imp_right List.singleton_inj.mp
          rwa [grouped_keyed items before]
        · rw [List.concat_eq_append, ← List.cons_append, ← List.append_assoc] at shape
          exact ih.mp before front item middle (List.append_inj' shape rfl).1
      · intro each
        have before : Uniform key (grouped same items) := ih.mpr fun front item back shape =>
          each front item (back ++ [last]) (by rw [shape, List.append_assoc, List.cons_append])
        have keeps := each items last [] rfl
        rw [grouped_keyed items before] at keeps
        exact ⟨before, keeps⟩

end LocalHarness.Library.Groups
