import Mathlib.Data.Finmap
import Mathlib.Data.List.Sort
import Mathlib.Data.String.Basic

/-! # Dictionaries with text keys

Two dictionaries are equal when they hold the same items, whatever the order they
were filled in, as Python's are. Where a program reads one in the order of its
keys, `sortedKeys` lists them.
-/

namespace LocalHarness.Library

universe u

abbrev Dict (α : Type u) := Finmap fun _ : String => α

namespace Dict

variable {α : Type u}

/-- A dictionary display: of two items with one key the later stands. -/
def ofItems (items : List (String × α)) : Dict α :=
  items.foldl (fun dict item => dict.insert item.1 item.2) ∅

/-- `update`: the items of `later` replace those of `earlier`. -/
def update (earlier later : Dict α) : Dict α :=
  later ∪ earlier

def setdefault (dict : Dict α) (key : String) (value : α) : Dict α :=
  if key ∈ dict then dict else dict.insert key value

private def mapItem {β : Type u} (f : α → β) (item : Sigma fun _ : String => α) :
    Sigma fun _ : String => β :=
  ⟨item.1, f item.2⟩

/-- The same keys, each with what `f` makes of its value. -/
def mapValues {β : Type u} (f : α → β) (dict : Dict α) : Dict β where
  entries := dict.entries.map (mapItem f)
  nodupKeys := by
    obtain ⟨entries, distinct⟩ := dict
    induction entries using Quotient.inductionOn with
    | h listed =>
        have same : (listed.map (mapItem f)).keys = listed.keys := by
          rw [List.keys, List.keys, List.map_map]
          rfl
        have distinct : listed.keys.Nodup := distinct
        exact (same ▸ distinct : (listed.map (mapItem f)).keys.Nodup)

private theorem insertionSort_perm {xs ys : List String} (same : xs.Perm ys) :
    xs.insertionSort (· ≤ ·) = ys.insertionSort (· ≤ ·) :=
  ((List.perm_insertionSort (· ≤ ·) xs).trans
    (same.trans (List.perm_insertionSort (· ≤ ·) ys).symm)).eq_of_pairwise'
      (List.pairwise_insertionSort (· ≤ ·) xs) (List.pairwise_insertionSort (· ≤ ·) ys)

/-- A set of keys in ascending order. -/
def sortedKeys (keys : Finset String) : List String :=
  keys.val.liftOn (fun listed => listed.insertionSort (· ≤ ·)) fun _ _ same => insertionSort_perm same

@[simp] theorem mem_sortedKeys {keys : Finset String} {key : String} :
    key ∈ sortedKeys keys ↔ key ∈ keys := by
  obtain ⟨listed, distinct⟩ := keys
  induction listed using Quotient.inductionOn with
  | h listed => exact (List.perm_insertionSort (· ≤ ·) listed).mem_iff

theorem nodup_sortedKeys (keys : Finset String) : (sortedKeys keys).Nodup := by
  obtain ⟨listed, distinct⟩ := keys
  induction listed using Quotient.inductionOn with
  | h listed => exact (List.perm_insertionSort (· ≤ ·) listed).nodup_iff.mpr distinct

/-- They ascend. -/
theorem pairwise_sortedKeys (keys : Finset String) : (sortedKeys keys).Pairwise (· < ·) := by
  have sorted : (sortedKeys keys).Pairwise (· ≤ ·) := by
    obtain ⟨listed, distinct⟩ := keys
    induction listed using Quotient.inductionOn with
    | h listed => exact List.pairwise_insertionSort (· ≤ ·) listed
  exact (sorted.and (nodup_sortedKeys keys)).imp fun both => lt_of_le_of_ne both.1 both.2

theorem mem_keys_of_lookup {dict : Dict α} {key : String} {value : α}
    (found : dict.lookup key = some value) : key ∈ dict.keys :=
  Finmap.mem_keys.mpr (Finmap.mem_of_lookup_eq_some found)

theorem ofItems_concat (items : List (String × α)) (key : String) (value : α) :
    ofItems (items ++ [(key, value)]) = (ofItems items).insert key value := by
  rw [ofItems, List.foldl_append, List.foldl_cons, List.foldl_nil, ofItems]

/-- A value that is found was an item. -/
theorem mem_of_lookup_ofItems {items : List (String × α)} {key : String} {value : α}
    (found : (ofItems items).lookup key = some value) : (key, value) ∈ items := by
  induction items using List.reverseRecOn with
  | nil =>
      rw [ofItems, List.foldl_nil, Finmap.lookup_empty] at found
      cases found
  | append_singleton items item ih =>
      obtain ⟨last, stated⟩ := item
      rw [ofItems_concat] at found
      by_cases same : key = last
      · subst same
        rw [Finmap.lookup_insert, Option.some.injEq] at found
        exact List.mem_append_right _ (List.mem_singleton.mpr (by rw [found]))
      · rw [Finmap.lookup_insert_of_ne _ same] at found
        exact List.mem_append_left _ (ih found)

/-- An item is found, or a later one of its key. -/
theorem lookup_ofItems_of_mem {items : List (String × α)} {key : String} {value : α}
    (member : (key, value) ∈ items) : (ofItems items).lookup key ≠ none := by
  induction items using List.reverseRecOn with
  | nil => cases member
  | append_singleton items item ih =>
      obtain ⟨last, stated⟩ := item
      rw [ofItems_concat]
      by_cases same : key = last
      · rw [same, Finmap.lookup_insert]
        nofun
      · rw [Finmap.lookup_insert_of_ne _ same]
        rcases List.mem_append.mp member with before | here
        · exact ih before
        · exact absurd (congrArg Prod.fst (List.mem_singleton.mp here)) same

theorem mem_keys_ofItems {items : List (String × α)} {key : String} :
    key ∈ (ofItems items).keys ↔ key ∈ items.map Prod.fst := by
  rw [Finmap.mem_keys, ← Finmap.lookup_isSome, List.mem_map]
  constructor
  · intro found
    obtain ⟨value, found⟩ := Option.isSome_iff_exists.mp found
    exact ⟨(key, value), mem_of_lookup_ofItems found, rfl⟩
  · rintro ⟨⟨_, value⟩, member, rfl⟩
    exact Option.isSome_iff_ne_none.mpr (lookup_ofItems_of_mem member)

/-- Items with one value for each key make the same dictionary in any order. -/
theorem ofItems_perm {items items' : List (String × α)} (same : items.Perm items')
    (once : ∀ key value value', (key, value) ∈ items → (key, value') ∈ items → value = value') :
    ofItems items = ofItems items' := by
  apply Finmap.ext_lookup
  intro key
  cases found : (ofItems items).lookup key with
  | none =>
      cases found' : (ofItems items').lookup key with
      | none => rfl
      | some value =>
          exact absurd found (lookup_ofItems_of_mem (same.mem_iff.mpr (mem_of_lookup_ofItems found')))
  | some value =>
      have member := mem_of_lookup_ofItems found
      obtain ⟨value', found'⟩ :=
        Option.ne_none_iff_exists'.mp (lookup_ofItems_of_mem (same.mem_iff.mp member))
      rw [found', once key value value' member (same.mem_iff.mpr (mem_of_lookup_ofItems found'))]

theorem lookup_update (earlier later : Dict α) (key : String) :
    (update earlier later).lookup key = (later.lookup key).or (earlier.lookup key) := by
  by_cases inside : key ∈ later
  · obtain ⟨value, found⟩ := Finmap.mem_iff.mp inside
    rw [update, Finmap.lookup_union_left inside, found, Option.some_or]
  · rw [update, Finmap.lookup_union_right inside, Finmap.lookup_eq_none.mpr inside, Option.none_or]

theorem lookup_setdefault (dict : Dict α) (key other : String) (value : α) :
    (setdefault dict key value).lookup other =
      (dict.lookup other).or (if other = key then some value else none) := by
  unfold setdefault
  split
  next inside =>
    by_cases same : other = key
    · obtain ⟨held, found⟩ := Finmap.mem_iff.mp (same ▸ inside)
      rw [found, Option.some_or]
    · rw [if_neg same, Option.or_none]
  next outside =>
    by_cases same : other = key
    · subst same
      rw [Finmap.lookup_insert, Finmap.lookup_eq_none.mpr outside, if_pos rfl, Option.none_or]
    · rw [Finmap.lookup_insert_of_ne dict same, if_neg same, Option.or_none]

theorem lookup_mapValues {β : Type u} (f : α → β) (dict : Dict α) (key : String) :
    (mapValues f dict).lookup key = (dict.lookup key).map f := by
  induction dict using Finmap.induction_on with
  | H listed =>
      have looked : ∀ items : List (Sigma fun _ : String => α),
          (items.map (mapItem f)).dlookup key = (items.dlookup key).map f := by
        intro items
        induction items with
        | nil => rfl
        | cons item rest ih =>
            obtain ⟨head, value⟩ := item
            by_cases same : key = head
            · subst same
              simp [mapItem]
            · have skipped := List.dlookup_cons_ne (β := fun _ => α) rest ⟨head, value⟩ same
              have skipped' := List.dlookup_cons_ne (β := fun _ => β) (rest.map (mapItem f))
                ⟨head, f value⟩ same
              rw [skipped, ← ih, ← skipped']
              rfl
      exact looked listed.entries

end Dict

end LocalHarness.Library
