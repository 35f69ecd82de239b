import Mathlib.Algebra.Order.BigOperators.Group.List
import Mathlib.Algebra.Order.Monoid.Canonical.Defs
import Mathlib.Data.List.MinMax
import Mathlib.Data.Nat.Cast.Order.Basic
import LocalHarness.Library.Ordered
import LocalHarness.Library.Text

/-! # The files of a GGUF repository

A repository lists one file for each quantisation, or a set of parts where a file would be too
long. One file is fetched, of those the router can serve; a set of parts is counted among the
sizes and never fetched.
-/

namespace LocalHarness.Tiers.Gguf

open LocalHarness.Library

/-- A file of a listing, its size zero where none is listed. -/
structure Sibling where
  rfilename : String
  size : Nat := 0
  deriving DecidableEq

def PREFERRED : List String := ["q4_k_m", "q4_k_s", "iq4_xs", "q4_0", "q5_k_m", "q5_k_s"]

/-- A single file under this fraction of the smallest set is not the model. -/
def STRAY : Nat := 16

private def five (cs : List Char) : Option Nat :=
  if cs.length = 5 ∧ cs.all Char.isDigit then some (Nat.ofDigitChars 10 cs 0) else none

/-- `stem-00001-of-00003.gguf`: the stem, the part's number and how many parts there are. -/
def part? (name : String) : Option (String × Nat × Nat) :=
  let cut := name.toList.length - 20
  let tail := (name.toList.drop cut).map Char.toLower
  if tail.take 1 = ['-'] ∧ (tail.drop 6).take 4 = "-of-".toList ∧ tail.drop 15 = ".gguf".toList then
    match five ((tail.drop 1).take 5), five ((tail.drop 10).take 5) with
    | some i, some n => some (.ofList (name.toList.take cut), i, n)
    | _, _ => none
  else none

/-- A projector, or the importance matrix a quantisation was made with. -/
def besides (base : String) : Bool :=
  Text.starts base "mmproj" || Text.contains base "imatrix"

def servable (f : Sibling) : Bool :=
  let name := Text.lower f.rfilename
  Text.ends name ".gguf" && !f.rfilename.toList.contains '/' && !besides name &&
    (part? f.rfilename).isNone

/-- The parts listed of each set, by number, and how many its name says there are. -/
structure Shards where
  parts : Ordered String (Ordered Nat Nat) := ∅
  want : Ordered String Nat := ∅

def Shards.list (s : Shards) (f : Sibling) : Shards :=
  match part? f.rfilename with
  | none => s
  | some (stem, i, n) =>
      if besides (Text.lower (Text.afterLast f.rfilename '/')) then s
      else
        { parts := s.parts.insert stem (((s.parts.get? stem).getD ∅).insert i f.size)
          want := s.want.insert stem n }

/-- The bytes of each set that is all there. -/
def shardSets (siblings : List Sibling) : List (String × Nat) :=
  let s := siblings.foldl Shards.list {}
  s.parts.items.filterMap fun (stem, p) =>
    if s.want.get? stem = some p.items.length ∧ p.values.all (· ≠ 0) then some (stem, p.values.sum)
    else none

/-- The single files to serve, less any stray far smaller than a set. -/
def singles (siblings : List Sibling) : List (String × Nat) :=
  let files := (siblings.filter servable).map fun f => (f.rfilename, f.size)
  let floor := (((shardSets siblings).map Prod.snd).min?.getD 0) / STRAY
  files.filter fun f => 0 < f.2 ∧ floor ≤ f.2

/-- The bytes of the cheapest variant, one file or a set, or none. -/
def smallest (siblings : List Sibling) : Nat :=
  ((singles siblings).map Prod.snd ++ (shardSets siblings).map Prod.snd).min?.getD 0

/-- GGUF weights, and nothing another runtime could load instead. -/
def only (siblings : List Sibling) : Bool :=
  let names := siblings.map fun f => Text.lower f.rfilename
  names.any (Text.ends · ".gguf") && !names.any (Text.ends · ".safetensors")

/-- The file to fetch, if one fits: of a preferred quantisation, else the largest. -/
def choose (siblings : List Sibling) (ceiling : Nat) : Option (String × Nat) :=
  let fits := (singles siblings).filter (·.2 ≤ ceiling)
  (PREFERRED.findSome? fun quant => fits.find? fun f => Text.contains (Text.lower f.1) quant).or
    (fits.argmax Prod.snd)

theorem singles_listed {siblings : List Sibling} {f : String × Nat} (single : f ∈ singles siblings) :
    ⟨f.1, f.2⟩ ∈ siblings ∧ 0 < f.2 := by
  obtain ⟨listed, sized⟩ := List.mem_filter.mp single
  obtain ⟨file, member, rfl⟩ := List.mem_map.mp listed
  exact ⟨List.mem_of_mem_filter member, (of_decide_eq_true sized).1⟩

section
variable {wanted : String → String × Nat → Bool} {fits : List (String × Nat)} {f : String × Nat}

/-- Preferred or largest, what is chosen is one of the files that fit. -/
theorem chosen_mem (chosen : (PREFERRED.findSome? fun quant => fits.find? (wanted quant)).or
    (fits.argmax Prod.snd) = some f) : f ∈ fits := by
  rcases Option.or_eq_some_iff.mp chosen with preferred | ⟨-, most⟩
  · obtain ⟨quant, -, found⟩ := List.exists_of_findSome?_eq_some preferred
    exact List.mem_of_find?_eq_some found
  · exact List.argmax_mem most

theorem chosen_eq_none : (PREFERRED.findSome? fun quant => fits.find? (wanted quant)).or
    (fits.argmax Prod.snd) = none ↔ fits = [] := by
  constructor
  · exact fun none => List.argmax_eq_none.mp (Option.or_eq_none_iff.mp none).2
  · intro empty
    by_contra chosen
    obtain ⟨f, chosen⟩ := Option.ne_none_iff_exists'.mp chosen
    exact absurd (chosen_mem chosen) (empty ▸ List.not_mem_nil)

end

theorem choose_some {siblings : List Sibling} {ceiling : Nat} {f : String × Nat}
    (chosen : choose siblings ceiling = some f) : f ∈ singles siblings ∧ f.2 ≤ ceiling := by
  have fits := chosen_mem chosen
  exact ⟨List.mem_of_mem_filter fits, of_decide_eq_true (List.mem_filter.mp fits).2⟩

theorem choose_eq_none {siblings : List Sibling} {ceiling : Nat} :
    choose siblings ceiling = none ↔ ∀ f ∈ singles siblings, ceiling < f.2 := by
  refine chosen_eq_none.trans (List.filter_eq_nil_iff.trans ?_)
  simp

/-- A set that is listed has a part. -/
theorem list_parts {s : Shards} (some_ : ∀ item ∈ s.parts.items, item.2.items ≠ []) (f : Sibling) :
    ∀ item ∈ (s.list f).parts.items, item.2.items ≠ [] := by
  unfold Shards.list
  split
  next => exact some_
  next stem i n _ =>
    split
    next => exact some_
    next =>
      rintro ⟨other, p⟩ member
      rcases Ordered.mem_insert.mp member with ⟨-, rfl⟩ | ⟨-, before⟩
      · exact List.ne_nil_of_mem (Ordered.mem_insert.mpr (.inl ⟨rfl, rfl⟩))
      · exact some_ _ before

theorem shardSets_pos {siblings : List Sibling} {set : String × Nat}
    (whole : set ∈ shardSets siblings) : 0 < set.2 := by
  have run : ∀ (files : List Sibling) (s : Shards), (∀ item ∈ s.parts.items, item.2.items ≠ []) →
      ∀ item ∈ (files.foldl Shards.list s).parts.items, item.2.items ≠ [] := by
    intro files
    induction files with
    | nil => exact fun s some_ => some_
    | cons f files ih => exact fun s some_ => ih (s.list f) (list_parts some_ f)
  obtain ⟨⟨stem, p⟩, listed, made⟩ := List.mem_filterMap.mp whole
  have some_ := run siblings {} nofun _ listed
  simp only [Option.ite_none_right_eq_some, List.all_eq_true, decide_eq_true_eq] at made
  obtain ⟨⟨-, sized⟩, made⟩ := made
  obtain ⟨⟨i, size⟩, part⟩ := List.exists_mem_of_ne_nil _ some_
  have value : size ∈ p.values := List.mem_map_of_mem part
  rw [← Option.some.inj made]
  exact Nat.lt_of_lt_of_le (Nat.pos_of_ne_zero (sized size value)) (List.single_le_sum (fun _ _ => Nat.zero_le _) _ value)

theorem least_fits {sizes : List Nat} {ceiling : Nat} (sized : ∀ n ∈ sizes, 0 < n) :
    0 < sizes.min?.getD 0 ∧ sizes.min?.getD 0 ≤ ceiling ↔ ∃ n ∈ sizes, n ≤ ceiling := by
  cases least : sizes.min? with
  | none => simp [List.min?_eq_none_iff.mp least]
  | some m =>
      obtain ⟨member, below⟩ := List.min?_eq_some_iff.mp least
      constructor
      · exact fun fits => ⟨m, member, fits.2⟩
      · rintro ⟨n, other, fits⟩
        exact ⟨sized m member, (below n other).trans fits⟩

/-- Where no single file fits, the cheapest variant fits as one of the sets does. -/
theorem smallest_fits {siblings : List Sibling} {ceiling : Nat}
    (none : choose siblings ceiling = none) :
    0 < smallest siblings ∧ smallest siblings ≤ ceiling ↔
      ∃ set ∈ shardSets siblings, set.2 ≤ ceiling := by
  have beyond := choose_eq_none.mp none
  rw [smallest, least_fits]
  · constructor
    · rintro ⟨n, variant, fits⟩
      rcases List.mem_append.mp variant with single | whole
      · obtain ⟨f, member, rfl⟩ := List.mem_map.mp single
        exact absurd fits (Nat.not_le_of_lt (beyond f member))
      · obtain ⟨set, member, rfl⟩ := List.mem_map.mp whole
        exact ⟨set, member, fits⟩
    · rintro ⟨set, member, fits⟩
      exact ⟨set.2, List.mem_append_right _ (List.mem_map_of_mem member), fits⟩
  · intro n variant
    rcases List.mem_append.mp variant with single | whole
    · obtain ⟨f, member, rfl⟩ := List.mem_map.mp single
      exact (singles_listed member).2
    · obtain ⟨set, member, rfl⟩ := List.mem_map.mp whole
      exact shardSets_pos member

end LocalHarness.Tiers.Gguf
