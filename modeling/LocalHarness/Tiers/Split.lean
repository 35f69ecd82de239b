import Mathlib.Data.List.Perm.Subperm
import LocalHarness.Library.Unicode
import LocalHarness.Tiers.Gguf

/-! # Models in several files

A set of parts is told by the names of its files. It is taken for all there where it has as many numbers as
the last of its names says, each with a size; which numbers they are, whether one comes twice and whether the
names agree is not looked at.
-/

namespace LocalHarness.Tiers.Split

open LocalHarness.Library LocalHarness.Tiers.Gguf

/-! ## The names -/

/-- What is read off a name: itself in small letters, `_PART` and `_SPLIT`. -/
structure Reading where
  lower : String → String
  part? : String → Option (String × Nat × Nat)
  split : String → Bool

/-- The text that `$` ends. -/
def unended (cs : List Char) : List Char :=
  if cs.getLast? = some '\n' then cs.dropLast else cs

section
variable (u : Unicode) (value : Char → Nat)

/-- `int` of a `\d{5}` -/
def five (cs : List Char) : Option Nat :=
  if cs.length = 5 ∧ cs.all u.digit then some (cs.foldl (fun n c => 10 * n + value c) 0) else none

/-- `-00001-of-00003.gguf`: the part's number and how many parts there are. -/
def numbers? (tail : List Char) : Option (Nat × Nat) :=
  let tail := tail.take 1 ++ (tail.drop 1).map Char.toLower
  if tail.take 1 = ['-'] ∧ (tail.drop 6).take 4 = "-of-".toList ∧ tail.drop 15 = ".gguf".toList then
    (five u value ((tail.drop 1).take 5)).bind fun i =>
      (five u value ((tail.drop 10).take 5)).map fun n => (i, n)
  else none

/-- The names as the patterns read them, with what the tables say of each character. -/
def python : Reading where
  lower s := .ofList (u.lower s.toList)
  part? s :=
    let cs := unended s.toList
    let cut := cs.length - 20
    if (cs.take cut).contains '\n' then none
    else (numbers? u value (cs.drop cut)).map fun found => (.ofList (cs.take cut), found)
  split s :=
    let cs := unended s.toList
    (numbers? u value (cs.drop (cs.length - 20))).isSome

end

/-- The names of a repository whose names are in ASCII. -/
def ascii : Reading where
  lower := Text.lower
  part? := Gguf.part?
  split s := (Gguf.part? s).isSome

/-! ## The files -/

/-- A file that is one of several. -/
structure Part where
  stem : String
  number : Nat
  total : Nat
  size : Nat
  deriving DecidableEq

variable (r : Reading)

/-- `_servable` -/
def servable (f : Sibling) : Bool :=
  let name := r.lower f.rfilename
  Text.ends name ".gguf" && !f.rfilename.toList.contains '/' && !besides name && !r.split f.rfilename

/-- The part that a file is, unless it is a projector or an importance matrix. -/
def read (f : Sibling) : Option Part :=
  (r.part? f.rfilename).bind fun (stem, i, n) =>
    if besides (r.lower (Text.afterLast f.rfilename '/')) then none else some ⟨stem, i, n, f.size⟩

def put (s : Shards) (p : Part) : Shards where
  parts := s.parts.insert p.stem (((s.parts.get? p.stem).getD ∅).insert p.number p.size)
  want := s.want.insert p.stem p.total

def shardSets (siblings : List Sibling) : List (String × Nat) :=
  let s := (siblings.filterMap (read r)).foldl put {}
  s.parts.items.filterMap fun (stem, p) =>
    if s.want.get? stem = some p.items.length ∧ p.values.all (· ≠ 0) then some (stem, p.values.sum)
    else none

/-- `_singles` -/
def singles (siblings : List Sibling) : List (String × Nat) :=
  let files := (siblings.filter (servable r)).map fun f => (f.rfilename, f.size)
  let floor := (((shardSets r siblings).map Prod.snd).min?.getD 0) / STRAY
  files.filter fun f => 0 < f.2 ∧ floor ≤ f.2

def choose (siblings : List Sibling) (ceiling : Nat) : Option (String × Nat) :=
  let fits := (singles r siblings).filter (·.2 ≤ ceiling)
  (PREFERRED.findSome? fun quant => fits.find? fun f => Text.contains (r.lower f.1) quant).or
    (fits.argmax Prod.snd)

/-- A file is listed as the part that it is. -/
theorem list_ascii (s : Shards) (f : Sibling) : s.list f = ((read ascii f).map (put s)).getD s := by
  unfold Shards.list read
  change _ = (((Gguf.part? f.rfilename).bind _).map _).getD s
  cases Gguf.part? f.rfilename with
  | none => rfl
  | some part =>
      obtain ⟨stem, i, n⟩ := part
      rw [Option.bind_some]
      change (if besides (Text.lower (Text.afterLast f.rfilename '/')) then s else _) =
        ((if besides (Text.lower (Text.afterLast f.rfilename '/')) then none else _ : Option Part).map _).getD s
      split <;> rfl

/-- In ASCII the files are listed as they are elsewhere. -/
theorem shardSets_ascii (siblings : List Sibling) : shardSets ascii siblings = Gguf.shardSets siblings := by
  have same : ∀ s, (siblings.filterMap (read ascii)).foldl put s = siblings.foldl Shards.list s := by
    induction siblings with
    | nil => exact fun _ => rfl
    | cons f files ih =>
        intro s
        rw [List.foldl_cons, list_ascii, ← ih, List.filterMap_cons]
        cases read ascii f <;> rfl
  rw [shardSets, Gguf.shardSets, same]

theorem choose_ascii (siblings : List Sibling) (ceiling : Nat) :
    choose ascii siblings ceiling = Gguf.choose siblings ceiling := by
  have served : servable ascii = Gguf.servable := by
    funext f
    unfold servable Gguf.servable
    change (_ && !(Gguf.part? f.rfilename).isSome) = _
    rw [Option.not_isSome]
    rfl
  unfold choose Gguf.choose singles Gguf.singles
  rw [shardSets_ascii, served]
  rfl

/-! ## The parts of one model -/

/-- The parts under one stem, in the order of the listing. -/
def own (siblings : List Sibling) (stem : String) : List Part :=
  (siblings.filterMap (read r)).filter (·.stem = stem)

/-- The numbers with the sizes listed for them. -/
def sized (parts : List Part) : List (Nat × Nat) :=
  parts.map fun p => (p.number, p.size)

/-- There are as many numbers as the last of the names says, and the size last listed for each is known. -/
def Counted (parts : List Part) : Prop :=
  ∃ last, parts.getLast? = some last ∧ (parts.map Part.number).dedup.length = last.total ∧
    ∀ number size, Ordered.Last (sized parts) number size → size ≠ 0

/-- The names agree on how many parts there are, and none is beyond these or comes twice. -/
def Orderly (parts : List Part) : Prop :=
  (∃ n, ∀ p ∈ parts, p.total = n ∧ 1 ≤ p.number ∧ p.number ≤ n) ∧ (parts.map Part.number).Nodup

/-- The parts are the numbers from one to what each of the names declares, each once. -/
def Whole (parts : List Part) : Prop :=
  ∃ n, (∀ p ∈ parts, p.total = n) ∧ (parts.map Part.number).Perm (List.range' 1 n)

/-- The sizes of a set with one more part. -/
def addSize (old : Option (Ordered Nat Nat)) (p : Part) : Ordered Nat Nat :=
  (old.getD ∅).insert p.number p.size

theorem put_parts (parts : List Part) (s : Shards) :
    (parts.foldl put s).parts = .gather Part.stem addSize s.parts parts := by
  induction parts generalizing s with
  | nil => rfl
  | cons p parts ih => exact ih (put s p)

theorem put_want (parts : List Part) (s : Shards) :
    (parts.foldl put s).want = .gather Part.stem (fun _ p => p.total) s.want parts := by
  induction parts generalizing s with
  | nil => rfl
  | cons p parts ih => exact ih (put s p)

theorem foldl_sizes (parts : List Part) (some_ : parts ≠ []) :
    parts.foldl (fun old p => some (addSize old p)) none = some (Ordered.fill (sized parts)) := by
  induction parts using List.reverseRecOn with
  | nil => exact absurd rfl some_
  | append_singleton parts p ih =>
      rw [List.foldl_append, List.foldl_cons, List.foldl_nil, sized, List.map_append, List.map_singleton,
        Ordered.fill_concat]
      rcases List.eq_nil_or_concat parts with rfl | ⟨front, q, rfl⟩
      · rfl
      · rw [ih (by simp)]
        rfl

theorem foldl_total (parts : List Part) :
    parts.foldl (fun _ p => some p.total) (none : Option Nat) = parts.getLast?.map Part.total := by
  induction parts using List.reverseRecOn with
  | nil => rfl
  | append_singleton parts p ih => simp

variable {r} {siblings : List Sibling} {stem : String} {sizes : Ordered Nat Nat} {parts : List Part}

/-- Under a stem stand the sizes of its own parts. -/
theorem mem_parts : (stem, sizes) ∈ ((siblings.filterMap (read r)).foldl put {}).parts.items ↔
    own r siblings stem ≠ [] ∧ sizes = .fill (sized (own r siblings stem)) := by
  rw [← Ordered.get?_eq_some, put_parts, Ordered.get?_gather, ← own]
  change (own r siblings stem).foldl _ none = some sizes ↔ _
  by_cases empty : own r siblings stem = []
  · simp [empty]
  · rw [foldl_sizes _ empty, Option.some.injEq, eq_comm]
    exact (and_iff_right empty).symm

theorem get?_want :
    ((siblings.filterMap (read r)).foldl put {}).want.get? stem =
      (own r siblings stem).getLast?.map Part.total := by
  rw [put_want, Ordered.get?_gather, ← own]
  exact foldl_total _

theorem values_sized_iff : (Ordered.fill (sized parts)).values.all (· ≠ 0) = true ↔
    ∀ number size, Ordered.Last (sized parts) number size → size ≠ 0 := by
  simp only [List.all_eq_true, decide_eq_true_eq, Ordered.values, List.forall_mem_map]
  constructor
  · exact fun each number size last => each _ (Ordered.mem_fill_iff.mpr last)
  · exact fun each item member => each item.1 item.2 (Ordered.mem_fill_iff.mp member)

theorem fill_sized_length :
    (Ordered.fill (sized parts)).items.length = (parts.map Part.number).dedup.length := by
  rw [Ordered.length_fill, sized, List.map_map]
  rfl

/-- A stem is reported exactly where its parts are as many as was said. -/
theorem mem_shardSets : (∃ bytes, (stem, bytes) ∈ shardSets r siblings) ↔ Counted (own r siblings stem) := by
  simp only [shardSets, List.mem_filterMap, Prod.exists, Option.ite_none_right_eq_some, Option.some.injEq,
    Prod.mk.injEq]
  constructor
  · rintro ⟨bytes, stem, sizes, listed, ⟨wanted, sized⟩, rfl, -⟩
    obtain ⟨-, rfl⟩ := mem_parts.mp listed
    rw [get?_want, fill_sized_length] at wanted
    obtain ⟨last, found, total⟩ := Option.map_eq_some_iff.mp wanted
    exact ⟨last, found, total.symm, values_sized_iff.mp sized⟩
  · rintro ⟨last, found, total, sized⟩
    have some_ : own r siblings stem ≠ [] := by
      intro empty
      rw [empty] at found
      cases found
    refine ⟨_, stem, _, mem_parts.mpr ⟨some_, rfl⟩, ⟨?_, values_sized_iff.mpr sized⟩, rfl, rfl⟩
    rw [get?_want, fill_sized_length, found, Option.map_some, total]

/-! ## Sets that are all there -/

theorem Whole.orderly (whole : Whole parts) : Orderly parts := by
  obtain ⟨n, totals, perm⟩ := whole
  refine ⟨⟨n, fun p member => ⟨totals p member, ?_⟩⟩, perm.nodup_iff.mpr List.nodup_range'⟩
  have inside := List.mem_range'_1.mp (perm.mem_iff.mp (List.mem_map_of_mem member))
  omega

/-- As many numbers as there are parts, none of them beyond or twice, are all of them. -/
theorem Orderly.whole (orderly : Orderly parts) (counted : Counted parts) : Whole parts := by
  obtain ⟨⟨n, each⟩, once⟩ := orderly
  obtain ⟨last, found, count, -⟩ := counted
  have total := (each last (List.mem_of_getLast? found)).1
  refine ⟨n, fun p member => (each p member).1, ?_⟩
  have inside : parts.map Part.number ⊆ List.range' 1 n := by
    intro number member
    obtain ⟨p, part, rfl⟩ := List.mem_map.mp member
    have bounds := (each p part).2
    exact List.mem_range'_1.mpr ⟨bounds.1, by omega⟩
  refine (List.subperm_of_subset once inside).perm_of_length_le ?_
  rw [List.length_range', ← total, ← count, List.dedup_eq_self.mpr once]

/-! ## The file that is fetched -/

variable (r) in
/-- A file under a sixteenth of the smallest set. -/
def Stray (siblings : List Sibling) (f : Sibling) : Prop :=
  ∃ least, ((shardSets r siblings).map Prod.snd).min? = some least ∧ f.size * STRAY < least

variable (r) in
/-- Where a file of a known size can be served, fits and is not a stray, one is chosen, and what is chosen
can be served and fits. -/
def Chooses (siblings : List Sibling) : Prop :=
  ∀ ceiling, (∀ f ∈ siblings, servable r f = true → 0 < f.size → f.size ≤ ceiling → ¬ Stray r siblings f →
      ∃ chosen, choose r siblings ceiling = some chosen) ∧
    ∀ chosen, choose r siblings ceiling = some chosen →
      (∃ f ∈ siblings, servable r f = true ∧ chosen = (f.rfilename, f.size)) ∧ chosen.2 ≤ ceiling

variable {f : Sibling}

theorem floor_le (kept : ¬ Stray r siblings f) :
    (((shardSets r siblings).map Prod.snd).min?.getD 0) / STRAY ≤ f.size := by
  cases least : ((shardSets r siblings).map Prod.snd).min? with
  | none => exact Nat.zero_le _
  | some m =>
      have above : m ≤ f.size * STRAY := Nat.le_of_not_lt fun below => kept ⟨m, least, below⟩
      exact Nat.div_le_of_le_mul (Nat.mul_comm _ _ ▸ above)

theorem mem_singles (listed : f ∈ siblings) (served : servable r f = true) (known : 0 < f.size)
    (kept : ¬ Stray r siblings f) : (f.rfilename, f.size) ∈ singles r siblings :=
  List.mem_filter.mpr ⟨List.mem_map_of_mem (List.mem_filter.mpr ⟨listed, served⟩),
    decide_eq_true ⟨known, floor_le kept⟩⟩

theorem listed_of_single {single : String × Nat} (member : single ∈ singles r siblings) :
    ∃ f ∈ siblings, servable r f = true ∧ single = (f.rfilename, f.size) := by
  obtain ⟨f, inside, rfl⟩ := List.mem_map.mp (List.mem_of_mem_filter member)
  obtain ⟨listed, served⟩ := List.mem_filter.mp inside
  exact ⟨f, listed, served, rfl⟩

variable (r siblings) in
theorem chooses : Chooses r siblings := by
  intro ceiling
  constructor
  · intro f listed served known fits kept
    refine Option.ne_none_iff_exists'.mp fun none => ?_
    have empty := List.filter_eq_nil_iff.mp (chosen_eq_none.mp none) _ (mem_singles listed served known kept)
    exact empty (decide_eq_true fits)
  · intro chosen found
    obtain ⟨single, fits⟩ := List.mem_filter.mp (chosen_mem found)
    exact ⟨listed_of_single single, of_decide_eq_true fits⟩

/-- Only whole sets are reported exactly where those that are counted are in order; the file to fetch is one
that can be served and fits, if there is one. -/
theorem reported_whole_iff (u : Unicode) (value : Char → Nat) (siblings : List Sibling) :
    (∀ stem bytes, (stem, bytes) ∈ shardSets (python u value) siblings →
        Whole (own (python u value) siblings stem)) ∧ Chooses (python u value) siblings ↔
      ∀ stem, Counted (own (python u value) siblings stem) → Orderly (own (python u value) siblings stem) := by
  constructor
  · rintro ⟨whole, -⟩ stem counted
    obtain ⟨bytes, reported⟩ := mem_shardSets.mpr counted
    exact (whole stem bytes reported).orderly
  · refine fun orderly => ⟨fun stem bytes reported => ?_, chooses _ _⟩
    have counted := mem_shardSets.mp ⟨bytes, reported⟩
    exact (orderly stem counted).whole counted

/-- The parts nought and one of two, the second of them missing. -/
def fromNought : List Sibling :=
  [⟨"M-00000-of-00002.gguf", 1⟩, ⟨"M-00001-of-00002.gguf", 1⟩]

theorem part_missing :
    ("M", 2) ∈ shardSets (python .small fun c => c.toNat - 48) fromNought ∧
      ¬ Whole (own (python .small fun c => c.toNat - 48) fromNought "M") := by
  have numbers : (own (python .small fun c => c.toNat - 48) fromNought "M").map Part.number = [0, 1] := by
    decide +kernel
  refine ⟨by decide +kernel, fun ⟨n, _, perm⟩ => ?_⟩
  have nought : 0 ∈ List.range' 1 n := perm.mem_iff.mp (by rw [numbers]; decide)
  exact absurd (List.mem_range'_1.mp nought).1 (by decide)

end LocalHarness.Tiers.Split
