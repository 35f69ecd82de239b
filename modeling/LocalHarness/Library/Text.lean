import Mathlib.Data.List.DropRight
import Mathlib.Data.String.Basic

/-! # Strings as Python knows them

Stripping, quoting, cutting at a separator and joining with one, and the tests and cuts at
either end of a text. White space is the Unicode list that `str.isspace` uses rather than the
ASCII one.
-/

namespace LocalHarness.Library.Text

instance lawfulWord : LawfulBEq (List Char) :=
  inferInstance

/-- The characters `str.isspace` accepts. -/
def isSpace (c : Char) : Bool :=
  let n := c.toNat
  (9 ≤ n && n ≤ 13) || (28 ≤ n && n ≤ 32) || n == 0x85 || n == 0xA0 || n == 0x1680 ||
    (0x2000 ≤ n && n ≤ 0x200A) || n == 0x2028 || n == 0x2029 || n == 0x202F ||
    n == 0x205F || n == 0x3000

def strip (s : String) : String :=
  .ofList ((s.toList.dropWhile isSpace).rdropWhile isSpace)

/-- `str.lower`, of the letters of ASCII. -/
def lower (s : String) : String :=
  .ofList (s.toList.map Char.toLower)

/-- Nothing is left of `s` after `strip`. -/
def blank (s : String) : Bool :=
  s.toList.all isSpace

private def escaped (quote c : Char) : List Char :=
  if c = quote ∨ c = '\\' then ['\\', c]
  else if c = '\n' then "\\n".toList
  else if c = '\r' then "\\r".toList
  else if c = '\t' then "\\t".toList
  else if c.toNat < 32 ∨ c.toNat = 127 then
    "\\x".toList ++ [Nat.digitChar (c.toNat / 16), Nat.digitChar (c.toNat % 16)]
  else [c]

/-- `repr` of a text whose characters above ASCII are all printable. -/
def quoted (s : String) : String :=
  let quote := if s.toList.contains '\'' && !s.toList.contains '"' then '"' else '\''
  .ofList (quote :: s.toList.flatMap (escaped quote) ++ [quote])

theorem not_space_of_alphanum {c : Char} (alnum : c.isAlphanum = true) : isSpace c = false := by
  change (decide (c.val ≥ 65 ∧ c.val ≤ 90) || decide (c.val ≥ 97) && decide (c.val ≤ 122) ||
    decide (c.val ≥ 48) && decide (c.val ≤ 57)) = true at alnum
  simp only [ge_iff_le, Bool.or_eq_true, Bool.and_eq_true, decide_eq_true_eq,
    UInt32.le_iff_toNat_le] at alnum
  have bounds : (65 ≤ c.toNat ∧ c.toNat ≤ 90 ∨ 97 ≤ c.toNat ∧ c.toNat ≤ 122) ∨
      48 ≤ c.toNat ∧ c.toNat ≤ 57 := alnum
  simp only [isSpace, Bool.or_eq_false_iff, Bool.and_eq_false_iff, decide_eq_false_iff_not,
    beq_eq_false_iff_ne]
  omega

/-- A text without a space at either end is what `strip` leaves of itself. -/
theorem strip_of_ends {s : String}
    (first : ∀ c ∈ s.toList.head?, isSpace c = false)
    (last : ∀ c ∈ s.toList.getLast?, isSpace c = false) : strip s = s := by
  have front : s.toList.dropWhile isSpace = s.toList := by
    cases shape : s.toList with
    | nil => rfl
    | cons c rest => simp [first c (by simp [shape])]
  have back : s.toList.rdropWhile isSpace = s.toList := by
    rw [List.rdropWhile_eq_self_iff]
    intro nonempty
    have final := last (s.toList.getLast nonempty) (by simp [List.getLast?_eq_some_getLast nonempty])
    simp [final]
  rw [strip, front, back, String.ofList_toList]

/-- What `strip` leaves has no space at either end. -/
theorem strip_ends (s : String) :
    (∀ c ∈ (strip s).toList.head?, isSpace c = false) ∧
      ∀ c ∈ (strip s).toList.getLast?, isSpace c = false := by
  rw [strip, String.toList_ofList]
  constructor
  · intro c first
    obtain ⟨rest, shape⟩ := List.rdropWhile_prefix isSpace (l := s.toList.dropWhile isSpace)
    have kept : (s.toList.dropWhile isSpace).head? = some c := by
      rw [← shape, List.head?_append, first, Option.some_or]
    have nonempty : s.toList.dropWhile isSpace ≠ [] := by
      intro none
      rw [none] at kept
      cases kept
    have stops := List.head_dropWhile_not (p := isSpace) (l := s.toList) nonempty
    rwa [List.head_eq_iff_head?_eq_some nonempty |>.mpr kept] at stops
  · intro c last
    have nonempty : (s.toList.dropWhile isSpace).rdropWhile isSpace ≠ [] := by
      intro none
      rw [none] at last
      cases last
    have stops := List.rdropWhile_last_not isSpace (s.toList.dropWhile isSpace) nonempty
    rw [List.getLast?_eq_some_getLast nonempty, Option.mem_some_iff] at last
    rw [← last]
    exact Bool.eq_false_iff.mpr stops

@[simp] theorem strip_strip (s : String) : strip (strip s) = strip s :=
  strip_of_ends (strip_ends s).1 (strip_ends s).2

theorem isSpace_toLower (c : Char) : isSpace c.toLower = isSpace c := by
  by_cases upper : c.val ≥ 'A'.val ∧ c.val ≤ 'Z'.val
  · have lowered : c.toLower.val = c.val + ('a'.val - 'A'.val) := congrArg Char.val (dif_pos upper)
    have range : 65 ≤ c.val.toNat ∧ c.val.toNat ≤ 90 := by
      simp only [ge_iff_le, UInt32.le_iff_toNat_le] at upper
      exact upper
    have moved : c.toLower.toNat = c.toNat + 32 := by
      rw [Char.toNat, Char.toNat, lowered, UInt32.toNat_add]
      have step : ('a'.val - 'A'.val).toNat = 32 := by decide
      omega
    have neither : isSpace c.toLower = false ∧ isSpace c = false := by
      have range : 65 ≤ c.toNat ∧ c.toNat ≤ 90 := range
      simp only [isSpace, moved, Bool.or_eq_false_iff, Bool.and_eq_false_iff,
        decide_eq_false_iff_not, beq_eq_false_iff_ne]
      omega
    rw [neither.1, neither.2]
  · have same : c.toLower = c := dif_neg upper
    rw [same]

/-- Case does not decide where a text's spaces are. -/
theorem strip_of_lower_eq {s t : String} (same : lower s = lower t) (trim : strip t = t) :
    strip s = s := by
  have chars : s.toList.map Char.toLower = t.toList.map Char.toLower := String.ofList_injective same
  have first : s.toList.head?.map Char.toLower = t.toList.head?.map Char.toLower := by
    rw [← List.head?_map, ← List.head?_map, chars]
  have last : s.toList.getLast?.map Char.toLower = t.toList.getLast?.map Char.toLower := by
    rw [← List.getLast?_map, ← List.getLast?_map, chars]
  have ends := strip_ends t
  rw [trim] at ends
  have kept : ∀ {x y : Option Char}, x.map Char.toLower = y.map Char.toLower →
      (∀ c ∈ y, isSpace c = false) → ∀ c ∈ x, isSpace c = false := by
    intro x y equal plain c member
    rw [Option.mem_def.mp member, Option.map_some] at equal
    obtain ⟨d, found, lowered⟩ := Option.map_eq_some_iff.mp equal.symm
    rw [← isSpace_toLower, ← lowered, isSpace_toLower]
    exact plain d found
  exact strip_of_ends (kept first ends.1) (kept last ends.2)

theorem blank_iff_strip (s : String) : blank s = true ↔ strip s = "" := by
  have empty : strip s = "" ↔ (s.toList.dropWhile isSpace).rdropWhile isSpace = [] := by
    rw [strip, ← String.toList_inj, String.toList_ofList]
    rfl
  rw [empty, List.rdropWhile_eq_nil_iff, blank, List.all_eq_true]
  constructor
  · intro spaces c member
    exact spaces c ((List.dropWhile_sublist _).subset member)
  · intro spaces
    have none : s.toList.dropWhile isSpace = [] := by
      cases shape : s.toList.dropWhile isSpace with
      | nil => rfl
      | cons c rest =>
          have stops := List.head_dropWhile_not (p := isSpace) (l := s.toList) (by simp [shape])
          simp only [shape, List.head_cons] at stops
          rw [spaces c (by simp [shape])] at stops
          cases stops
    exact List.dropWhile_eq_nil_iff.mp none

@[simp] theorem blank_empty : blank "" = true := rfl

/-- `partition`: what stands before the first `sep`, and what stands after it. -/
def partition (s : String) (sep : Char) : String × String :=
  (.ofList (s.toList.takeWhile (· != sep)), .ofList (s.toList.dropWhile (· != sep)).tail)

def split (s : String) (sep : Char) : List String :=
  (s.toList.splitOn sep).map .ofList

def join (sep : Char) (parts : List String) : String :=
  .ofList ([sep].intercalate (parts.map String.toList))

/-- `startswith` -/
def starts (s head : String) : Bool :=
  head.toList.isPrefixOf s.toList

/-- A text starts with one character. -/
theorem starts_unique {s : String} {c d : Char} {a b : List Char} (apart : c ≠ d)
    (found : starts s (.ofList (c :: a)) = true) : starts s (.ofList (d :: b)) = false := by
  simp only [starts, String.toList_ofList] at found ⊢
  cases shape : s.toList with
  | nil => rfl
  | cons first rest =>
      rw [shape, List.isPrefixOf_cons_cons, Bool.and_eq_true, beq_iff_eq] at found
      rw [List.isPrefixOf_cons_cons, ← found.1, beq_eq_false_iff_ne.mpr apart.symm, Bool.false_and]

/-- `s[len(head):]` -/
def after (s head : String) : String :=
  .ofList (s.toList.drop head.toList.length)

/-- `rstrip` of one character. -/
def rstrip (s : String) (c : Char) : String :=
  .ofList (s.toList.rdropWhile (· == c))

def removesuffix (s tail : String) : String :=
  if tail.toList.isSuffixOf s.toList then .ofList (s.toList.rdrop tail.toList.length) else s

private def beforeLastOf (sep : List Char) : List Char → Option (List Char)
  | [] => none
  | c :: rest =>
      match beforeLastOf sep rest with
      | some before => some (c :: before)
      | none => if sep.isPrefixOf (c :: rest) then some [] else none

/-- `rsplit(sep, 1)[0]`: what stands before the last `sep`. -/
def beforeLast (s sep : String) : String :=
  ((beforeLastOf sep.toList s.toList).map String.ofList).getD s

/-- `rsplit(sep, 1)[-1]`: what stands after the last `sep`. -/
def afterLast (s : String) (sep : Char) : String :=
  .ofList (s.toList.rtakeWhile (· != sep))

/-- `replace` of one character by another. -/
def replace (s : String) (old new : Char) : String :=
  .ofList (s.toList.map fun c => if c = old then new else c)

/-- `isdigit`, for the digits of ASCII. -/
def isdigit (s : String) : Bool :=
  s != "" && s.toList.all Char.isDigit

/-- What stands between the commas, stripped, without the blank ones. -/
def chunks (s : String) : List String :=
  ((split s ',').map strip).filter (· != "")

/-- `part in s`, of a part with something in it. -/
def contains (s part : String) : Bool :=
  s.toList.tails.any fun rest => part.toList.isPrefixOf rest

/-- `endswith`. -/
def ends (s tail : String) : Bool :=
  tail.toList.isSuffixOf s.toList

/-- `key, eq, value = part.partition("=")`, the key stripped; `none` without an `=`. -/
def keyValue (part : String) : Option (String × String) :=
  if '=' ∈ part.toList then
    some (strip (partition part '=').1, (partition part '=').2)
  else none

theorem strip_append_space {front back : List Char} (spaces : ∀ c ∈ back, isSpace c = true) :
    strip (.ofList (front ++ back)) = strip (.ofList front) := by
  have gone : back.dropWhile isSpace = [] := List.dropWhile_eq_nil_iff.mpr spaces
  have gone' : ∀ c ∈ back.reverse, isSpace c = true := fun c member =>
    spaces c (List.mem_reverse.mp member)
  simp only [strip, String.toList_ofList, List.dropWhile_append]
  split
  next none => rw [gone, List.isEmpty_iff.mp none]
  next => rw [List.rdropWhile, List.rdropWhile, List.reverse_append, List.dropWhile_append_of_pos gone']

theorem strip_space_append {front back : List Char} (spaces : ∀ c ∈ front, isSpace c = true) :
    strip (.ofList (front ++ back)) = strip (.ofList back) := by
  rw [strip, strip, String.toList_ofList, String.toList_ofList, List.dropWhile_append_of_pos spaces]

theorem sublist_strip (s : String) : (strip s).toList.Sublist s.toList := by
  rw [strip, String.toList_ofList]
  exact (List.rdropWhile_prefix isSpace _).sublist.trans (List.dropWhile_sublist _)

theorem strip_append {s : String} (trim : strip s = s) (some_ : s ≠ "") {t : List Char}
    (ends : ∀ c ∈ t.getLast?, isSpace c = false) (t_ : t ≠ []) :
    strip (s ++ .ofList t) = s ++ .ofList t := by
  have full : s.toList ≠ [] := fun nothing => some_ (String.toList_inj.mp nothing)
  refine strip_of_ends (fun c first => ?_) fun c last => ?_
  · rw [String.toList_append, List.head?_append_of_ne_nil _ full, ← trim] at first
    exact (strip_ends s).1 c first
  · rw [String.toList_append, String.toList_ofList, List.getLast?_append_of_ne_nil _ t_] at last
    exact ends c last

/-! ### The chunks of an option tail -/

@[simp] theorem chunks_nil : chunks (.ofList []) = [] := by decide

theorem chunks_cut (front back : List Char) :
    chunks (.ofList (front ++ ',' :: back)) = chunks (.ofList front) ++ chunks (.ofList back) := by
  simp only [chunks, split, String.toList_ofList, List.splitOn_append_cons_self, List.map_append,
    List.filter_append]

theorem chunks_of_clean {cs : List Char} (clean : ',' ∉ cs) :
    chunks (.ofList cs) = [strip (.ofList cs)].filter (· != "") := by
  simp only [chunks, split, String.toList_ofList, List.splitOn_eq_singleton clean, List.map_cons,
    List.map_nil]

private theorem space_not_comma {cs : List Char} (spaces : ∀ c ∈ cs, isSpace c = true) : ',' ∉ cs := by
  intro comma
  have space := spaces ',' comma
  revert space
  decide

theorem chunks_append_space {front back : List Char} (spaces : ∀ c ∈ back, isSpace c = true) :
    chunks (.ofList (front ++ back)) = chunks (.ofList front) := by
  have clean := space_not_comma spaces
  by_cases comma : ',' ∈ front
  · -- Cut at the last comma, so that the spaces end a chunk of their own.
    obtain ⟨last, before, cut, plain⟩ := List.eq_append_cons_of_mem (List.mem_reverse.mpr comma)
    have cut : front = before.reverse ++ ',' :: last.reverse := by
      rw [← List.reverse_reverse front, cut]
      simp
    have plain : ',' ∉ last.reverse := fun inside => plain (List.mem_reverse.mp inside)
    have plain' : ',' ∉ last.reverse ++ back := fun inside =>
      (List.mem_append.mp inside).elim plain clean
    rw [cut, List.append_assoc, List.cons_append, chunks_cut, chunks_cut, chunks_of_clean plain,
      chunks_of_clean plain', strip_append_space spaces]
  · have clean' : ',' ∉ front ++ back := fun inside => (List.mem_append.mp inside).elim comma clean
    rw [chunks_of_clean comma, chunks_of_clean clean', strip_append_space spaces]

/-- What stands after the first comma of `cs`. -/
private def tailOf (cs : List Char) : List Char :=
  (cs.dropWhile (· != ',')).tail

private theorem tailOf_clean {cs : List Char} (clean : ',' ∉ cs) : tailOf cs = [] := by
  have none : cs.dropWhile (· != ',') = [] := by
    rw [List.dropWhile_eq_nil_iff]
    intro c member
    exact bne_iff_ne.mpr fun same => clean (same ▸ member)
  rw [tailOf, none, List.tail_nil]

private theorem tailOf_append {front back : List Char} (clean : ',' ∉ front) :
    tailOf (front ++ back) = tailOf back := by
  have passes : ∀ c ∈ front, (c != ',') = true := fun c member =>
    bne_iff_ne.mpr fun same => clean (same ▸ member)
  rw [tailOf, List.dropWhile_append_of_pos passes, tailOf]

private theorem tailOf_cut {front back : List Char} (clean : ',' ∉ front) :
    tailOf (front ++ ',' :: back) = back := by
  rw [tailOf_append clean]
  simp [tailOf]

/-- A spec is stripped without a change to its options. -/
theorem chunks_strip (s : String) :
    chunks (partition (strip s) ',').2 = chunks (partition s ',').2 := by
  have leadSpaces : ∀ c ∈ s.toList.takeWhile isSpace, isSpace c = true := fun c member =>
    List.mem_takeWhile_imp member
  have trailSpaces : ∀ c ∈ (s.toList.dropWhile isSpace).rtakeWhile isSpace, isSpace c = true :=
    fun c member => List.mem_rtakeWhile_imp member
  have trails : (s.toList.dropWhile isSpace).rdropWhile isSpace ++
      (s.toList.dropWhile isSpace).rtakeWhile isSpace = s.toList.dropWhile isSpace :=
    List.rdropWhile_append_rtakeWhile
  change chunks (.ofList (tailOf (strip s).toList)) = chunks (.ofList (tailOf s.toList))
  rw [← List.takeWhile_append_dropWhile (p := isSpace) (l := s.toList),
    tailOf_append (space_not_comma leadSpaces), ← trails, strip, String.toList_ofList]
  by_cases comma : ',' ∈ (s.toList.dropWhile isSpace).rdropWhile isSpace
  · obtain ⟨front, back, cut, clean⟩ := List.eq_append_cons_of_mem comma
    rw [cut, List.append_assoc, List.cons_append, tailOf_cut clean, tailOf_cut clean,
      chunks_append_space trailSpaces]
  · rw [tailOf_append comma, tailOf_clean comma, tailOf_clean (space_not_comma trailSpaces)]

/-- The options of what a spec ends with are the last of its own. -/
theorem chunks_suffix {short long : String} (ends : short.toList <:+ long.toList) :
    chunks (partition short ',').2 <:+ chunks (partition long ',').2 := by
  obtain ⟨front, joined⟩ := ends
  change chunks (.ofList (tailOf short.toList)) <:+ chunks (.ofList (tailOf long.toList))
  rw [← joined]
  by_cases comma : ',' ∈ front
  · obtain ⟨head, rest, cut, clean⟩ := List.eq_append_cons_of_mem comma
    rw [cut, List.append_assoc, List.cons_append, tailOf_cut clean]
    by_cases inside : ',' ∈ short.toList
    · obtain ⟨name, options, shape, plain⟩ := List.eq_append_cons_of_mem inside
      rw [shape, tailOf_cut plain, ← List.append_assoc, chunks_cut]
      exact List.suffix_append _ _
    · rw [tailOf_clean inside, chunks_nil]
      exact List.nil_suffix
  · exact (tailOf_append comma).symm ▸ List.suffix_refl _

theorem partition_append {before after : String} {sep : Char} (clean : sep ∉ before.toList) :
    partition (before ++ String.ofList (sep :: after.toList)) sep = (before, after) := by
  have passes : ∀ c ∈ before.toList, (c != sep) = true := by
    intro c member
    rw [bne_iff_ne]
    rintro rfl
    exact clean member
  simp only [partition, String.toList_append, String.toList_ofList]
  rw [List.takeWhile_append_of_pos passes, List.dropWhile_append_of_pos passes]
  simp

theorem partition_of_not_mem {s : String} {sep : Char} (clean : sep ∉ s.toList) : (partition s sep).2 = "" := by
  have none_ : s.toList.dropWhile (· != sep) = [] := by
    rw [List.dropWhile_eq_nil_iff]
    exact fun c member => bne_iff_ne.mpr fun same => clean (same ▸ member)
  rw [partition, none_, List.tail_nil]

theorem partition_append_of_mem {s : String} {sep : Char} (inside : sep ∈ s.toList) (t : List Char) :
    partition (s ++ .ofList t) sep = ((partition s sep).1, (partition s sep).2 ++ .ofList t) := by
  obtain ⟨front, back, cut, clean⟩ := List.eq_append_cons_of_mem inside
  have shape : s = String.ofList front ++ .ofList (sep :: (String.ofList back).toList) := by
    rw [← String.toList_inj, String.toList_append, String.toList_ofList, String.toList_ofList, String.toList_ofList, cut]
  have longer : s ++ .ofList t = String.ofList front ++ .ofList (sep :: (String.ofList (back ++ t)).toList) := by
    rw [shape, ← String.toList_inj]
    simp
  have clean : sep ∉ (String.ofList front).toList := by rwa [String.toList_ofList]
  rw [longer, partition_append clean, shape, partition_append clean, String.ofList_append]

/-- Parts that do not hold the separator are the parts of their join. -/
theorem split_join {sep : Char} {parts : List String} (some_ : parts ≠ [])
    (clean : ∀ part ∈ parts, sep ∉ part.toList) : split (join sep parts) sep = parts := by
  rw [split, join, String.toList_ofList, List.splitOn_intercalate, List.map_map]
  · have back : (String.ofList ∘ String.toList) = id := funext fun s => String.ofList_toList
    rw [back, List.map_id]
  · intro chars member
    obtain ⟨part, inside, rfl⟩ := List.mem_map.mp member
    exact clean part inside
  · simpa using some_

theorem join_split (s : String) (sep : Char) : join sep (split s sep) = s := by
  have back : (String.toList ∘ String.ofList) = id := funext fun cs => String.toList_ofList
  rw [join, split, List.map_map, back, List.map_id, List.intercalate_splitOn, String.ofList_toList]

theorem clean_of_mem_split {s part : String} {sep : Char} (member : part ∈ split s sep) :
    sep ∉ part.toList := by
  have clean : ∀ cs : List Char, ∀ piece ∈ cs.splitOn sep, sep ∉ piece := by
    intro cs
    induction cs with
    | nil => simp
    | cons c rest ih =>
        intro piece inside
        rw [List.splitOn_cons_eq_if_modifyHead] at inside
        split at inside
        next =>
          rcases List.mem_cons.mp inside with rfl | later
          · exact List.not_mem_nil
          · exact ih piece later
        next other =>
          cases shape : rest.splitOn sep with
          | nil => exact absurd shape (List.splitOn_ne_nil sep rest)
          | cons first others =>
              rw [shape] at inside ih
              rcases List.mem_cons.mp inside with rfl | later
              · rw [List.mem_cons, not_or]
                exact ⟨fun same => other (beq_iff_eq.mpr same.symm), ih first List.mem_cons_self⟩
              · exact ih piece (List.mem_cons_of_mem _ later)
  obtain ⟨piece, inside, rfl⟩ := List.mem_map.mp member
  rw [String.toList_ofList]
  exact clean s.toList piece inside

/-- What stands before the first separator and the parts after it are the parts of the whole. -/
theorem partition_of_split {s head : String} {rest : List String}
    (cut : split s ',' = head :: rest) :
    (partition s ',').1 = head ∧ chunks (partition s ',').2 = (rest.map strip).filter (· != "") := by
  by_cases comma : ',' ∈ s.toList
  · obtain ⟨front, back, shape, clean⟩ := List.eq_append_cons_of_mem comma
    rw [split, shape, List.splitOn_append_cons_self_of_not_mem clean, List.map_cons,
      List.cons.injEq] at cut
    obtain ⟨rfl, rfl⟩ := cut
    have passes : ∀ c ∈ front, (c != ',') = true := fun c member =>
      bne_iff_ne.mpr fun same => clean (same ▸ member)
    have parts : partition s ',' = (.ofList front, .ofList back) := by
      rw [partition, shape, List.takeWhile_append_of_pos passes, List.dropWhile_append_of_pos passes]
      simp
    rw [parts]
    exact ⟨rfl, by rw [chunks, split, String.toList_ofList]⟩
  · rw [split, List.splitOn_eq_singleton comma, List.map_cons, List.map_nil, List.cons.injEq,
      String.ofList_toList] at cut
    obtain ⟨rfl, rfl⟩ := cut
    have passes : ∀ c ∈ s.toList, (c != ',') = true := fun c member =>
      bne_iff_ne.mpr fun same => comma (same ▸ member)
    have parts : partition s ',' = (s, .ofList []) := by
      rw [partition, List.takeWhile_eq_self_iff.mpr passes, List.dropWhile_eq_nil_iff.mpr passes,
        List.tail_nil, String.ofList_toList]
    rw [parts]
    exact ⟨rfl, chunks_nil⟩

/-- What stands between joined words is a blank. -/
theorem mem_intercalate {c : Char} {ws : List (List Char)} (member : c ∈ List.intercalate [' '] ws) :
    c = ' ' ∨ ∃ w ∈ ws, c ∈ w := by
  induction ws with
  | nil => cases member
  | cons w rest ih =>
      cases rest with
      | nil => exact .inr ⟨w, List.mem_cons_self, by simpa [List.intercalate] using member⟩
      | cons next rest =>
          have shape : List.intercalate [' '] (w :: next :: rest) =
              w ++ ' ' :: List.intercalate [' '] (next :: rest) := by
            simp [List.intercalate]
          rw [shape, List.mem_append, List.mem_cons] at member
          rcases member with here | rfl | later
          · exact .inr ⟨w, List.mem_cons_self, here⟩
          · exact .inl rfl
          · exact (ih later).imp_right fun ⟨w', inside, has⟩ => ⟨w', List.mem_cons_of_mem w inside, has⟩

/-- The parts of a text have no characters but its own. -/
theorem subset_of_mem_splitOnP {p : Char → Bool} {s piece : List Char} (member : piece ∈ s.splitOnP p) :
    piece ⊆ s := by
  induction s generalizing piece with
  | nil =>
      obtain rfl := List.mem_singleton.mp member
      exact List.Subset.refl _
  | cons c rest ih =>
      rw [List.splitOnP_cons_eq_if_modifyHead] at member
      split at member
      next =>
        rcases List.mem_cons.mp member with rfl | later
        · exact List.nil_subset _
        · exact List.subset_cons_of_subset c (ih later)
      next =>
        cases split : rest.splitOnP p with
        | nil => exact absurd split (List.splitOnP_ne_nil _ _)
        | cons first others =>
            rw [split] at member ih
            rw [List.modifyHead_cons] at member
            rcases List.mem_cons.mp member with rfl | later
            · exact List.cons_subset_cons c (ih List.mem_cons_self)
            · exact List.subset_cons_of_subset c (ih (List.mem_cons_of_mem first later))

end LocalHarness.Library.Text
