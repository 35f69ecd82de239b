import LocalHarness.Library.Fallible
import LocalHarness.Library.Stamps
import LocalHarness.Library.Versions
import LocalHarness.MemoryStore.Revisit

/-! # Waiting for a later version or a later commit

Versions are compared as lists of numbers, of which a longer one is later for its zeros too, and moments as the
texts they are written in. What counts as a digit is not always what a number can be made of.
-/

namespace LocalHarness.MemoryStore.Until

open LocalHarness.Library LocalHarness.Library.Versions LocalHarness.Library.Stamps

/-- The digits of `str.isdigit`, with the values of those that `int` takes and `\d` stands for. -/
structure Digits where
  isDigit : Char → Bool
  value : Char → Option Nat
  isDigit_of_value : ∀ c, (value c).isSome = true → isDigit c = true
  ascii : ∀ n < 10, value (Nat.digitChar n) = some n
  point : isDigit '.' = false

structure ValueError where
  literal : List Char

/-- As many digits as `int` takes. -/
def MAX_DIGITS : Nat := 4300

section

variable (d : Digits)

def isDecimal (c : Char) : Bool :=
  (d.value c).isSome

/-- What digits stand for. -/
def number (part : List Char) : Nat :=
  (part.filterMap d.value).foldl (fun n digit => 10 * n + digit) 0

def toInt (part : List Char) : Except ValueError Nat :=
  if part.all (isDecimal d) ∧ part.length ≤ MAX_DIGITS then .ok (number d part) else .error ⟨part⟩

def parts (v : String) : List (List Char) :=
  v.toList.splitOn '.'

/-- `_version_tuple` -/
def version_tuple (v : Option String) : Except ValueError (Option (List Nat)) :=
  let parts := parts (v.getD "")
  if parts.all fun part => part ≠ [] && part.all d.isDigit then (parts.mapM (toInt d)).map some else .ok none

/-- `_ISO_DATE` -/
def isoDate : List Char → Bool
  | a :: b :: c :: e :: '-' :: f :: g :: '-' :: h :: i :: _ => [a, b, c, e, f, g, h, i].all (isDecimal d)
  | _ => false

/-- `a is not None and b is not None and a > b` -/
def newer : Option (List Nat) → Option (List Nat) → Bool
  | some a, some b => b < a
  | _, _ => false

/-- `until_met`, with what it raises. -/
def until_met (chosen : String → Option ℚ) (facts : Facts) (condition : String) : Except ValueError Bool :=
  let (key, want) := Text.partition condition ':'
  if key = "version" ∧ '>' ∈ want.toList then do
    let (name, floor) := Text.partition want '>'
    let a ← version_tuple d (facts.versions name)
    let b ← version_tuple d (some floor)
    return newer a b
  else if key = "commit_after" then
    let seen := Text.strip facts.lastCommit
    .ok (isoDate d seen.toList && isoDate d want.toList && want < seen)
  else .ok (untilMet chosen facts condition)

/-- `re.findall(r"\d+", v)` -/
def digitRuns (v : String) : List (List Char) :=
  (v.toList.splitOnP fun c => !isDecimal d c).filter (· ≠ [])

/-- `feeds.behind` -/
def behind (newest have_ : String) : Except ValueError Bool :=
  if newest = "" ∨ have_ = "" then .ok false
  else do
    let old ← (digitRuns d have_).mapM (toInt d)
    let new ← (digitRuns d newest).mapM (toInt d)
    return old < new

/-! ## What is meant -/

/-- The version a text stands for: numbers with points between them. -/
def denotes (v : String) : Option (List Nat) :=
  if (parts v).all fun part => part ≠ [] && part.all (isDecimal d) then some ((parts v).map (number d)) else none

/-- No part of the text is longer than `int` takes. -/
def Short (v : String) : Prop :=
  ∀ part ∈ parts v, part.length ≤ MAX_DIGITS

/-- Where all of its parts are digits, they are decimal ones and not too many. -/
def Readable (v : String) : Prop :=
  (∀ part ∈ parts v, part ≠ [] ∧ part.all d.isDigit = true) →
    ∀ part ∈ parts v, part.all (isDecimal d) = true ∧ part.length ≤ MAX_DIGITS

end

variable (d : Digits) (chosen : String → Option ℚ) (facts : Facts) (want : String) (seen since : Stamp)
  (newest installed : String)

/-- The version in hand for a condition, and the one it is to be later than. -/
def have_ : String :=
  (facts.versions (Text.partition want '>').1).getD ""

def floor : String :=
  (Text.partition want '>').2

/-- The facts of a commit. -/
def committed : Facts :=
  { facts with lastCommit := .ofList seen.text }

/-- A condition is met only by a later version or a later moment, and nothing is raised; versions are behind
each other in the same order. -/
structure Honest : Prop where
  version : ∃ met, until_met d chosen facts (keyed "version" want) = .ok met ∧
    (met = true → ∃ a b, denotes d (have_ facts want) = some a ∧ denotes d (floor want) = some b ∧ Later a b)
  commit : ∃ met, until_met d chosen (committed facts seen) (keyed "commit_after" (.ofList since.text)) = .ok met ∧
    (met = true → since.instant < seen.instant)
  behind : ∀ a b, denotes d newest = some a → denotes d installed = some b →
    ∃ older, behind d newest installed = .ok older ∧ (older = true ↔ Later a b)

/-- The texts are read, no version is the other with zeros after it, and of moments that are not written alike
the one whose text is later is ahead by more than its zone. -/
structure Told : Prop where
  version : '>' ∈ want.toList → Readable d (have_ facts want) ∧ Readable d (floor want) ∧
    ∀ a b, denotes d (have_ facts want) = some a → denotes d (floor want) = some b → ¬ Padded a b
  commit : ¬ since.Alike seen → since.text < seen.text →
    seen.offset - since.offset < seen.reading - since.reading
  behind : ∀ a b, denotes d newest = some a → denotes d installed = some b →
    Short newest ∧ Short installed ∧ ¬ Padded a b

/-! ## Versions -/

section

variable {d} {v w : String} {a b : List Nat}

theorem isDigit_of_isDecimal {part : List Char} (decimal : part.all (isDecimal d) = true) :
    part.all d.isDigit = true :=
  List.all_eq_true.mpr fun c member => d.isDigit_of_value c (List.all_eq_true.mp decimal c member)

theorem denotes_eq_some : denotes d v = some a ↔
    (∀ part ∈ parts v, part ≠ [] ∧ part.all (isDecimal d) = true) ∧ (parts v).map (number d) = a := by
  rw [denotes]
  split
  next held =>
    have held : ∀ part ∈ parts v, part ≠ [] ∧ part.all (isDecimal d) = true := by simpa using held
    exact ⟨fun same => ⟨held, Option.some.inj same⟩, fun same => congrArg some same.2⟩
  next other =>
    refine iff_of_false (fun same => by cases same) fun held => other ?_
    simpa using held.1

theorem toInt_of_short {part : List Char} (decimal : part.all (isDecimal d) = true)
    (short : part.length ≤ MAX_DIGITS) : toInt d part = .ok (number d part) :=
  if_pos ⟨decimal, short⟩

theorem short_of_toInt {part : List Char} {n : Nat} (read : toInt d part = .ok n) :
    part.all (isDecimal d) = true ∧ part.length ≤ MAX_DIGITS := by
  rw [toInt] at read
  split at read
  next held => exact held
  next => cases read

theorem readable_of_read {v : Option String} {t : Option (List Nat)} (read : version_tuple d v = .ok t) :
    Readable d (v.getD "") := by
  intro digits
  have all : ((parts (v.getD "")).all fun part => part ≠ [] && part.all d.isDigit) = true := by simpa using digits
  rw [version_tuple, if_pos all] at read
  obtain ⟨ns, made, -⟩ := map_ok read
  intro part member
  obtain ⟨n, -, read⟩ := ok_of_mapM made member
  exact short_of_toInt read

/-- A text that is read is read as the version it stands for. -/
theorem version_tuple_of_readable {v : Option String} (readable : Readable d (v.getD "")) :
    version_tuple d v = .ok (denotes d (v.getD "")) := by
  rw [version_tuple]
  split
  next held =>
    have held : ∀ part ∈ parts (v.getD ""), part ≠ [] ∧ part.all d.isDigit = true := by simpa using held
    have plain := readable held
    have made : (parts (v.getD "")).mapM (toInt d) = .ok ((parts (v.getD "")).map (number d)) :=
      mapM_of_ok fun part member => toInt_of_short (plain part member).1 (plain part member).2
    rw [made, (denotes_eq_some.mpr ⟨fun part member => ⟨(held part member).1, (plain part member).1⟩, rfl⟩ :
      denotes d (v.getD "") = some _)]
    rfl
  next other =>
    cases meant : denotes d (v.getD "") with
    | none => rfl
    | some a =>
        refine absurd ?_ other
        have decimal := (denotes_eq_some.mp meant).1
        have digits : ∀ part ∈ parts (v.getD ""), part ≠ [] ∧ part.all d.isDigit = true :=
          fun part member => ⟨(decimal part member).1, isDigit_of_isDecimal (decimal part member).2⟩
        simpa using digits

theorem newer_iff {x y : Option (List Nat)} : newer x y = true ↔ ∃ a b, x = some a ∧ y = some b ∧ b < a := by
  cases x <;> cases y <;> simp [newer]

variable {chosen : String → Option ℚ} {facts : Facts} {want : String}

theorem until_met_version : until_met d chosen facts (keyed "version" want) =
    if '>' ∈ want.toList then do
      let a ← version_tuple d (facts.versions (Text.partition want '>').1)
      let b ← version_tuple d (some (floor want))
      return newer a b
    else .ok false := by
  rw [until_met, partition_keyed (by decide : ':' ∉ "version".toList)]
  by_cases marked : '>' ∈ want.toList
  · simp only [marked, and_self, if_true]
    rfl
  · have unmarked : untilMet chosen facts (keyed "version" want) = false := by
      have none_ : want.toList.contains '>' = false := by simpa using marked
      simp only [untilMet, partition_keyed (by decide : ':' ∉ "version".toList), none_, Bool.false_and,
        String.reduceEq, ↓reduceIte]
    simp only [marked, and_false, if_false, unmarked, String.reduceEq]

theorem version_iff : (∃ met, until_met d chosen facts (keyed "version" want) = .ok met ∧
    (met = true → ∃ a b, denotes d (have_ facts want) = some a ∧ denotes d (floor want) = some b ∧ Later a b)) ↔
    ('>' ∈ want.toList → Readable d (have_ facts want) ∧ Readable d (floor want) ∧
      ∀ a b, denotes d (have_ facts want) = some a → denotes d (floor want) = some b → ¬ Padded a b) := by
  rw [until_met_version]
  split
  next marked =>
    constructor
    · rintro ⟨met, result, sound⟩ -
      obtain ⟨x, first, result⟩ := bind_ok result
      obtain ⟨y, second, result⟩ := bind_ok result
      have own := readable_of_read first
      have own' := readable_of_read second
      refine ⟨own, own', fun a b meant meant' => lt_sound_iff.mp fun less => ?_⟩
      rw [version_tuple_of_readable own] at first
      rw [version_tuple_of_readable own'] at second
      obtain rfl := Except.ok.inj first
      obtain rfl := Except.ok.inj second
      rw [pure_ok result] at sound
      obtain ⟨a', b', same, same', later⟩ := sound (newer_iff.mpr ⟨a, b, meant, meant', less⟩)
      cases meant.symm.trans same
      cases meant'.symm.trans same'
      exact later
    · intro held
      obtain ⟨own, own', bare⟩ := held marked
      have first : version_tuple d (facts.versions (Text.partition want '>').1) =
          .ok (denotes d (have_ facts want)) := version_tuple_of_readable own
      have second : version_tuple d (some (floor want)) = .ok (denotes d (floor want)) :=
        version_tuple_of_readable own'
      refine ⟨newer (denotes d (have_ facts want)) (denotes d (floor want)), ?_, fun met => ?_⟩
      · rw [first, second]
        rfl
      · obtain ⟨a, b, meant, meant', less⟩ := newer_iff.mp met
        exact ⟨a, b, meant, meant', lt_sound_iff.mpr (bare a b meant meant') less⟩
  next bare => exact iff_of_true ⟨false, rfl, fun met => by cases met⟩ fun marked => absurd marked bare

/-! ## Commits -/

variable {seen since : Stamp}

theorem isDecimal_digitChar (n : Nat) : isDecimal d (Nat.digitChar (n % 10)) = true := by
  rw [isDecimal, d.ascii _ (Nat.mod_lt _ (by decide))]
  rfl

theorem isoDate_text (s : Stamp) : isoDate d s.text = true := by
  simp only [Stamp.text, IsoDates.Date.text, IsoDates.Month.text, IsoDates.field, List.nil_append,
    List.cons_append, isoDate, List.all_cons, isDecimal_digitChar, Bool.and_true, List.all_nil]

theorem not_space_digit : ∀ n < 10, Text.isSpace (Nat.digitChar n) = false := by
  decide

theorem not_space_field (width n : Nat) : ∀ c ∈ IsoDates.field width n, Text.isSpace c = false := by
  induction width generalizing n with
  | zero => exact List.forall_mem_nil _
  | succ width ih =>
      rw [IsoDates.field, List.forall_mem_append]
      exact ⟨ih (n / 10), List.forall_mem_singleton.mpr (not_space_digit _ (Nat.mod_lt n (by decide)))⟩

theorem not_space_clock (clock : Clock) : ∀ c ∈ clock.text, Text.isSpace c = false := by
  simp only [Clock.text, List.forall_mem_append, List.forall_mem_cons]
  refine ⟨not_space_field _ _, by decide, not_space_field _ _, by decide, not_space_field _ _, ?_⟩
  split
  next => exact List.forall_mem_nil _
  next => exact List.forall_mem_cons.mpr ⟨by decide, not_space_field _ _⟩

theorem not_space_zone (z : Zone) : ∀ c ∈ z.text, Text.isSpace c = false := by
  cases z with
  | utc => exact List.forall_mem_singleton.mpr (by decide)
  | off behind hours minutes =>
      simp only [Zone.text, List.forall_mem_append, List.forall_mem_cons]
      exact ⟨by cases behind <;> decide, not_space_field _ _, by decide, not_space_field _ _⟩

/-- A stamp is written without spaces. -/
theorem not_space_stamp (s : Stamp) : ∀ c ∈ s.text, Text.isSpace c = false := by
  simp only [Stamp.text, IsoDates.Date.text, IsoDates.Month.text, List.forall_mem_append, List.forall_mem_cons]
  refine ⟨⟨⟨not_space_field _ _, by decide, not_space_field _ _⟩, by decide, not_space_field _ _⟩, ?_⟩
  cases s.time with
  | none => exact List.forall_mem_nil _
  | some moment =>
      simp only [Option.elim_some, List.forall_mem_append, List.forall_mem_cons]
      exact ⟨by decide, not_space_clock _, not_space_zone _⟩

theorem strip_text (s : Stamp) : Text.strip (.ofList s.text) = .ofList s.text := by
  refine Text.strip_of_ends (fun c first => ?_) fun c last => ?_
  · rw [String.toList_ofList] at first
    exact not_space_stamp s c (List.mem_of_mem_head? first)
  · rw [String.toList_ofList] at last
    exact not_space_stamp s c (List.mem_of_getLast? last)

theorem until_met_commit : until_met d chosen (committed facts seen) (keyed "commit_after" (.ofList since.text)) =
    .ok (Decidable.decide (since.text < seen.text)) := by
  rw [until_met, partition_keyed (by decide : ':' ∉ "commit_after".toList)]
  have stripped : Text.strip (committed facts seen).lastCommit = .ofList seen.text := strip_text seen
  simp only [String.reduceEq, false_and, if_false, if_true, stripped, String.toList_ofList, isoDate_text,
    Bool.true_and, String.lt_iff_toList_lt]

theorem commit_iff : (∃ met,
    until_met d chosen (committed facts seen) (keyed "commit_after" (.ofList since.text)) = .ok met ∧
      (met = true → since.instant < seen.instant)) ↔
    (¬ since.Alike seen → since.text < seen.text → seen.offset - since.offset < seen.reading - since.reading) := by
  have ahead : since.instant < seen.instant ↔ seen.offset - since.offset < seen.reading - since.reading := by
    rw [Stamp.instant, Stamp.instant]
    constructor <;> intro less <;> linarith only [less]
  rw [until_met_commit]
  constructor
  · rintro ⟨met, result, sound⟩ - less
    cases result
    exact ahead.mp (sound (decide_eq_true less))
  · refine fun told => ⟨_, rfl, fun met => ?_⟩
    have less := of_decide_eq_true met
    by_cases alike : since.Alike seen
    · exact (Stamp.text_lt_iff alike).mp less
    · exact ahead.mpr (told alike less)

/-! ## Releases -/

variable {newest installed : String}

/-- Where nothing between the separators is split on, the separators are what is. -/
theorem splitOnP_of_parts {p : Char → Bool} {sep : Char} (atSep : p sep = true) {s : List Char}
    (plain : ∀ part ∈ s.splitOn sep, ∀ c ∈ part, p c = false) : s.splitOnP p = s.splitOn sep := by
  induction s with
  | nil => rfl
  | cons c rest ih =>
      rw [List.splitOn_cons_eq_if_modifyHead] at plain ⊢
      rw [List.splitOnP_cons_eq_if_modifyHead]
      by_cases same : c = sep
      · subst same
        rw [if_pos (beq_self_eq_true c)] at plain ⊢
        rw [if_pos atSep, ih (List.forall_mem_cons.mp plain).2]
      · have other : ¬ (c == sep) = true := fun eq => same (beq_iff_eq.mp eq)
        rw [if_neg other] at plain ⊢
        cases cut : rest.splitOn sep with
        | nil => exact absurd cut (List.splitOn_ne_nil sep rest)
        | cons first others =>
            rw [cut, List.modifyHead_cons] at plain
            obtain ⟨here, later⟩ := List.forall_mem_cons.mp plain
            obtain ⟨pass, here⟩ := List.forall_mem_cons.mp here
            have whole : rest.splitOnP p = rest.splitOn sep := by
              refine ih ?_
              rw [cut]
              exact List.forall_mem_cons.mpr ⟨here, later⟩
            rw [if_neg (Bool.eq_false_iff.mp pass), whole, cut]

theorem digitRuns_of_denotes (meant : denotes d v = some a) : digitRuns d v = parts v := by
  have plain := (denotes_eq_some.mp meant).1
  have point : (!isDecimal d '.') = true := by
    cases value : isDecimal d '.' with
    | false => rfl
    | true => exact absurd (d.isDigit_of_value '.' value) (by rw [d.point]; decide)
  have cut : v.toList.splitOnP (fun c => !isDecimal d c) = parts v := splitOnP_of_parts point fun part member c inside => by
    rw [List.all_eq_true.mp (plain part member).2 c inside]
    rfl
  rw [digitRuns, cut, List.filter_eq_self]
  exact fun part member => decide_eq_true (plain part member).1

theorem read_parts_iff (meant : denotes d v = some a) :
    (∃ ns, (digitRuns d v).mapM (toInt d) = .ok ns) ↔ Short v := by
  rw [digitRuns_of_denotes meant]
  constructor
  · rintro ⟨ns, read⟩ part member
    obtain ⟨n, -, read⟩ := ok_of_mapM read member
    exact (short_of_toInt read).2
  · intro short
    exact ⟨_, mapM_of_ok fun part member => toInt_of_short ((denotes_eq_some.mp meant).1 part member).2 (short part member)⟩

/-- What is read of a version are its numbers. -/
theorem read_parts (meant : denotes d v = some a) {ns : List Nat} (read : (digitRuns d v).mapM (toInt d) = .ok ns) :
    ns = a := by
  have short := (read_parts_iff meant).mp ⟨ns, read⟩
  obtain ⟨plain, rfl⟩ := denotes_eq_some.mp meant
  have whole : (parts v).mapM (toInt d) = .ok ((parts v).map (number d)) :=
    mapM_of_ok fun part member => toInt_of_short (plain part member).2 (short part member)
  rw [digitRuns_of_denotes meant, whole] at read
  exact (Except.ok.inj read).symm

theorem ne_empty_of_denotes (meant : denotes d v = some a) : v ≠ "" := by
  rintro rfl
  exact ((denotes_eq_some.mp meant).1 [] List.mem_cons_self).1 rfl

theorem behind_iff_of_denotes (meant : denotes d newest = some a) (meant' : denotes d installed = some b) :
    (∃ older, behind d newest installed = .ok older ∧ (older = true ↔ Later a b)) ↔
      Short newest ∧ Short installed ∧ ¬ Padded a b := by
  rw [behind, if_neg (not_or.mpr ⟨ne_empty_of_denotes meant, ne_empty_of_denotes meant'⟩)]
  constructor
  · rintro ⟨older, result, same⟩
    obtain ⟨old, read', result⟩ := bind_ok result
    obtain ⟨new, read, result⟩ := bind_ok result
    refine ⟨(read_parts_iff meant).mp ⟨new, read⟩, (read_parts_iff meant').mp ⟨old, read'⟩, ?_⟩
    rw [pure_ok result, decide_eq_true_iff, read_parts meant read, read_parts meant' read'] at same
    exact lt_later_iff.mp same
  · rintro ⟨short, short', bare⟩
    obtain ⟨new, read⟩ := (read_parts_iff meant).mpr short
    obtain ⟨old, read'⟩ := (read_parts_iff meant').mpr short'
    obtain rfl := read_parts meant read
    obtain rfl := read_parts meant' read'
    refine ⟨Decidable.decide (old < new), ?_, ?_⟩
    · rw [read, read']
      rfl
    · rw [decide_eq_true_iff]
      exact lt_later_iff.mpr bare

theorem behind_iff : (∀ a b, denotes d newest = some a → denotes d installed = some b →
    ∃ older, behind d newest installed = .ok older ∧ (older = true ↔ Later a b)) ↔
    ∀ a b, denotes d newest = some a → denotes d installed = some b →
      Short newest ∧ Short installed ∧ ¬ Padded a b := by
  constructor
  · exact fun told a b meant meant' => (behind_iff_of_denotes meant meant').mp (told a b meant meant')
  · exact fun told a b meant meant' => (behind_iff_of_denotes meant meant').mpr (told a b meant meant')

end

/-- Nothing but later versions and later moments meet a condition where the texts can be read, no version is
the other with zeros after it, and a moment written otherwise whose text is later is ahead by more than its
zone. -/
theorem honest_iff (d : Digits) (chosen : String → Option ℚ) (facts : Facts) (want : String) (seen since : Stamp)
    (newest installed : String) :
    Honest d chosen facts want seen since newest installed ↔ Told d facts want seen since newest installed := by
  constructor
  · rintro ⟨version, commit, behind⟩
    exact ⟨version_iff.mp version, commit_iff.mp commit, behind_iff.mp behind⟩
  · rintro ⟨version, commit, behind⟩
    exact ⟨version_iff.mpr version, commit_iff.mpr commit, behind_iff.mpr behind⟩

/-- The digits of ASCII and the powers of Latin-1, which are digits that no number is made of. -/
def latin : Digits where
  isDigit c := (List.range 10).any (fun n => Nat.digitChar n == c) || c == '²' || c == '³' || c == '¹'
  value c := (List.range 10).find? fun n => Nat.digitChar n == c
  isDigit_of_value c some_ := by
    rw [List.find?_isSome] at some_
    rw [List.any_eq_true.mpr some_]
    rfl
  ascii := by decide
  point := by decide

def llama (version : String) : Facts :=
  ⟨"", 0, 0, fun _ => some version, none, ""⟩

def day : Stamp :=
  ⟨⟨⟨2026, 1, by decide, by decide, by decide⟩, 1, by decide, by decide⟩, none⟩

/-- `01:00:00+05:00` of the day. -/
def ahead : Stamp :=
  ⟨day.date, some (⟨1, 0, 0, 0, 0, by decide, by decide, by decide, by decide⟩, .off false 5 0)⟩

/-- `1.2.0` is met as a later version than `1.2`, `1.²` raises, and one in the morning five hours ahead is met
as later than the day's first moment. -/
theorem zeros_met :
    ¬ Honest latin (fun _ => none) (llama "1.2.0") "llama.cpp>1.2" day day "1" "1" ∧
      ¬ Honest latin (fun _ => none) (llama "1.²") "llama.cpp>1.2" day day "1" "1" ∧
      ¬ Honest latin (fun _ => none) (llama "1.3") "llama.cpp>1.2" ahead day "1" "1" := by
  refine ⟨?_, ?_, ?_⟩
  · intro honest
    obtain ⟨-, -, bare⟩ := version_iff.mp honest.version (by decide)
    exact bare [1, 2, 0] [1, 2] (by decide +kernel) (by decide +kernel) ⟨0, rfl⟩
  · intro honest
    obtain ⟨readable, -⟩ := version_iff.mp honest.version (by decide)
    have digits : ∀ part ∈ parts "1.²", part ≠ [] ∧ part.all latin.isDigit = true := by decide +kernel
    have decimal := (readable digits ['²'] (by decide +kernel)).1
    exact absurd decimal (by decide +kernel)
  · intro honest
    have told := commit_iff.mp honest.commit
    exact absurd (told (by rintro ⟨⟩) (by decide)) (by decide +kernel)

end LocalHarness.MemoryStore.Until
