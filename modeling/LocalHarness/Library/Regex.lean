import Mathlib.Data.List.Basic
import Mathlib.Data.List.TakeWhile

/-! # Regular expressions that try one way after another

What an expression takes at a place is a list of ways, the one tried first in front. `re` takes the first
of them; a group that matched gives its text. Which characters are of a word is a parameter. Where no
class of an expression holds a line's end, the lines of a text are searched apart from each other.
-/

namespace LocalHarness.Library

inductive Re where
  | nothing
  | one (p : Char → Bool)
  /-- `[…]{least,most}`, the longest first. -/
  | many (p : Char → Bool) (least : Nat) (most : Option Nat)
  /-- `\b` -/
  | boundary
  | group (a : Re)
  | seq (a b : Re)
  | alt (a b : Re)
  /-- `(…)*`, the longest first. -/
  | star (a : Re)

namespace Re

/-- The text itself. -/
def literal : List Char → Re
  | [] => nothing
  | letter :: rest => seq (one (· = letter)) (literal rest)

/-- `(…)?` -/
def maybe (a : Re) : Re :=
  alt a nothing

/-- `(…){0,n}` -/
def upTo (a : Re) : Nat → Re
  | 0 => nothing
  | n + 1 => maybe (seq a (upTo a n))

/-- How many characters a way takes, and the texts of its groups. -/
abbrev Way := Nat × List (List Char)

/-- So many of a step at most, one more before none. A step that takes nothing is not made. -/
def repeated (step : Option Char → List Char → List Way) : Nat → Option Char → List Char → List Way
  | 0, _, _ => [(0, [])]
  | n + 1, before, l =>
      ((step before l).filter fun way => way.1 ≠ 0).flatMap (fun way =>
        (repeated step n ((l.take way.1).getLast?.or before) (l.drop way.1)).map fun next =>
          (way.1 + next.1, way.2 ++ next.2)) ++ [(0, [])]

variable (word : Char → Bool)

/-- The ways at a place, of the character before it and the text from there on. -/
def ways : Re → Option Char → List Char → List Way
  | nothing, _, _ => [(0, [])]
  | one _, _, [] => []
  | one p, _, c :: _ => if p c then [(1, [])] else []
  | many p least most, _, l =>
      let run := (l.takeWhile p).length
      let longest := most.elim run (min run)
      (List.range' least (longest + 1 - least)).reverse.map fun n => (n, [])
  | boundary, before, l => if before.any word != l.head?.any word then [(0, [])] else []
  | group a, before, l => (ways a before l).map fun way => (way.1, l.take way.1 :: way.2)
  | seq a b, before, l => (ways a before l).flatMap fun way =>
      (ways b ((l.take way.1).getLast?.or before) (l.drop way.1)).map fun next =>
        (way.1 + next.1, way.2 ++ next.2)
  | alt a b, before, l => ways a before l ++ ways b before l
  | star a, before, l => repeated (fun before l => ways a before l) l.length before l

/-- The texts that `re.finditer` finds, each with its groups, when the first characters are of one found
already. An expression takes a character at least. -/
def findFrom (re : Re) : Nat → Option Char → List Char → List (List Char × List (List Char))
  | _, _, [] => []
  | within + 1, _, c :: rest => findFrom re within (some c) rest
  | 0, before, c :: rest =>
      match (ways word re before (c :: rest)).head? with
      | some (n, groups) => ((c :: rest).take n, groups) :: findFrom re (n - 1) (some c) rest
      | none => findFrom re 0 (some c) rest

def findall (re : Re) (s : List Char) : List (List Char × List (List Char)) :=
  findFrom word re 0 none s

/-- Where `re.finditer` finds a text and how long it is, from a place of the text on. -/
def iterFrom (re : Re) : Nat → Nat → Option Char → List Char → List (Nat × Nat)
  | _, _, _, [] => []
  | place, within + 1, _, c :: rest => iterFrom re (place + 1) within (some c) rest
  | place, 0, before, c :: rest =>
      match (ways word re before (c :: rest)).head? with
      | some (n, _) => (place, n) :: iterFrom re (place + 1) (n - 1) (some c) rest
      | none => iterFrom re (place + 1) 0 (some c) rest

def finditer (re : Re) (s : List Char) : List (Nat × Nat) :=
  iterFrom word re 0 0 none s

/-- As many characters an expression takes at least. -/
def least : Re → Nat
  | nothing | boundary | star _ => 0
  | one _ => 1
  | many _ n _ => n
  | group a => a.least
  | seq a b => a.least + b.least
  | alt a b => min a.least b.least

/-- No class of the expression holds the character. -/
def Avoids (c : Char) : Re → Prop
  | nothing | boundary => True
  | one p | many p _ _ => p c = false
  | group a | star a => a.Avoids c
  | seq a b | alt a b => a.Avoids c ∧ b.Avoids c

variable {word} {re : Re} {c : Char} {before : Option Char} {a l t : List Char} {way : Way}

variable {step step' : Option Char → List Char → List Way} {n m : Nat}

theorem le_of_repeated (short : ∀ before l, ∀ way ∈ step before l, way.1 ≤ l.length)
    (found : way ∈ repeated step n before l) : way.1 ≤ l.length := by
  induction n generalizing before l way with
  | zero =>
      rw [List.mem_singleton.mp found]
      exact Nat.zero_le _
  | succ n ih =>
      rcases List.mem_append.mp found with more | none_
      · obtain ⟨first, member, found⟩ := List.mem_flatMap.mp more
        obtain ⟨next, member', rfl⟩ := List.mem_map.mp found
        have one := short before l first (List.mem_filter.mp member).1
        have two := ih member'
        rw [List.length_drop] at two
        omega
      · rw [List.mem_singleton.mp none_]
        exact Nat.zero_le _

/-- No step is made where nothing is left. -/
theorem repeated_nil (short : ∀ before l, ∀ way ∈ step before l, way.1 ≤ l.length) (n : Nat) :
    repeated step n before [] = [(0, [])] := by
  cases n with
  | zero => rfl
  | succ n =>
      have none_ : (step before []).filter (fun way => way.1 ≠ 0) = [] :=
        List.filter_eq_nil_iff.mpr fun way member => by
          have still := short before [] way member
          rw [List.length_nil, Nat.le_zero] at still
          simp [still]
      rw [repeated, none_]
      rfl

/-- Every step takes a character, so more steps than characters make no difference. -/
theorem repeated_enough (short : ∀ before l, ∀ way ∈ step before l, way.1 ≤ l.length)
    (enough : l.length ≤ n) (enough' : l.length ≤ m) :
    repeated step n before l = repeated step m before l := by
  induction n generalizing m before l with
  | zero =>
      obtain rfl := List.eq_nil_of_length_eq_zero (Nat.le_zero.mp enough)
      rw [repeated_nil short, repeated_nil short]
  | succ n ih =>
      cases m with
      | zero =>
          obtain rfl := List.eq_nil_of_length_eq_zero (Nat.le_zero.mp enough')
          rw [repeated_nil short, repeated_nil short]
      | succ m =>
          rw [repeated, repeated]
          congr 1
          refine List.flatMap_congr fun way member => ?_
          have taken : way.1 ≠ 0 := of_decide_eq_true (List.mem_filter.mp member).2
          have rest : (l.drop way.1).length ≤ n ∧ (l.drop way.1).length ≤ m := by
            rw [List.length_drop]
            omega
          rw [ih rest.1 rest.2]

/-- Steps that are the same on two texts are the same repeated. -/
theorem repeated_append (short : ∀ before l, ∀ way ∈ step before l, way.1 ≤ l.length)
    (same : ∀ before l, step before (l ++ t) = step before l) (n : Nat) :
    repeated step n before (l ++ t) = repeated step n before l := by
  induction n generalizing before l with
  | zero => rfl
  | succ n ih =>
      rw [repeated, repeated, same]
      congr 1
      refine List.flatMap_congr fun way member => ?_
      have inside := short before l way (List.mem_filter.mp member).1
      rw [List.take_append_of_le_length inside, List.drop_append_of_le_length inside, ih]

theorem repeated_after (same : ∀ l, step (some c) l = step none l) (n : Nat) (l : List Char) :
    repeated step n (some c) l = repeated step n none l := by
  induction n generalizing l with
  | zero => rfl
  | succ n ih =>
      rw [repeated, repeated, same]
      congr 1
      refine List.flatMap_congr fun way _ => ?_
      cases (l.take way.1).getLast? with
      | none => rw [Option.none_or, Option.none_or, ih]
      | some d => rfl

/-- No way takes more than there is. -/
theorem way_le (found : way ∈ ways word re before l) : way.1 ≤ l.length := by
  induction re generalizing before l way with
  | nothing =>
      rw [ways, List.mem_singleton] at found
      rw [found]
      exact Nat.zero_le _
  | one p =>
      cases l with
      | nil => cases found
      | cons d rest =>
          rw [ways] at found
          split at found
          · rw [List.mem_singleton.mp found]
            exact Nat.succ_le_succ (Nat.zero_le _)
          · cases found
  | many p least most =>
      obtain ⟨n, member, rfl⟩ := List.mem_map.mp found
      have run := (List.takeWhile_prefix p (l := l)).length_le
      rw [List.mem_reverse, List.mem_range'_1] at member
      cases most with
      | none =>
          simp only [Option.elim_none] at member
          omega
      | some most =>
          simp only [Option.elim_some] at member
          omega
  | boundary =>
      rw [ways] at found
      split at found
      · rw [List.mem_singleton.mp found]
        exact Nat.zero_le _
      · cases found
  | group a ih =>
      obtain ⟨inner, member', rfl⟩ := List.mem_map.mp found
      have le := ih member'
      exact le
  | seq a b iha ihb =>
      obtain ⟨first, member, found⟩ := List.mem_flatMap.mp found
      obtain ⟨next, member', rfl⟩ := List.mem_map.mp found
      have one := iha member
      have two := ihb member'
      rw [List.length_drop] at two
      omega
  | alt a b iha ihb => exact (List.mem_append.mp found).elim iha ihb
  | star a ih => exact le_of_repeated (fun _ _ _ => ih) found

/-- What is after a character that no class holds is not looked at, if the character is of no word. -/
theorem ways_append (avoids : re.Avoids c) (gap : word c = false) :
    ways word re before (l ++ c :: t) = ways word re before l := by
  induction re generalizing before l with
  | nothing => rfl
  | one p =>
      cases l with
      | nil =>
          have other : p c = false := avoids
          change (if p c then [(1, [])] else []) = []
          rw [other]
          rfl
      | cons d rest => rfl
  | many p least most =>
      have other : p c = false := avoids
      have same : (l ++ c :: t).takeWhile p = l.takeWhile p := by
        induction l with
        | nil => exact List.takeWhile_cons_of_neg (by simp [other])
        | cons d rest ih => rw [List.cons_append, List.takeWhile_cons, List.takeWhile_cons, ih]
      rw [ways, ways, same]
  | boundary =>
      cases l with
      | nil =>
          rw [ways, ways, List.nil_append, List.head?_cons, Option.any_some, gap]
          rfl
      | cons d rest => rfl
  | group a ih =>
      rw [ways, ways, ih avoids]
      refine List.map_congr_left fun way found => ?_
      rw [List.take_append_of_le_length (way_le found)]
  | seq a b iha ihb =>
      rw [ways, ways, iha avoids.1]
      refine List.flatMap_congr fun way found => ?_
      have inside := way_le found
      rw [List.take_append_of_le_length inside, List.drop_append_of_le_length inside, ihb avoids.2]
  | alt a b iha ihb => rw [ways, ways, iha avoids.1, ihb avoids.2]
  | star a ih =>
      have short := fun before l (way : Way) (found : way ∈ ways word a before l) => way_le found
      have longer : l.length ≤ (l ++ c :: t).length := by
        rw [List.length_append]
        omega
      rw [ways, ways, repeated_append short fun _ _ => ih avoids]
      exact repeated_enough short longer (Nat.le_refl _)

/-- Right after a character of no word it is as at the beginning. -/
theorem ways_after (gap : word c = false) : ways word re (some c) l = ways word re none l := by
  induction re generalizing l with
  | nothing | one | many => cases l <;> rfl
  | boundary =>
      rw [ways, ways, Option.any_some, gap]
      rfl
  | group a ih => rw [ways, ways, ih]
  | seq a b iha ihb =>
      rw [ways, ways, iha]
      refine List.flatMap_congr fun way _ => ?_
      cases (l.take way.1).getLast? with
      | none => rw [Option.none_or, Option.none_or, ihb]
      | some d => rfl
  | alt a b iha ihb => rw [ways, ways, iha, ihb]
  | star a ih => exact repeated_after (fun _ => ih) _ _

theorem findFrom_after (gap : word c = false) : findFrom word re 0 (some c) l = findall word re l := by
  cases l with
  | nil => rfl
  | cons d rest => rw [findall, findFrom, findFrom, ways_after gap]

/-- Two texts are searched apart from each other where such a character stands between them. -/
theorem findall_append (avoids : re.Avoids c) (gap : word c = false)
    (solid : ∀ before, ways word re before [] = []) :
    findall word re (a ++ c :: t) = findall word re a ++ findall word re t := by
  have each : ∀ (within : Nat) (before : Option Char) (a : List Char), within ≤ a.length →
      findFrom word re within before (a ++ c :: t) =
        findFrom word re within before a ++ findall word re t := by
    intro within before a inside
    induction a generalizing within before with
    | nil =>
        obtain rfl := Nat.le_zero.mp inside
        have none_ : ways word re before (c :: t) = [] := by
          rw [← List.nil_append (c :: t), ways_append avoids gap, solid]
        have past : findFrom word re 0 before (c :: t) = findFrom word re 0 (some c) t := by
          rw [findFrom, none_]
          rfl
        exact past.trans (findFrom_after gap)
    | cons d rest ih =>
        cases within with
        | succ within =>
            rw [List.cons_append, findFrom, findFrom]
            exact ih within _ (Nat.le_of_succ_le_succ inside)
        | zero =>
            rw [List.cons_append, findFrom, findFrom, ← List.cons_append, ways_append avoids gap]
            cases found : (ways word re before (d :: rest)).head? with
            | none => exact ih 0 _ (Nat.zero_le _)
            | some way =>
                obtain ⟨n, groups⟩ := way
                have le := way_le (List.mem_of_head? found)
                have le' : n - 1 ≤ rest.length := by
                  rw [List.length_cons] at le
                  omega
                have text : (d :: rest ++ c :: t).take n = (d :: rest).take n :=
                  List.take_append_of_le_length le
                simp only [ih (n - 1) _ le', List.cons_append] at text ⊢
                rw [text]
  exact each 0 none a (Nat.zero_le _)

/-! ## What is found -/

/-- The text is one of the expression, with these texts of its groups. -/
def Matches : Re → List Char → List (List Char) → Prop
  | nothing, s, groups | boundary, s, groups => s = [] ∧ groups = []
  | one p, s, groups => (∃ c, p c = true ∧ s = [c]) ∧ groups = []
  | many p least most, s, groups =>
      ((∀ c ∈ s, p c = true) ∧ least ≤ s.length ∧ ∀ n ∈ most, s.length ≤ n) ∧ groups = []
  | group a, s, groups => ∃ inner, Matches a s inner ∧ groups = s :: inner
  | seq a b, s, groups => ∃ s₁ s₂ groups₁ groups₂,
      (s = s₁ ++ s₂ ∧ groups = groups₁ ++ groups₂) ∧ Matches a s₁ groups₁ ∧ Matches b s₂ groups₂
  | alt a b, s, groups => Matches a s groups ∨ Matches b s groups
  | star a, s, groups => ∃ parts : List (List Char × List (List Char)),
      (s = parts.flatMap Prod.fst ∧ groups = parts.flatMap Prod.snd) ∧
        ∀ part ∈ parts, Matches a part.1 part.2

variable {groups : List (List Char)} {s : List Char}

theorem matches_of_repeated (each : ∀ before l, ∀ way ∈ step before l, re.Matches (l.take way.1) way.2)
    (found : way ∈ repeated step n before l) : (star re).Matches (l.take way.1) way.2 := by
  induction n generalizing before l way with
  | zero =>
      rw [List.mem_singleton.mp found]
      exact ⟨[], ⟨rfl, rfl⟩, List.forall_mem_nil _⟩
  | succ n ih =>
      rcases List.mem_append.mp found with more | none_
      · obtain ⟨first, member, found⟩ := List.mem_flatMap.mp more
        obtain ⟨next, member', rfl⟩ := List.mem_map.mp found
        have here := (List.mem_filter.mp member).1
        obtain ⟨parts, ⟨texts, inner⟩, all⟩ := ih member'
        refine ⟨(l.take first.1, first.2) :: parts, ⟨?_, ?_⟩,
          List.forall_mem_cons.mpr ⟨each before l first here, all⟩⟩
        · rw [List.take_add, List.flatMap_cons, texts]
        · rw [List.flatMap_cons, inner]
      · rw [List.mem_singleton.mp none_]
        exact ⟨[], ⟨rfl, rfl⟩, List.forall_mem_nil _⟩

/-- Each way takes a text of the expression. -/
theorem matches_of_way (found : way ∈ ways word re before l) : re.Matches (l.take way.1) way.2 := by
  induction re generalizing before l way with
  | nothing =>
      rw [ways, List.mem_singleton] at found
      rw [found]
      exact ⟨rfl, rfl⟩
  | one p =>
      cases l with
      | nil => cases found
      | cons d rest =>
          rw [ways] at found
          split at found
          next here =>
            rw [List.mem_singleton.mp found]
            exact ⟨⟨d, here, rfl⟩, rfl⟩
          next => cases found
  | many p least most =>
      obtain ⟨n, member, rfl⟩ := List.mem_map.mp found
      rw [List.mem_reverse, List.mem_range'_1] at member
      have run : n ≤ (l.takeWhile p).length ∧ ∀ most' ∈ most, n ≤ most' := by
        cases most with
        | none =>
            simp only [Option.elim_none] at member
            exact ⟨by omega, fun _ none_ => by cases none_⟩
        | some most =>
            simp only [Option.elim_some] at member
            exact ⟨by omega, fun _ same => by cases same; omega⟩
      have front : l.take n <+: l.takeWhile p := by
        have whole := List.takeWhile_prefix p (l := l)
        exact (List.prefix_of_prefix_length_le (List.take_prefix n l) whole (by
          rw [List.length_take]
          omega))
      have length : (l.take n).length = n := by
        have inside := (List.takeWhile_prefix p (l := l)).length_le
        rw [List.length_take]
        omega
      refine ⟨⟨fun c inside => List.mem_takeWhile_imp (front.subset inside), ?_, ?_⟩, rfl⟩
      · change least ≤ (l.take n).length
        rw [length]
        exact member.1
      · intro most' given
        change (l.take n).length ≤ most'
        rw [length]
        exact run.2 most' given
  | boundary =>
      rw [ways] at found
      split at found
      · rw [List.mem_singleton.mp found]
        exact ⟨rfl, rfl⟩
      · cases found
  | group a ih =>
      obtain ⟨inner, member', rfl⟩ := List.mem_map.mp found
      exact ⟨inner.2, ih member', rfl⟩
  | seq a b iha ihb =>
      obtain ⟨first, member, found⟩ := List.mem_flatMap.mp found
      obtain ⟨next, member', rfl⟩ := List.mem_map.mp found
      exact ⟨_, _, first.2, next.2, ⟨List.take_add, rfl⟩, iha member, ihb member'⟩
  | alt a b iha ihb => exact (List.mem_append.mp found).imp iha ihb
  | star a ih =>
      exact matches_of_repeated (fun _ _ _ => ih) found

theorem matches_of_findFrom {within : Nat} {found : List Char × List (List Char)}
    (member : found ∈ findFrom word re within before l) : re.Matches found.1 found.2 := by
  induction l generalizing within before with
  | nil => cases within <;> cases member
  | cons c rest ih =>
      cases within with
      | succ within => exact ih member
      | zero =>
          rw [findFrom] at member
          split at member
          next n groups first =>
            rcases List.mem_cons.mp member with rfl | later
            · exact matches_of_way (List.mem_of_head? first)
            · exact ih later
          next => exact ih member

theorem matches_of_findall {found : List Char × List (List Char)} (member : found ∈ findall word re l) :
    re.Matches found.1 found.2 :=
  matches_of_findFrom member

/-- What is found stands in the text. -/
theorem infix_of_findFrom {within : Nat} {found : List Char × List (List Char)}
    (member : found ∈ findFrom word re within before l) : found.1 <:+: l := by
  induction l generalizing within before with
  | nil => cases within <;> cases member
  | cons c rest ih =>
      cases within with
      | succ within => exact List.infix_cons (ih member)
      | zero =>
          rw [findFrom] at member
          split at member
          next n groups first =>
            rcases List.mem_cons.mp member with rfl | later
            · exact (List.take_prefix _ _).isInfix
            · exact List.infix_cons (ih later)
          next => exact List.infix_cons (ih member)

theorem matches_literal {text : List Char} (found : (literal text).Matches s groups) :
    s = text ∧ groups = [] := by
  induction text generalizing s groups with
  | nil => exact found
  | cons letter rest ih =>
      obtain ⟨s₁, s₂, groups₁, groups₂, ⟨rfl, rfl⟩, ⟨⟨c, same, rfl⟩, rfl⟩, later⟩ := found
      obtain ⟨rfl, rfl⟩ := ih later
      rw [of_decide_eq_true same]
      exact ⟨rfl, rfl⟩

/-- A character that no class holds is in no text. -/
theorem not_mem_of_matches (avoids : re.Avoids c) (found : re.Matches s groups) : c ∉ s := by
  induction re generalizing s groups with
  | nothing | boundary => exact found.1 ▸ List.not_mem_nil
  | one p =>
      obtain ⟨⟨d, held, rfl⟩, -⟩ := found
      rw [List.mem_singleton]
      rintro rfl
      exact Bool.false_ne_true (avoids.symm.trans held)
  | many p least most => exact fun inside => Bool.false_ne_true (avoids.symm.trans (found.1.1 c inside))
  | group a ih =>
      obtain ⟨inner, found, -⟩ := found
      exact ih avoids found
  | seq a b iha ihb =>
      obtain ⟨s₁, s₂, groups₁, groups₂, ⟨rfl, -⟩, first, second⟩ := found
      rw [List.mem_append, not_or]
      exact ⟨iha avoids.1 first, ihb avoids.2 second⟩
  | alt a b iha ihb => exact found.elim (iha avoids.1) (ihb avoids.2)
  | star a ih =>
      obtain ⟨parts, ⟨rfl, -⟩, all⟩ := found
      rw [List.mem_flatMap]
      rintro ⟨part, member, inside⟩
      exact ih avoids (all part member) inside

/-- A group is part of the text. -/
theorem subset_of_matches (found : re.Matches s groups) : ∀ group ∈ groups, group ⊆ s := by
  induction re generalizing s groups with
  | nothing | boundary | one p | many p least most => exact found.2 ▸ List.forall_mem_nil _
  | group a ih =>
      obtain ⟨inner, found, rfl⟩ := found
      exact List.forall_mem_cons.mpr ⟨List.Subset.refl s, ih found⟩
  | seq a b iha ihb =>
      obtain ⟨s₁, s₂, groups₁, groups₂, ⟨rfl, rfl⟩, first, second⟩ := found
      refine List.forall_mem_append.mpr ⟨fun group member => ?_, fun group member => ?_⟩
      · exact List.subset_append_of_subset_left _ (iha first group member)
      · exact List.subset_append_of_subset_right _ (ihb second group member)
  | alt a b iha ihb => exact found.elim iha ihb
  | star a ih =>
      obtain ⟨parts, ⟨rfl, rfl⟩, all⟩ := found
      intro group member c inside
      obtain ⟨part, here, member⟩ := List.mem_flatMap.mp member
      exact List.mem_flatMap.mpr ⟨part, here, ih (all part here) group member inside⟩

/-! ## How much is taken -/

theorem least_le (taken : way ∈ ways word re before l) : re.least ≤ way.1 := by
  induction re generalizing before l way with
  | nothing | boundary | star => exact Nat.zero_le _
  | one p =>
      cases l with
      | nil => cases taken
      | cons c rest =>
          rw [ways] at taken
          split at taken
          next => rw [List.mem_singleton.mp taken, least]
          next => cases taken
  | many p n most =>
      obtain ⟨k, member, rfl⟩ := List.mem_map.mp taken
      rw [List.mem_reverse, List.mem_range'_1] at member
      exact member.1
  | group a ih =>
      obtain ⟨inner, member, rfl⟩ := List.mem_map.mp taken
      have enough : a.least ≤ inner.1 := ih member
      exact enough
  | seq a b first next =>
      obtain ⟨one, member, taken⟩ := List.mem_flatMap.mp taken
      obtain ⟨two, member', rfl⟩ := List.mem_map.mp taken
      exact Nat.add_le_add (first member) (next member')
  | alt a b left right =>
      rcases List.mem_append.mp taken with taken | taken
      · exact (Nat.min_le_left _ _).trans (left taken)
      · exact (Nat.min_le_right _ _).trans (right taken)

theorem least_le_of_mem {place within : Nat} {found : Nat × Nat}
    (member : found ∈ iterFrom word re place within before l) : re.least ≤ found.2 := by
  fun_induction iterFrom word re place within before l with
  | case1 => cases member
  | case2 _ _ _ _ _ ih => exact ih member
  | case3 _ _ _ _ n groups taken ih =>
      rcases List.mem_cons.mp member with rfl | member
      · exact least_le (List.mem_of_mem_head? taken)
      · exact ih member
  | case4 _ _ _ _ _ ih => exact ih member

end Re

end LocalHarness.Library
