import Mathlib.Data.List.DropRight
import Mathlib.Data.Rat.Defs
import LocalHarness.Library.Find
import LocalHarness.Library.Regex
import LocalHarness.Library.Suffixed
import LocalHarness.Library.Unicode

/-! # A view box for a traced drawing

A drawing without a view box is given one from its width and its height. These are looked for in the text of
the first tag, and are put down without the zeros they end in; the tag is taken to end at its first `>`, and a
view box anywhere is taken for the root's.
-/

namespace LocalHarness.Vector.ViewBox

open LocalHarness.Library LocalHarness.Library.Find

abbrev Text := List Char

/-! ## The patterns -/

/-- A letter in either case, with the letters of other scripts that are taken for an `i` or an `s`. -/
def eitherCase (c : Char) : Re :=
  .one fun d => d.toLower = c ∨ c = 'i' ∧ (d = 'İ' ∨ d = 'ı') ∨ c = 's' ∧ d = 'ſ'

def anyCase : Text → Re
  | [] => .nothing
  | c :: rest => .seq (eitherCase c) (anyCase rest)

def SVG_TAG : Re :=
  .seq (anyCase "<svg".toList) (.seq .boundary (.seq (.many (· ≠ '>') 0 none) (.one (· = '>'))))

variable (u : Unicode)

/-- `\d+(?:\.\d+)?` -/
def numeral : Re :=
  .seq (.many u.digit 1 none) (.maybe (.seq (.one (· = '.')) (.many u.digit 1 none)))

/-- `_WIDTH` and `_HEIGHT` -/
def sizePattern (name : Text) : Re :=
  .seq .boundary (.seq (anyCase (name ++ "=\"".toList)) (.seq (.group (numeral u)) (.one (· = '"'))))

/-- `re.search(…).group(1)`, where there is a group. -/
def searchGroup (re : Re) (s : Text) : Option Text :=
  ((re.findall u.word s).head?).bind fun found => found.2.head?

def search (re : Re) (s : Text) : Option Text :=
  ((re.findall u.word s).head?).map Prod.fst

/-! ## The program -/

/-- The letters of `viewbox=` in either case; no other character has one of them alone for its small one. -/
def mentions (svg : Text) : Bool :=
  (find "viewbox=".toList (svg.map Char.toLower)).isSome

/-- `n.rstrip(".0") or 0` -/
def plain (n : Text) : Text :=
  let rest := n.rdropWhile fun c => c = '.' || c = '0'
  if rest = [] then ['0'] else rest

def box (w h : Text) : Text :=
  " viewBox=\"0 0 ".toList ++ plain w ++ ' ' :: plain h ++ ['"']

/-- `text.replace(old, new, 1)` -/
def replaceOne (old new text : Text) : Text :=
  match find old text with
  | none => text
  | some i => text.take i ++ new ++ text.drop (i + old.length)

/-- The first tag, with the width and the height that are found in it. -/
def sizes (svg : Text) : Option (Text × Text × Text) :=
  (search u SVG_TAG svg).bind fun tag =>
    (searchGroup u (sizePattern u "width".toList) tag).bind fun w =>
      (searchGroup u (sizePattern u "height".toList) tag).map fun h => (tag, w, h)

/-- `_ensure_viewbox` -/
def ensureViewbox (svg : Text) : Text :=
  if mentions svg then svg
  else
    match sizes u svg with
    | none => svg
    | some (tag, w, h) => replaceOne tag (tag.dropLast ++ box w h ++ ['>']) svg

/-! ## Drawings -/

/-- What a plain decimal denotes. -/
def number (s : Text) : Option ℚ :=
  let whole := s.takeWhile Char.isDigit
  if whole = [] then none
  else
    match s.dropWhile Char.isDigit with
    | [] => some (Nat.ofDigitChars 10 whole 0)
    | point :: fraction =>
        if point = '.' ∧ fraction ≠ [] ∧ fraction.all Char.isDigit = true then
          some (Nat.ofDigitChars 10 (whole ++ fraction) 0 / 10 ^ fraction.length)
        else none

/-- An attribute as it is written: `eq` is the sign with what is around it. -/
structure Attr where
  gap : Text
  name : Text
  eq : Text
  quote : Char
  value : Text

def Attr.text (a : Attr) : Text :=
  a.gap ++ a.name ++ a.eq ++ [a.quote] ++ a.value ++ [a.quote]

/-- An attribute is written with a blank before it and quotes around its value. -/
structure Attr.Written (a : Attr) : Prop where
  apart : a.gap ≠ [] ∧ ∀ c ∈ a.gap, Text.isSpace c = true
  named : a.name ≠ [] ∧ ∀ c ∈ a.name, c ∉ " =>/<\"'".toList
  equals : a.eq.filter (!Text.isSpace ·) = ['=']
  quoted : a.quote ∈ ['"', '\''] ∧ a.quote ∉ a.value ∧ '<' ∉ a.value

/-- A document by its root's start tag. -/
structure Markup where
  before : Text
  attrs : List Attr
  gap : Text
  /-- The root is written `<svg …/>`. -/
  empty : Bool
  rest : Text

def Markup.front (d : Markup) : Text :=
  d.before ++ "<svg".toList ++ d.attrs.flatMap Attr.text ++ d.gap

def Markup.close (d : Markup) : Text :=
  (if d.empty then ['/'] else []) ++ '>' :: d.rest

def Markup.text (d : Markup) : Text :=
  d.front ++ d.close

/-- The document with one attribute more, the last of its root's. -/
def Markup.withBox (d : Markup) (v : Text) : Markup :=
  { d with attrs := d.attrs ++ [⟨d.gap ++ [' '], "viewBox".toList, ['='], '"', v⟩], gap := [] }

/-- A drawing whose root has a width and a height in numbers. -/
structure Drawing extends Markup where
  width : Attr
  height : Attr
  W : ℚ
  H : ℚ
  names : (attrs.map Attr.name).Nodup
  written : ∀ a ∈ attrs, a.Written
  spaced : ∀ c ∈ gap, Text.isSpace c = true
  has_width : width ∈ attrs ∧ width.name = "width".toList ∧ number width.value = some W
  has_height : height ∈ attrs ∧ height.name = "height".toList ∧ number height.value = some H

def Markup.HasBox (d : Markup) : Prop :=
  ∃ a ∈ d.attrs, a.name = "viewBox".toList

/-- The four numbers of a view box, the last two these. -/
def Denotes (v : Text) (W H : ℚ) : Prop :=
  ∃ x y w h, v = x ++ ' ' :: (y ++ ' ' :: (w ++ ' ' :: h)) ∧
    number x = some 0 ∧ number y = some 0 ∧ number w = some W ∧ number h = some H

/-- A root's view box is left as it is; a root without one is given one of its width and height, and nothing
else is changed; and nothing is left to do. -/
structure Boxed (d : Drawing) : Prop where
  kept : d.HasBox → ensureViewbox u d.text = d.text
  given : ¬ d.HasBox → ∃ v, Denotes v d.W d.H ∧ ensureViewbox u d.text = (d.withBox v).text
  again : ensureViewbox u (ensureViewbox u d.text) = ensureViewbox u d.text

/-! ## Where the box goes -/

variable {u} {svg tag w h : Text}

theorem search_inside {re : Re} {s : Text} (found : search u re svg = some s) : s <:+: svg := by
  obtain ⟨hit, first, rfl⟩ := Option.map_eq_some_iff.mp found
  exact Re.infix_of_findFrom (List.mem_of_mem_head? first)

/-- A tag ends with its `>`. -/
theorem tag_last (found : search u SVG_TAG svg = some tag) : ∃ front, tag = front ++ ['>'] := by
  obtain ⟨hit, first, rfl⟩ := Option.map_eq_some_iff.mp found
  obtain ⟨open_, rest, _, _, ⟨shape, -⟩, -, _, within, _, _, ⟨shape', -⟩, ⟨rfl, -⟩, inside, last, _, _,
    ⟨shape'', -⟩, -, ⟨c, same, rfl⟩, -⟩ := Re.matches_of_findall (List.mem_of_mem_head? first)
  rw [of_decide_eq_true same] at shape''
  exact ⟨open_ ++ inside, by rw [shape, shape', shape'', List.nil_append, List.append_assoc]⟩

theorem sizes_tag (found : sizes u svg = some (tag, w, h)) : search u SVG_TAG svg = some tag := by
  obtain ⟨t, first, rest⟩ := Option.bind_eq_some_iff.mp found
  obtain ⟨_, _, rest⟩ := Option.bind_eq_some_iff.mp rest
  obtain ⟨_, _, same⟩ := Option.map_eq_some_iff.mp rest
  cases same
  exact first

/-- The box is put before the `>` that ends the first place of the tag. -/
theorem ensure_found (silent : mentions svg = false) (found : sizes u svg = some (tag, w, h)) :
    ∃ i p, find tag svg = some i ∧ i + tag.length = p + 1 ∧ svg[p]? = some '>' ∧
      ensureViewbox u svg = svg.take p ++ box w h ++ svg.drop p := by
  have here := sizes_tag found
  obtain ⟨front, rfl⟩ := tag_last here
  cases first : find (front ++ ['>']) svg with
  | none => exact absurd (infix_iff.mp (search_inside here)) (not_exists.mpr (find_eq_none_iff.mp first))
  | some i =>
      obtain ⟨before, after, rfl, rfl⟩ := (find_eq_some_iff.mp first).1
      have split : before ++ (front ++ ['>']) ++ after = (before ++ front) ++ '>' :: after := by simp
      have split' : before ++ (front ++ ['>']) ++ after = before ++ ((front ++ ['>']) ++ after) :=
        List.append_assoc _ _ _
      refine ⟨_, (before ++ front).length, rfl, by simp [Nat.add_assoc], ?_, ?_⟩
      · rw [split, List.getElem?_append_right (Nat.le_refl _), Nat.sub_self]
        rfl
      · have head : (before ++ (front ++ ['>']) ++ after).take before.length = before := by
          rw [split', List.take_left]
        have tail : (before ++ (front ++ ['>']) ++ after).drop (before.length + (front ++ ['>']).length) =
            after := by
          rw [← List.length_append, List.drop_left]
        rw [ensureViewbox, silent, found]
        simp only [Bool.false_eq_true, if_false, replaceOne, first]
        rw [head, tail, List.dropLast_concat, split, List.take_left, List.drop_left]
        simp [List.append_assoc]

theorem ensure_unfound (missing : sizes u svg = none) : ensureViewbox u svg = svg := by
  rw [ensureViewbox, missing]
  split <;> rfl

theorem ensure_mentions (spoken : mentions svg = true) : ensureViewbox u svg = svg := by
  rw [ensureViewbox, spoken]
  rfl

/-! ## Texts with something put in -/

section

variable {t b b' : Text} {p q : Nat} {c : Char}

theorem put_before (past : p ≤ t.length) (before : q < p) : (t.take p ++ b ++ t.drop p)[q]? = t[q]? := by
  have short : q < (t.take p).length := by
    rw [List.length_take]
    omega
  rw [List.append_assoc, List.getElem?_append_left short, List.getElem?_take_of_lt before]

theorem put_here (past : p ≤ t.length) (starts : b.head? = some c) : (t.take p ++ b ++ t.drop p)[p]? = some c := by
  obtain ⟨rest, rfl⟩ := List.head?_eq_some_iff.mp starts
  have length : (t.take p).length = p := List.length_take_of_le past
  rw [List.append_assoc, List.getElem?_append_right (Nat.le_of_eq length), length, Nat.sub_self]
  rfl

/-- What starts with a blank is put in before something that is none in one way. -/
theorem put_inj (here : ∃ c, t[p]? = some c ∧ c ≠ ' ') (there : ∃ c, t[q]? = some c ∧ c ≠ ' ')
    (blank : b.head? = some ' ') (blank' : b'.head? = some ' ') :
    t.take p ++ b ++ t.drop p = t.take q ++ b' ++ t.drop q ↔ p = q ∧ b = b' := by
  obtain ⟨c, here, solid⟩ := here
  obtain ⟨d, there, solid'⟩ := there
  have inside := (List.getElem?_eq_some_iff.mp here).1
  have inside' := (List.getElem?_eq_some_iff.mp there).1
  constructor
  · intro same
    rcases Nat.lt_trichotomy p q with less | rfl | more
    · have left := put_here inside.le blank
      rw [same, put_before inside'.le less, here] at left
      exact absurd (Option.some.inj left) solid
    · exact ⟨rfl, List.append_cancel_left (List.append_cancel_right same)⟩
    · have right := put_here inside'.le blank'
      rw [← same, put_before inside.le more, there] at right
      exact absurd (Option.some.inj right) solid'
  · rintro ⟨rfl, rfl⟩
    rfl

theorem put_ne (blank : b.head? = some ' ') : t.take p ++ b ++ t.drop p ≠ t := by
  intro same
  have length := congrArg List.length same
  obtain ⟨rest, rfl⟩ := List.head?_eq_some_iff.mp blank
  rw [List.append_assoc, List.length_append, List.length_append, List.length_take, List.length_drop,
    List.length_cons] at length
  omega

end

theorem box_blank : (box w h).head? = some ' ' := rfl

/-- The name of a box is told in any case. -/
theorem name_lower : " viewBox=\"0 0 ".toList.map Char.toLower = [' '] ++ "viewbox=".toList ++ "\"0 0 ".toList := by
  decide +kernel

theorem mentions_iff_lower : mentions svg = true ↔ "viewbox=".toList <:+: svg.map Char.toLower := by
  rw [infix_iff, mentions]
  cases first : find "viewbox=".toList (svg.map Char.toLower) with
  | none => exact iff_of_false Bool.false_ne_true (not_exists.mpr (find_eq_none_iff.mp first))
  | some i => exact iff_of_true rfl ⟨i, (find_eq_some_iff.mp first).1⟩

theorem named_map {f : Char → Char} {piece part front back : Text} (named : part.map f = front ++ piece ++ back)
    (before after : Text) : piece <:+: (before ++ (part ++ after)).map f := by
  rw [List.map_append, List.map_append, named]
  exact ⟨before.map f ++ front, back ++ after.map f, by simp only [List.append_assoc]⟩

theorem mentions_box (front rest : Text) : mentions (front ++ box w h ++ rest) = true := by
  have shape : front ++ (" viewBox=\"0 0 ".toList ++ plain w ++ ' ' :: plain h ++ ['"']) ++ rest =
      front ++ (" viewBox=\"0 0 ".toList ++ (plain w ++ ' ' :: plain h ++ ['"'] ++ rest)) := by
    simp only [List.append_assoc]
  exact (congrArg mentions shape).trans (mentions_iff_lower.mpr (named_map name_lower _ _))

/-- Doing it again changes nothing, whatever the text. -/
theorem ensure_again (svg : Text) : ensureViewbox u (ensureViewbox u svg) = ensureViewbox u svg := by
  cases spoken : mentions svg with
  | true => rw [ensure_mentions spoken, ensure_mentions spoken]
  | false =>
      cases found : sizes u svg with
      | none => rw [ensure_unfound found, ensure_unfound found]
      | some first =>
          obtain ⟨tag, w, h⟩ := first
          obtain ⟨-, p, -, -, -, result⟩ := ensure_found spoken found
          rw [result]
          exact ensure_mentions (mentions_box _ _)

/-! ## The root -/

variable {d : Drawing} {v : Text}

theorem Markup.withBox_text (d : Markup) (v : Text) :
    (d.withBox v).text =
      d.text.take d.front.length ++ (" viewBox=\"".toList ++ v ++ ['"']) ++ d.text.drop d.front.length := by
  have front : (d.withBox v).front = d.front ++ (" viewBox=\"".toList ++ v ++ ['"']) := by
    have name : [' '] ++ ("viewBox".toList ++ (['='] ++ ['"'])) = " viewBox=\"".toList := rfl
    simp only [Markup.front, Markup.withBox, Attr.text, List.flatMap_append, List.flatMap_cons,
      List.flatMap_nil, List.append_nil, List.append_assoc, ← name]
  rw [Markup.text, front, Markup.text, List.take_left, List.drop_left]
  rfl

/-- After the front comes the sign that ends the tag. -/
theorem Markup.front_next (d : Markup) : ∃ c, d.text[d.front.length]? = some c ∧ c ≠ ' ' := by
  rw [Markup.text, List.getElem?_append_right (Nat.le_refl _), Nat.sub_self, Markup.close]
  cases d.empty with
  | true => exact ⟨'/', rfl, by decide⟩
  | false => exact ⟨'>', rfl, by decide⟩

/-- There is no blank in a number. -/
theorem number_solid {s : Text} {r : ℚ} (given : number s = some r) : ' ' ∉ s := by
  have digits : ' ' ∉ s.takeWhile Char.isDigit := fun inside => absurd (List.mem_takeWhile_imp inside) (by decide)
  rw [number] at given
  split at given
  · cases given
  next =>
    rw [← List.takeWhile_append_dropWhile (p := Char.isDigit) (l := s), List.mem_append, not_or]
    refine ⟨digits, ?_⟩
    split at given
    next whole => exact whole ▸ List.not_mem_nil
    next point fraction shape =>
      split at given
      next held =>
        rw [shape, held.1, List.mem_cons, not_or]
        exact ⟨by decide, fun inside => absurd (List.all_eq_true.mp held.2.2 _ inside) (by decide)⟩
      next => cases given

/-- A text has the four numbers of a box that it is written with. -/
theorem denotes_iff {a b : Text} {W H : ℚ} :
    Denotes ("0 0 ".toList ++ a ++ ' ' :: b) W H ↔ number a = some W ∧ number b = some H := by
  have shape : "0 0 ".toList ++ a ++ ' ' :: b = ['0'] ++ ' ' :: (['0'] ++ ' ' :: (a ++ ' ' :: b)) := rfl
  rw [shape]
  constructor
  · rintro ⟨x, y, w, h, same, zero, zero', wide, high⟩
    have single : ' ' ∉ ['0'] := by decide
    obtain ⟨-, same⟩ := Suffixed.cut_unique single (number_solid zero) same
    obtain ⟨-, same⟩ := Suffixed.cut_unique single (number_solid zero') same
    -- One blank is on the right, so none is in the first of the two on the left.
    have count := congrArg (List.count ' ') same
    simp only [List.count_append, List.count_cons_self, List.count_eq_zero_of_not_mem (number_solid wide),
      List.count_eq_zero_of_not_mem (number_solid high)] at count
    have solid : ' ' ∉ a := List.count_eq_zero.mp (by omega)
    obtain ⟨rfl, rfl⟩ := Suffixed.cut_unique solid (number_solid wide) same
    exact ⟨wide, high⟩
  · rintro ⟨wide, high⟩
    have zero : number ['0'] = some 0 := by decide +kernel
    exact ⟨['0'], ['0'], a, b, rfl, zero, zero, wide, high⟩

/-- Where a box is put in for a root without one, it is the right one if it goes to the root's tag and says the
root's width and height. -/
theorem given_iff (silent : mentions d.text = false) (found : sizes u d.text = some (tag, w, h)) :
    (∃ v, Denotes v d.W d.H ∧ ensureViewbox u d.text = (d.withBox v).text) ↔
      (∃ i, find tag d.text = some i ∧ i + tag.length = d.front.length + 1) ∧
        number (plain w) = some d.W ∧ number (plain h) = some d.H := by
  obtain ⟨i, p, first, length, ends, result⟩ := ensure_found silent found
  have place : (∃ i, find tag d.text = some i ∧ i + tag.length = d.front.length + 1) ↔ p = d.front.length := by
    constructor
    · rintro ⟨j, first', length'⟩
      obtain rfl := Option.some.inj (first.symm.trans first')
      omega
    · rintro rfl
      exact ⟨i, first, length⟩
  have same (v : Text) : ensureViewbox u d.text = (d.withBox v).text ↔
      p = d.front.length ∧ box w h = " viewBox=\"".toList ++ v ++ ['"'] := by
    rw [result, Markup.withBox_text]
    exact put_inj ⟨'>', ends, by decide⟩ d.front_next box_blank rfl
  have value (v : Text) : box w h = " viewBox=\"".toList ++ v ++ ['"'] ↔
      "0 0 ".toList ++ plain w ++ ' ' :: plain h = v := by
    have shape : box w h = " viewBox=\"".toList ++ ("0 0 ".toList ++ plain w ++ ' ' :: plain h) ++ ['"'] := rfl
    rw [shape, List.append_cancel_right_eq, List.append_cancel_left_eq]
  rw [place, ← denotes_iff]
  constructor
  · rintro ⟨v, denotes, result⟩
    obtain ⟨here, boxed⟩ := (same v).mp result
    exact ⟨here, (value v).mp boxed ▸ denotes⟩
  · rintro ⟨here, denotes⟩
    exact ⟨_, denotes, (same _).mpr ⟨here, (value _).mpr rfl⟩⟩

def side (name : Text) : Attr :=
  ⟨[' '], name, ['='], '"', "100".toList⟩

theorem side_written {name : Text} (some_ : name ≠ []) (clean : name.all (· ∉ " =>/<\"'".toList) = true) :
    (side name).Written where
  apart := ⟨List.cons_ne_nil _ _, List.forall_mem_singleton.mpr (by decide)⟩
  named := ⟨some_, fun c inside => of_decide_eq_true (List.all_eq_true.mp clean c inside)⟩
  equals := rfl
  quoted := ⟨List.mem_cons_self, by
    have clear : '"' ∉ "100".toList ∧ '<' ∉ "100".toList := by decide
    exact clear⟩

/-- `<svg width="100" height="100"></svg>` -/
def hundred : Drawing where
  before := []
  attrs := [side "width".toList, side "height".toList]
  gap := []
  empty := false
  rest := "</svg>".toList
  width := side "width".toList
  height := side "height".toList
  W := 100
  H := 100
  names := by decide
  written := List.forall_mem_cons.mpr ⟨side_written (by decide) (by decide),
    List.forall_mem_singleton.mpr (side_written (by decide) (by decide))⟩
  spaced := List.forall_mem_nil _
  has_width := ⟨List.mem_cons_self, rfl, by decide +kernel⟩
  has_height := ⟨List.mem_cons_of_mem _ List.mem_cons_self, rfl, by decide +kernel⟩

end LocalHarness.Vector.ViewBox
