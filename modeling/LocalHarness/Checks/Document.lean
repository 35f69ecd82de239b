import LocalHarness.Checks.Extract
import LocalHarness.Library.Lowered

/-! # The document in a reply

A document comes out whole where the text that is searched holds it and no character ahead of it
gets longer in lower case.
-/

namespace LocalHarness.Checks.Extract

open LocalHarness.Library
open LocalHarness.Library.Find

variable {u : Unicode} {tag front doc back text f b : List Char} {earlier later : List (List Char)}

/-- A part of a text is `piece` in some letter case. -/
def Has (u : Unicode) (text piece : List Char) : Prop :=
  ∃ part, part <:+: text ∧ u.lower part = piece

/-- The reply `front ++ doc ++ back` has one document of the tag, and none of the tags before it. -/
structure Only (u : Unicode) (earlier : List (List Char)) (tag front doc back : List Char) : Prop where
  /-- The document starts with the tag and ends with the closing one. -/
  opens : ∃ start inside, doc = start ++ inside ∧ u.lower start = opening tag
  closes : ∃ inside stop, doc = inside ++ stop ∧ u.lower stop = closing tag
  /-- No tag starts ahead of it, and no closing one ends after it. -/
  first : ∀ x y z, front ++ doc ++ back = x ++ y ++ z → u.lower y = opening tag →
    front.length ≤ x.length
  last : ∀ x y z, front ++ doc ++ back = x ++ y ++ z → u.lower y = closing tag →
    (x ++ y).length ≤ (front ++ doc).length
  others : ∀ tag ∈ earlier, ¬ Has u (front ++ doc ++ back) (opening tag)

/-- A name that is in lower case in no other way than letter by letter. -/
def Name (tag : List Char) : Prop :=
  ∀ c ∈ tag, c ∈ Unicode.TAG_CHARS

theorem name_svg : Name "svg".toList := by
  have each : ("svg".toList.all fun c => c ∈ Unicode.TAG_CHARS) = true := by decide
  exact fun c member => of_decide_eq_true (List.all_eq_true.mp each c member)

theorem solid_opening (ascii : u.Ascii) (name : Name tag) : ∀ c ∈ opening tag, u.Solid c :=
  List.forall_mem_cons.mpr ⟨ascii '<' (by decide), fun c member => ascii c (name c member)⟩

theorem solid_closing (ascii : u.Ascii) (name : Name tag) : ∀ c ∈ closing tag, u.Solid c := by
  intro c member
  rcases List.mem_append.mp member with start | stop
  · rcases List.mem_append.mp start with marks | inside
    · have each : (['<', '/'].all fun c => c ∈ Unicode.TAG_CHARS) = true := by decide
      exact ascii c (by simpa using List.all_eq_true.mp each c marks)
    · exact ascii c (name c inside)
  · rw [List.mem_singleton.mp stop]
    exact ascii '>' (by decide)

theorem closing_ne_nil : closing tag ≠ [] :=
  List.append_ne_nil_of_right_ne_nil _ (List.cons_ne_nil _ _)

theorem closing_length : (closing tag).length = tag.length + 3 := by
  simp [closing]

/-! ## The places that are found -/

/-- The document is where it is and nowhere else. -/
theorem Only.place (only : Only u earlier tag front doc back)
    (shape : front ++ doc ++ back = f ++ doc ++ b) : f.length = front.length := by
  obtain ⟨start, inside, opens, lowered⟩ := only.opens
  obtain ⟨inside', stop, closes, lowered'⟩ := only.closes
  have after := only.first f start (inside ++ b) (by rw [shape, opens]; simp) lowered
  have before := only.last (f ++ inside') stop b
    (by rw [shape]; nth_rewrite 1 [closes]; simp) lowered'
  rw [List.append_assoc, ← closes, List.length_append, List.length_append] at before
  omega

theorem Only.ne_nil (only : Only u earlier tag front doc back) : doc ≠ [] := by
  obtain ⟨start, inside, rfl, lowered⟩ := only.opens
  refine List.append_ne_nil_of_left_ne_nil ?_ inside
  rintro rfl
  cases lowered

theorem find_opening (ascii : u.Ascii) (name : Name tag) (only : Only u earlier tag front doc back)
    {x y : List Char} (shape : front ++ doc ++ back = x ++ text ++ y) (holds : text = f ++ doc ++ b) :
    find (opening tag) (u.lower text) = some (u.lower f).length := by
  have solid := solid_opening ascii name
  have some_ : opening tag ≠ [] := List.cons_ne_nil _ _
  have place : (x ++ f).length = front.length :=
    only.place (b := b ++ y) (by rw [shape, holds]; simp)
  refine find_eq_some_iff.mpr ⟨(Unicode.stands_lower_iff solid some_).mpr ?_, fun j less here => ?_⟩
  · obtain ⟨start, inside, opens, lowered⟩ := only.opens
    exact ⟨f, start, inside ++ b, by rw [holds, opens]; simp, rfl, lowered⟩
  · obtain ⟨before, part, after, cut, rfl, lowered⟩ :=
      (Unicode.stands_lower_iff solid some_).mp here
    have least := only.first (x ++ before) part (after ++ y) (by rw [shape, cut]; simp) lowered
    rw [← place, List.length_append, List.length_append] at least
    have ahead : f <+: before := by
      have start : f <+: text := ⟨doc ++ b, by rw [holds, List.append_assoc]⟩
      have start' : before <+: text := ⟨part ++ after, by rw [cut, List.append_assoc]⟩
      exact List.prefix_of_prefix_length_le start start' (by omega)
    exact absurd (Unicode.lower_length_mono ahead) (Nat.not_le_of_lt less)

theorem rfind_closing (ascii : u.Ascii) (name : Name tag) (only : Only u earlier tag front doc back)
    {x y : List Char} (shape : front ++ doc ++ back = x ++ text ++ y) (holds : text = f ++ doc ++ b) :
    ∃ stop, rfind (closing tag) (u.lower text) = some stop ∧
      stop + tag.length + 3 = (u.lower (f ++ doc)).length := by
  have solid := solid_closing ascii name
  have place : (x ++ f).length = front.length :=
    only.place (b := b ++ y) (by rw [shape, holds]; simp)
  obtain ⟨inside, stop, closes, lowered⟩ := only.closes
  have total : (u.lower (f ++ doc)).length = (u.lower (f ++ inside)).length + (closing tag).length := by
    rw [closes, ← List.append_assoc, Unicode.lower_append_length, lowered]
  refine ⟨(u.lower (f ++ inside)).length, rfind_eq_some_iff.mpr
    ⟨(Unicode.stands_lower_iff solid closing_ne_nil).mpr ?_, fun j less here => ?_⟩, ?_⟩
  · exact ⟨f ++ inside, stop, b, by rw [holds, closes]; simp, rfl, lowered⟩
  · obtain ⟨before, part, after, cut, rfl, lowered'⟩ :=
      (Unicode.stands_lower_iff solid closing_ne_nil).mp here
    have most := only.last (x ++ before) part (after ++ y) (by rw [shape, cut]; simp) lowered'
    simp only [List.length_append] at most place
    have ahead : before ++ part <+: f ++ doc := by
      have start : before ++ part <+: text := ⟨after, cut.symm⟩
      have start' : f ++ doc <+: text := ⟨b, holds.symm⟩
      refine List.prefix_of_prefix_length_le start start' ?_
      rw [List.length_append, List.length_append]
      omega
    have short := Unicode.lower_length_mono (u := u) ahead
    rw [total, Unicode.lower_append_length (x := before), lowered'] at short
    omega
  · rw [total, closing_length]
    omega

/-! ## What is cut out -/

theorem document_infix {part : List Char} (found : document u text tag = some part) :
    part <:+: text := by
  obtain ⟨start, -, rfl⟩ := Option.map_eq_some_iff.mp found
  split
  · exact ((List.drop_suffix _ _).isInfix).trans (List.take_prefix _ _).isInfix
  · exact (List.drop_suffix _ _).isInfix

theorem extract_infix (u : Unicode) (text : List Char) (rootTags : List (List Char)) :
    extract u text rootTags <:+: searched text := by
  change (rootTags.findSome? (document u (searched text))).getD _ <:+: _
  cases found : rootTags.findSome? (document u (searched text)) with
  | some part =>
      obtain ⟨tag, -, cut⟩ := List.exists_of_findSome?_eq_some found
      exact document_infix cut
  | none =>
      exact (List.rdropWhile_prefix _ _).isInfix.trans (List.dropWhile_suffix _).isInfix

theorem document_none (ascii : u.Ascii) (name : Name tag) (nowhere : ¬ Has u text (opening tag)) :
    document u text tag = none := by
  refine Option.map_eq_none_iff.mpr (find_eq_none_iff.mpr fun i here => ?_)
  obtain ⟨x, y, z, shape, -, lowered⟩ :=
    (Unicode.stands_lower_iff (solid_opening ascii name) (List.cons_ne_nil _ _)).mp here
  exact nowhere ⟨y, ⟨x, z, shape.symm⟩, lowered⟩

/-- The places in lower case are used for the text itself. -/
theorem extract_eq (ascii : u.Ascii) (names : ∀ t ∈ earlier ++ tag :: later, Name t)
    (only : Only u earlier tag front doc back)
    (holds : searched (front ++ doc ++ back) = f ++ doc ++ b) :
    extract u (front ++ doc ++ back) (earlier ++ tag :: later) =
      ((f ++ doc ++ b).take (u.lower (f ++ doc)).length).drop (u.lower f).length := by
  obtain ⟨x, y, shape⟩ := searched_infix (front ++ doc ++ back)
  have name : Name tag := names tag (by simp)
  obtain ⟨stop, last, length⟩ := rfind_closing ascii name only shape.symm holds
  have here : document u (searched (front ++ doc ++ back)) tag =
      some (((f ++ doc ++ b).take (u.lower (f ++ doc)).length).drop (u.lower f).length) := by
    rw [document, find_opening ascii name only shape.symm holds, Option.map_some, last, ← length, holds]
  have before : earlier.findSome? (document u (searched (front ++ doc ++ back))) = none := by
    refine List.findSome?_eq_none_iff.mpr fun t member => ?_
    refine document_none ascii (names t (List.mem_append_left _ member)) ?_
    rintro ⟨part, inside, lowered⟩
    exact only.others t member ⟨part, inside.trans ⟨x, y, shape⟩, lowered⟩
  rw [extract]
  simp only [List.findSome?_append, before, Option.none_or, List.findSome?_cons, here,
    Option.getD_some]

/-- A text holds the document with nothing ahead of it that is longer in lower case, and nothing in
it either, unless the text ends there. -/
def Holds (u : Unicode) (doc text : List Char) : Prop :=
  ∃ f b, text = f ++ doc ++ b ∧ u.Kept f ∧ (u.Kept doc ∨ b = [])

/-- The document comes out whole where the text that is searched holds it so, and in no other case. -/
theorem extracts_iff (ascii : u.Ascii) (names : ∀ t ∈ earlier ++ tag :: later, Name t)
    (only : Only u earlier tag front doc back) :
    extract u (front ++ doc ++ back) (earlier ++ tag :: later) = doc ↔
      Holds u doc (searched (front ++ doc ++ back)) := by
  constructor
  · intro whole
    have inside := extract_infix u (front ++ doc ++ back) (earlier ++ tag :: later)
    rw [whole] at inside
    obtain ⟨f, b, holds⟩ := inside
    have cut := extract_eq ascii names only holds.symm
    rw [whole, List.drop_take, Unicode.lower_append_length, Nat.add_sub_cancel_left] at cut
    -- what is cut out is the document, so it is cut out where the document is
    have kept : u.Kept f := by
      have again : f ++ doc ++ b = (f ++ doc ++ b).take (u.lower f).length ++ doc ++
          ((f ++ doc ++ b).drop (u.lower f).length).drop (u.lower doc).length := by
        rw [List.append_assoc (List.take _ _)]
        nth_rewrite 3 [cut]
        rw [List.take_append_drop, List.take_append_drop]
      have long : (u.lower f).length ≤ (f ++ doc ++ b).length := by
        by_contra short
        rw [List.drop_eq_nil_of_le (Nat.le_of_not_le short), List.take_nil] at cut
        exact only.ne_nil cut
      obtain ⟨x, y, shape⟩ := searched_infix (front ++ doc ++ back)
      rw [← holds] at shape
      have first : (x ++ f).length = front.length :=
        only.place (b := b ++ y) (by rw [← shape]; simp)
      have second := only.place (f := x ++ (f ++ doc ++ b).take (u.lower f).length)
        (b := ((f ++ doc ++ b).drop (u.lower f).length).drop (u.lower doc).length ++ y) (by
          rw [← shape]
          nth_rewrite 1 [again]
          simp only [List.append_assoc])
      rw [← first, List.length_append, List.length_append, List.length_take_of_le long] at second
      exact Nat.add_left_cancel second
    refine ⟨f, b, holds.symm, kept, ?_⟩
    rw [kept, List.append_assoc, List.drop_left] at cut
    have length := congrArg List.length cut
    rw [List.length_take, List.length_append] at length
    have long := Unicode.length_le_lower (u := u) (s := doc)
    rcases Nat.eq_zero_or_pos b.length with none | some_
    · exact .inr (List.eq_nil_of_length_eq_zero none)
    · exact .inl (by rw [Unicode.Kept]; omega)
  · rintro ⟨f, b, holds, kept, rest⟩
    rw [extract_eq ascii names only holds, kept]
    rcases rest with kept' | rfl
    · rw [Unicode.lower_append_length, kept, kept', ← List.length_append, List.take_left,
        List.drop_left]
    · rw [List.append_nil, List.take_of_length_le Unicode.length_le_lower, List.drop_left]

/-- No tag starts in prose without a bracket. -/
theorem first_of_plain (plain : (front.all fun c => c ≠ 'Σ' && '<' ∉ u.lowerChar c) = true)
    {x y z : List Char} (shape : front ++ doc ++ [] = x ++ y ++ z)
    (lowered : u.lower y = opening tag) : front.length ≤ x.length := by
  by_contra short
  cases y with
  | nil => cases lowered
  | cons d y =>
      have inside : d ∈ front := by
        have here : (front ++ doc)[x.length]? = some d := by
          rw [← List.append_nil (front ++ doc), shape]
          simp
        rw [List.getElem?_append_left (Nat.lt_of_not_le short)] at here
        exact List.mem_of_getElem? here
      have plain := List.all_eq_true.mp plain d inside
      simp only [Bool.and_eq_true, decide_eq_true_eq] at plain
      rw [Unicode.lower, Unicode.lowerIn, Unicode.lowerAt, if_neg plain.1] at lowered
      obtain ⟨c, rest, single⟩ := List.exists_cons_of_ne_nil (u.lowerChar_ne_nil d)
      rw [single, List.cons_append] at lowered
      obtain ⟨rfl, -⟩ := List.cons.inj lowered
      exact plain.2 (single ▸ List.mem_cons_self)

theorem only_drawing (plain : (front.all fun c => c ≠ 'Σ' && '<' ∉ Unicode.small.lowerChar c) = true) :
    Only Unicode.small [] "svg".toList front "<svg></svg>".toList [] where
  opens := ⟨"<svg".toList, "></svg>".toList, by decide, by decide⟩
  closes := ⟨"<svg>".toList, "</svg>".toList, by decide, by decide⟩
  first _ _ _ shape lowered := first_of_plain plain shape lowered
  last x y z shape _ := by
    have total := congrArg List.length shape
    simp only [List.length_append, List.length_nil] at total ⊢
    omega
  others := nofun

theorem drawing_extracted :
    extract Unicode.small ("Sure: ".toList ++ "<svg></svg>".toList ++ []) ["svg".toList] =
      "<svg></svg>".toList := by
  have names : ∀ t ∈ [] ++ "svg".toList :: [], Name t := List.forall_mem_singleton.mpr name_svg
  exact (extracts_iff Unicode.ascii_small names (only_drawing (by decide))).mpr
    ⟨"Sure: ".toList, [], by decide, by decide, .inr rfl⟩

/-- A capital ahead of the document that is two characters in small costs it the bracket. -/
theorem bracket_lost :
    Only Unicode.small [] "svg".toList "İ".toList "<svg></svg>".toList [] ∧
      extract Unicode.small ("İ".toList ++ "<svg></svg>".toList ++ []) ["svg".toList] =
        "svg></svg>".toList ∧
      extract Unicode.small ("İ".toList ++ "<svg></svg>".toList ++ []) ["svg".toList] ≠
        "<svg></svg>".toList :=
  ⟨only_drawing (by decide), by decide, by decide⟩

end LocalHarness.Checks.Extract
