import Mathlib.Data.List.DropRight
import LocalHarness.Dialect.Placeholders

/-! # Where the clause of a conflict goes

What a statement with `OR IGNORE` or `OR REPLACE` should become, in terms of its marks: the phrase is
looked for in the code alone, and the clause goes after the last of the code. The translation works
on the text. Where the text has the phrase just where the code has it, and ends in code, the two
come to the same.
-/

namespace LocalHarness.Dialect

open LocalHarness.Library SqlText Words

/-- A character as the code has it: a comment is blank, and a literal is no word. -/
def mask : Mark → Char
  | (.char c, .code) => c
  | (.param, .code) => '?'
  | (_, .literal) => '\''
  | (_, .comment) => ' '

def codeSearch (phrase : Phrase) (sql : List Char) :
    Option (List (Piece Mark) × List (Piece Mark) × List (Piece Mark)) :=
  locate mask phrase (pieces mask (marksOf sql))

def inCode (text : List Char) : List Mark :=
  text.map fun c => (.char c, .code)

/-- Blanks, comments and semicolons. -/
def isEnding (mark : Mark) : Bool :=
  item mark = .blank || mark = (.char ';', .code)

/-- The statement with the clause right after the last of it. -/
def withClause (list : List Mark) (clause : String) : List Item :=
  normal ((list.rdropWhile isEnding ++ inCode clause.toList).map meant)

/-- The statement has a clause of its own at its end, so that another one has no effect there. -/
def ownClause (sql : List Char) : Bool :=
  (codeSearch [some "RETURNING".toList] sql).isSome ||
    (codeSearch [some "ON".toList, some "CONFLICT".toList] sql).isSome

/-- What the other backend should be asked, if it is one statement with at most one conflict. -/
def target (sql : List Char) : Option (List Item) :=
  match codeSearch _OR_IGNORE sql, codeSearch _OR_REPLACE sql with
  | none, none => some (normal ((marksOf sql).map meant))
  | some (before, _, after), none =>
      if ownClause sql || (locate mask _OR_IGNORE after).isSome then none
      else
        some (withClause (text before ++ inCode "INSERT INTO".toList ++ text after) ignoreClause)
  | none, some (before, matched, after) =>
      let table := tableOf ((text matched).map mask)
      match _UPSERT_KEYS.lookup table with
      | none => none
      | some key =>
          if ownClause sql || (locate mask _OR_REPLACE after).isSome then none
          else
            some (withClause (text before ++ inCode ("INSERT INTO " ++ table).toList ++ text after)
              (upsertClause key ((_UPSERT_SET.lookup table).getD [])))
  | some _, some _ => none

/-! ## Lists -/

section Lists

variable {α : Type} {p : α → Bool}

theorem rdropWhile_append_of_last {front : List α} {last : α} (ends : front.getLast? = some last)
    (kept : p last = false) (back : List α) :
    (front ++ back).rdropWhile p = front ++ back.rdropWhile p := by
  obtain ⟨front, rfl⟩ := List.getLast?_eq_some_iff.mp ends
  rw [List.rdropWhile, List.reverse_append, List.dropWhile_append, List.rdropWhile]
  cases dropped : back.reverse.dropWhile p with
  | nil => simp [kept]
  | cons a rest => simp

theorem rdropWhile_append_of_all {back : List α} (all : ∀ a ∈ back, p a = true) (front : List α) :
    (front ++ back).rdropWhile p = front.rdropWhile p := by
  rw [List.rdropWhile, List.reverse_append, List.dropWhile_append,
    List.dropWhile_eq_nil_iff.mpr fun a inside => all a (List.mem_reverse.mp inside)]
  rfl

theorem rdropWhile_split (list : List α) :
    ∃ tail, list = list.rdropWhile p ++ tail ∧ ∀ a ∈ tail, p a = true :=
  ⟨list.rtakeWhile p, List.rdropWhile_append_rtakeWhile.symm, fun _ inside =>
    List.mem_rtakeWhile_imp inside⟩

end Lists

/-! ## Where the phrase is -/

/-- The text has the phrase once, and the code has it once, at the same place. -/
structure Once (phrase : Phrase) (sql before matched after : List Char) : Prop where
  inText : ∃ b m a, search phrase sql = some (b, m, a) ∧ text b = before ∧ text m = matched ∧
    text a = after ∧ locate id phrase a = none
  inCode : ∃ b m a, codeSearch phrase sql = some (b, m, a) ∧ (text b).length = before.length ∧
    (text m).length = matched.length ∧ locate mask phrase a = none

theorem exists_once {phrase : Phrase} {sql : List Char}
    (inText : (search phrase sql).any fun found => (locate id phrase found.2.2).isNone)
    (inCode : (codeSearch phrase sql).any fun found => (locate mask phrase found.2.2).isNone)
    (same : (search phrase sql).map (fun found => ((text found.1).length, (text found.2.1).length)) =
      (codeSearch phrase sql).map fun found => ((text found.1).length, (text found.2.1).length)) :
    ∃ before matched after, Once phrase sql before matched after := by
  obtain ⟨⟨b, m, a⟩, found, nowhere⟩ := (Option.any_eq_true _ _).mp inText
  obtain ⟨⟨b', m', a'⟩, found', nowhere'⟩ := (Option.any_eq_true _ _).mp inCode
  rw [found, found', Option.map_some, Option.map_some] at same
  obtain ⟨before, matched⟩ := Prod.mk.inj (Option.some.inj same)
  exact ⟨text b, text m, text a,
    ⟨b, m, a, found, rfl, rfl, rfl, Option.isNone_iff_eq_none.mp nowhere⟩,
    ⟨b', m', a', found', before.symm, matched.symm, Option.isNone_iff_eq_none.mp nowhere'⟩⟩

/-- Neither the text nor the code has the phrase. -/
def Nowhere (phrase : Phrase) (sql : List Char) : Prop :=
  search phrase sql = none ∧ codeSearch phrase sql = none

theorem plain_of_word {c : Char} (letter : isWord c = true ∨ Text.isSpace c = true) :
    isPlain (.char c) = true := by
  have no : ∀ d, isWord d = false → Text.isSpace d = false → c ≠ d := by
    rintro d noWord noSpace rfl
    rw [noWord, noSpace] at letter
    simp at letter
  have single := no '\'' (by decide) (by decide)
  have double := no '"' (by decide) (by decide)
  have dash := no '-' (by decide) (by decide)
  have slash := no '/' (by decide) (by decide)
  simp [isPlain, single, double, dash, slash]

/-- What a phrase takes is words and blanks. -/
theorem letters_of_takes {phrase : Phrase} {list taken rest : List (Piece Char)}
    (whole : ∀ piece ∈ list, piece.Whole id) (took : takes id phrase list = some (taken, rest)) :
    ∀ c ∈ text taken, isWord c = true ∨ Text.isSpace c = true := by
  obtain ⟨rfl, only, -⟩ := takes_spec took
  intro c inside
  obtain ⟨piece, known, inside⟩ := List.mem_flatMap.mp inside
  have kind := only piece known
  have piece_whole := whole piece (List.mem_append_left rest known)
  cases piece with
  | word letters => exact .inl (piece_whole.2 c inside)
  | other a =>
      obtain rfl := List.mem_singleton.mp inside
      exact .inr kind

/-- The last character of what a phrase takes is one of a word. -/
theorem last_of_takes {phrase : Phrase} {list taken rest : List (Piece Char)}
    (whole : ∀ piece ∈ list, piece.Whole id) (took : takes id phrase list = some (taken, rest)) :
    ∃ last, (text taken).getLast? = some last ∧ isWord last = true := by
  obtain ⟨rfl, -, letters, ends⟩ := takes_spec took
  obtain ⟨front, rfl⟩ := List.getLast?_eq_some_iff.mp ends
  obtain ⟨some_, each⟩ := whole (.word letters) (by simp)
  refine ⟨letters.getLast some_, ?_, each _ (List.getLast_mem some_)⟩
  rw [text_append, List.getLast?_append]
  change (letters ++ []).getLast?.or _ = _
  rw [List.append_nil, List.getLast?_eq_some_getLast some_, Option.some_or]

/-- A phrase with a first word begins with its first letter. -/
theorem head_of_takes {α : Type} {view : α → Char} {first : Char} {keyword : List Char}
    {more : Phrase} {list taken rest : List (Piece α)}
    (took : takes view (some (first :: keyword) :: more) list = some (taken, rest)) :
    ∃ a later, text taken = a :: later ∧ (view a).toUpper = first := by
  obtain ⟨_, _, letters, others, same, rfl, met⟩ := takes_word took
  obtain ⟨rfl, -⟩ := List.cons.inj same
  obtain ⟨shape, -, last, ends⟩ := takes_spec took
  obtain ⟨piece, taken, rfl⟩ := List.exists_cons_of_ne_nil
    (show taken ≠ [] from fun none_ => by simp [none_] at ends)
  obtain ⟨rfl, -⟩ := List.cons.inj shape
  have capitals : letters.map (fun a => (view a).toUpper) = first :: keyword := by
    simpa [meets] using met
  obtain ⟨a, letters, rfl, upper, -⟩ := List.map_eq_cons_iff.mp capitals
  exact ⟨a, letters ++ text taken, rfl, upper⟩

/-- A letter `I` in the code is read where the reading stands in the code. -/
theorem code_of_mask {s : Scan} {c : Char} {next : Option Sent}
    (upper : (mask (.char c, (s.step (.char c) next).1)).toUpper = 'I') : s = .code := by
  cases s with
  | code => rfl
  | single | double => exact absurd (show '\''.toUpper = 'I' from upper) (by decide)
  | blockOpen | block | blockClose => exact absurd (show ' '.toUpper = 'I' from upper) (by decide)
  | line =>
      rw [Scan.step] at upper
      split at upper
      · next newline =>
          obtain rfl := Sent.char.inj newline
          exact absurd upper (by decide)
      · exact absurd (show ' '.toUpper = 'I' from upper) (by decide)

/-- The edge between two parts of a statement makes no difference to a part before code. -/
theorem edge_of_letter {c : Char} (letter : isWord c = true ∨ Text.isSpace c = true) :
    edge (some (.char c)) = none := by
  have plain := plain_of_word letter
  have star : c ≠ '*' := by
    rintro rfl
    simp [isWord, Text.isSpace] at letter
  simp only [isPlain, Bool.and_eq_true, decide_eq_true_eq] at plain
  simp only [Sent.char.injEq, ne_eq] at plain
  rw [edge, Option.filter_some, if_neg]
  simpa using ⟨plain.1.2, star, plain.2⟩

/-- The marks of a statement around a place where its text and its code have one phrase. -/
structure Around (sql before matched after : List Char) : Prop where
  shape : sql = before ++ (matched ++ after)
  letters : ∀ c ∈ matched, isWord c = true ∨ Text.isSpace c = true
  last : ∃ c, matched.getLast? = some c ∧ isWord c = true
  here : finish none .code (before.map .char) = .code

theorem Once.around {first : List Char} {more : Phrase} {sql before matched after : List Char}
    (once : Once (some ('I' :: first) :: more) sql before matched after) :
    Around sql before matched after := by
  obtain ⟨b, m, a, found, rfl, rfl, rfl, -⟩ := once.inText
  obtain ⟨b', m', a', found', before_size, matched_size, -⟩ := once.inCode
  obtain ⟨shape, took⟩ := locate_spec found
  obtain ⟨shape', took'⟩ := locate_spec found'
  have cut : Cut id (b ++ (m ++ a)) := shape ▸ cut_pieces sql
  have letters := letters_of_takes cut.right.whole took
  have sql_shape : sql = text b ++ (text m ++ text a) := by
    rw [← text_append, ← text_append, ← shape, text_pieces]
  have marks_shape : marksOf sql = text b' ++ (text m' ++ text a') := by
    rw [← text_append, ← text_append, ← shape', text_pieces]
  obtain ⟨c, later, head, -⟩ := head_of_takes took
  obtain ⟨mark, later', head', upper⟩ := head_of_takes took'
  -- The marks of the text before are those that the code has there.
  have cutting : marksOf sql =
      scan (some (.char c)) .code ((text b).map .char) ++
        scan none (finish (some (.char c)) .code ((text b).map .char))
          ((text m ++ text a).map .char) := by
    conv_lhs => rw [sql_shape]
    rw [marksOf, marks, List.map_append, scan_append, head]
    rfl
  have sizes : (text b').length = (scan (some (.char c)) .code ((text b).map .char)).length := by
    rw [before_size, ← List.length_map (f := Sent.char),
      ← map_fst_scan (some (.char c)) .code ((text b).map Sent.char), List.length_map, map_fst_scan]
  obtain ⟨-, behind⟩ := List.append_inj (marks_shape.symm.trans cutting) sizes
  rw [head, head', List.cons_append, List.cons_append, List.map_cons, scan] at behind
  obtain ⟨rfl, -⟩ := List.cons.inj behind
  have edge_none : edge (some (Sent.char c)) = edge none :=
    edge_of_letter (letters c (head ▸ List.mem_cons_self))
  refine ⟨sql_shape, letters, last_of_takes cut.right.whole took, ?_⟩
  rw [← finish_follow edge_none]
  exact code_of_mask upper

/-! ## Marks of parts -/

/-- What begins in the code is read by itself, unless it could make one with what is before it. -/
theorem marks_append {front back : List Char} (here : finish none .code (front.map .char) = .code)
    (head : edge (back.map Sent.char).head? = none) :
    marksOf (front ++ back) = marksOf front ++ marksOf back := by
  have edge_none : edge ((back.map Sent.char).head?.or none) = edge none := by
    rw [Option.or_none]
    exact head
  rw [marksOf, marks, List.map_append, scan_append, scan_follow edge_none, finish_follow edge_none,
    here]
  rfl

theorem marks_plain {front : List Char} (plain : ∀ c ∈ front, isPlain (.char c) = true)
    (back : List Char) : marksOf (front ++ back) = inCode front ++ marksOf back := by
  have each : ∀ d ∈ front.map Sent.char, isPlain d = true := by
    intro d inside
    obtain ⟨c, known, rfl⟩ := List.mem_map.mp inside
    exact plain c known
  rw [marksOf, marks, List.map_append, scan_append, scan_plain _ each, finish_plain _ each,
    List.map_map]
  rfl

theorem marks_code {text : List Char} (plain : ∀ c ∈ text, isPlain (.char c) = true) :
    marksOf text = inCode text := by
  have alone := marks_plain plain []
  rwa [List.append_nil, show marksOf [] = [] from rfl, List.append_nil] at alone

theorem head_edge {c : Char} (letter : isWord c = true ∨ Text.isSpace c = true) (rest : List Char) :
    edge ((c :: rest).map Sent.char).head? = none :=
  edge_of_letter letter

/-- Words and blanks in the code are code, and so is what was code after them. -/
theorem marks_between {before new : List Char} (here : finish none .code (before.map .char) = .code)
    (letters : ∀ c ∈ new, isWord c = true ∨ Text.isSpace c = true) (some_ : new ≠ [])
    (after : List Char) :
    marksOf (before ++ (new ++ after)) = marksOf before ++ (inCode new ++ marksOf after) := by
  have edge_none : edge ((new ++ after).map Sent.char).head? = none := by
    obtain ⟨c, later, rfl⟩ := List.exists_cons_of_ne_nil some_
    exact head_edge (letters c List.mem_cons_self) (later ++ after)
  rw [marks_append here edge_none, marks_plain fun d inside => plain_of_word (letters d inside)]

theorem Around.some {sql before matched after : List Char} (around : Around sql before matched after) :
    matched ≠ [] := by
  rintro rfl
  obtain ⟨c, ends, -⟩ := around.last
  exact nomatch ends

theorem Around.marks_eq {sql before matched after : List Char}
    (around : Around sql before matched after) :
    marksOf sql = marksOf before ++ (inCode matched ++ marksOf after) := by
  rw [around.shape]
  exact marks_between around.here around.letters around.some after

theorem length_marks (sql : List Char) : (marksOf sql).length = sql.length := by
  rw [← List.length_map (f := Prod.fst), marksOf, marks, map_fst_scan, List.length_map]

/-- What the code has around the phrase is what the text has. -/
theorem Once.code {phrase : Phrase} {sql before matched after : List Char}
    (once : Once phrase sql before matched after) (around : Around sql before matched after) :
    ∃ b m a, codeSearch phrase sql = some (b, m, a) ∧
      text b = marksOf before ∧ text m = Dialect.inCode matched ∧
      text a = marksOf after ∧ locate mask phrase a = none := by
  obtain ⟨b, m, a, found, before_size, matched_size, nowhere⟩ := once.inCode
  obtain ⟨shape, -⟩ := locate_spec found
  have cutting : text b ++ (text m ++ text a) = marksOf sql := by
    rw [← text_append, ← text_append, ← shape, text_pieces]
  rw [around.marks_eq] at cutting
  obtain ⟨front, behind⟩ := List.append_inj cutting (before_size.trans (length_marks before).symm)
  obtain ⟨middle, back⟩ := List.append_inj behind
    (matched_size.trans (matched.length_map _).symm)
  exact ⟨b, m, a, found, front, middle, back, nowhere⟩

/-! ## The end of a statement -/

theorem rstripped_append {front : List Char} {last : Char} (ends : front.getLast? = some last)
    (letter : isWord last = true) (back : List Char) :
    rstripped (front ++ back) = front ++ rstripped back := by
  have other : last ≠ ';' := by
    rintro rfl
    exact absurd letter (by decide)
  rw [rstripped, rdropWhile_append_of_last ends (not_space_of_isWord letter),
    rdropWhile_append_of_last ends (decide_eq_false other), rstripped]

theorem rstripped_split (sql : List Char) :
    ∃ tail, sql = rstripped sql ++ tail ∧ ∀ c ∈ tail, Text.isSpace c = true ∨ c = ';' := by
  obtain ⟨blanks, shape, each⟩ := rdropWhile_split (p := Text.isSpace) sql
  obtain ⟨semicolons, shape', each'⟩ := rdropWhile_split (p := (· = ';')) (sql.rdropWhile Text.isSpace)
  refine ⟨semicolons ++ blanks, ?_, fun c inside => ?_⟩
  · rw [rstripped, ← List.append_assoc, ← shape', ← shape]
  · rcases List.mem_append.mp inside with inside | inside
    · exact .inr (by simpa using each' c inside)
    · exact .inl (each c inside)

theorem item_meant {mark : Mark} (blank : item mark = .blank) : item (meant mark) = .blank := by
  obtain ⟨x, mode⟩ := mark
  cases x with
  | param => cases mode <;> exact blank
  | char c =>
      rw [meant]
      split
      · next param =>
          obtain ⟨rfl, rfl⟩ := param
          cases blank
      · exact blank

theorem normal_append_blanks {blanks rest : List Item} (each : ∀ item ∈ blanks, item = .blank)
    {later : List Item} (head : rest = .blank :: later) : blanks.foldr squeeze rest = rest := by
  induction blanks with
  | nil => rfl
  | cons item blanks ih =>
      rw [List.foldr_cons, ih fun other inside => each other (List.mem_cons_of_mem item inside),
        each item List.mem_cons_self, head]
      rfl

/-- What is left of a statement without its ending differs from it by blanks only. -/
theorem normal_withClause {list : List Mark} (single : (.char ';', .code) ∉ list) {clause : List Mark}
    {later : List Item} (blank : normal (clause.map meant) = .blank :: later) :
    normal ((list.rdropWhile isEnding ++ clause).map meant) = normal ((list ++ clause).map meant) := by
  obtain ⟨tail, shape, each⟩ := rdropWhile_split (p := isEnding) list
  have blanks : ∀ item' ∈ (tail.map meant).map item, item' = .blank := by
    intro item' inside
    obtain ⟨mark', inside', rfl⟩ := List.mem_map.mp inside
    obtain ⟨mark, known, rfl⟩ := List.mem_map.mp inside'
    have ending := each mark known
    rw [isEnding, Bool.or_eq_true, decide_eq_true_eq, decide_eq_true_eq] at ending
    refine item_meant (ending.resolve_right fun semicolon => single ?_)
    rw [shape, ← semicolon]
    exact List.mem_append_right _ known
  have skipped := normal_append_blanks blanks blank
  rw [normal] at skipped
  conv_rhs => rw [shape]
  rw [List.append_assoc, List.map_append, List.map_append, List.map_append, normal, normal,
    List.map_append, List.map_append, List.map_append, List.foldr_append, List.foldr_append,
    List.foldr_append, skipped]

end LocalHarness.Dialect
