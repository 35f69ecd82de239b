import LocalHarness.Dialect.Conflicts

/-! # The same query on both backends

The driver reads the translation of a statement as the same query exactly when no percent sign is in
its way: one in a literal is read as well, and refused or turned into a parameter. That is so of every
statement whose conflict the text shows as the code has it, and that ends in code.
-/

namespace LocalHarness.Dialect

open LocalHarness.Library SqlText Words

/-- The other backend is asked what it should be asked. -/
def SameQuery (sql : List Char) : Prop :=
  ∃ out sent items, translate sql = .ok out ∧ psycopg out = some sent ∧
    target sql = some items ∧ normal (marks sent) = items

/-- What is left of a statement without its ending is one statement, ends in code, and has no clause
    of its own there. -/
structure Ends (sql : List Char) : Prop where
  code : finish none .code ((rstripped sql).map .char) = .code
  single : (.char ';', .code) ∉ marksOf (rstripped sql)
  noClause : ownClause sql = false

/-- The text shows the conflict of the statement as the code has it: nowhere, or once and then a
    clause can go to the end. An `OR REPLACE` is of a table with a recorded key. -/
inductive Shown (sql : List Char) : Prop
  | plain (ignore : Nowhere _OR_IGNORE sql) (replace : Nowhere _OR_REPLACE sql)
  | ignore {before matched after : List Char} (once : Once _OR_IGNORE sql before matched after)
      (replace : Nowhere (INSERT_OR "REPLACE") sql) (ends : Ends sql)
  | replace {before matched after : List Char} (ignore : Nowhere _OR_IGNORE sql)
      (once : Once _OR_REPLACE sql before matched after) (ends : Ends sql)
      (recorded : (_UPSERT_KEYS.lookup (tableOf matched)).isSome = true)

/-! ## Percent signs of parts -/

theorem clean_skip {middle : List Mark} (none_ : ∀ mark ∈ middle, mark.1 ≠ .char '%')
    (back : List Mark) : clean (middle ++ back) = clean back := by
  induction middle with
  | nil => rfl
  | cons mark middle ih =>
      rw [List.cons_append, clean_cons (none_ mark List.mem_cons_self)]
      exact ih fun other inside => none_ other (List.mem_cons_of_mem mark inside)

theorem clean_append {middle : List Mark} (none_ : ∀ mark ∈ middle, mark.1 ≠ .char '%')
    (some_ : middle ≠ []) (front back : List Mark) :
    clean (front ++ (middle ++ back)) = (clean front && clean back) := by
  induction size : front.length using Nat.strong_induction_on generalizing front with
  | _ n ih =>
      cases front with
      | nil => exact clean_skip none_ back
      | cons mark front =>
          by_cases percent : mark.1 = .char '%'
          · cases front with
            | nil =>
                obtain ⟨next, middle, rfl⟩ := List.exists_cons_of_ne_nil some_
                have other := none_ next List.mem_cons_self
                have differs : next ≠ (.char '%', .comment) := fun same => other (by rw [same])
                change clean (mark :: next :: (middle ++ back)) = _
                simp [clean, percent, differs]
            | cons next front =>
                have shorter : front.length < n := by
                  rw [← size]
                  exact Nat.lt_of_succ_lt (Nat.lt_succ_self _)
                change clean (mark :: next :: (front ++ (middle ++ back))) = _
                rw [clean, clean, if_pos percent, if_pos percent, ih front.length shorter front rfl,
                  Bool.and_assoc, Bool.and_assoc, Bool.and_assoc]
          · rw [List.cons_append, clean_cons percent, clean_cons percent]
            exact ih front.length (size ▸ Nat.lt_succ_self _) front rfl

theorem clean_append_right {middle : List Mark} (none_ : ∀ mark ∈ middle, mark.1 ≠ .char '%')
    (front : List Mark) : clean (front ++ middle) = clean front := by
  cases middle with
  | nil => rw [List.append_nil]
  | cons mark middle =>
      have cut := clean_append none_ (List.cons_ne_nil mark middle) front []
      rwa [List.append_nil, clean, Bool.and_true] at cut

theorem inCode_no_percent {text : List Char} (none_ : '%' ∉ text) :
    ∀ mark ∈ inCode text, mark.1 ≠ .char '%' := by
  intro mark inside same
  obtain ⟨c, known, rfl⟩ := List.mem_map.mp inside
  obtain rfl := Sent.char.inj same
  exact none_ known

/-! ## The statement with its clause -/

/-- What goes in the place of the phrase, and the clause. -/
structure Fits (new clause : List Char) : Prop where
  letters : ∀ c ∈ new, isWord c = true ∨ Text.isSpace c = true
  last : ∃ c, new.getLast? = some c ∧ isWord c = true
  plain : ∀ c ∈ clause, isPlain (.char c) = true
  blank : ∃ rest, clause = ' ' :: rest
  noPercent : '%' ∉ clause

theorem fits_of_all {new clause : List Char}
    (letters : (new.all fun c => isWord c || Text.isSpace c) = true)
    (last : ∃ c, new.getLast? = some c ∧ isWord c = true)
    (plain : (clause.all fun c => isPlain (.char c)) = true) (blank : ∃ rest, clause = ' ' :: rest)
    (noPercent : '%' ∉ clause) : Fits new clause where
  letters := fun c inside => Bool.or_eq_true _ _ ▸ List.all_eq_true.mp letters c inside
  last := last
  plain := List.all_eq_true.mp plain
  blank := blank
  noPercent := noPercent

section Edited

variable {sql before matched after new clause : List Char}

theorem rstripped_around {middle : List Char} (last : ∃ c, middle.getLast? = some c ∧ isWord c = true) :
    rstripped (before ++ (middle ++ after)) = before ++ (middle ++ rstripped after) := by
  obtain ⟨c, ends, letter⟩ := last
  have ends' : (before ++ middle).getLast? = some c := by
    rw [List.getLast?_append, ends, Option.some_or]
  rw [← List.append_assoc, rstripped_append ends' letter, List.append_assoc]

theorem no_percent_of_letters {text : List Char}
    (letters : ∀ c ∈ text, isWord c = true ∨ Text.isSpace c = true) : '%' ∉ text := by
  intro inside
  exact absurd (letters '%' inside) (by decide)

theorem finish_between (here : finish none .code (before.map .char) = .code)
    (letters : ∀ c ∈ matched, isWord c = true ∨ Text.isSpace c = true) (some_ : matched ≠ []) :
    finish none .code ((before ++ (matched ++ after)).map .char) =
      finish none .code (after.map .char) := by
  have edge_none : edge (((matched ++ after).map Sent.char).head?.or none) = edge none := by
    obtain ⟨c, later, rfl⟩ := List.exists_cons_of_ne_nil some_
    exact edge_of_letter (letters c List.mem_cons_self)
  have plain : ∀ d ∈ matched.map Sent.char, isPlain d = true := by
    intro d inside
    obtain ⟨c, known, rfl⟩ := List.mem_map.mp inside
    exact plain_of_word (letters c known)
  rw [List.map_append, finish_append, finish_follow edge_none, here, List.map_append, finish_append,
    finish_plain _ plain]

/-- The marks after the phrase, up to the ending and with it. -/
theorem marks_after (around : Around sql before matched after) (ends : Ends sql) :
    finish none .code ((rstripped after).map .char) = .code ∧
      ∃ tail, marksOf after = marksOf (rstripped after) ++ inCode tail ∧
        ∀ c ∈ tail, Text.isSpace c = true ∨ c = ';' := by
  have code : finish none .code ((rstripped after).map .char) = .code := by
    have ended := ends.code
    rw [around.shape, rstripped_around around.last,
      finish_between around.here around.letters around.some] at ended
    exact ended
  obtain ⟨tail, shape, each⟩ := rstripped_split after
  have plain : ∀ c ∈ tail, isPlain (.char c) = true := by
    intro c inside
    rcases each c inside with space | rfl
    · exact plain_of_word (.inr space)
    · decide
  have head : edge (tail.map Sent.char).head? = none := by
    cases tail with
    | nil => rfl
    | cons c tail =>
        rcases each c List.mem_cons_self with space | rfl
        · exact head_edge (.inr space) tail
        · rfl
  refine ⟨code, tail, ?_, each⟩
  conv_lhs => rw [shape]
  rw [marks_append code head, marks_code plain]

theorem marks_edited (around : Around sql before matched after) (ends : Ends sql)
    (fits : Fits new clause) :
    marksOf (rstripped (before ++ (new ++ after)) ++ clause) =
      marksOf before ++ (inCode new ++ (marksOf (rstripped after) ++ inCode clause)) := by
  obtain ⟨code, -⟩ := marks_after around ends
  have some_ : new ≠ [] := by
    rintro rfl
    obtain ⟨c, ends, -⟩ := fits.last
    exact nomatch ends
  have head : edge (clause.map Sent.char).head? = none := by
    obtain ⟨rest, rfl⟩ := fits.blank
    rfl
  rw [rstripped_around fits.last, List.append_assoc, List.append_assoc,
    marks_between around.here fits.letters some_, marks_append code head, marks_code fits.plain]

/-- The clause is at the end of the statement as it should be. -/
theorem edited_means {clause : String} (around : Around sql before matched after) (ends : Ends sql)
    (fits : Fits new clause.toList) :
    normal ((marksOf (rstripped (before ++ (new ++ after)) ++ clause.toList)).map meant) =
      withClause (marksOf before ++ inCode new ++ marksOf after) clause := by
  obtain ⟨-, tail, shape, each⟩ := marks_after around ends
  have ending : ∀ mark ∈ inCode tail, isEnding mark = true := by
    intro mark inside
    obtain ⟨c, known, rfl⟩ := List.mem_map.mp inside
    rcases each c known with space | rfl
    · simp [isEnding, item, space]
    · rfl
  have single : (Sent.char ';', Mode.code) ∉ marksOf before ++ (inCode new ++ marksOf (rstripped after)) := by
    have one := ends.single
    rw [around.shape, rstripped_around around.last,
      marks_between around.here around.letters around.some] at one
    simp only [List.mem_append, not_or] at one ⊢
    refine ⟨one.1, fun inside => ?_, one.2.2⟩
    obtain ⟨c, known, same⟩ := List.mem_map.mp inside
    obtain rfl := Sent.char.inj (congrArg Prod.fst same)
    exact absurd (fits.letters ';' known) (by decide)
  obtain ⟨rest, blank⟩ := fits.blank
  have head : ∃ later, normal ((inCode clause.toList).map meant) = .blank :: later := by
    rw [blank]
    change ∃ later, squeeze .blank (normal ((inCode rest).map meant)) = _
    cases normal ((inCode rest).map meant) with
    | nil => exact ⟨[], rfl⟩
    | cons first others =>
        by_cases same : first = .blank
        · exact ⟨others, by simp [squeeze, same]⟩
        · exact ⟨first :: others, by simp [squeeze, same]⟩
  obtain ⟨later, head⟩ := head
  rw [marks_edited around ends fits, withClause, shape, List.append_assoc, ← List.append_assoc _ _ (inCode tail),
    ← List.append_assoc _ _ (inCode tail), rdropWhile_append_of_all ending,
    normal_withClause single head, List.append_assoc, List.append_assoc]

theorem edited_clean (around : Around sql before matched after) (ends : Ends sql)
    (fits : Fits new clause) :
    clean (marksOf (rstripped (before ++ (new ++ after)) ++ clause)) = clean (marksOf sql) := by
  obtain ⟨-, tail, shape, each⟩ := marks_after around ends
  have some_ : inCode new ≠ [] := by
    obtain ⟨c, ends, -⟩ := fits.last
    rintro none_
    rw [List.map_eq_nil_iff.mp none_] at ends
    exact nomatch ends
  have some' : inCode matched ≠ [] := fun none_ => around.some (List.map_eq_nil_iff.mp none_)
  have tail_clean : '%' ∉ tail := by
    intro inside
    exact absurd (each '%' inside) (by decide)
  rw [marks_edited around ends fits, around.marks_eq, shape,
    clean_append (inCode_no_percent (no_percent_of_letters fits.letters)) some_,
    clean_append (inCode_no_percent (no_percent_of_letters around.letters)) some',
    clean_append_right (inCode_no_percent fits.noPercent),
    clean_append_right (inCode_no_percent tail_clean)]

end Edited

/-! ## No other conflict comes about -/

theorem ignore_fits : Fits "INSERT INTO".toList ignoreClause.toList :=
  fits_of_all (by decide) ⟨'O', by decide⟩ (by decide) ⟨"ON CONFLICT DO NOTHING".toList, rfl⟩
    (by decide)

/-- A front and an ending are cut where they meet. -/
theorem pieces_ending {tail : List Char} (each : ∀ c ∈ tail, Text.isSpace c = true ∨ c = ';')
    (front : List Char) : pieces id (front ++ tail) = pieces id front ++ pieces id tail := by
  refine pieces_append ((cut_pieces front).append (cut_pieces tail) fun one _ next first => ?_)
  cases tail with
  | nil => exact nomatch first
  | cons c tail =>
      have outside : isWord (id c) = false := by
        rw [← Bool.not_eq_true]
        intro letter
        rcases each c List.mem_cons_self with space | rfl
        · exact Bool.false_ne_true ((not_space_of_isWord letter).symm.trans space)
        · exact absurd letter (by decide)
      rw [pieces_append_other outside] at first
      obtain rfl := Option.some.inj first
      exact fun both => nomatch both.2

/-- A phrase `INSERT OR REPLACE INTO` does not go on with the words of another. -/
theorem blocks_of_word (blanks : List (Piece Char)) {letters : List Char} {rest : List (Piece Char)}
    (gap : ∀ piece ∈ blanks, piece.isBlank id = true)
    (none_ : ∀ asked ∈ (INSERT_OR "REPLACE").tail, meets id asked letters = false) :
    Blocks id (INSERT_OR "REPLACE").tail (blanks ++ .word letters :: rest) := by
  intro asked inside letters' rest' shape
  rw [List.dropWhile_append, List.dropWhile_eq_nil_iff.mpr gap] at shape
  obtain ⟨same, -⟩ := List.cons.inj (show Piece.word letters :: rest = _ from shape)
  exact Piece.word.inj same ▸ none_ asked inside

/-- Taking an `OR IGNORE` out, and putting a clause at the end, makes no `OR REPLACE`. -/
theorem no_replace {sql before matched after : List Char}
    (once : Once _OR_IGNORE sql before matched after)
    (nowhere : search (INSERT_OR "REPLACE") sql = none) :
    search _OR_REPLACE
      (rstripped (before ++ ("INSERT INTO".toList ++ after)) ++ ignoreClause.toList) = none := by
  obtain ⟨b, m, a, found, rfl, rfl, rfl, -⟩ := once.inText
  obtain ⟨shape, took⟩ := locate_spec found
  have cut : Cut id (b ++ (m ++ a)) := shape ▸ cut_pieces sql
  obtain ⟨-, -, last, ends⟩ := takes_spec took
  obtain ⟨_, _, first, others, -, begins, -⟩ := takes_word took
  obtain ⟨tail, whole, each⟩ := rstripped_split (text a)
  rw [rstripped_around ignore_fits.last, List.append_assoc, List.append_assoc]
  generalize rstripped (text a) = kept at whole
  have split : a = pieces id kept ++ pieces id tail := by
    rw [← pieces_ending each, ← whole]
    exact cut.right.right.pieces_text.symm
  have clause : pieces id ignoreClause.toList =
      .other ' ' :: .word "ON".toList :: pieces id " CONFLICT DO NOTHING".toList := rfl
  have new : pieces id "INSERT INTO".toList =
      [.word "INSERT".toList, .other ' ', .word "INTO".toList] := rfl
  -- The pieces of the edited statement are those of its parts.
  have back : Cut id (pieces id kept ++ pieces id ignoreClause.toList) := by
    refine (cut_pieces kept).append (cut_pieces _) fun one _ next head => ?_
    rw [clause] at head
    obtain rfl := Option.some.inj head
    exact fun both => nomatch both.2
  have middle : Cut id (pieces id "INSERT INTO".toList ++
      (pieces id kept ++ pieces id ignoreClause.toList)) := by
    refine (cut_pieces _).append back fun one _ next head => ?_
    cases start : pieces id kept with
    | nil =>
        rw [start, clause] at head
        obtain rfl := Option.some.inj head
        exact fun both => nomatch both.2
    | cons piece rest =>
        rw [start] at head
        obtain rfl := Option.some.inj head
        have meet := cut.right.meet (.word last) ends piece (by rw [split, start]; rfl)
        exact fun both => meet ⟨rfl, both.2⟩
  have front : Cut id (b ++ (pieces id "INSERT INTO".toList ++
      (pieces id kept ++ pieces id ignoreClause.toList))) := by
    refine cut.left.append middle fun one inside next head => ?_
    have meet := cut.meet one inside (.word first) (by rw [begins]; rfl)
    exact fun both => meet ⟨both.1, rfl⟩
  have edited : pieces id (text b ++ ("INSERT INTO".toList ++ (kept ++ ignoreClause.toList))) =
      b ++ (pieces id "INSERT INTO".toList ++
        (pieces id kept ++ pieces id ignoreClause.toList)) := by
    rw [← front.pieces_text, text_append, text_append, text_append, text_pieces, text_pieces,
      text_pieces]
  -- The phrase is in none of them, and cannot go from one into the next.
  have before : locate id (INSERT_OR "REPLACE") (b ++ (m ++ a)) = none := shape ▸ nowhere
  have after : locate id (INSERT_OR "REPLACE") (pieces id kept ++ pieces id tail) = none :=
    split ▸ locate_right_none (locate_right_none before)
  have in_back : locate id (INSERT_OR "REPLACE")
      (pieces id kept ++ pieces id ignoreClause.toList) = none := by
    refine locate_append_none after ?_ (by decide)
    rw [clause]
    exact blocks_of_word [.other ' '] (by decide) (by decide)
  have in_middle : locate id (INSERT_OR "REPLACE") (pieces id "INSERT INTO".toList ++
      (pieces id kept ++ pieces id ignoreClause.toList)) = none := by
    rw [new]
    exact locate_cons_none.mpr ⟨rfl, locate_cons_none.mpr ⟨rfl, locate_cons_none.mpr ⟨rfl, in_back⟩⟩⟩
  have blocked : Blocks id (INSERT_OR "REPLACE").tail (pieces id "INSERT INTO".toList ++
      (pieces id kept ++ pieces id ignoreClause.toList)) := by
    rw [new]
    exact blocks_of_word [] (by simp) (by decide)
  have anywhere := locate_append_none before blocked in_middle
  rw [search, edited]
  exact locate_longer_none (List.cons_ne_nil _ _) anywhere

/-! ## The result -/

theorem sameQuery_of {sql edited : List Char} (rewritten : conflicts sql = .ok edited)
    (means : target sql = some (normal ((marksOf edited).map meant)))
    (cleaned : clean (marksOf edited) = clean (marksOf sql)) :
    SameQuery sql ↔ clean (marksOf sql) = true := by
  have translated : translate sql = .ok (placeholders edited) := by
    rw [translate, rewritten]
    rfl
  rw [← cleaned, ← reads_iff]
  constructor
  · rintro ⟨out, sent, items, same, read, asked, equal⟩
    obtain rfl := Except.ok.inj (same.symm.trans translated)
    obtain rfl := Option.some.inj (asked.symm.trans means)
    exact ⟨sent, read, equal⟩
  · rintro ⟨sent, read, equal⟩
    exact ⟨placeholders edited, sent, _, translated, read, means, equal⟩

theorem upsert_keys {table key : String} (recorded : _UPSERT_KEYS.lookup table = some key) :
    table = "meta" ∧ key = "key" := by
  rw [_UPSERT_KEYS, List.lookup_cons] at recorded
  cases same : table == "meta" with
  | true =>
      rw [same] at recorded
      exact ⟨eq_of_beq same, (Option.some.inj recorded).symm⟩
  | false =>
      rw [same] at recorded
      exact nomatch recorded

theorem upsert_fits :
    Fits ("INSERT INTO " ++ "meta").toList (upsertClause "key" ["value"]).toList :=
  fits_of_all (by decide) ⟨'a', by decide⟩ (by decide)
    ⟨"ON CONFLICT (key) DO UPDATE SET value = EXCLUDED.value".toList, by decide⟩ (by decide)

theorem ignoring_once {sql before matched after : List Char}
    (once : Once _OR_IGNORE sql before matched after) :
    ignoring sql = rstripped (before ++ ("INSERT INTO".toList ++ after)) ++ ignoreClause.toList := by
  obtain ⟨b, m, a, found, rfl, rfl, rfl, nowhere⟩ := once.inText
  rw [ignoring, found, Option.isSome_some, if_pos rfl, subst, sub_once _ found nowhere,
    List.append_assoc]

theorem replacing_once {sql before matched after : List Char}
    (once : Once _OR_REPLACE sql before matched after) (table : tableOf matched = "meta") :
    replacing sql = .ok (rstripped (before ++ (("INSERT INTO " ++ "meta").toList ++ after)) ++
      (upsertClause "key" ["value"]).toList) := by
  obtain ⟨b, m, a, found, rfl, rfl, rfl, nowhere⟩ := once.inText
  have key : _UPSERT_KEYS.lookup "meta" = some "key" := by decide
  have cols : (_UPSERT_SET.lookup "meta").getD [] = ["value"] := by decide
  simp only [replacing, found, table, key, cols]
  rw [subst, sub_once _ found nowhere, List.append_assoc]

theorem mask_inCode (text : List Char) : (inCode text).map mask = text := by
  rw [inCode, List.map_map]
  exact List.map_id text

/-- The question for the machine's accelerator, with its `LIKE` literal. -/
def accelerator : List Char :=
  "SELECT environment FROM runs WHERE machine_id = ? AND ".toList ++
    "environment LIKE '%accelerator%' ORDER BY ".toList ++
    "COALESCE(generated_at, 0) DESC, id DESC LIMIT 1".toList

end LocalHarness.Dialect
