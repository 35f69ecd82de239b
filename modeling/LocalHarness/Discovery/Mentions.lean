import LocalHarness.Library.Find
import LocalHarness.Library.JsonDumps
import LocalHarness.Library.Lines

/-! # The names a text mentions

A model lists the names that a text mentions, a line for each, and `mentions` reads them. What stands
before a name is taken off as characters of a set, so a name that begins with one of them is read without
it, and one that begins as the answer of an empty list does is not read at all.
-/

namespace LocalHarness.Discovery

open LocalHarness.Library LocalHarness.Library.Str LocalHarness.Library.JsonText

/-! ## Reading the list -/

/-- What Python's tables make of a character in upper case. -/
structure Upper where
  char : CodePoint → Str
  blank : char (point ' ') = [point ' ']

def Upper.str (u : Upper) (s : Str) : Str :=
  s.flatMap u.char

def isSpace (c : CodePoint) : Bool :=
  Text.isSpace (.ofNat c.val)

def isLead (c : CodePoint) : Bool :=
  (text "-*0123456789. ").contains c

def isQuote (c : CodePoint) : Bool :=
  (text "`\"'").contains c

def MAX_MENTIONS : Nat := 12

def MENTION_PROMPT (body : Str) : Str :=
  text "List every software product, model or tool this text names.\n\n" ++
    text "One per line, exactly: NAME | what the text claims about it\n" ++
    text "Use the name as written. If the text names nothing, reply NONE.\n" ++
    text "Do not list people, usernames, companies, file formats or programming\n" ++
    text "languages. Do not invent names that are not in the text.\n\n---\n" ++ body ++ text "\n---"

def bar : CodePoint := point '|'

/-- `line.strip().lstrip("-*0123456789. ").strip()` -/
def entry (line : Str) : Str :=
  strip ((strip line).dropWhile isLead)

def unquoted (s : Str) : Str :=
  (s.dropWhile isQuote).rdropWhile isQuote

/-- The name on a line of the reply, with what is claimed of it. -/
def mention (u : Upper) (line : Str) : Option (Str × Str) :=
  if entry line = [] ∨ (text "NONE").isPrefixOf (u.str (entry line)) then none
  else
    let name := unquoted (strip ((entry line).takeWhile (· ≠ bar)))
    let claim := ((entry line).dropWhile (· ≠ bar)).drop 1
    if (2 ≤ name.length ∧ name.length ≤ 60) ∧ u.str name ≠ text "NAME" then
      some (name, (strip claim).take 160)
    else none

/-- `complete` gives no reply where it raises. -/
def mentions (u : Upper) (complete : Str → Option Str) (prose : Str) : List (Str × Str) :=
  if strip prose = [] then []
  else
    match complete (MENTION_PROMPT ((strip prose).take 4000)) with
    | none => []
    | some reply => ((splitlines reply).filterMap (mention u)).take MAX_MENTIONS

/-! ## The list as a model writes it -/

/-- What may stand before a name. -/
inductive Mark
  | none
  | dash
  | star
  | plus
  | numbered (n : Nat)
  | bracketed (n : Nat)

def Mark.text : Mark → Str
  | .none => []
  | .dash => Library.text "- "
  | .star => Library.text "* "
  | .plus => Library.text "+ "
  | .numbered n => whole n ++ Library.text ". "
  | .bracketed n => whole n ++ Library.text ") "

/-- The marks of the set that is taken off. -/
def Mark.Known : Mark → Prop
  | .none | .dash | .star | .numbered _ => True
  | .plus | .bracketed _ => False

/-- A name and a claim on one line. -/
structure Item where
  mark : Mark
  name : Str
  claim : Str
  length : 2 ≤ name.length ∧ name.length ≤ 60
  name_plain : bar ∉ name ∧ point '\n' ∉ name
  claim_plain : ∀ c ∈ claim, isLineEnd c = false

def Item.line (i : Item) : Str :=
  i.mark.text ++ i.name ++ text " | " ++ i.claim

/-- What a model can list of a text. -/
structure Listing (prose : Str) where
  items : List Item
  most : items.length ≤ MAX_MENTIONS
  named : ∀ i ∈ items, i.name <:+: prose

def Listing.reply {prose : Str} (l : Listing prose) : Str :=
  joinLines (l.items.map Item.line)

/-- The names come back as listed. -/
def Listing.Reads (u : Upper) {prose : Str} (l : Listing prose) : Prop :=
  ∀ complete, complete (MENTION_PROMPT ((strip prose).take 4000)) = some l.reply →
    (mentions u complete prose).map Prod.fst = l.items.map Item.name

/-- A name that is no header and no answer of an empty list, on one line, with nothing at its ends that is
taken off. -/
def Kept (u : Upper) (name : Str) : Prop :=
  ((∀ c ∈ name.head?, isLead c = false ∧ isSpace c = false ∧ isQuote c = false) ∧
      ∀ c ∈ name.getLast?, isSpace c = false ∧ isQuote c = false) ∧
    (∀ c ∈ name, isLineEnd c = false) ∧
    (text "NONE").isPrefixOf (u.str name) = false ∧ u.str name ≠ text "NAME"

variable {u : Upper} {a b s t name line : Str} {c : CodePoint} {p : CodePoint → Bool} {m : Mark}
  {i : Item} {prose : Str}

/-! ## What is taken off -/

/-- What is left of the text before the bar. -/
def head (s : Str) : Str :=
  ((s.dropWhile isSpace).dropWhile isLead).dropWhile isSpace

theorem entry_bar (a b : Str) : ∃ rest, entry (a ++ bar :: b) = head a ++ bar :: rest := by
  have space : isSpace bar = false := by decide
  have lead : isLead bar = false := by decide
  refine ⟨(b.rdropWhile isSpace).rdropWhile isSpace, ?_⟩
  change ((((a ++ bar :: b).dropWhile isSpace).rdropWhile isSpace |>.dropWhile isLead).dropWhile
    isSpace).rdropWhile isSpace = _
  rw [Find.dropWhile_stop space, Find.rdropWhile_stop space, Find.dropWhile_stop lead,
    Find.dropWhile_stop space, Find.rdropWhile_stop space, head]

theorem takeWhile_bar (plain : bar ∉ a) : (a ++ bar :: b).takeWhile (· ≠ bar) = a := by
  rw [List.takeWhile_append_of_pos fun c member => ?_]
  · simp
  · exact decide_eq_true fun same => plain (same ▸ member)

/-! ## A line -/

/-- A letter that is not taken off is left as often as it was. -/
theorem count_dropWhile (kept : p c = false) (s : Str) : (s.dropWhile p).count c = s.count c := by
  induction s with
  | nil => rfl
  | cons d rest ih =>
      rw [List.dropWhile_cons]
      split
      next gone =>
        have other : d ≠ c := by
          rintro rfl
          rw [kept] at gone
          cases gone
        rw [ih, List.count_cons_of_ne other]
      next => rfl

theorem count_rdropWhile (kept : p c = false) (s : Str) : (s.rdropWhile p).count c = s.count c := by
  rw [List.rdropWhile, List.count_reverse, count_dropWhile kept, List.count_reverse]

/-- What is read of a name. -/
def taken (s : Str) : Str :=
  unquoted (strip (head s))

theorem count_taken (kept : isLead c = false ∧ isSpace c = false ∧ isQuote c = false) (s : Str) :
    (taken s).count c = s.count c := by
  change (((((head s).dropWhile isSpace).rdropWhile isSpace).dropWhile isQuote).rdropWhile
    isQuote).count c = _
  rw [count_rdropWhile kept.2.2, count_dropWhile kept.2.2, count_rdropWhile kept.2.1,
    count_dropWhile kept.2.1, head, count_dropWhile kept.2.1, count_dropWhile kept.1,
    count_dropWhile kept.2.1]

theorem mention_eq (plain : bar ∉ a) : ∃ rest, mention u (a ++ bar :: b) =
    if (text "NONE").isPrefixOf (u.str (head a ++ bar :: rest)) then none
    else if (2 ≤ (taken a).length ∧ (taken a).length ≤ 60) ∧ u.str (taken a) ≠ text "NAME" then
      some (taken a, (strip rest).take 160)
    else none := by
  obtain ⟨rest, shape⟩ := entry_bar a b
  have inside : bar ∉ head a := fun member => plain ((List.dropWhile_sublist _).subset
    ((List.dropWhile_sublist _).subset ((List.dropWhile_sublist _).subset member)))
  have some_ : head a ++ bar :: rest ≠ [] := List.append_ne_nil_of_right_ne_nil _ (List.cons_ne_nil _ _)
  have other : ∀ c ∈ head a, decide (c ≠ bar) = true :=
    fun c member => decide_eq_true fun same => inside (same ▸ member)
  have claim : ((head a ++ bar :: rest).dropWhile (· ≠ bar)).drop 1 = rest := by
    rw [List.dropWhile_append_of_pos other]
    simp
  refine ⟨rest, ?_⟩
  simp only [mention, shape, some_, false_or, takeWhile_bar inside, claim]
  rfl

theorem digit_plain (digit : c.isDigit = true) :
    isLead c = true ∧ isSpace c = false ∧ c ≠ bar ∧ isLineEnd c = false := by
  have each : ∀ k < 10, isLead (.ofNat _ (0x30 + k)) = true ∧ isSpace (.ofNat _ (0x30 + k)) = false ∧
      Fin.ofNat _ (0x30 + k) ≠ bar ∧ isLineEnd (.ofNat _ (0x30 + k)) = false := by decide
  simp only [CodePoint.isDigit, Bool.and_eq_true, decide_eq_true_eq] at digit
  have shape : c = .ofNat _ (0x30 + (c.val - 0x30)) := by
    have bound := c.isLt
    refine Fin.ext ?_
    rw [Fin.val_ofNat]
    omega
  rw [shape]
  exact each _ (by omega)

/-- A mark has no bar and no line end, and does not begin with a space. -/
theorem mark_plain (m : Mark) : (∀ c ∈ m.text, (c != bar && !isLineEnd c) = true) ∧
    ∀ c ∈ m.text.head?, isSpace c = false := by
  have numbered (n : Nat) (close : Str) (plain : close.all (fun c => c != bar && !isLineEnd c) = true) :
      (∀ c ∈ whole n ++ close, (c != bar && !isLineEnd c) = true) ∧
        ∀ c ∈ (whole n ++ close).head?, isSpace c = false := by
    refine ⟨List.forall_mem_append.mpr ⟨fun c member => ?_, List.all_eq_true.mp plain⟩,
      fun c first => ?_⟩
    · obtain ⟨-, -, other, clean⟩ := digit_plain (isDigit_of_mem_whole c member)
      rw [bne_iff_ne.mpr other, clean]
      rfl
    · have some_ : whole n ≠ [] := fun none_ => Nat.toDigits_ne_nil (List.map_eq_nil_iff.mp none_)
      rw [List.head?_append_of_ne_nil _ some_] at first
      exact (digit_plain (isDigit_of_mem_whole c (List.mem_of_head? first))).2.1
  cases m with
  | none => exact ⟨List.forall_mem_nil _, fun c first => by cases first⟩
  | dash => exact ⟨List.all_eq_true.mp (by decide), fun c first => by cases first; decide⟩
  | star => exact ⟨List.all_eq_true.mp (by decide), fun c first => by cases first; decide⟩
  | plus => exact ⟨List.all_eq_true.mp (by decide), fun c first => by cases first; decide⟩
  | numbered n => exact numbered n _ (by decide)
  | bracketed n => exact numbered n _ (by decide)

theorem lead_of_known (known : m.Known) : ∀ c ∈ m.text, isLead c = true := by
  cases m with
  | none => exact List.forall_mem_nil _
  | dash => exact List.all_eq_true.mp (by decide)
  | star => exact List.all_eq_true.mp (by decide)
  | numbered n =>
      refine List.forall_mem_append.mpr ⟨fun c member => ?_, List.all_eq_true.mp (by decide)⟩
      exact (digit_plain (isDigit_of_mem_whole c member)).1
  | plus => cases known
  | bracketed n => cases known

/-- A mark of another kind has a letter that stays. -/
theorem stays_of_unknown (unknown : ¬ m.Known) :
    ∃ c ∈ m.text, isLead c = false ∧ isSpace c = false ∧ isQuote c = false := by
  cases m with
  | plus => exact ⟨point '+', List.mem_cons_self, by decide⟩
  | bracketed n => exact ⟨point ')', List.mem_append_right _ List.mem_cons_self, by decide⟩
  | none => exact absurd trivial unknown
  | dash => exact absurd trivial unknown
  | star => exact absurd trivial unknown
  | numbered n => exact absurd trivial unknown

/-- Before a known mark nothing of the name is looked at. -/
theorem head_known (known : m.Known) (some_ : m.text ≠ []) :
    head (m.text ++ s) = (s.dropWhile isLead).dropWhile isSpace := by
  obtain ⟨c, rest, shape⟩ := List.exists_cons_of_ne_nil some_
  have first : isSpace c = false := (mark_plain m).2 c (by rw [shape]; rfl)
  have still : (m.text ++ s).dropWhile isSpace = m.text ++ s := by
    rw [shape, List.cons_append, List.dropWhile_cons_of_neg (by rw [first]; decide)]
  rw [head, still, List.dropWhile_append_of_pos (lead_of_known known)]

theorem suffix_head_known (known : m.Known) : head (m.text ++ s) <:+ s := by
  by_cases some_ : m.text = []
  · rw [some_, List.nil_append, head]
    exact ((List.dropWhile_suffix _).trans (List.dropWhile_suffix _)).trans (List.dropWhile_suffix _)
  · rw [head_known known some_]
    exact (List.dropWhile_suffix _).trans (List.dropWhile_suffix _)

/-- A letter that is of the set, or a space, is taken off the name. -/
theorem suffix_head_cons (known : m.Known) (gone : isLead c = true ∨ isSpace c = true) :
    head (m.text ++ c :: s) <:+ s := by
  have space := List.dropWhile_suffix isSpace (l := s)
  have lead := List.dropWhile_suffix isLead (l := s)
  by_cases some_ : m.text = []
  · rw [some_, List.nil_append, head, List.dropWhile_cons]
    split
    next => exact ((List.dropWhile_suffix _).trans (List.dropWhile_suffix _)).trans space
    next solid =>
      rw [List.dropWhile_cons_of_pos (gone.resolve_right solid)]
      exact (List.dropWhile_suffix _).trans lead
  · rw [head_known known some_, List.dropWhile_cons]
    split
    next => exact (List.dropWhile_suffix _).trans lead
    next other => rwa [List.dropWhile_cons_of_pos (gone.resolve_left other)]

theorem head_cons_kept (known : m.Known) (kept : isLead c = false ∧ isSpace c = false) :
    head (m.text ++ c :: s) = c :: s := by
  have lead : (c :: s).dropWhile isLead = c :: s :=
    List.dropWhile_cons_of_neg (by rw [kept.1]; decide)
  have space : (c :: s).dropWhile isSpace = c :: s :=
    List.dropWhile_cons_of_neg (by rw [kept.2]; decide)
  by_cases some_ : m.text = []
  · rw [some_, List.nil_append, head, space, lead, space]
  · rw [head_known known some_, lead, space]

theorem strip_blank (s : Str) : strip (s ++ [point ' ']) = strip s := by
  have blank : isSpace (point ' ') = true := by decide
  change ((s ++ [point ' ']).dropWhile isSpace).rdropWhile isSpace =
    (s.dropWhile isSpace).rdropWhile isSpace
  rw [List.dropWhile_append]
  split
  next none_ => rw [List.isEmpty_iff.mp none_, List.dropWhile_cons_of_pos blank]; rfl
  next => rw [List.rdropWhile_concat_pos _ _ _ blank]

theorem sublist_strip (s : Str) : (strip s).Sublist s :=
  (List.rdropWhile_prefix _ _).sublist.trans (List.dropWhile_sublist _)

theorem sublist_unquoted_strip (s : Str) : (unquoted (strip s)).Sublist s :=
  ((List.rdropWhile_prefix _ _).sublist.trans (List.dropWhile_sublist _)).trans (sublist_strip s)

/-- No more is read than what is left before the blank. -/
theorem length_taken (left : head a <:+ s ++ [point ' ']) : (taken a).length ≤ s.length := by
  rw [taken]
  rcases List.suffix_concat_iff.mp left with none_ | ⟨t, shape, inside⟩
  · rw [none_]
    exact Nat.zero_le _
  · rw [shape, strip_blank]
    exact (sublist_unquoted_strip t).length_le.trans inside.length_le

theorem unquoted_strip_iff : unquoted (strip s) = s ↔
    (∀ c ∈ s.head?, isSpace c = false ∧ isQuote c = false) ∧
      ∀ c ∈ s.getLast?, isSpace c = false ∧ isQuote c = false := by
  change (((s.dropWhile isSpace).rdropWhile isSpace).dropWhile isQuote).rdropWhile isQuote = s ↔ _
  simp only [forall_and, ← Find.dropWhile_eq_iff, ← Find.rdropWhile_eq_iff]
  constructor
  · intro same
    have first := (List.dropWhile_sublist isSpace (l := s))
    have second := (List.rdropWhile_prefix isSpace (l := s.dropWhile isSpace)).sublist
    have third := List.dropWhile_sublist isQuote (l := (s.dropWhile isSpace).rdropWhile isSpace)
    have fourth := (List.rdropWhile_prefix isQuote
      (l := ((s.dropWhile isSpace).rdropWhile isSpace).dropWhile isQuote)).sublist
    rw [same] at fourth
    have one := first.antisymm ((fourth.trans third).trans second)
    rw [one] at second third fourth
    have two := second.antisymm (fourth.trans third)
    rw [two] at third fourth
    have three := third.antisymm fourth
    rw [one, two, three] at same
    exact ⟨⟨one, three⟩, two, same⟩
  · rintro ⟨⟨one, three⟩, two, four⟩
    rw [one, two, three, four]

/-- A name is what is read of it where nothing at its ends is taken off. -/
theorem taken_eq_iff (some_ : name ≠ []) : taken (m.text ++ (name ++ [point ' '])) = name ↔
    m.Known ∧ (∀ c ∈ name.head?, isLead c = false ∧ isSpace c = false ∧ isQuote c = false) ∧
      ∀ c ∈ name.getLast?, isSpace c = false ∧ isQuote c = false := by
  obtain ⟨c, rest, rfl⟩ := List.exists_cons_of_ne_nil some_
  have whole : m.Known → isLead c = false ∧ isSpace c = false →
      (taken (m.text ++ (c :: rest ++ [point ' '])) = c :: rest ↔
        (∀ d ∈ (c :: rest).head?, isSpace d = false ∧ isQuote d = false) ∧
          ∀ d ∈ (c :: rest).getLast?, isSpace d = false ∧ isQuote d = false) := by
    intro known kept
    rw [taken, List.cons_append, head_cons_kept known kept, ← List.cons_append, strip_blank,
      unquoted_strip_iff]
  constructor
  · intro same
    have known : m.Known := by
      by_contra unknown
      obtain ⟨d, member, stays⟩ := stays_of_unknown unknown
      have twice := count_taken stays (m.text ++ (c :: rest ++ [point ' ']))
      have once := List.count_pos_iff.mpr member
      rw [same, List.count_append, List.count_append] at twice
      omega
    have kept : isLead c = false ∧ isSpace c = false := by
      rw [← Bool.not_eq_true, ← Bool.not_eq_true, ← not_or]
      intro gone
      have short := length_taken (suffix_head_cons (s := rest ++ [point ' ']) known gone)
      rw [← List.cons_append, same, List.length_cons] at short
      omega
    obtain ⟨first, last⟩ := (whole known kept).mp same
    exact ⟨known, fun d here => ⟨Option.some.inj here ▸ kept.1, first d here⟩, last⟩
  · rintro ⟨known, first, last⟩
    have kept := first c rfl
    exact (whole known ⟨kept.1, kept.2.1⟩).mpr ⟨fun d here => (first d here).2, last⟩

/-! ## The whole list -/

theorem isPrefixOf_none (s : Str) (rest : Str) : (text "NONE").isPrefixOf (u.str (s ++ [point ' '] ++ rest)) =
    (text "NONE").isPrefixOf (u.str s) := by
  have foreign : point ' ' ∉ text "NONE" := by decide
  have shape : u.str (s ++ [point ' '] ++ rest) = u.str s ++ point ' ' :: u.str rest := by
    rw [Upper.str, List.flatMap_append, List.flatMap_append, List.flatMap_singleton, u.blank,
      List.append_assoc]
    rfl
  rw [shape, Find.isPrefixOf_stop foreign]

theorem line_eq (i : Item) :
    i.line = (i.mark.text ++ (i.name ++ [point ' '])) ++ bar :: (point ' ' :: i.claim) := by
  have joint : text " | " = [point ' ', bar, point ' '] := by decide
  rw [Item.line, joint]
  simp

theorem name_ne_nil (i : Item) : i.name ≠ [] := by
  intro none_
  have length := i.length.1
  rw [none_] at length
  exact absurd length (by decide)

/-- A line is read for its name. -/
theorem mention_line (clean : ∀ c ∈ i.name, isLineEnd c = false) :
    (mention u i.line).map Prod.fst = some i.name ↔ i.mark.Known ∧ Kept u i.name := by
  have plain : bar ∉ i.mark.text ++ (i.name ++ [point ' ']) := by
    rw [List.mem_append, List.mem_append, not_or, not_or]
    refine ⟨fun member => ?_, i.name_plain.1, by decide⟩
    exact absurd ((mark_plain i.mark).1 _ member) (by decide)
  obtain ⟨rest, shape⟩ := mention_eq (u := u) (b := point ' ' :: i.claim) plain
  have read := taken_eq_iff (m := i.mark) (name_ne_nil i)
  have front : i.mark.Known →
      (∀ c ∈ i.name.head?, isLead c = false ∧ isSpace c = false ∧ isQuote c = false) →
      (text "NONE").isPrefixOf
          (u.str (head (i.mark.text ++ (i.name ++ [point ' '])) ++ bar :: rest)) =
        (text "NONE").isPrefixOf (u.str i.name) := by
    intro known first
    obtain ⟨c, tail, name⟩ := List.exists_cons_of_ne_nil (name_ne_nil i)
    have kept := first c (by rw [name]; rfl)
    rw [name, List.cons_append, head_cons_kept known ⟨kept.1, kept.2.1⟩, ← List.cons_append,
      isPrefixOf_none]
  rw [line_eq, shape]
  constructor
  · intro found
    split at found
    next => cases found
    next none_ =>
      split at found
      next fits =>
        have same : taken _ = i.name := Option.some.inj found
        obtain ⟨known, first, last⟩ := read.mp same
        rw [front known first, Bool.not_eq_true] at none_
        exact ⟨known, ⟨first, last⟩, clean, none_, same ▸ fits.2⟩
      next => cases found
  · rintro ⟨known, ⟨first, last⟩, -, none_, header⟩
    have same := read.mpr ⟨known, first, last⟩
    rw [front known first, none_, same, if_neg (by decide), if_pos ⟨i.length, header⟩]
    rfl

theorem mention_subset {found : Str × Str} (read : mention u line = some found) : found.1 ⊆ line := by
  unfold mention at read
  split at read
  next => cases read
  next =>
    simp only at read
    split at read
    next =>
      have name := congrArg Prod.fst (Option.some.inj read)
      have inner : (entry line).Sublist line :=
        (sublist_strip _).trans ((List.dropWhile_sublist _).trans (sublist_strip line))
      have part := (sublist_unquoted_strip ((entry line).takeWhile fun c => decide (c ≠ bar))).trans
        ((List.takeWhile_sublist _).trans inner)
      rw [← name]
      exact part.subset
    next => cases read

theorem line_clean (clean : ∀ c ∈ i.name, isLineEnd c = false) :
    ∀ c ∈ i.line, isLineEnd c = false := by
  refine List.forall_mem_append.mpr ⟨List.forall_mem_append.mpr ⟨List.forall_mem_append.mpr
    ⟨fun c member => ?_, clean⟩, ?_⟩, i.claim_plain⟩
  · have plain := (mark_plain i.mark).1 c member
    rw [Bool.and_eq_true, Bool.not_eq_true'] at plain
    exact plain.2
  · have joint : (text " | ").all (fun c => !isLineEnd c) = true := by decide
    exact fun c member => by simpa using List.all_eq_true.mp joint c member

/-- The names come back in order where each is kept, behind a mark that is taken off. -/
theorem mentions_iff (u : Upper) (prose : Str) (l : Listing prose) :
    l.Reads u ↔ ∀ i ∈ l.items, i.mark.Known ∧ Kept u i.name := by
  by_cases blank : strip prose = []
  · -- In a text of spaces alone no name can be kept.
    have none_ : l.Reads u ↔ l.items = [] := by
      rw [Listing.Reads]
      simp only [mentions, if_pos blank, List.map_nil, eq_comm (a := []), List.map_eq_nil_iff]
      exact ⟨fun all => all (fun _ => some l.reply) rfl, fun none_ _ _ => none_⟩
    have space : ∀ c ∈ prose, isSpace c = true := by
      have all := List.rdropWhile_eq_nil_iff.mp blank
      intro c member
      by_contra solid
      have inside : c ∈ prose.dropWhile isSpace := by
        rw [← List.count_pos_iff, count_dropWhile (Bool.eq_false_iff.mpr solid)]
        exact List.count_pos_iff.mpr member
      exact solid (all c inside)
    rw [none_]
    refine ⟨fun empty => empty ▸ List.forall_mem_nil _, fun all => ?_⟩
    refine List.eq_nil_iff_forall_not_mem.mpr fun i member => ?_
    obtain ⟨-, ⟨first, -⟩, -⟩ := all i member
    obtain ⟨c, rest, name⟩ := List.exists_cons_of_ne_nil (name_ne_nil i)
    have solid := (first c (by rw [name]; rfl)).2.1
    rw [space c ((l.named i member).subset (name ▸ List.mem_cons_self))] at solid
    cases solid
  · have read : l.Reads u ↔
        (((splitlines l.reply).filterMap (mention u)).take MAX_MENTIONS).map Prod.fst =
          l.items.map Item.name := by
      rw [Listing.Reads]
      simp only [mentions, if_neg blank]
      refine ⟨fun all => all (fun _ => some l.reply) rfl, fun same complete replied => ?_⟩
      rw [replied]
      exact same
    rw [read]
    by_cases clean : ∀ i ∈ l.items, ∀ c ∈ i.name, isLineEnd c = false
    · have lines : splitlines l.reply = l.items.map Item.line := by
        refine splitlines_joinLines (fun line member => ?_) fun line member => ?_
        · obtain ⟨i, -, rfl⟩ := List.mem_map.mp member
          rw [line_eq]
          exact List.append_ne_nil_of_right_ne_nil _ (List.cons_ne_nil _ _)
        · obtain ⟨i, inside, rfl⟩ := List.mem_map.mp member
          exact line_clean (clean i inside)
      have few : (l.items.filterMap (mention u ∘ Item.line)).length ≤ MAX_MENTIONS :=
        (List.length_filterMap_le _ _).trans l.most
      rw [lines, List.filterMap_map, List.take_of_length_le few, List.map_filterMap,
        List.filterMap_eq_map_iff_forall_eq_some]
      exact forall₂_congr fun i member => mention_line (clean i member)
    · refine iff_of_false (fun same => clean fun i member => ?_) fun all => clean fun i member =>
        (all i member).2.2.1
      have listed : i.name ∈ l.items.map Item.name := List.mem_map_of_mem member
      rw [← same] at listed
      obtain ⟨found, inside, name⟩ := List.mem_map.mp listed
      obtain ⟨line, part, read⟩ := List.mem_filterMap.mp (List.mem_of_mem_take inside)
      rw [← name]
      exact fun c here => clean_of_mem_splitlines part c (mention_subset read here)

/-! ## A name that begins with a digit -/

theorem upper_blank : (if (0x61 ≤ (point ' ').val ∧ (point ' ').val ≤ 0x7A) then
    [Fin.ofNat 0x110000 ((point ' ').val - 0x20)] else [point ' ']) = [point ' '] := by decide

def asciiUpper : Upper where
  char c := if 0x61 ≤ c.val ∧ c.val ≤ 0x7A then [.ofNat _ (c.val - 0x20)] else [c]
  blank := upper_blank

theorem digit_claim : ∀ c ∈ text "faster than meshes", isLineEnd c = false := by
  have all : (text "faster than meshes").all (fun c => !isLineEnd c) = true := by decide
  exact fun c member => by simpa using List.all_eq_true.mp all c member

def digitItem : Item where
  mark := .dash
  name := text "3DGS"
  claim := text "faster than meshes"
  length := by decide
  name_plain := by decide
  claim_plain := digit_claim

theorem digit_named : ∀ i ∈ [digitItem], i.name <:+: text "3DGS is faster than meshes" :=
  List.forall_mem_singleton.mpr ⟨[], text " is faster than meshes", by decide⟩

def digitListing : Listing (text "3DGS is faster than meshes") where
  items := [digitItem]
  most := by decide
  named := digit_named

/-- The name comes back as `DGS`. -/
theorem digit_lost : ¬ digitListing.Reads asciiUpper := by
  intro reads
  have read := reads (fun _ => some digitListing.reply) rfl
  exact absurd read (by decide +kernel)

end LocalHarness.Discovery
