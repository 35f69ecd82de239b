import LocalHarness.Library.Text

/-! # Letters of any script

What Python's tables say of a character is a parameter here, with the properties that a text in
lower case and its words rest on. A capital sigma is the one letter whose lower case depends on what
is around it.
-/

namespace LocalHarness.Library

/-- `\w`, `\d` and `str.lower`, character by character. -/
structure Unicode where
  word : Char → Bool
  digit : Char → Bool
  cased : Char → Bool
  ignorable : Char → Bool
  /-- What a character other than a capital sigma is in lower case. -/
  lowerChar : Char → List Char
  word_of_digit : ∀ c, digit c = true → word c = true
  not_space_of_word : ∀ c, word c = true → Text.isSpace c = false
  lowerChar_ne_nil : ∀ c, lowerChar c ≠ []
  /-- A character in lower case stays as it is. -/
  settled : ∀ c, ∀ d ∈ lowerChar c, c ≠ 'Σ' → d ≠ 'Σ' ∧ lowerChar d = [d]
  word_of_lower : ∀ c, ∀ d ∈ lowerChar c, word d = true → word c = true
  digit_of_lower : ∀ c, ∀ d ∈ lowerChar c, digit d = true → digit c = true
  sigma : ∀ d ∈ ['σ', 'ς'], lowerChar d = [d] ∧ (word d = true → word 'Σ' = true) ∧
    (digit d = true → digit 'Σ' = true)
  letter : ∀ c ∈ "abcdefghijklmnopqrstuvwxyz".toList, word c = true ∧ digit c = false ∧
    cased c = true ∧ ignorable c = false ∧ lowerChar c = [c]
  blank : lowerChar ' ' = [' ']

namespace Unicode

variable (u : Unicode)

/-- The nearest character that is not ignored is a cased one. -/
def leads (l : List Char) : Bool :=
  (l.dropWhile u.ignorable).head?.any u.cased

/-- A character in lower case, `before` being what precedes it, the nearest first. -/
def lowerAt (before : List Char) (c : Char) (after : List Char) : List Char :=
  if c = 'Σ' then if u.leads before && !u.leads after then ['ς'] else ['σ']
  else u.lowerChar c

/-- The part of a text in lower case between what is before it and what is after it. -/
def lowerIn (before after : List Char) : List Char → List Char
  | [] => []
  | c :: rest => u.lowerAt before c (rest ++ after) ++ lowerIn (c :: before) after rest

/-- `str.lower` -/
def lower (s : List Char) : List Char :=
  u.lowerIn [] [] s

/-- A character that is in lower case. -/
def Low (c : Char) : Prop :=
  c ≠ 'Σ' ∧ u.lowerChar c = [c]

variable {u} {before after before' after' xs ys : List Char} {c d : Char}

theorem low_letter (letter : c ∈ "abcdefghijklmnopqrstuvwxyz".toList) : u.Low c := by
  refine ⟨?_, (u.letter c letter).2.2.2.2⟩
  rintro rfl
  exact absurd letter (by decide)

theorem low_blank : u.Low ' ' :=
  ⟨by decide, u.blank⟩

theorem mem_lowerAt (member : d ∈ u.lowerAt before c after) :
    u.Low d ∧ (u.word d = true → u.word c = true) ∧ (u.digit d = true → u.digit c = true) := by
  unfold lowerAt at member
  split at member
  next capital =>
    have sigma : d ∈ ['σ', 'ς'] := by
      split at member
      · exact List.mem_cons_of_mem _ member
      · exact List.mem_singleton.mp member ▸ List.mem_cons_self
    obtain ⟨lower, word, digit⟩ := u.sigma d sigma
    refine ⟨⟨?_, lower⟩, capital ▸ word, capital ▸ digit⟩
    rintro rfl
    exact absurd sigma (by decide)
  next other =>
    exact ⟨u.settled c d member other, u.word_of_lower c d member, u.digit_of_lower c d member⟩

theorem lowerAt_ne_nil : u.lowerAt before c after ≠ [] := by
  unfold lowerAt
  split
  · split <;> exact List.cons_ne_nil _ _
  · exact u.lowerChar_ne_nil c

theorem mem_lowerIn (member : d ∈ u.lowerIn before after xs) :
    u.Low d ∧ ∃ c ∈ xs, (u.word d = true → u.word c = true) ∧
      (u.digit d = true → u.digit c = true) := by
  induction xs generalizing before with
  | nil => cases member
  | cons c rest ih =>
      rcases List.mem_append.mp member with here | later
      · obtain ⟨low, same⟩ := mem_lowerAt here
        exact ⟨low, c, List.mem_cons_self, same⟩
      · obtain ⟨low, c', inside, same⟩ := ih later
        exact ⟨low, c', List.mem_cons_of_mem c inside, same⟩

theorem lowerIn_append : u.lowerIn before after (xs ++ ys) =
    u.lowerIn before (ys ++ after) xs ++ u.lowerIn (xs.reverse ++ before) after ys := by
  induction xs generalizing before with
  | nil => rfl
  | cons c rest ih =>
      rw [List.cons_append, lowerIn, lowerIn, ih, List.append_assoc, List.append_assoc,
        List.reverse_cons, List.append_assoc, List.singleton_append]

theorem leads_cons (l : List Char) :
    u.leads (c :: l) = if u.ignorable c then u.leads l else u.cased c := by
  unfold leads
  rw [List.dropWhile_cons]
  split
  · rfl
  · rfl

theorem leads_append (same : u.leads after = u.leads after') :
    u.leads (xs ++ after) = u.leads (xs ++ after') := by
  induction xs with
  | nil => exact same
  | cons c rest ih => rw [List.cons_append, List.cons_append, leads_cons, leads_cons, ih]

/-- Of what is around it a text in lower case depends on the nearest letters alone. -/
theorem lowerIn_congr (same : u.leads before = u.leads before')
    (same' : u.leads after = u.leads after') :
    u.lowerIn before after xs = u.lowerIn before' after' xs := by
  induction xs generalizing before before' with
  | nil => rfl
  | cons c rest ih =>
      have next : u.leads (c :: before) = u.leads (c :: before') := by
        rw [leads_cons, leads_cons, same]
      rw [lowerIn, lowerIn, ih next, lowerAt, lowerAt, same, leads_append same']

theorem lowerIn_low (low : ∀ c ∈ xs, u.Low c) : u.lowerIn before after xs = xs := by
  induction xs generalizing before with
  | nil => rfl
  | cons c rest ih =>
      obtain ⟨⟨other, here⟩, later⟩ := List.forall_mem_cons.mp low
      rw [lowerIn, ih later, lowerAt, if_neg other, here, List.singleton_append]

/-! ## Words -/

variable (u) in
/-- `re.sub(r"[^\w\s]", " ", s).split()` -/
def words (s : List Char) : List (List Char) :=
  ((s.map fun c => if u.word c || Text.isSpace c then c else ' ').splitOnP Text.isSpace).filter
    (· ≠ [])

theorem words_eq (s : List Char) :
    u.words s = (s.splitOnP fun c => !u.word c).filter (· ≠ []) := by
  have same : (s.map fun c => if u.word c || Text.isSpace c then c else ' ').splitOnP Text.isSpace =
      s.splitOnP fun c => !u.word c := by
    induction s with
    | nil => rfl
    | cons c rest ih =>
        rw [List.map_cons, List.splitOnP_cons_eq_if_modifyHead,
          List.splitOnP_cons_eq_if_modifyHead, ih]
        cases word : u.word c with
        | true =>
            have solid := u.not_space_of_word c word
            simp [solid]
        | false =>
            have space : Text.isSpace ' ' = true := by decide
            cases gap : Text.isSpace c <;> simp [gap, space]
  rw [words, same]

/-- A text begins, or ends, where no word does. -/
def Apart (u : Unicode) (c : Option Char) : Prop :=
  ∀ letter ∈ c, u.word letter = false

theorem words_append_left (apart : u.Apart xs.getLast?) :
    u.words (xs ++ ys) = u.words xs ++ u.words ys := by
  rw [words_eq, words_eq, words_eq]
  induction xs using List.reverseRecOn with
  | nil => rfl
  | append_singleton front c _ =>
      have gap : (!u.word c) = true := by
        rw [apart c (by rw [List.getLast?_concat]; rfl)]
        rfl
      rw [List.append_assoc, List.singleton_append, List.splitOnP_append_cons front ys gap,
        List.splitOnP_append_cons front [] gap, List.splitOnP_nil]
      simp

theorem words_append_right (apart : u.Apart ys.head?) :
    u.words (xs ++ ys) = u.words xs ++ u.words ys := by
  rw [words_eq, words_eq, words_eq]
  cases ys with
  | nil => simp
  | cons c rest =>
      have gap : (!u.word c) = true := by
        rw [apart c rfl]
        rfl
      rw [List.splitOnP_append_cons xs rest gap, List.splitOnP_cons_eq_if_modifyHead,
        if_pos gap]
      simp

theorem words_word (letters : ∀ c ∈ xs, u.word c = true) (some_ : xs ≠ []) : u.words xs = [xs] := by
  rw [words_eq, List.splitOnP_eq_singleton fun c member => by rw [letters c member]; rfl]
  simp [some_]

/-- A word has letters, all of the text. -/
theorem mem_words {w : List Char} (member : w ∈ u.words xs) :
    w ≠ [] ∧ ∀ c ∈ w, u.word c = true ∧ c ∈ xs := by
  rw [words_eq, List.mem_filter, decide_eq_true_eq] at member
  refine ⟨member.2, ?_⟩
  have cut := member.1
  clear member
  induction xs generalizing w with
  | nil =>
      obtain rfl := List.mem_singleton.mp cut
      exact List.forall_mem_nil _
  | cons c rest ih =>
      rw [List.splitOnP_cons_eq_if_modifyHead] at cut
      split at cut
      next =>
        rcases List.mem_cons.mp cut with rfl | later
        · exact List.forall_mem_nil _
        · exact fun d inside => ⟨(ih later d inside).1, List.mem_cons_of_mem c (ih later d inside).2⟩
      next letter =>
        cases split : rest.splitOnP fun c => !u.word c with
        | nil => exact absurd split (List.splitOnP_ne_nil _ _)
        | cons first others =>
            rw [split, List.modifyHead_cons] at cut
            rcases List.mem_cons.mp cut with rfl | later
            · refine List.forall_mem_cons.mpr ⟨⟨by simpa using letter, List.mem_cons_self⟩, ?_⟩
              intro d inside
              have found := ih (split ▸ List.mem_cons_self) d inside
              exact ⟨found.1, List.mem_cons_of_mem c found.2⟩
            · intro d inside
              have found := ih (split ▸ List.mem_cons_of_mem first later) d inside
              exact ⟨found.1, List.mem_cons_of_mem c found.2⟩

theorem not_word_blank : u.word ' ' = false := by
  have space : Text.isSpace ' ' = true := by decide
  by_contra letter
  rw [Bool.not_eq_false] at letter
  rw [u.not_space_of_word ' ' letter] at space
  cases space

/-- Words with blanks between them are the words of the text. -/
theorem words_intercalate {ws : List (List Char)}
    (whole : ∀ w ∈ ws, w ≠ [] ∧ ∀ c ∈ w, u.word c = true) :
    u.words (List.intercalate [' '] ws) = ws := by
  have gap : u.Apart (some ' ') := fun letter same => Option.some.inj same ▸ not_word_blank
  induction ws with
  | nil => rfl
  | cons w rest ih =>
      obtain ⟨⟨some_, letters⟩, whole⟩ := List.forall_mem_cons.mp whole
      cases rest with
      | nil => simpa [List.intercalate] using words_word letters some_
      | cons next rest =>
          have shape : List.intercalate [' '] (w :: next :: rest) =
              w ++ ([' '] ++ List.intercalate [' '] (next :: rest)) := by
            simp [List.intercalate]
          have blank : u.words [' '] = [] := by
            rw [words_eq, List.splitOnP_cons_eq_if_modifyHead, if_pos (by rw [not_word_blank]; rfl)]
            rfl
          rw [shape, words_append_right gap, words_append_left gap, blank, ih whole,
            words_word letters some_]
          rfl

/-! ## A small table -/

def smallWord (c : Char) : Bool :=
  c.isAlphanum || c = '_' || c = 'İ'

/-- The only capital is one that is two characters in lower case. -/
def smallLower (c : Char) : List Char :=
  if c = 'İ' then ['i', '\u0307'] else [c]

theorem mem_smallLower (member : d ∈ smallLower c) : c = 'İ' ∧ d ∈ ['i', '\u0307'] ∨ d = c := by
  unfold smallLower at member
  split at member
  next capital => exact .inl ⟨capital, member⟩
  next => exact .inr (List.mem_singleton.mp member)

theorem not_space_of_smallWord (c : Char) (letter : smallWord c = true) : Text.isSpace c = false := by
  rw [smallWord, Bool.or_eq_true, Bool.or_eq_true, decide_eq_true_eq, decide_eq_true_eq] at letter
  rcases letter with (alnum | rfl) | rfl
  · exact Text.not_space_of_alphanum alnum
  · decide
  · decide

theorem smallLower_ne_nil (c : Char) : smallLower c ≠ [] := by
  unfold smallLower
  split <;> exact List.cons_ne_nil _ _

theorem settled_smallLower (c d : Char) (member : d ∈ smallLower c) (other : c ≠ 'Σ') :
    d ≠ 'Σ' ∧ smallLower d = [d] := by
  unfold smallLower at member
  split at member
  next =>
    rcases List.mem_cons.mp member with rfl | rest
    · decide
    · rw [List.mem_singleton.mp rest]
      decide
  next plain =>
    obtain rfl := List.mem_singleton.mp member
    exact ⟨other, if_neg plain⟩

theorem smallWord_of_lower (c d : Char) (member : d ∈ smallLower c) (letter : smallWord d = true) :
    smallWord c = true := by
  rcases mem_smallLower member with ⟨capital, -⟩ | rfl
  · simp [smallWord, capital]
  · exact letter

theorem digit_of_smallLower (c d : Char) (member : d ∈ smallLower c) (digit : d.isDigit = true) :
    c.isDigit = true := by
  rcases mem_smallLower member with ⟨-, two⟩ | rfl
  · rcases List.mem_cons.mp two with rfl | rest
    · cases digit
    · rw [List.mem_singleton.mp rest] at digit
      cases digit
  · exact digit

theorem small_sigma (d : Char) (member : d ∈ ['σ', 'ς']) :
    smallLower d = [d] ∧ (smallWord d = true → smallWord 'Σ' = true) ∧
      (d.isDigit = true → Char.isDigit 'Σ' = true) := by
  rcases List.mem_cons.mp member with rfl | rest
  · exact ⟨by decide, by decide, by decide⟩
  · rw [List.mem_singleton.mp rest]
    exact ⟨by decide, by decide, by decide⟩

theorem small_letter (c : Char) (member : c ∈ "abcdefghijklmnopqrstuvwxyz".toList) :
    smallWord c = true ∧ c.isDigit = false ∧ (c.isAlpha || c = 'İ') = true ∧ false = false ∧
      smallLower c = [c] := by
  have each : ("abcdefghijklmnopqrstuvwxyz".toList.all fun c =>
      smallWord c && !c.isDigit && (c.isAlpha || c = 'İ') && c ≠ 'İ') = true := by decide
  have here := List.all_eq_true.mp each c member
  simp only [Bool.and_eq_true, Bool.not_eq_true', ne_eq, decide_not] at here
  obtain ⟨⟨⟨word, digit⟩, cased⟩, other⟩ := here
  exact ⟨word, digit, cased, rfl, if_neg (of_decide_eq_false other)⟩

theorem smallWord_of_digit (c : Char) (digit : c.isDigit = true) : smallWord c = true := by
  simp [smallWord, Char.isAlphanum, digit]

/-- A table for texts in ASCII and the one capital. -/
def small : Unicode where
  word := smallWord
  digit := Char.isDigit
  cased c := c.isAlpha || c = 'İ'
  ignorable _ := false
  lowerChar := smallLower
  word_of_digit := smallWord_of_digit
  not_space_of_word := not_space_of_smallWord
  lowerChar_ne_nil := smallLower_ne_nil
  settled := settled_smallLower
  word_of_lower := smallWord_of_lower
  digit_of_lower := digit_of_smallLower
  sigma := small_sigma
  letter := small_letter
  blank := rfl

end Unicode

end LocalHarness.Library
