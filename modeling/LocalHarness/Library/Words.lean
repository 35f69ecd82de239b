import Mathlib.Data.List.Chain
import LocalHarness.Library.Text

/-! # Phrases of whole words in a text

A text is cut into its words, each a run of word characters, and the other characters one by one. A
phrase is a list of words with blanks between them, in capitals or not. This is what an expression
such as `\bINSERT\s+OR\s+IGNORE\s+INTO\b` matches: the boundaries and the blanks make each of its
words a whole run. The characters may carry something else beside them.
-/

namespace LocalHarness.Library.Words

open LocalHarness.Library

universe u

/-- A character of a word; above ASCII, any that is no space. -/
def isWord (c : Char) : Bool :=
  c.isAlphanum || c = '_' || (128 ≤ c.toNat && !Text.isSpace c)

theorem not_space_of_isWord {c : Char} (letter : isWord c = true) : Text.isSpace c = false := by
  rw [isWord, Bool.or_eq_true, Bool.or_eq_true, Bool.and_eq_true, decide_eq_true_eq] at letter
  rcases letter with (alnum | rfl) | ⟨-, solid⟩
  · exact Text.not_space_of_alphanum alnum
  · decide
  · simpa using solid

inductive Piece (α : Type u)
  | word (letters : List α)
  | other (a : α)
  deriving DecidableEq

variable {α : Type u} (view : α → Char)

def Piece.text : Piece α → List α
  | word letters => letters
  | other a => [a]

def text (pieces : List (Piece α)) : List α :=
  pieces.flatMap Piece.text

def push (a : α) : List (Piece α) → List (Piece α)
  | [] => if isWord (view a) then [.word [a]] else [.other a]
  | .word letters :: rest =>
      if isWord (view a) then .word (a :: letters) :: rest else .other a :: .word letters :: rest
  | .other b :: rest =>
      if isWord (view a) then .word [a] :: .other b :: rest else .other a :: .other b :: rest

def pieces (l : List α) : List (Piece α) :=
  l.foldr (push view) []

def Piece.isBlank : Piece α → Bool
  | word _ => false
  | other a => Text.isSpace (view a)

/-- The word that is asked for, or any word. -/
def meets (asked : Option (List Char)) (letters : List α) : Bool :=
  asked.all fun keyword => letters.map (fun a => (view a).toUpper) = keyword

/-- The pieces that the phrase takes at the front, and the rest. -/
def takes : List (Option (List Char)) → List (Piece α) → Option (List (Piece α) × List (Piece α))
  | [asked], .word letters :: rest =>
      if meets view asked letters then some ([.word letters], rest) else none
  | asked :: next :: more, .word letters :: rest =>
      if meets view asked letters && (rest.head?.any (Piece.isBlank view)) then
        (takes (next :: more) (rest.dropWhile (Piece.isBlank view))).map fun taken =>
          (.word letters :: rest.takeWhile (Piece.isBlank view) ++ taken.1, taken.2)
      else none
  | _, _ => none

/-- The first place where the phrase is: what is before it, the phrase, and what is after it. -/
def locate (phrase : List (Option (List Char))) :
    List (Piece α) → Option (List (Piece α) × List (Piece α) × List (Piece α))
  | [] => none
  | piece :: rest =>
      match takes view phrase (piece :: rest) with
      | some (taken, after) => some ([], taken, after)
      | none => (locate phrase rest).map fun found => (piece :: found.1, found.2)

/-- Each place where the phrase is gets the new text instead, from the left. -/
def sub (phrase : List (Option (List Char))) (new : List α) : Nat → List (Piece α) → List α
  | _, [] => []
  | skip + 1, _ :: rest => sub phrase new skip rest
  | 0, piece :: rest =>
      match takes view phrase (piece :: rest) with
      | some (taken, _) => new ++ sub phrase new (taken.length - 1) rest
      | none => piece.text ++ sub phrase new 0 rest

attribute [local simp] push takes locate sub

@[simp] theorem text_nil : text ([] : List (Piece α)) = [] := rfl

@[simp] theorem text_cons (piece : Piece α) (rest : List (Piece α)) :
    text (piece :: rest) = piece.text ++ text rest := rfl

@[simp] theorem text_append (front back : List (Piece α)) :
    text (front ++ back) = text front ++ text back :=
  List.flatMap_append

theorem text_push (a : α) (rest : List (Piece α)) : text (push view a rest) = a :: text rest := by
  cases rest with
  | nil =>
      rw [push]
      split <;> rfl
  | cons piece rest =>
      cases piece <;> rw [push] <;> split <;> rfl

@[simp] theorem text_pieces (l : List α) : text (pieces view l) = l := by
  induction l with
  | nil => rfl
  | cons a rest ih =>
      change text (push view a (pieces view rest)) = a :: rest
      rw [text_push, ih]

/-! ## Whole words -/

/-- What pieces are: a word is not empty and all of word characters, and anything else is none. -/
def Piece.Whole : Piece α → Prop
  | word letters => letters ≠ [] ∧ ∀ a ∈ letters, isWord (view a) = true
  | other a => isWord (view a) = false

def Piece.isWordPiece : Piece α → Bool
  | word _ => true
  | other _ => false

/-- Pieces as they are cut: whole, with no word right after another. -/
structure Cut (list : List (Piece α)) : Prop where
  whole : ∀ piece ∈ list, piece.Whole view
  apart : list.IsChain fun one next => ¬ (one.isWordPiece = true ∧ next.isWordPiece = true)

variable {view}

theorem cut_nil : Cut view ([] : List (Piece α)) :=
  ⟨fun _ none_ => (nomatch none_), .nil⟩

theorem cut_singleton {piece : Piece α} (whole : piece.Whole view) : Cut view [piece] :=
  ⟨List.forall_mem_singleton.mpr whole, .singleton piece⟩

theorem Cut.left {front back : List (Piece α)} (cut : Cut view (front ++ back)) : Cut view front where
  whole := fun piece inside => cut.whole piece (List.mem_append_left back inside)
  apart := (List.isChain_append.mp cut.apart).1

theorem Cut.right {front back : List (Piece α)} (cut : Cut view (front ++ back)) : Cut view back where
  whole := fun piece inside => cut.whole piece (List.mem_append_right front inside)
  apart := (List.isChain_append.mp cut.apart).2.1

theorem cut_cons {piece next : Piece α} {rest : List (Piece α)} :
    Cut view (piece :: next :: rest) ↔ piece.Whole view ∧
      ¬ (piece.isWordPiece = true ∧ next.isWordPiece = true) ∧ Cut view (next :: rest) := by
  constructor
  · rintro ⟨whole, apart⟩
    have apart := List.isChain_cons_cons.mp apart
    have whole := List.forall_mem_cons.mp whole
    exact ⟨whole.1, apart.1, whole.2, apart.2⟩
  · rintro ⟨whole, apart, cut⟩
    exact ⟨List.forall_mem_cons.mpr ⟨whole, cut.whole⟩, List.isChain_cons_cons.mpr ⟨apart, cut.apart⟩⟩

theorem Cut.push (a : α) {list : List (Piece α)} (cut : Cut view list) :
    Cut view (push view a list) := by
  cases letter : isWord (view a) with
  | true =>
      have alone : (Piece.word [a]).Whole view := ⟨List.cons_ne_nil a [], by simpa using letter⟩
      cases list with
      | nil =>
          rw [Words.push, if_pos letter]
          exact cut_singleton alone
      | cons piece rest =>
          cases piece with
          | word letters =>
              rw [Words.push, if_pos letter]
              have longer : (Piece.word (a :: letters)).Whole view :=
                ⟨List.cons_ne_nil a letters,
                  List.forall_mem_cons.mpr ⟨letter, (cut.whole _ List.mem_cons_self).2⟩⟩
              cases rest with
              | nil => exact cut_singleton longer
              | cons next more =>
                  obtain ⟨-, apart, later⟩ := cut_cons.mp cut
                  exact cut_cons.mpr ⟨longer, apart, later⟩
          | other b =>
              rw [Words.push, if_pos letter]
              exact cut_cons.mpr ⟨alone, fun both => (nomatch both.2), cut⟩
  | false =>
      have alone : (Piece.other a).Whole view := letter
      have outside := Bool.eq_false_iff.mp letter
      cases list with
      | nil =>
          rw [Words.push, if_neg outside]
          exact cut_singleton alone
      | cons piece rest =>
          cases piece <;> rw [Words.push, if_neg outside] <;>
            exact cut_cons.mpr ⟨alone, fun both => (nomatch both.1), cut⟩

theorem cut_pieces (l : List α) : Cut view (pieces view l) := by
  induction l with
  | nil => exact cut_nil
  | cons a rest ih => exact ih.push a

/-- Two lists of pieces are cut together unless a word would meet a word. -/
theorem Cut.append {front back : List (Piece α)} (first : Cut view front) (second : Cut view back)
    (meet : ∀ one ∈ front.getLast?, ∀ next ∈ back.head?,
      ¬ (one.isWordPiece = true ∧ next.isWordPiece = true)) : Cut view (front ++ back) where
  whole := List.forall_mem_append.mpr ⟨first.whole, second.whole⟩
  apart := first.apart.append second.apart meet

theorem Cut.meet {front back : List (Piece α)} (cut : Cut view (front ++ back)) :
    ∀ one ∈ front.getLast?, ∀ next ∈ back.head?,
      ¬ (one.isWordPiece = true ∧ next.isWordPiece = true) :=
  (List.isChain_append.mp cut.apart).2.2

theorem pieces_append_word {letters : List α} (each : ∀ a ∈ letters, isWord (view a) = true)
    (some_ : letters ≠ []) {l : List α} (apart : ∀ next ∈ (pieces view l).head?, next.isWordPiece = false) :
    pieces view (letters ++ l) = .word letters :: pieces view l := by
  induction letters with
  | nil => exact absurd rfl some_
  | cons a rest ih =>
      have letter := each a List.mem_cons_self
      change push view a (pieces view (rest ++ l)) = _
      cases rest with
      | nil =>
          rw [List.nil_append]
          cases shape : pieces view l with
          | nil => rw [push, if_pos letter]
          | cons piece more =>
              cases piece with
              | word letters =>
                  rw [shape] at apart
                  exact nomatch apart _ rfl
              | other b => rw [push, if_pos letter]
      | cons b rest =>
          rw [ih (fun c inside => each c (List.mem_cons_of_mem a inside)) (List.cons_ne_nil b rest),
            push, if_pos letter]

theorem pieces_append_other {a : α} (outside : isWord (view a) = false) (l : List α) :
    pieces view (a :: l) = .other a :: pieces view l := by
  change push view a (pieces view l) = _
  cases pieces view l with
  | nil => rw [push, if_neg (Bool.eq_false_iff.mp outside)]
  | cons piece rest => cases piece <;> rw [push, if_neg (Bool.eq_false_iff.mp outside)]

/-- Pieces that are cut are those of their text. -/
theorem Cut.pieces_text {list : List (Piece α)} (cut : Cut view list) :
    pieces view (text list) = list := by
  induction list with
  | nil => rfl
  | cons piece rest ih =>
      have together : Cut view ([piece] ++ rest) := cut
      have later : Cut view rest := together.right
      cases piece with
      | other a =>
          have outside : isWord (view a) = false := cut.whole _ List.mem_cons_self
          exact (pieces_append_other outside (text rest)).trans (congrArg _ (ih later))
      | word letters =>
          obtain ⟨some_, each⟩ := cut.whole _ List.mem_cons_self
          refine (pieces_append_word each some_ fun next first => ?_).trans (congrArg _ (ih later))
          have first : next ∈ rest.head? := ih later ▸ first
          have meet := together.meet (.word letters) rfl next first
          simpa [Piece.isWordPiece] using meet

theorem pieces_append {front back : List α} (cut : Cut view (pieces view front ++ pieces view back)) :
    pieces view (front ++ back) = pieces view front ++ pieces view back := by
  have same := cut.pieces_text
  rwa [text_append, text_pieces, text_pieces] at same

/-! ## What a phrase takes -/

theorem takes_word {phrase : List (Option (List Char))} {list : List (Piece α)}
    {taken : List (Piece α) × List (Piece α)} (took : takes view phrase list = some taken) :
    ∃ asked more letters rest, phrase = asked :: more ∧ list = .word letters :: rest ∧
      meets view asked letters = true := by
  match phrase, list with
  | [], _ => simp [takes] at took
  | _ :: _, [] => simp [takes] at took
  | _ :: _, .other a :: rest => simp [takes] at took
  | [asked], .word letters :: rest =>
      obtain ⟨met, -⟩ := Option.ite_none_right_eq_some.mp took
      exact ⟨asked, [], letters, rest, rfl, rfl, met⟩
  | asked :: next :: more, .word letters :: rest =>
      obtain ⟨met, -⟩ := Option.ite_none_right_eq_some.mp took
      exact ⟨asked, next :: more, letters, rest, rfl, rfl, (Bool.and_eq_true_iff.mp met).1⟩

theorem takes_cons_cons {asked next : Option (List Char)} {more : List (Option (List Char))}
    {letters : List α} {rest : List (Piece α)} {taken : List (Piece α) × List (Piece α)} :
    takes view (asked :: next :: more) (.word letters :: rest) = some taken ↔
      meets view asked letters = true ∧ rest.head?.any (Piece.isBlank view) = true ∧
        ∃ later, takes view (next :: more) (rest.dropWhile (Piece.isBlank view)) = some later ∧
          taken = (.word letters :: rest.takeWhile (Piece.isBlank view) ++ later.1, later.2) := by
  rw [takes, Option.ite_none_right_eq_some, Bool.and_eq_true_iff, Option.map_eq_some_iff, and_assoc]
  exact and_congr_right fun _ => and_congr_right fun _ =>
    exists_congr fun later => and_congr_right fun _ => eq_comm

/-- The taken pieces are the front, from word to word, with nothing else than blanks in between. -/
theorem takes_spec {phrase : List (Option (List Char))} {list taken rest : List (Piece α)}
    (took : takes view phrase list = some (taken, rest)) :
    list = taken ++ rest ∧ (∀ piece ∈ taken, piece.isWordPiece || piece.isBlank view) ∧
      (∃ letters, taken.getLast? = some (.word letters)) := by
  induction phrase generalizing list taken rest with
  | nil =>
      obtain ⟨_, _, _, _, this, -⟩ := takes_word took
      exact nomatch this
  | cons asked more ih =>
      obtain ⟨_, _, letters, others, -, rfl, -⟩ := takes_word took
      cases more with
      | nil =>
          obtain ⟨-, same⟩ := Option.ite_none_right_eq_some.mp took
          obtain ⟨rfl, rfl⟩ := Prod.mk.inj (Option.some.inj same)
          exact ⟨rfl, by simp [Piece.isWordPiece], letters, rfl⟩
      | cons next more =>
          obtain ⟨-, -, ⟨taken', rest'⟩, took', same⟩ := takes_cons_cons.mp took
          obtain ⟨rfl, rfl⟩ := Prod.mk.inj same
          obtain ⟨shape, only, last, ends⟩ := ih took'
          refine ⟨?_, ?_, last, ?_⟩
          · change _ = .word letters :: ((others.takeWhile (Piece.isBlank view) ++ taken') ++ rest)
            rw [List.append_assoc, ← shape, List.takeWhile_append_dropWhile]
          · intro piece inside
            rcases List.mem_append.mp inside with inside | inside
            · rcases List.mem_cons.mp inside with rfl | inside
              · rfl
              · rw [List.mem_takeWhile_imp inside, Bool.or_true]
            · exact only piece inside
          · rw [List.getLast?_append, ends, Option.some_or]

/-- A phrase begins with any shorter one of its front. -/
theorem takes_of_append {phrase later : List (Option (List Char))} {list : List (Piece α)}
    (some_ : phrase ≠ []) (took : (takes view (phrase ++ later) list).isSome = true) :
    (takes view phrase list).isSome = true := by
  induction phrase generalizing list with
  | nil => exact absurd rfl some_
  | cons asked more ih =>
      obtain ⟨taken, took⟩ := Option.isSome_iff_exists.mp took
      obtain ⟨_, _, letters, rest, same, rfl, met⟩ := takes_word took
      obtain ⟨rfl, -⟩ := List.cons.inj same
      cases more with
      | nil => rw [takes, if_pos met, Option.isSome_some]
      | cons next more =>
          obtain ⟨-, gap, taken', took', -⟩ := takes_cons_cons.mp took
          have onwards := ih (List.cons_ne_nil next more) (Option.isSome_of_eq_some took')
          obtain ⟨found, here⟩ := Option.isSome_iff_exists.mp onwards
          exact Option.isSome_of_eq_some (takes_cons_cons.mpr ⟨met, gap, found, here, rfl⟩)

/-- The first word of the list, if it begins with one after blanks, is none of the phrase. -/
def Blocks (view : α → Char) (phrase : List (Option (List Char))) (list : List (Piece α)) : Prop :=
  ∀ asked ∈ phrase, ∀ letters rest, list.dropWhile (Piece.isBlank view) = .word letters :: rest →
    meets view asked letters = false

/-- A phrase that cannot go on into the back is all in the front, whatever follows. -/
theorem takes_of_blocks {phrase : List (Option (List Char))} {front back : List (Piece α)}
    (some_ : front ≠ []) (blocks : Blocks view phrase.tail back)
    (took : (takes view phrase (front ++ back)).isSome = true) (back' : List (Piece α)) :
    (takes view phrase (front ++ back')).isSome = true := by
  induction phrase generalizing front with
  | nil => simp [takes] at took
  | cons asked more ih =>
      obtain ⟨taken, took⟩ := Option.isSome_iff_exists.mp took
      obtain ⟨_, _, letters, rest, same, shape, met⟩ := takes_word took
      obtain ⟨rfl, -⟩ := List.cons.inj same
      obtain ⟨_, front, rfl⟩ := List.exists_cons_of_ne_nil some_
      obtain ⟨rfl, rfl⟩ := List.cons.inj shape
      cases more with
      | nil => rw [List.cons_append, takes, if_pos met, Option.isSome_some]
      | cons next more =>
          obtain ⟨-, gap, taken', took', -⟩ := takes_cons_cons.mp took
          change takes view (next :: more) ((front ++ back).dropWhile (Piece.isBlank view)) = _ at took'
          change (front ++ back).head?.any (Piece.isBlank view) = true at gap
          cases blank : front.dropWhile (Piece.isBlank view) with
          | nil =>
              -- The next word would be the first of the back.
              rw [List.dropWhile_append, blank, List.isEmpty_nil, if_pos rfl] at took'
              obtain ⟨_, _, first, others, same, shape, met'⟩ := takes_word took'
              obtain ⟨rfl, -⟩ := List.cons.inj same
              have blocked := blocks _ List.mem_cons_self first others shape
              rw [blocked] at met'
              exact nomatch met'
          | cons piece others =>
              have front_ne : front ≠ [] := fun none_ => by simp [none_] at blank
              obtain ⟨first, more', rfl⟩ := List.exists_cons_of_ne_nil front_ne
              have cut : ∀ back, ((first :: more') ++ back).dropWhile (Piece.isBlank view) =
                  (piece :: others) ++ back := fun back => by
                rw [List.dropWhile_append, blank, List.isEmpty_cons, if_neg Bool.false_ne_true]
              rw [cut] at took'
              have onwards := ih (List.cons_ne_nil piece others)
                (fun asked inside => blocks asked (List.mem_cons_of_mem next inside))
                (Option.isSome_of_eq_some took')
              obtain ⟨found, here⟩ := Option.isSome_iff_exists.mp onwards
              exact Option.isSome_of_eq_some
                (takes_cons_cons.mpr ⟨met, gap, found, (congrArg _ (cut back')).trans here, rfl⟩)

/-! ## Where a phrase is -/

theorem locate_spec {phrase : List (Option (List Char))} {list before taken after : List (Piece α)}
    (found : locate view phrase list = some (before, taken, after)) :
    list = before ++ (taken ++ after) ∧ takes view phrase (taken ++ after) = some (taken, after) := by
  induction list generalizing before with
  | nil => exact nomatch found
  | cons piece rest ih =>
      rw [locate] at found
      split at found
      · next taken' after' took =>
          obtain ⟨rfl, rest'⟩ := Prod.mk.inj (Option.some.inj found)
          obtain ⟨rfl, rfl⟩ := Prod.mk.inj rest'
          obtain ⟨shape, -⟩ := takes_spec took
          exact ⟨shape, shape ▸ took⟩
      · obtain ⟨⟨before', taken', after'⟩, later, same⟩ := Option.map_eq_some_iff.mp found
        obtain ⟨rfl, rest'⟩ := Prod.mk.inj same
        obtain ⟨rfl, rfl⟩ := Prod.mk.inj rest'
        obtain ⟨rfl, took⟩ := ih later
        exact ⟨rfl, took⟩

theorem locate_cons_none {phrase : List (Option (List Char))} {piece : Piece α}
    {rest : List (Piece α)} : locate view phrase (piece :: rest) = none ↔
      takes view phrase (piece :: rest) = none ∧ locate view phrase rest = none := by
  rw [locate]
  cases takes view phrase (piece :: rest) with
  | none => simp
  | some taken => simp

theorem locate_right_none {phrase : List (Option (List Char))} {front back : List (Piece α)}
    (nowhere : locate view phrase (front ++ back) = none) : locate view phrase back = none := by
  induction front with
  | nil => exact nowhere
  | cons piece front ih => exact ih (locate_cons_none.mp nowhere).2

theorem locate_longer_none {phrase later : List (Option (List Char))} {list : List (Piece α)}
    (some_ : phrase ≠ []) (nowhere : locate view phrase list = none) :
    locate view (phrase ++ later) list = none := by
  induction list with
  | nil => rfl
  | cons piece rest ih =>
      obtain ⟨here, others⟩ := locate_cons_none.mp nowhere
      refine locate_cons_none.mpr ⟨?_, ih others⟩
      rw [← Option.not_isSome_iff_eq_none] at here ⊢
      exact fun took => here (takes_of_append some_ took)

/-- A phrase that is nowhere stays nowhere when the back is replaced by one it cannot go into. -/
theorem locate_append_none {phrase : List (Option (List Char))} {front back back' : List (Piece α)}
    (nowhere : locate view phrase (front ++ back) = none) (blocks : Blocks view phrase.tail back')
    (not_there : locate view phrase back' = none) : locate view phrase (front ++ back') = none := by
  induction front with
  | nil => exact not_there
  | cons piece front ih =>
      obtain ⟨here, others⟩ := locate_cons_none.mp nowhere
      refine locate_cons_none.mpr ⟨?_, ih others⟩
      rw [← Option.not_isSome_iff_eq_none] at here ⊢
      intro took
      have some_ := List.cons_ne_nil piece front
      exact here (takes_of_blocks some_ blocks took back)

theorem sub_of_nowhere {phrase : List (Option (List Char))} {list : List (Piece α)} (new : List α)
    (nowhere : locate view phrase list = none) : sub view phrase new 0 list = text list := by
  induction list with
  | nil => rfl
  | cons piece rest ih =>
      obtain ⟨here, others⟩ := locate_cons_none.mp nowhere
      rw [sub, here]
      exact congrArg _ (ih others)

theorem sub_skip {phrase : List (Option (List Char))} (new : List α) (front back : List (Piece α)) :
    sub view phrase new front.length (front ++ back) = sub view phrase new 0 back := by
  induction front with
  | nil => rfl
  | cons piece front ih => exact ih

/-- A phrase that is in one place only is replaced there. -/
theorem sub_once {phrase : List (Option (List Char))} {list before taken after : List (Piece α)}
    (new : List α) (found : locate view phrase list = some (before, taken, after))
    (once : locate view phrase after = none) :
    sub view phrase new 0 list = text before ++ new ++ text after := by
  induction list generalizing before with
  | nil => exact nomatch found
  | cons piece rest ih =>
      rw [locate] at found
      split at found
      · next taken' after' took =>
          obtain ⟨rfl, rest'⟩ := Prod.mk.inj (Option.some.inj found)
          obtain ⟨rfl, rfl⟩ := Prod.mk.inj rest'
          obtain ⟨shape, -, last, ends⟩ := takes_spec took
          obtain ⟨first, more, rfl⟩ := List.exists_cons_of_ne_nil
            (show taken' ≠ [] from fun none_ => by simp [none_] at ends)
          obtain ⟨-, rfl⟩ := List.cons.inj shape
          rw [sub, took]
          change new ++ sub view phrase new more.length (more ++ after') = _
          rw [sub_skip, sub_of_nowhere new once]
          rfl
      · next nothing =>
          obtain ⟨⟨before', taken', after'⟩, later, same⟩ := Option.map_eq_some_iff.mp found
          obtain ⟨rfl, rest'⟩ := Prod.mk.inj same
          obtain ⟨rfl, rfl⟩ := Prod.mk.inj rest'
          rw [sub, nothing]
          change piece.text ++ sub view phrase new 0 rest = _
          rw [ih later, text_cons, List.append_assoc, List.append_assoc, List.append_assoc]

end LocalHarness.Library.Words
