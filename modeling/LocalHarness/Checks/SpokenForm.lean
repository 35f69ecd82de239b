import LocalHarness.Checks.Speech

/-! # Which texts have one spoken form

A normal form is normal once more unless the words hold `and a` between two scales: the second pass
drops the `and` that the first one left in front of a new `one`. With such words it also makes a
difference whether a number is said with `a` or with `one`.
-/

namespace LocalHarness.Checks.Speech

open LocalHarness.Library

variable {before out : Option Word} {word s : Word} {words rest front back : List Word}

/-! ## The words -/

/-- A scale is followed by `and a` and another scale, the word before counted in. -/
def TrapAfter : Option Word → List Word → Prop
  | _, [] => False
  | before, word :: rest =>
      (before.any (· ∈ SCALES) = true ∧
          ∃ t back, word :: rest = AND :: A :: t :: back ∧ t ∈ SCALES) ∨
        TrapAfter (some word) rest

theorem trapAfter_iff : TrapAfter before words ↔ Trap (before.toList ++ words) := by
  induction words generalizing before with
  | nil =>
      refine iff_of_false id ?_
      rintro ⟨front, s, t, back, shape, -⟩
      have length := congrArg List.length shape
      cases before <;> simp at length
      omega
  | cons word rest ih =>
      rw [TrapAfter, ih]
      cases before with
      | none =>
          simp [Option.any]
      | some earlier =>
          constructor
          · rintro (⟨scale, t, back, shape, scale'⟩ | ⟨front, s, t, back, shape, scale, scale'⟩)
            · exact ⟨[], earlier, t, back, by simp [shape], by simpa using scale, scale'⟩
            · exact ⟨earlier :: front, s, t, back, by simpa using shape, scale, scale'⟩
          · rintro ⟨front, s, t, back, shape, scale, scale'⟩
            cases front with
            | nil =>
                obtain ⟨rfl, later⟩ := List.cons.inj shape
                exact .inl ⟨by simpa using scale, t, back, later, scale'⟩
            | cons first front =>
                obtain ⟨rfl, later⟩ := List.cons.inj shape
                exact .inr ⟨front, s, t, back, later, scale, scale'⟩

/-- Nothing is left to rewrite. -/
def Clean : Option Word → List Word → Prop
  | _, [] => True
  | before, word :: rest =>
      ¬ (word = AND ∧ before.any (· ∈ SCALES) = true ∧ rest.head?.any (· ∈ SMALL) = true) ∧
        ¬ (word = A ∧ rest.head?.any (· ∈ SCALES) = true) ∧ Clean (some word) rest

theorem dropAfter_length (before : Option Word) (words : List Word) :
    (dropAfter before words).length ≤ words.length := by
  induction words generalizing before with
  | nil => exact le_rfl
  | cons word rest ih =>
      have shorter := ih (some word)
      unfold dropAfter
      split
      · exact Nat.le_succ_of_le shorter
      · split <;> exact Nat.succ_le_succ shorter

theorem dropAfter_eq_iff : dropAfter before words = words ↔ Clean before words := by
  induction words generalizing before with
  | nil => exact iff_of_true rfl trivial
  | cons word rest ih =>
      unfold dropAfter Clean
      split
      next dropped =>
        refine iff_of_false (fun same => ?_) fun clean => clean.1 dropped
        have shorter := dropAfter_length (some word) rest
        rw [same, List.length_cons] at shorter
        omega
      next stays =>
        split
        next said =>
          refine iff_of_false (fun same => ?_) fun clean => clean.2.1 said
          have one : ONE = A := (List.cons.inj same).1.trans said.1
          exact absurd one (by decide)
        next kept =>
          rw [and_iff_right stays, and_iff_right kept, ← ih, List.cons.injEq, and_iff_right rfl]

theorem not_scale_and : AND ∉ SCALES := by decide

theorem not_scale_a : A ∉ SCALES := by decide

theorem not_scale_one : ONE ∉ SCALES := by decide

theorem small_one : ONE ∈ SMALL := by decide

theorem not_small_a : A ∉ SMALL := by decide

theorem not_small_and : AND ∉ SMALL := by decide

/-- What the next word becomes, after a word that is no scale. -/
theorem head?_dropAfter (plain : word ∉ SCALES) :
    (dropAfter (some word) rest).head? =
      match rest with
      | [] => none
      | next :: more => if next = A ∧ more.head?.any (· ∈ SCALES) then some ONE else some next := by
  cases rest with
  | nil => rfl
  | cons next more =>
      unfold dropAfter
      rw [if_neg fun dropped => plain (by simpa using dropped.2.1)]
      split
      next said => exact (if_pos said).symm
      next other => exact (if_neg other).symm

/-- Of words that have been rewritten, something is left to rewrite just where there was a trap. -/
theorem clean_dropAfter (same : words.head? = some AND → out.any (· ∈ SCALES) = before.any (· ∈ SCALES)) :
    Clean out (dropAfter before words) ↔ ¬ TrapAfter before words := by
  induction words generalizing before out with
  | nil => exact iff_of_true trivial id
  | cons word rest ih =>
      unfold dropAfter
      split
      next dropped =>
        obtain ⟨rfl, -, small⟩ := dropped
        have next : rest.head? ≠ some AND := by
          intro here
          rw [here] at small
          exact not_small_and (by simpa using small)
        rw [ih fun here => absurd here next, TrapAfter, not_or, iff_and_self]
        rintro - ⟨-, t, back, shape, -⟩
        obtain ⟨-, rfl⟩ := List.cons.inj shape
        exact not_small_a (by simpa using small)
      next stays =>
        split
        next said =>
          obtain ⟨rfl, scale⟩ := said
          have next : rest.head? ≠ some AND := by
            intro here
            rw [here] at scale
            exact not_scale_and (by simpa using scale)
          rw [Clean, ih fun here => absurd here next, TrapAfter, not_or]
          refine ⟨fun clean => ⟨?_, clean.2.2⟩, fun trap => ⟨?_, ?_, trap.2⟩⟩
          · rintro ⟨-, t, back, shape, -⟩
            exact absurd (List.cons.inj shape).1 (by decide)
          · rintro ⟨wrong, -⟩
            exact absurd wrong (by decide)
          · rintro ⟨wrong, -⟩
            exact absurd wrong (by decide)
        next kept =>
          rw [Clean, ih fun _ => rfl, TrapAfter, not_or, ← and_assoc]
          refine and_congr_left fun _ => ?_
          by_cases conj : word = AND
          · subst conj
            have head := @head?_dropAfter AND rest not_scale_and
            have same := same rfl
            rw [same]
            constructor
            · rintro ⟨clean, -⟩ ⟨scale, t, back, shape, scale'⟩
              obtain ⟨-, rfl⟩ := List.cons.inj shape
              refine clean ⟨rfl, scale, ?_⟩
              rw [head]
              simp [scale', small_one]
            · intro trap
              refine ⟨fun dropped => ?_, fun wrong => absurd wrong.1 (by decide)⟩
              obtain ⟨-, scale, small⟩ := dropped
              rw [head] at small
              cases rest with
              | nil => simp at small
              | cons next more =>
                  dsimp only at small
                  split at small
                  next said =>
                    obtain ⟨rfl, scale'⟩ := said
                    cases more with
                    | nil => simp at scale'
                    | cons t back => exact trap ⟨scale, t, back, rfl, by simpa using scale'⟩
                  next => exact stays ⟨rfl, scale, by simpa using small⟩
          · refine ⟨?_, fun _ => ⟨fun dropped => conj dropped.1, ?_⟩⟩
            · rintro - ⟨-, t, back, shape, -⟩
              exact conj (List.cons.inj shape).1
            · rintro ⟨rfl, scale⟩
              rw [head?_dropAfter not_scale_a] at scale
              cases rest with
              | nil => simp at scale
              | cons next more =>
                  dsimp only at scale
                  split at scale
                  next => exact not_scale_one (by simpa using scale)
                  next => exact kept ⟨rfl, by simpa using scale⟩

theorem dropNumberAnd_again : dropNumberAnd (dropNumberAnd words) = dropNumberAnd words ↔
    ¬ Trap words := by
  rw [dropNumberAnd, dropNumberAnd, dropAfter_eq_iff, clean_dropAfter fun _ => rfl, trapAfter_iff,
    Option.toList_none, List.nil_append]

/-- The word before matters to `and` alone, and only whether it is a scale. -/
theorem dropAfter_congr (same : out.any (· ∈ SCALES) = before.any (· ∈ SCALES)) :
    dropAfter out words = dropAfter before words := by
  cases words with
  | nil => rfl
  | cons word rest => rw [dropAfter, dropAfter, same]

theorem dropAfter_step {others : List Word} (head : rest.head? = others.head?)
    (later : dropAfter (some word) rest = dropAfter (some word) others) :
    dropAfter before (word :: rest) = dropAfter before (word :: others) := by
  rw [dropAfter, dropAfter, head, later]

/-- Without a trap a number is the same whether it is said with `a` or with `one`. -/
theorem dropAfter_said (scale : s ∈ SCALES) (free : ¬ TrapAfter before (front ++ A :: s :: back)) :
    dropAfter before (front ++ A :: s :: back) = dropAfter before (front ++ ONE :: s :: back) := by
  induction front generalizing before with
  | nil =>
      have said : dropAfter before (A :: s :: back) = ONE :: dropAfter (some A) (s :: back) := by
        rw [dropAfter, if_neg fun wrong => absurd wrong.1 (by decide), if_pos ⟨rfl, by simpa using scale⟩]
      have kept : dropAfter before (ONE :: s :: back) = ONE :: dropAfter (some ONE) (s :: back) := by
        rw [dropAfter, if_neg fun wrong => absurd wrong.1 (by decide),
          if_neg fun wrong => absurd wrong.1 (by decide)]
      rw [List.nil_append, List.nil_append, said, kept,
        @dropAfter_congr (some ONE) (some A) (s :: back) (by simp [not_scale_a, not_scale_one])]
  | cons word front ih =>
      rw [List.cons_append, TrapAfter, not_or] at free
      cases front with
      | cons next front => exact dropAfter_step rfl (ih free.2)
      | nil =>
          have plain : ¬ (word = AND ∧ before.any (· ∈ SCALES) = true) := by
            rintro ⟨rfl, earlier⟩
            exact free.1 ⟨earlier, s, back, rfl, scale⟩
          have stays : ∀ said ∉ SCALES, dropAfter before (word :: said :: s :: back) =
              word :: dropAfter (some word) (said :: s :: back) := by
            intro said other
            rw [dropAfter, if_neg fun dropped => plain ⟨dropped.1, dropped.2.1⟩,
              if_neg fun rewritten => other (by simpa using rewritten.2)]
          have later := ih free.2
          rw [List.nil_append, List.nil_append] at later
          rw [List.singleton_append, List.singleton_append, stays A not_scale_a,
            stays ONE not_scale_one, later]

/-! ## The numbers -/

variable {u : Unicode} {ε : Type} {n : Num2words u ε} {xs ys text : List Char} {c : Char}

/-- A text without digits. -/
def Plain (u : Unicode) (s : List Char) : Prop :=
  ∀ c ∈ s, u.digit c = false

theorem ungroup_plain (plain : Plain u xs) : ungroup u false xs = xs := by
  induction xs with
  | nil => rfl
  | cons c rest ih =>
      obtain ⟨here, later⟩ := List.forall_mem_cons.mp plain
      rw [ungroup, if_neg fun comma => absurd comma.2.1 Bool.false_ne_true, here, ih later]

theorem spellOut_cons (other : u.digit c = false) :
    spellOut n (c :: xs) = (spellOut n xs).map (c :: ·) := by
  rw [spellOut, if_neg (by simp [other])]

theorem spellOut_append_plain (plain : Plain u xs) :
    spellOut n (xs ++ ys) = (spellOut n ys).map (xs ++ ·) := by
  induction xs with
  | nil =>
      rw [List.nil_append]
      cases spellOut n ys <;> simp [Except.map]
  | cons c rest ih =>
      obtain ⟨here, later⟩ := List.forall_mem_cons.mp plain
      rw [List.cons_append, spellOut_cons here, ih later]
      cases spellOut n ys <;> rfl

theorem spellOut_plain (plain : Plain u xs) : spellOut n xs = .ok xs := by
  have whole := @spellOut_append_plain u ε n xs [] plain
  rw [List.append_nil, spellOut] at whole
  simpa [Except.map] using whole

/-! ## Texts that end, or begin, where no word does -/

/-- The last character is of no word. -/
def Closed (u : Unicode) (s : List Char) : Prop :=
  ∃ c ∈ s.getLast?, u.word c = false

theorem not_digit_of_not_word (gap : u.word c = false) : u.digit c = false := by
  by_contra digit
  rw [Bool.not_eq_false] at digit
  rw [u.word_of_digit c digit] at gap
  cases gap

theorem closed_cons : Closed u (c :: xs) ↔ xs = [] ∧ u.word c = false ∨ Closed u xs := by
  cases xs with
  | nil => simp [Closed]
  | cons d rest => simp [Closed]

theorem not_closed_nil : ¬ Closed u [] := by
  simp [Closed]

theorem Closed.tail (closed : Closed u (c :: xs)) (some_ : xs ≠ []) : Closed u xs :=
  (closed_cons.mp closed).resolve_left fun last => some_ last.1

theorem Closed.of_word (closed : Closed u (c :: xs)) (word : u.word c = true) : Closed u xs := by
  refine (closed_cons.mp closed).resolve_left fun ⟨_, gap⟩ => ?_
  rw [word] at gap
  cases gap

theorem Closed.of_digit (closed : Closed u (c :: xs)) (digit : u.digit c = true) : Closed u xs :=
  closed.of_word (u.word_of_digit c digit)

theorem closed_append (closed : Closed u ys) : Closed u (xs ++ ys) := by
  induction xs with
  | nil => exact closed
  | cons c rest ih => exact closed_cons.mpr (.inr ih)

theorem Closed.apart (closed : Closed u xs) : u.Apart xs.getLast? := by
  obtain ⟨c, last, gap⟩ := closed
  intro d last'
  rwa [Option.mem_unique last' last]

/-- The digits at the front end before the text does. -/
theorem Closed.digits (closed : Closed u xs) :
    (xs ++ ys).takeWhile u.digit = xs.takeWhile u.digit ∧
      (xs ++ ys).dropWhile u.digit = xs.dropWhile u.digit ++ ys ∧
      Closed u (xs.dropWhile u.digit) := by
  induction xs with
  | nil => exact absurd closed not_closed_nil
  | cons c rest ih =>
      rw [List.cons_append, List.takeWhile_cons, List.takeWhile_cons, List.dropWhile_cons,
        List.dropWhile_cons]
      split
      next digit =>
        obtain ⟨taken, dropped, closed⟩ := ih (closed.of_digit digit)
        exact ⟨congrArg (c :: ·) taken, dropped, closed⟩
      next => exact ⟨rfl, rfl, closed⟩

/-- A text whose first character is no digit. -/
def NoDigit (u : Unicode) (s : List Char) : Prop :=
  ∀ c ∈ s.head?, u.digit c = false

theorem Closed.groupAhead (closed : xs ≠ [] → Closed u xs) (next : NoDigit u ys) :
    groupAhead u (xs ++ ys) = groupAhead u xs := by
  have gap : ∀ {c : Char} {front : List Char}, xs = front ++ [c] → u.digit c = false := by
    intro c front shape
    obtain ⟨d, last, gap⟩ := closed (by simp [shape])
    rw [shape, List.getLast?_concat] at last
    exact Option.some.inj last ▸ not_digit_of_not_word gap
  match xs with
  | [] =>
      cases ys with
      | nil => rfl
      | cons y rest =>
          have first := next y rfl
          unfold Speech.groupAhead
          split
          next shape =>
            obtain ⟨rfl, -⟩ := List.cons.inj shape
            simp [first]
          next => rfl
  | [a] =>
      have last := @gap a [] rfl
      unfold Speech.groupAhead
      split
      next shape =>
        obtain ⟨rfl, -⟩ := List.cons.inj shape
        simp [last]
      next => rfl
  | [a, b] =>
      have last := @gap b [a] rfl
      unfold Speech.groupAhead
      split
      next shape =>
        obtain ⟨-, more⟩ := List.cons.inj shape
        obtain ⟨rfl, -⟩ := List.cons.inj more
        simp [last]
      next => rfl
  | [a, b, c] =>
      have last := @gap c [a, b] rfl
      simp [Speech.groupAhead, last]
  | a :: b :: c :: d :: rest => rfl

theorem ungroup_append {digit : Bool} (closed : xs ≠ [] → Closed u xs)
    (start : xs = [] → digit = false) (next : NoDigit u ys) :
    ungroup u digit (xs ++ ys) = ungroup u digit xs ++ ungroup u false ys := by
  induction xs generalizing digit with
  | nil => rw [start rfl, List.nil_append, ungroup, List.nil_append]
  | cons c rest ih =>
      have later : rest ≠ [] → Closed u rest := (closed (List.cons_ne_nil c rest)).tail
      rw [List.cons_append, ungroup, ungroup, Closed.groupAhead later next]
      split
      · exact ih later fun _ => rfl
      · refine congrArg (c :: ·) (ih later fun none_ => ?_)
        have last := closed (List.cons_ne_nil c rest)
        rw [none_, closed_cons] at last
        exact not_digit_of_not_word (last.resolve_right not_closed_nil).2

theorem Closed.ungroup {digit : Bool} (closed : Closed u xs) : Closed u (ungroup u digit xs) := by
  induction xs generalizing digit with
  | nil => exact absurd closed not_closed_nil
  | cons c rest ih =>
      rw [Speech.ungroup]
      rcases closed_cons.mp closed with ⟨rfl, gap⟩ | later
      · rw [if_neg fun comma => by simp [Speech.groupAhead] at comma]
        exact closed_cons.mpr (.inl ⟨rfl, gap⟩)
      · split
        · exact ih later
        · exact closed_cons.mpr (.inr (ih later))

theorem fraction_append (closed : Closed u xs) (next : NoDigit u ys) :
    fraction u (xs ++ ys) = (fraction u xs).map fun found => (found.1, found.2 ++ ys) := by
  match xs with
  | [] => exact absurd closed not_closed_nil
  | [c] =>
      cases ys with
      | nil => simp [fraction]
      | cons y rest =>
          have first := next y rfl
          unfold fraction
          split
          next shape =>
            obtain ⟨-, more⟩ := List.cons.inj shape
            obtain ⟨rfl, -⟩ := List.cons.inj more
            simp [first]
          next => simp
  | c :: d :: rest =>
      by_cases point : c = '.'
      · subst point
        rw [List.cons_append, List.cons_append, fraction, fraction]
        split
        next digit =>
          obtain ⟨taken, dropped, -⟩ := @Closed.digits u rest ys
            ((closed.tail (List.cons_ne_nil d rest)).of_digit digit)
          rw [taken, dropped]
          rfl
        next => rfl
      · simp [fraction, point]

theorem Closed.fraction {found : List Char × List Char} (closed : Closed u xs)
    (read : fraction u xs = some found) : Closed u found.2 := by
  unfold Speech.fraction at read
  split at read
  next d rest =>
    split at read
    next digit =>
      obtain rfl := Option.some.inj read
      have later := (closed.tail (List.cons_ne_nil d rest)).of_digit digit
      exact (@Closed.digits u rest [] later).2.2
    next => cases read
  next => cases read

/-- The letters of an ending are of a word. -/
theorem word_of_suffix {a b : Char} (ending : [a, b] ∈ SUFFIXES) :
    u.word a = true ∧ u.word b = true := by
  have letters : ∀ w ∈ SUFFIXES, w.all (· ∈ "abcdefghijklmnopqrstuvwxyz".toList) = true := by decide
  have each : ∀ c ∈ [a, b], u.word c = true := fun c member =>
    (u.letter c (of_decide_eq_true (List.all_eq_true.mp (letters _ ending) c member))).1
  exact ⟨each a List.mem_cons_self, each b (List.mem_cons_of_mem a List.mem_cons_self)⟩

theorem suffix_append (closed : Closed u xs) :
    suffix u (xs ++ ys) = (suffix u xs).map (· ++ ys) := by
  match xs with
  | [] => exact absurd closed not_closed_nil
  | [a] =>
      have gap : u.word a = false := ((closed_cons.mp closed).resolve_right not_closed_nil).2
      cases ys with
      | nil => simp [suffix]
      | cons b rest =>
          have other : ¬ [a, b] ∈ SUFFIXES := fun ending => by
            simp [(word_of_suffix (u := u) ending).1] at gap
          simp [suffix, other]
  | [a, b] =>
      have gap : u.word b = false := by
        have closed := closed.tail (List.cons_ne_nil b [])
        exact ((closed_cons.mp closed).resolve_right not_closed_nil).2
      have other : ¬ [a, b] ∈ SUFFIXES := fun ending => by
        simp [(word_of_suffix (u := u) ending).2] at gap
      simp [suffix, other]
  | a :: b :: c :: rest =>
      rw [List.cons_append, List.cons_append, List.cons_append, suffix, suffix, List.head?_cons,
        List.head?_cons]
      split <;> rfl

theorem Closed.suffix {rest : List Char} (closed : Closed u xs) (read : suffix u xs = some rest) :
    Closed u rest := by
  unfold Speech.suffix at read
  split at read
  next a b more =>
    split at read
    next ending =>
      obtain rfl := Option.some.inj read
      exact (closed.tail (List.cons_ne_nil b more)).of_word (word_of_suffix ending.1).2
    next => cases read
  next => cases read

theorem Closed.form (closed : Closed u xs) (next : NoDigit u ys) :
    form u (xs ++ ys) = ((form u xs).1, (form u xs).2 ++ ys) ∧ Closed u (form u xs).2 := by
  unfold Speech.form
  rw [fraction_append closed next, suffix_append closed]
  cases read : Speech.fraction u xs with
  | some found => exact ⟨rfl, closed.fraction read⟩
  | none =>
      cases ends : Speech.suffix u xs with
      | some rest => exact ⟨rfl, closed.suffix ends⟩
      | none => exact ⟨rfl, closed⟩

/-- A text that ends where no word does is spelt out by itself. -/
theorem spellOut_append (closed : xs ≠ [] → Closed u xs) (next : NoDigit u ys) :
    spellOut n (xs ++ ys) =
      (spellOut n xs).bind fun text => (spellOut n ys).map (text ++ ·) := by
  induction xs using spellOut.induct (u := u) with
  | case1 =>
      rw [List.nil_append, spellOut]
      cases spellOut n ys <;> rfl
  | case2 c rest digit ih =>
      have later : Closed u rest := (closed (List.cons_ne_nil c rest)).of_digit digit
      obtain ⟨taken, dropped, after⟩ := @Closed.digits u rest ys later
      obtain ⟨form, closed'⟩ := after.form next
      rw [List.cons_append, spellOut, if_pos digit, spellOut, if_pos digit, taken, dropped, form]
      dsimp only
      rw [ih fun _ => closed']
      cases enNumber n _ _ with
      | error why => rfl
      | ok spelt =>
          cases spellOut n (Speech.form u _).2 with
          | error why => rfl
          | ok text => cases spellOut n ys <;> simp [Except.bind, Except.map]
  | case3 c rest other ih =>
      have later : rest ≠ [] → Closed u rest := (closed (List.cons_ne_nil c rest)).tail
      have other : u.digit c = false := by simpa using other
      rw [List.cons_append, spellOut_cons other, spellOut_cons other, ih later]
      cases spellOut n rest with
      | error why => rfl
      | ok text => cases spellOut n ys <;> simp [Except.bind, Except.map]

theorem Closed.spellOut (closed : Closed u xs) (spelt : spellOut n xs = .ok text) :
    Closed u text := by
  induction xs using spellOut.induct (u := u) generalizing text with
  | case1 => exact absurd closed not_closed_nil
  | case2 c rest digit ih =>
      have after := (@Closed.digits u rest [] (closed.of_digit digit)).2.2
      have later := (@Closed.form u _ [] after (by simp [NoDigit])).2
      rw [Speech.spellOut, if_pos digit] at spelt
      obtain ⟨front, -, mapped⟩ := bind_ok spelt
      obtain ⟨back, made, rfl⟩ := map_ok mapped
      exact closed_append (ih later made)
  | case3 c rest other ih =>
      rw [spellOut_cons (by simpa using other)] at spelt
      obtain ⟨back, made, rfl⟩ := map_ok spelt
      rcases closed_cons.mp closed with ⟨rfl, gap⟩ | later
      · rw [Speech.spellOut] at made
        obtain rfl := Except.ok.inj made
        exact closed_cons.mpr (.inl ⟨rfl, gap⟩)
      · exact closed_cons.mpr (.inr (ih later made))

theorem plain_of_letters (letters : ∀ c ∈ xs, c = ' ' ∨ c ∈ "abcdefghijklmnopqrstuvwxyz".toList) :
    Plain u xs := by
  intro c member
  rcases letters c member with rfl | letter
  · exact not_digit_of_not_word Unicode.not_word_blank
  · exact (u.letter c letter).2.1

theorem plain_enNumber {whole : List Char} {shape : Form}
    (spelt : enNumber n whole shape = .ok text) : Plain u text := by
  cases shape with
  | ordinal => exact n.plain whole text (.inr spelt)
  | plain => exact n.plain whole text (.inl spelt)
  | decimal frac =>
      obtain ⟨words, number, spelt⟩ := bind_ok spelt
      obtain ⟨digits, each, spelt⟩ := bind_ok spelt
      obtain rfl := pure_ok spelt
      have letters : " point ".toList.all
          (fun c => c = ' ' ∨ c ∈ "abcdefghijklmnopqrstuvwxyz".toList) = true := by decide
      have point : Plain u " point ".toList := plain_of_letters fun c member =>
        of_decide_eq_true (List.all_eq_true.mp letters c member)
      refine List.forall_mem_append.mpr
        ⟨List.forall_mem_append.mpr ⟨n.plain whole words (.inl number), point⟩, fun c member => ?_⟩
      rcases Text.mem_intercalate member with rfl | ⟨w, inside, has⟩
      · exact not_digit_of_not_word Unicode.not_word_blank
      · obtain ⟨d, -, made⟩ := mem_mapM each inside
        exact n.plain [d] w (.inl made) c has

/-- What is spelt out has no digits. -/
theorem plain_spellOut (spelt : spellOut n xs = .ok text) : Plain u text := by
  induction xs using spellOut.induct (u := u) generalizing text with
  | case1 =>
      rw [Speech.spellOut] at spelt
      obtain rfl := Except.ok.inj spelt
      exact List.forall_mem_nil _
  | case2 c rest digit ih =>
      rw [Speech.spellOut, if_pos digit] at spelt
      obtain ⟨front, number, mapped⟩ := bind_ok spelt
      obtain ⟨back, made, rfl⟩ := map_ok mapped
      exact List.forall_mem_append.mpr ⟨plain_enNumber number, ih made⟩
  | case3 c rest other ih =>
      have other : u.digit c = false := by simpa using other
      rw [spellOut_cons other] at spelt
      obtain ⟨back, made, rfl⟩ := map_ok spelt
      exact List.forall_mem_cons.mpr ⟨other, ih made⟩

/-! ## Small letters -/

theorem Closed.lowerIn {before after : List Char} (closed : Closed u xs) :
    Closed u (u.lowerIn before after xs) := by
  induction xs generalizing before with
  | nil => exact absurd closed not_closed_nil
  | cons c rest ih =>
      rw [Unicode.lowerIn]
      rcases closed_cons.mp closed with ⟨rfl, gap⟩ | later
      · rw [Unicode.lowerIn, List.append_nil]
        obtain ⟨d, last⟩ := Option.ne_none_iff_exists'.mp
          (mt List.getLast?_eq_none_iff.mp (@Unicode.lowerAt_ne_nil u before ([] ++ after) c))
        refine ⟨d, last, ?_⟩
        by_contra word
        have word' := (Unicode.mem_lowerAt (List.mem_of_getLast? last)).2.1 (by simpa using word)
        rw [gap] at word'
        cases word'
      · exact closed_append (ih later)

theorem apart_lowerIn {before after : List Char} (apart : u.Apart xs.head?) :
    u.Apart (u.lowerIn before after xs).head? := by
  cases xs with
  | nil =>
      intro c first
      cases first
  | cons c rest =>
      intro d first
      by_contra word
      have member : d ∈ u.lowerAt before c (rest ++ after) := by
        rw [Unicode.lowerIn, List.head?_append_of_ne_nil _ Unicode.lowerAt_ne_nil] at first
        exact List.mem_of_mem_head? first
      have word' := (Unicode.mem_lowerAt member).2.1 (by simpa using word)
      rw [apart c rfl] at word'
      cases word'

/-- A text that begins where no word does still does once its numbers are spelt out. -/
theorem apart_spellOut (apart : u.Apart xs.head?)
    (spelt : spellOut n (ungroup u false xs) = .ok text) : u.Apart text.head? := by
  cases xs with
  | nil =>
      rw [ungroup, spellOut] at spelt
      obtain rfl := Except.ok.inj spelt
      intro d first
      cases first
  | cons c rest =>
      have gap := apart c rfl
      rw [ungroup, if_neg fun comma => absurd comma.2.1 Bool.false_ne_true,
        spellOut_cons (not_digit_of_not_word gap)] at spelt
      obtain ⟨back, -, rfl⟩ := map_ok spelt
      exact fun d first => Option.some.inj first ▸ gap

/-! ## A number in a text -/

abbrev letters : List Char := "abcdefghijklmnopqrstuvwxyz".toList

/-- A number in words. -/
def said (article scale : Word) : List Char :=
  List.intercalate [' '] [article, scale]

/-- What is spoken in between is not seen from around it. -/
structure Middle (mid : List Char) : Prop where
  plain : ∀ c ∈ mid, c = ' ' ∨ c ∈ letters
  first : ∃ c ∈ mid.head?, c ∈ letters
  last : ∃ c ∈ mid.getLast?, c ∈ letters

theorem leads_letter (letter : c ∈ letters) : u.leads (c :: xs) = true := by
  obtain ⟨-, -, cased, ignored, -⟩ := u.letter c letter
  rw [Unicode.leads_cons, ignored, if_neg Bool.false_ne_true, cased]

theorem Middle.low {mid : List Char} (middle : Middle mid) : ∀ c ∈ mid, u.Low c := by
  intro c member
  rcases middle.plain c member with rfl | letter
  · exact Unicode.low_blank
  · exact Unicode.low_letter letter

theorem spoken_around {front mid back : List Char} (middle : Middle mid)
    (closed : front ≠ [] → Closed u front) (apart : u.Apart back.head?) :
    spoken n (front ++ (mid ++ back)) =
      (spellOut n (ungroup u false front)).bind fun before =>
        (spellOut n (ungroup u false back)).map fun after =>
          u.words (u.lowerIn [] ['a'] before) ++
            (u.words mid ++ u.words (u.lowerIn ['a'] [] after)) := by
  have plain : Plain u mid := plain_of_letters middle.plain
  have next : ∀ tail, NoDigit u (mid ++ tail) := by
    intro tail c first
    obtain ⟨d, head, letter⟩ := middle.first
    rw [List.head?_append_of_ne_nil _ (by rintro rfl; cases head)] at first
    exact Option.mem_unique head first ▸ (u.letter d letter).2.1
  have unclosed : ungroup u false front ≠ [] → Closed u (ungroup u false front) := by
    intro some_
    refine (closed ?_).ungroup
    rintro rfl
    exact some_ rfl
  have ungrouped : ungroup u false (front ++ (mid ++ back)) =
      ungroup u false front ++ (mid ++ ungroup u false back) := by
    rw [ungroup_append closed (fun _ => rfl) (next back)]
    congr 1
    clear next middle
    induction mid with
    | nil => rfl
    | cons c rest ih =>
        obtain ⟨here, later⟩ := List.forall_mem_cons.mp plain
        rw [List.cons_append, ungroup, if_neg fun comma => absurd comma.2.1 Bool.false_ne_true, here,
          ih later, List.cons_append]
  rw [spoken, ungrouped, spellOut_append unclosed (next _), spellOut_append_plain plain]
  cases spelt : spellOut n (ungroup u false front) with
  | error why => rfl
  | ok before =>
      cases spelt' : spellOut n (ungroup u false back) with
      | error why => rfl
      | ok after =>
          refine congrArg Except.ok ?_
          have ends : before ≠ [] → Closed u before := by
            intro some_
            by_cases none_ : ungroup u false front = []
            · rw [none_, spellOut] at spelt
              exact absurd (Except.ok.inj spelt).symm some_
            · exact (unclosed none_).spellOut spelt
          have left : u.lowerIn [] (mid ++ after ++ []) before = u.lowerIn [] ['a'] before := by
            apply Unicode.lowerIn_congr rfl
            obtain ⟨c, head, letter⟩ := middle.first
            obtain ⟨rest, rfl⟩ := List.head?_eq_some_iff.mp head
            rw [List.cons_append, List.cons_append, leads_letter letter, leads_letter (by decide)]
          have right : u.lowerIn (mid.reverse ++ (before.reverse ++ [])) [] after =
              u.lowerIn ['a'] [] after := by
            refine Unicode.lowerIn_congr ?_ rfl
            obtain ⟨c, last, letter⟩ := middle.last
            obtain ⟨init, rfl⟩ := List.getLast?_eq_some_iff.mp last
            rw [List.reverse_append, List.reverse_singleton, List.singleton_append, List.cons_append,
              leads_letter letter, leads_letter (by decide)]
          change u.words (u.lowerIn [] [] (before ++ (mid ++ after))) = _
          rw [Unicode.lowerIn_append, left, Unicode.lowerIn_append,
            Unicode.lowerIn_low middle.low, right, Unicode.words_append_left,
            Unicode.words_append_right (apart_lowerIn (apart_spellOut apart spelt'))]
          by_cases none_ : before = []
          · rw [none_]
            intro c last
            cases last
          · exact (ends none_).lowerIn.apart

theorem middle_said {article scale : Word} (article' : article ∈ [A, ONE]) (scale' : scale ∈ SCALES) :
    Middle (said article scale) := by
  have each : ∀ article ∈ [A, ONE], ∀ scale ∈ SCALES,
      (said article scale).all (fun c => c = ' ' ∨ c ∈ letters) = true ∧
        (said article scale).head?.any (· ∈ letters) = true ∧
        (said article scale).getLast?.any (· ∈ letters) = true := by decide
  obtain ⟨plain, first, last⟩ := each article article' scale scale'
  refine ⟨fun c member => by simpa using List.all_eq_true.mp plain c member, ?_, ?_⟩
  · simpa [Option.any_eq_true] using first
  · simpa [Option.any_eq_true] using last

theorem words_said {article scale : Word} (article' : article ∈ [A, ONE]) (scale' : scale ∈ SCALES) :
    u.words (said article scale) = [article, scale] := by
  have letters : ∀ w ∈ A :: ONE :: SCALES, w ≠ [] ∧ w.all (· ∈ letters) = true := by decide
  refine Unicode.words_intercalate fun w member => ?_
  have inside : w ∈ A :: ONE :: SCALES := by
    rcases List.mem_cons.mp member with rfl | here
    · rcases List.mem_cons.mp article' with rfl | one
      · exact List.mem_cons_self
      · exact List.mem_cons_of_mem A (List.mem_singleton.mp one ▸ List.mem_cons_self)
    · rw [List.mem_singleton.mp here]
      exact List.mem_cons_of_mem A (List.mem_cons_of_mem ONE scale')
  refine ⟨(letters w inside).1, fun c has => (u.letter c ?_).1⟩
  exact of_decide_eq_true (List.all_eq_true.mp (letters w inside).2 c has)

/-! ## Normal forms -/

/-- A word that a normal form can hold. -/
structure Settled (u : Unicode) (w : Word) : Prop where
  some_ : w ≠ []
  word : ∀ c ∈ w, u.word c = true
  low : ∀ c ∈ w, u.Low c
  plain : Plain u w

theorem settled_spoken {words : List Word} (made : spoken n xs = .ok words) :
    ∀ w ∈ words, Settled u w := by
  obtain ⟨text, spelt, rfl⟩ := map_ok made
  intro w member
  obtain ⟨some_, each⟩ := Unicode.mem_words member
  refine ⟨some_, fun c has => (each c has).1, fun c has => ?_, fun c has => ?_⟩
  · exact (Unicode.mem_lowerIn (each c has).2).1
  · obtain ⟨-, d, inside, -, digit⟩ := Unicode.mem_lowerIn (each c has).2
    by_contra here
    have there := digit (by simpa using here)
    rw [plain_spellOut spelt d inside] at there
    cases there

theorem settled_one : Settled u ONE := by
  have all : ONE.all (· ∈ letters) = true := by decide
  have each : ∀ c ∈ ONE, c ∈ letters := fun c member =>
    of_decide_eq_true (List.all_eq_true.mp all c member)
  exact ⟨by decide, fun c has => (u.letter c (each c has)).1,
    fun c has => Unicode.low_letter (each c has), fun c has => (u.letter c (each c has)).2.1⟩

theorem mem_dropAfter (member : word ∈ dropAfter before words) : word = ONE ∨ word ∈ words := by
  induction words generalizing before with
  | nil => cases member
  | cons head rest ih =>
      unfold dropAfter at member
      split at member
      · exact (ih member).imp_right (List.mem_cons_of_mem head)
      · split at member
        · rcases List.mem_cons.mp member with one | later
          · exact .inl one
          · exact (ih later).imp_right (List.mem_cons_of_mem head)
        · rcases List.mem_cons.mp member with here | later
          · exact .inr (here ▸ List.mem_cons_self)
          · exact (ih later).imp_right (List.mem_cons_of_mem head)

/-- A normal form is spoken as its words. -/
theorem spoken_intercalate {words : List Word} (settled : ∀ w ∈ words, Settled u w) :
    spoken n (List.intercalate [' '] words) = .ok words := by
  have plain : Plain u (List.intercalate [' '] words) := by
    intro c member
    rcases Text.mem_intercalate member with rfl | ⟨w, inside, has⟩
    · exact not_digit_of_not_word Unicode.not_word_blank
    · exact (settled w inside).plain c has
  have low : ∀ c ∈ List.intercalate [' '] words, u.Low c := by
    intro c member
    rcases Text.mem_intercalate member with rfl | ⟨w, inside, has⟩
    · exact Unicode.low_blank
    · exact (settled w inside).low c has
  rw [spoken, ungroup_plain plain, spellOut_plain plain]
  change Except.ok (u.words (u.lowerIn [] [] (List.intercalate [' '] words))) = _
  rw [Unicode.lowerIn_low low, Unicode.words_intercalate fun w inside =>
    ⟨(settled w inside).some_, (settled w inside).word⟩]

/-- A number is said at this place of a text, as words of their own. -/
structure SaidAt (u : Unicode) (text : List Char) (article : Word) (front scale back : List Char) :
    Prop where
  shape : text = front ++ (said article scale ++ back)
  before : ∀ c ∈ front.getLast?, u.word c = false
  after : ∀ c ∈ back.head?, u.word c = false

/-- The normal form of a text is its own, and the text may say a number with `a` or with `one`. -/
structure Uniform (n : Num2words u ε) (text : List Char) : Prop where
  again : ∀ normal, normalize n text = .ok normal → normalize n normal = .ok normal
  said : ∀ front scale back, scale ∈ ["hundred", "thousand"].map String.toList →
    SaidAt u text A front scale back →
      normalize n (front ++ (said ONE scale ++ back)) = normalize n text

theorem normalize_again {words : List Word} (made : spoken n text = .ok words) :
    normalize n (List.intercalate [' '] (dropNumberAnd words)) =
        .ok (List.intercalate [' '] (dropNumberAnd words)) ↔ ¬ Trap words := by
  have settled : ∀ w ∈ dropNumberAnd words, Settled u w := by
    intro w member
    rcases mem_dropAfter member with rfl | inside
    · exact settled_one
    · exact settled_spoken made w inside
  have settled' : ∀ w ∈ dropNumberAnd (dropNumberAnd words), Settled u w := by
    intro w member
    rcases mem_dropAfter member with rfl | inside
    · exact settled_one
    · exact settled w inside
  rw [normalize, spoken_intercalate settled, ← dropNumberAnd_again]
  constructor
  · intro same
    have joined := congrArg u.words (Except.ok.inj same)
    rwa [Unicode.words_intercalate fun w inside => ⟨(settled' w inside).some_, (settled' w inside).word⟩,
      Unicode.words_intercalate fun w inside => ⟨(settled w inside).some_, (settled w inside).word⟩]
      at joined
  · intro same
    rw [Except.map, same]

theorem normalize_said {front scale back : List Char} (scale' : scale ∈ SCALES)
    (place : SaidAt u text A front scale back)
    (free : ∀ words, spoken n text = .ok words → ¬ Trap words) :
    normalize n (front ++ (said ONE scale ++ back)) = normalize n text := by
  obtain ⟨rfl, before, after⟩ := place
  have closed : front ≠ [] → Closed u front := by
    intro some_
    obtain ⟨c, last⟩ := Option.ne_none_iff_exists'.mp (mt List.getLast?_eq_none_iff.mp some_)
    exact ⟨c, last, before c last⟩
  have a : A ∈ [A, ONE] := List.mem_cons_self
  have one : ONE ∈ [A, ONE] := List.mem_cons_of_mem A List.mem_cons_self
  have around := @spoken_around u ε n front _ back (middle_said a scale') closed after
  have around' := @spoken_around u ε n front _ back (middle_said one scale') closed after
  rw [words_said a scale'] at around
  rw [words_said one scale'] at around'
  rw [normalize, normalize, around']
  rw [around] at free ⊢
  cases spelt : spellOut n (ungroup u false front) with
  | error why => rfl
  | ok spelt =>
      cases spelt' : spellOut n (ungroup u false back) with
      | error why => rfl
      | ok spelt' =>
          have free := free _ (by rw [‹spellOut n (ungroup u false front) = _›,
            ‹spellOut n (ungroup u false back) = _›]; rfl)
          refine congrArg (fun words => Except.ok (List.intercalate [' '] words)) ?_
          refine (dropAfter_said scale' ?_).symm
          rw [trapAfter_iff]
          exact free

/-- A text has one spoken form exactly where its words hold no `and a` between two scales. -/
theorem uniform_iff (n : Num2words u ε) (text : List Char) :
    Uniform n text ↔ ∀ words, spoken n text = .ok words → ¬ Trap words := by
  constructor
  · intro uniform words made
    refine (normalize_again made).mp (uniform.again _ ?_)
    rw [normalize, made]
    rfl
  · intro free
    refine ⟨fun normal normalized => ?_, fun front scale back small place => ?_⟩
    · obtain ⟨words, made, rfl⟩ := map_ok normalized
      exact (normalize_again made).mpr (free words made)
    · have scale' : ∀ scale ∈ ["hundred", "thousand"].map String.toList, scale ∈ SCALES := by decide
      exact normalize_said (scale' scale small) place free

/-- Numbers that are never asked for. -/
def wordless : Num2words .small Unit where
  cardinal _ := .error ()
  ordinal _ := .error ()
  plain digits text made := by
    rcases made with none_ | none_ <;> cases none_

/-- "a hundred" after "hundred and" becomes "one hundred", and then the "and" goes too. -/
theorem hundred_and_a_hundred :
    normalize wordless "hundred and a hundred".toList = .ok "hundred and one hundred".toList ∧
      normalize wordless "hundred and one hundred".toList = .ok "hundred one hundred".toList ∧
      ¬ Uniform wordless "hundred and a hundred".toList := by
  have spelt : ∀ text : List Char, text.all (fun c => !c.isDigit) = true →
      normalize wordless text =
        .ok (List.intercalate [' '] (dropNumberAnd (Unicode.small.words (Unicode.small.lower text)))) := by
    intro text clean
    have plain : Plain .small text := by
      intro c member
      exact (Bool.not_eq_true' _).mp (List.all_eq_true.mp clean c member)
    rw [normalize, spoken, ungroup_plain plain, spellOut_plain plain]
    rfl
  have first : normalize wordless "hundred and a hundred".toList =
      .ok "hundred and one hundred".toList := by
    rw [spelt _ (by decide)]
    decide
  have second : normalize wordless "hundred and one hundred".toList =
      .ok "hundred one hundred".toList := by
    rw [spelt _ (by decide)]
    decide
  refine ⟨first, second, fun uniform => ?_⟩
  have same := second.symm.trans (uniform.again _ first)
  exact absurd (Except.ok.inj same) (by decide)

end LocalHarness.Checks.Speech
