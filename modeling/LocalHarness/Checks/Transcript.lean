import LocalHarness.Library.Lines
import LocalHarness.Library.Trim

/-! # What a transcriber prints

`whisperkit-cli` prints what was said on lines with a timestamp, among lines of its own. A line is taken to
be its own by the words in it, with or without a timestamp.
-/

namespace LocalHarness.Checks.Transcript

open LocalHarness.Library LocalHarness.Library.Str LocalHarness.Library.Trim

def isSpace (c : CodePoint) : Bool :=
  Text.isSpace (.ofNat c.val)

/-- What Python's tables say: `str.lower`, and which characters are digits. -/
structure Tables where
  lower : Str → Str
  digit : CodePoint → Bool
  digit_solid : ∀ c, digit c = true → isSpace c = false
  digit_mark : ∀ c ∈ text "->]", digit c = false

/-- The words of lines that the CLI prints around the transcript. -/
def WK_NOISE : List Str :=
  [text "loading", text "transcription time", text "model", text "downloading", text "progress",
    text "warning", text "argmax", text "compiling", text "%"]

section

variable (t : Tables)

/-- `[\d:.]` -/
def isTime (c : CodePoint) : Bool :=
  t.digit c || c = point ':' || c = point '.'

/-- What `_WK_TIMESTAMP` leaves of a line that it matches. No two parts of it that are next to each other
have a character in common, so each takes all it can. -/
def afterStamp (line : Str) : Option Str :=
  match line with
  | [] => none
  | c :: rest =>
      let gap := (rest.dropWhile (isTime t)).dropWhile isSpace
      match gap.dropWhile (· = point '-') with
      | [] => none
      | arrow :: rest' =>
          let stop := rest'.dropWhile isSpace
          match stop.dropWhile (isTime t) with
          | [] => none
          | bracket :: text =>
              if c = point '[' ∧ rest.takeWhile (isTime t) ≠ [] ∧ gap.takeWhile (· = point '-') ≠ [] ∧
                  arrow = point '>' ∧ stop.takeWhile (isTime t) ≠ [] ∧ bracket = point ']' then
                some (text.dropWhile isSpace)
              else none

/-- One of the words stands in the line. -/
def Noisy (line : Str) : Prop :=
  ∃ m ∈ WK_NOISE, m <:+: t.lower line

instance (line : Str) : Decidable (Noisy t line) :=
  inferInstanceAs (Decidable (∃ m ∈ WK_NOISE, m <:+: t.lower line))

/-- The lines that are kept. -/
def kept (lines : List Str) : List Str :=
  (lines.map fun line => (afterStamp t line.strip).getD line.strip).filter
    fun line => line ≠ [] ∧ ¬ Noisy t line

/-- `" ".join(lines)` -/
def join (lines : List Str) : Str :=
  [point ' '].intercalate lines

/-- What becomes of the run of the CLI. -/
inductive Run
  | printed (raw : Str)
  | notFound (exc : Str)
  | failed (exc : Str)
  /-- Another error goes through. -/
  | raised (exc : Str)

/-- `transcribe_whisperkit` of a file of that name. -/
def transcribe_whisperkit (name : Str) (exists_ : Bool) (run : Run) : Except Str Str :=
  if exists_ then
    match run with
    | .notFound exc => .error (text "whisperkit-cli is not installed: " ++ exc ++
        text " (brew install whisperkit-cli)")
    | .failed exc => .error (text "could not run whisperkit-cli: " ++ exc)
    | .raised exc => .error exc
    | .printed raw =>
        let said := (join (kept t (splitlines raw))).strip
        if said = [] then .error (text "whisperkit-cli produced no transcript for " ++ name) else .ok said
  else .error (text "no audio file at " ++ name)

/-! ## What is said -/

/-- `[00:00.000 --> 00:03.120]` -/
inductive Stamp : Str → Prop
  | mk {start gap dashes gap' stop : Str} (times : ∀ c ∈ start ++ stop, isTime t c = true)
      (spaces : ∀ c ∈ gap ++ gap', isSpace c = true) (arrow : ∀ c ∈ dashes, c = point '-')
      (some_ : start ≠ [] ∧ dashes ≠ [] ∧ stop ≠ []) :
      Stamp (point '[' :: (start ++ (gap ++ (dashes ++ point '>' :: (gap' ++ (stop ++ [point ']']))))))

/-- What is said on a line with a timestamp. -/
inductive Says (line : Str) : Str → Prop
  | at_ {lead stamp said : Str} (spaces : ∀ c ∈ lead, isSpace c = true) (stamped : Stamp t stamp)
      (shape : line = lead ++ (stamp ++ said)) : Says line said.strip

/-- The texts of the lines with a timestamp that have one. -/
inductive Heard : List Str → List Str → Prop
  | nil : Heard [] []
  | log {line lines texts} : (∀ said, ¬ Says t line said) → Heard lines texts → Heard (line :: lines) texts
  | silent {line lines texts} : Says t line [] → Heard lines texts → Heard (line :: lines) texts
  | said {line said lines texts} : Says t line said → said ≠ [] → Heard lines texts →
      Heard (line :: lines) (said :: texts)

/-- What is kept is what was said, and is returned; of nothing there is no transcript. -/
def Faithful (raw : Str) : Prop :=
  ∀ texts, Heard t (splitlines raw) texts → kept t (splitlines raw) = texts ∧
    ∀ name, transcribe_whisperkit t name true (.printed raw) =
      if texts = [] then .error (text "whisperkit-cli produced no transcript for " ++ name)
      else .ok (join texts)

/-- No text that was said has one of the words, and each line without a timestamp has one or is blank. -/
def Clear (lines : List Str) : Prop :=
  ∀ line ∈ lines, (∀ said, Says t line said → said ≠ [] → ¬ Noisy t said) ∧
    ((∀ said, ¬ Says t line said) → line.strip ≠ [] → Noisy t line.strip)

/-! ## What is left of a line -/

variable {t} {line stamp said rest : Str} {lines texts : List Str}

theorem isSpace_time {c : CodePoint} (time : isTime t c = true) : isSpace c = false := by
  rw [isTime, Bool.or_eq_true, Bool.or_eq_true, decide_eq_true_iff, decide_eq_true_iff] at time
  rcases time with (digit | rfl) | rfl
  · exact t.digit_solid c digit
  · decide
  · decide

theorem isTime_space {c : CodePoint} (space : isSpace c = true) : isTime t c = false := by
  by_contra time
  rw [Bool.not_eq_false] at time
  exact absurd (isSpace_time time) (by rw [space]; decide)

theorem isTime_mark {c : CodePoint} (mark : c ∈ text "->]") : isTime t c = false := by
  rw [isTime, t.digit_mark c mark, Bool.false_or, Bool.or_eq_false_iff, decide_eq_false_iff_not,
    decide_eq_false_iff_not]
  constructor
  · rintro rfl
    exact absurd mark (by decide)
  · rintro rfl
    exact absurd mark (by decide)

theorem afterStamp_stamp (stamped : Stamp t stamp) :
    afterStamp t (stamp ++ rest) = some (rest.dropWhile isSpace) := by
  obtain @⟨start, gap, dashes, gap', stop, times, spaces, arrow, some_⟩ := stamped
  obtain ⟨times, times'⟩ := List.forall_mem_append.mp times
  obtain ⟨spaces, spaces'⟩ := List.forall_mem_append.mp spaces
  have dash : ∀ {c}, c ∈ dashes → c ∈ text "->]" := fun member => by rw [arrow _ member]; decide
  have solid : ∀ c ∈ dashes, isSpace c = false := fun c member => by rw [arrow c member]; decide
  have mark : ∀ c ∈ dashes, isTime t c = false := fun c member => by
    rw [arrow c member]
    exact isTime_mark (by decide)
  have dash : ∀ c ∈ dashes, decide (c = point '-') = true := fun c member =>
    decide_eq_true (arrow c member)
  -- each part up to the one that begins with a character of another kind
  have before (s : Str) : (start ++ (gap ++ (dashes ++ point '>' :: s))).takeWhile (isTime t) = start ∧
      (start ++ (gap ++ (dashes ++ point '>' :: s))).dropWhile (isTime t) =
        gap ++ (dashes ++ point '>' :: s) :=
    span_append times (head_append (fun c member => isTime_space (spaces c member))
      (head_append mark (head_cons (isTime_mark (by decide)))))
  have after (s : Str) : (stop ++ point ']' :: s).takeWhile (isTime t) = stop ∧
      (stop ++ point ']' :: s).dropWhile (isTime t) = point ']' :: s :=
    span_append times' (head_cons (isTime_mark (by decide)))
  have opened (s : Str) : (gap ++ (dashes ++ point '>' :: s)).dropWhile isSpace =
      dashes ++ point '>' :: s :=
    (span_append spaces (head_append solid (head_cons (by decide)))).2
  have between (s : Str) : (gap' ++ (stop ++ point ']' :: s)).dropWhile isSpace = stop ++ point ']' :: s :=
    (span_append spaces' (head_append (fun c member => isSpace_time (times' c member))
      (head_cons (by decide)))).2
  have arrows (s : Str) : (dashes ++ point '>' :: s).takeWhile (· = point '-') = dashes ∧
      (dashes ++ point '>' :: s).dropWhile (· = point '-') = point '>' :: s :=
    span_append dash (head_cons (by decide))
  have shape : (point '[' :: (start ++ (gap ++ (dashes ++ point '>' :: (gap' ++ (stop ++ [point ']'])))))) ++
      rest = point '[' :: (start ++ (gap ++ (dashes ++ point '>' :: (gap' ++ (stop ++ point ']' :: rest))))) := by
    simp
  rw [shape]
  simp only [afterStamp, (before _).1, (before _).2, opened, (arrows _).1, (arrows _).2, between,
    (after _).1, (after _).2]
  exact if_pos ⟨trivial, some_.1, some_.2.1, trivial, some_.2.2, trivial⟩

theorem stamped_of_afterStamp (found : afterStamp t line = some said) :
    ∃ stamp rest, Stamp t stamp ∧ line = stamp ++ rest ∧ said = rest.dropWhile isSpace := by
  unfold afterStamp at found
  cases line with
  | nil => cases found
  | cons c rest =>
      simp only at found
      split at found
      next => cases found
      next arrow rest' atArrow =>
        split at found
        next => cases found
        next bracket said' atBracket =>
          split at found
          next checked =>
            obtain ⟨rfl, start, dashes, rfl, stop, rfl⟩ := checked
            obtain rfl := Option.some.inj found
            have times {s : Str} : ∀ c ∈ s.takeWhile (isTime t), isTime t c = true :=
              fun c => List.mem_takeWhile_imp
            have spaces {s : Str} : ∀ c ∈ s.takeWhile isSpace, isSpace c = true :=
              fun c => List.mem_takeWhile_imp
            have arrow {s : Str} : ∀ c ∈ s.takeWhile (· = point '-'), c = point '-' := fun c member => by
              simpa using List.mem_takeWhile_imp member
            refine ⟨_, said', ⟨List.forall_mem_append.mpr ⟨times, times⟩,
              List.forall_mem_append.mpr ⟨spaces (s := rest.dropWhile (isTime t)), spaces (s := rest')⟩,
              arrow, ⟨start, dashes, stop⟩⟩, ?_, rfl⟩
            -- the text is put together again from what was taken and what was left
            simp only [List.cons_append, List.append_assoc, List.nil_append]
            rw [← atBracket, List.takeWhile_append_dropWhile, List.takeWhile_append_dropWhile, ← atArrow,
              List.takeWhile_append_dropWhile, List.takeWhile_append_dropWhile,
              List.takeWhile_append_dropWhile]
          next => cases found

theorem strip_stamp {lead : Str} (spaces : ∀ c ∈ lead, isSpace c = true) (stamped : Stamp t stamp) :
    (lead ++ (stamp ++ rest)).strip = stamp ++ rest.rdropWhile isSpace := by
  have bare : (lead ++ (stamp ++ rest)).strip = (stamp ++ rest).strip := trim_append_left spaces
  rw [bare]
  obtain @⟨start, gap, dashes, gap', stop, -, -, -, -⟩ := stamped
  have bracket : isSpace (point ']') = false := by decide
  have opening : ¬ isSpace (point '[') = true := by decide
  have shape (s : Str) : point '[' :: (start ++ (gap ++ (dashes ++ point '>' :: (gap' ++
      (stop ++ [point ']']))))) ++ s =
      (point '[' :: (start ++ (gap ++ (dashes ++ point '>' :: (gap' ++ stop))))) ++ point ']' :: s := by
    simp
  rw [shape, shape]
  change (List.dropWhile isSpace _).rdropWhile isSpace = _
  rw [List.cons_append, List.dropWhile_cons_of_neg opening, ← List.cons_append, Find.rdropWhile_stop bracket]

/-- What is left is what is said, less the spaces at its ends. -/
theorem afterStamp_strip : afterStamp t line.strip = some said ↔ Says t line said := by
  constructor
  · intro found
    obtain ⟨stamp, rest, stamped, shape, rfl⟩ := stamped_of_afterStamp found
    obtain ⟨front, back, whole, taken, -⟩ := trim_between isSpace line
    change line = front ++ line.strip ++ back at whole
    rw [shape, List.append_assoc, List.append_assoc] at whole
    have spoken := Says.at_ taken stamped whole
    have ends : rest = (rest ++ back).rdropWhile isSpace := by
      refine @List.append_cancel_left _ stamp _ _ ?_
      rw [← shape, ← strip_stamp taken stamped, ← whole]
    have same : rest.dropWhile isSpace = (rest ++ back).strip := by
      conv_lhs => rw [ends]
      exact trim_swap isSpace _
    rw [same]
    exact spoken
  · rintro ⟨spaces, stamped, rfl⟩
    rw [strip_stamp spaces stamped, afterStamp_stamp stamped]
    exact congrArg some (trim_swap isSpace _)

theorem afterStamp_eq_none (log : ∀ said, ¬ Says t line said) : afterStamp t line.strip = none :=
  Option.eq_none_iff_forall_ne_some.mpr fun said found => log said (afterStamp_strip.mp found)

theorem Says.unique {other : Str} (spoken : Says t line said) (spoken' : Says t line other) :
    said = other :=
  Option.some.inj ((afterStamp_strip.mpr spoken).symm.trans (afterStamp_strip.mpr spoken'))

theorem exists_heard (t : Tables) (lines : List Str) : ∃ texts, Heard t lines texts := by
  induction lines with
  | nil => exact ⟨[], .nil⟩
  | cons line rest ih =>
      obtain ⟨texts, heard⟩ := ih
      cases found : afterStamp t line.strip with
      | none =>
          refine ⟨texts, .log (fun said spoken => ?_) heard⟩
          rw [afterStamp_strip.mpr spoken] at found
          cases found
      | some said =>
          have spoken := afterStamp_strip.mp found
          by_cases silent : said = []
          · exact ⟨texts, .silent (silent ▸ spoken) heard⟩
          · exact ⟨said :: texts, .said spoken silent heard⟩

/-! ## What is kept of the lines -/

theorem kept_cons : kept t (line :: lines) =
    if (afterStamp t line.strip).getD line.strip ≠ [] ∧ ¬ Noisy t ((afterStamp t line.strip).getD line.strip) then
      (afterStamp t line.strip).getD line.strip :: kept t lines
    else kept t lines := by
  rw [kept, List.map_cons, List.filter_cons]
  simp only [decide_eq_true_eq]
  rfl

/-- Nothing that is kept has one of the words. -/
theorem quiet_of_mem_kept (member : said ∈ kept t lines) : ¬ Noisy t said :=
  (of_decide_eq_true (List.mem_filter.mp member).2).2

theorem kept_eq (heard : Heard t lines texts) (clear : Clear t lines) : kept t lines = texts := by
  induction heard with
  | nil => rfl
  | log log _ ih =>
      obtain ⟨⟨-, here⟩, later⟩ := List.forall_mem_cons.mp clear
      rw [kept_cons, afterStamp_eq_none log, Option.getD_none, if_neg (fun both => both.2 (here log both.1)),
        ih later]
  | silent spoken _ ih =>
      rw [kept_cons, afterStamp_strip.mpr spoken, Option.getD_some, if_neg (fun both => both.1 rfl),
        ih (List.forall_mem_cons.mp clear).2]
  | said spoken some_ _ ih =>
      obtain ⟨⟨here, -⟩, later⟩ := List.forall_mem_cons.mp clear
      rw [kept_cons, afterStamp_strip.mpr spoken, Option.getD_some, if_pos ⟨some_, here _ spoken some_⟩,
        ih later]

/-- Where no text has one of the words, all are kept. -/
theorem sublist_kept (heard : Heard t lines texts) (quiet : ∀ said ∈ texts, ¬ Noisy t said) :
    texts.Sublist (kept t lines) := by
  induction heard with
  | nil => exact List.nil_sublist _
  | log _ _ ih =>
      rw [kept_cons]
      split
      · exact (ih quiet).cons _
      · exact ih quiet
  | silent _ _ ih =>
      rw [kept_cons]
      split
      · exact (ih quiet).cons _
      · exact ih quiet
  | said spoken some_ _ ih =>
      obtain ⟨here, later⟩ := List.forall_mem_cons.mp quiet
      rw [kept_cons, afterStamp_strip.mpr spoken, Option.getD_some, if_pos ⟨some_, here⟩]
      exact (ih later).cons_cons _

/-- A line of the log that is kept makes what is kept longer than what was said. -/
theorem clear_of_length (heard : Heard t lines texts) (quiet : ∀ said ∈ texts, ¬ Noisy t said)
    (short : (kept t lines).length ≤ texts.length) : Clear t lines := by
  induction heard with
  | nil => exact List.forall_mem_nil _
  | log log heard ih =>
      have all := (sublist_kept heard quiet).length_le
      rw [kept_cons, afterStamp_eq_none log, Option.getD_none] at short
      split at short
      next =>
        rw [List.length_cons] at short
        omega
      next dropped =>
        refine List.forall_mem_cons.mpr ⟨⟨fun said spoken => absurd spoken (log said), fun _ some_ => ?_⟩,
          ih quiet short⟩
        by_contra quiet
        exact dropped ⟨some_, quiet⟩
  | silent spoken _ ih =>
      rw [kept_cons, afterStamp_strip.mpr spoken, Option.getD_some, if_neg (fun both => both.1 rfl)] at short
      refine List.forall_mem_cons.mpr ⟨⟨fun said spoken' some_ => ?_, fun log => absurd spoken (log [])⟩,
        ih quiet short⟩
      exact absurd (spoken'.unique spoken) some_
  | said spoken some_ _ ih =>
      obtain ⟨here, later⟩ := List.forall_mem_cons.mp quiet
      rw [kept_cons, afterStamp_strip.mpr spoken, Option.getD_some, if_pos ⟨some_, here⟩, List.length_cons,
        List.length_cons] at short
      refine List.forall_mem_cons.mpr ⟨⟨fun said' spoken' _ => ?_, fun log => absurd spoken (log _)⟩,
        ih later (Nat.le_of_succ_le_succ short)⟩
      rw [spoken'.unique spoken]
      exact here

/-- What is kept is what was said where the words tell the one from the other. -/
theorem kept_eq_iff (heard : Heard t lines texts) : kept t lines = texts ↔ Clear t lines := by
  constructor
  · intro same
    refine clear_of_length heard (fun said member => quiet_of_mem_kept (same ▸ member)) ?_
    rw [same]
  · exact kept_eq heard

/-! ## What is returned -/

theorem stripped_of_mem_kept (member : said ∈ kept t lines) : said.strip = said := by
  obtain ⟨line, -, rfl⟩ := List.mem_map.mp (List.mem_filter.mp member).1
  cases found : afterStamp t line.strip with
  | none => exact trim_trim isSpace line
  | some said =>
      obtain ⟨-, -, -⟩ := afterStamp_strip.mp found
      exact trim_trim isSpace _

theorem some_of_mem_kept (member : said ∈ kept t lines) : said ≠ [] :=
  (of_decide_eq_true (List.mem_filter.mp member).2).1

theorem join_cons_cons {first next : Str} :
    join (first :: next :: lines) = first ++ (point ' ' :: join (next :: lines)) := by
  rw [join, List.intercalate_cons_cons, ← join, List.append_assoc]
  rfl

theorem join_eq_nil_iff (some_ : ∀ line ∈ lines, line ≠ []) : join lines = [] ↔ lines = [] := by
  cases lines with
  | nil => exact ⟨fun _ => rfl, fun _ => rfl⟩
  | cons first rest =>
      refine ⟨fun empty => absurd empty ?_, fun empty => absurd empty (List.cons_ne_nil _ _)⟩
      cases rest with
      | nil => simpa [join] using some_ first List.mem_cons_self
      | cons next rest =>
          rw [join_cons_cons]
          exact List.append_ne_nil_of_right_ne_nil first (List.cons_ne_nil _ _)

/-- The texts are joined with nothing to take off at the ends. -/
theorem join_strip (some_ : ∀ line ∈ lines, line ≠ []) (bare : ∀ line ∈ lines, line.strip = line) :
    (join lines).strip = join lines := by
  have ends : ∀ line ∈ lines, (∀ c ∈ line.head?, isSpace c = false) ∧ ∀ c ∈ line.getLast?, isSpace c = false :=
    fun line member => trim_eq_iff.mp (bare line member)
  refine trim_eq_iff.mpr ?_
  induction lines with
  | nil => exact trim_eq_iff.mp rfl
  | cons first rest ih =>
      obtain ⟨here, later⟩ := List.forall_mem_cons.mp some_
      obtain ⟨⟨start, _⟩, ends⟩ := List.forall_mem_cons.mp ends
      obtain ⟨-, bare⟩ := List.forall_mem_cons.mp bare
      cases rest with
      | nil => simpa [join] using ⟨start, ‹_›⟩
      | cons next rest =>
          obtain ⟨-, stop⟩ := ih later bare ends
          have more : join (next :: rest) ≠ [] := fun empty => by
            cases (join_eq_nil_iff later).mp empty
          rw [join_cons_cons]
          refine ⟨?_, ?_⟩
          · rw [List.head?_append_of_ne_nil first here]
            exact start
          · rw [List.append_cons, List.getLast?_append_of_ne_nil _ more]
            exact stop

/-- The transcript is what was said, or there is none, for every output whose lines the words tell apart, and
for no other. -/
theorem transcript_faithful_iff (t : Tables) (raw : Str) : Faithful t raw ↔ Clear t (splitlines raw) := by
  constructor
  · intro faithful
    obtain ⟨texts, heard⟩ := exists_heard t (splitlines raw)
    exact (kept_eq_iff heard).mp (faithful texts heard).1
  · intro clear texts heard
    have same := kept_eq heard clear
    have some_ : ∀ said ∈ texts, said ≠ [] := fun said member => some_of_mem_kept (same ▸ member)
    have bare : ∀ said ∈ texts, said.strip = said := fun said member => stripped_of_mem_kept (same ▸ member)
    refine ⟨same, fun name => ?_⟩
    rw [transcribe_whisperkit, if_pos rfl]
    simp only [same, join_strip some_ bare, join_eq_nil_iff some_]

/-- The tables as far as ASCII. -/
def ascii : Tables where
  lower s := s.map fun c => if 65 ≤ c.val ∧ c.val ≤ 90 then c + 32 else c
  digit c := decide (c ∈ text "0123456789")
  digit_solid c digit := by
    have solid : (text "0123456789").all (fun c => !isSpace c) = true := by decide
    have here : (!isSpace c) = true := List.all_eq_true.mp solid c (of_decide_eq_true digit)
    rw [Bool.not_eq_true'] at here
    exact here
  digit_mark c mark := by
    have apart : (text "->]").all (fun c => !decide (c ∈ text "0123456789")) = true := by decide
    have here : (!decide (c ∈ text "0123456789")) = true := List.all_eq_true.mp apart c mark
    rw [Bool.not_eq_true'] at here
    exact here

/-- A sentence with the word in it is taken for the logging. -/
theorem sentence_dropped :
    ¬ Faithful ascii (text "[00:00.000 --> 00:03.120] The model is ready." ++ [point '\n']) := by
  intro faithful
  have clean : (text "[00:00.000 --> 00:03.120] The model is ready.").all (fun c => !isLineEnd c) = true := by
    decide
  have lines : splitlines (text "[00:00.000 --> 00:03.120] The model is ready." ++ [point '\n']) =
      [text "[00:00.000 --> 00:03.120] The model is ready."] :=
    splitlines_line fun c member => (Bool.not_eq_true' _).mp (List.all_eq_true.mp clean c member)
  have spoken : Says ascii (text "[00:00.000 --> 00:03.120] The model is ready.")
      (text "The model is ready.") := afterStamp_strip.mp (by decide)
  have heard : Heard ascii (splitlines (text "[00:00.000 --> 00:03.120] The model is ready." ++ [point '\n']))
      [text "The model is ready."] := by
    rw [lines]
    exact .said spoken (by decide) .nil
  obtain ⟨same, -⟩ := faithful _ heard
  rw [lines] at same
  exact absurd same (by decide)

end

end LocalHarness.Checks.Transcript
