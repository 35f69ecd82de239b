import LocalHarness.Dialect.Translate

/-! # What the driver reads of the placeholders

The scanner agrees with the lexical rules, so that the parameters are where they should be. But it
leaves the percent signs of the statement as they are, and the driver reads them too.
-/

namespace LocalHarness.Dialect

open LocalHarness.Library SqlText Words

/-- The marks of a statement of SQLite. -/
def marksOf (sql : List Char) : List Mark :=
  marks (sql.map .char)

/-- What the scanner writes for a character. -/
def written : Mark → List Char
  | (.char c, mode) => if c = '?' ∧ mode = .code then ['%', 's'] else [c]
  | (.param, _) => []

def writes (s : Scan) (sql : List Char) : List Char :=
  (scan none s (sql.map .char)).flatMap written

/-- What is meant: a question mark in the code is a parameter. -/
def meant : Mark → Mark
  | (.char c, mode) => if c = '?' ∧ mode = .code then (.param, .code) else (.char c, mode)
  | mark => mark

/-! ## The scanner -/

theorem head_char (sql : List Char) (c : Char) :
    (sql.map Sent.char).head?.or none = some (.char c) ↔ sql.head? = some c := by
  cases sql with
  | nil => simp
  | cons d rest => simp

theorem writes_cons (s : Scan) (c : Char) (rest : List Char) :
    writes s (c :: rest) =
      written (.char c, (s.step (.char c) ((rest.map Sent.char).head?.or none)).1) ++
        writes (s.step (.char c) ((rest.map Sent.char).head?.or none)).2 rest := rfl

theorem written_comment (c : Char) : written (.char c, .comment) = [c] := by
  simp [written]

theorem written_literal (c : Char) : written (.char c, .literal) = [c] := by
  simp [written]

/-- The scanner as it stands, for each of the places where the reading may stand. -/
structure Agrees (sql : List Char) : Prop where
  code : placeholdersFrom 0 none sql = writes .code sql
  single : placeholdersFrom 0 (some '\'') sql = writes .single sql
  double : placeholdersFrom 0 (some '"') sql = writes .double sql
  line : placeholdersFrom (lineEnd sql) none sql = writes .line sql
  block : placeholdersFrom (closing sql) none sql = writes .block sql
  blockOpen : placeholdersFrom (1 + closing sql.tail) none sql = writes .blockOpen sql
  blockClose : placeholdersFrom 1 none sql = writes .blockClose sql

theorem agrees (sql : List Char) : Agrees sql := by
  induction sql with
  | nil => exact ⟨rfl, rfl, rfl, rfl, rfl, rfl, rfl⟩
  | cons c rest ih =>
      have code : placeholdersFrom 0 none (c :: rest) = writes .code (c :: rest) := by
        rw [writes_cons, placeholdersFrom, Scan.step]
        simp only [head_char, Sent.char.injEq]
        by_cases single : c = '\''
        · subst single
          simpa [written] using congrArg ('\'' :: ·) ih.single
        by_cases double : c = '"'
        · subst double
          simpa [written] using congrArg ('"' :: ·) ih.double
        by_cases line : c = '-' ∧ rest.head? = some '-'
        · rw [if_neg (by simp [single, double]), if_pos line, if_neg single, if_neg double,
            if_pos line, written_comment, ih.line]
          rfl
        by_cases block : c = '/' ∧ rest.head? = some '*'
        · rw [if_neg (by simp [single, double]), if_neg line, if_pos block, if_neg single,
            if_neg double, if_neg line, if_pos block, written_comment, ih.blockOpen]
          rfl
        rw [if_neg (by simp [single, double]), if_neg line, if_neg block, if_neg single,
          if_neg double, if_neg line, if_neg block, written, ih.code]
        by_cases param : c = '?' <;> simp [param]
      refine ⟨code, ?_, ?_, ?_, ?_, ?_, ?_⟩
      · rw [writes_cons, placeholdersFrom, Scan.step, written_literal]
        by_cases same : c = '\'' <;> simp [same, ih.code, ih.single]
      · rw [writes_cons, placeholdersFrom, Scan.step, written_literal]
        by_cases same : c = '"' <;> simp [same, ih.code, ih.double]
      · by_cases ends : c = '\n'
        · subst ends
          have none_ : lineEnd ('\n' :: rest) = 0 := rfl
          rw [none_, code]
          rfl
        · have one : lineEnd (c :: rest) = lineEnd rest + 1 := by
            simp [lineEnd, ends]
          rw [one, placeholdersFrom, writes_cons, Scan.step, ih.line]
          simp [ends, written_comment]
      · rw [closing, writes_cons, Scan.step, written_comment]
        simp only [head_char, Sent.char.injEq]
        by_cases ends : c = '*' ∧ rest.head? = some '/'
        · rw [if_pos ends, if_pos ends, placeholdersFrom, ih.blockClose]
          rfl
        · rw [if_neg ends, if_neg ends, Nat.add_comm, placeholdersFrom, ih.block]
          rfl
      · rw [Nat.add_comm, placeholdersFrom, writes_cons, Scan.step, written_comment]
        exact congrArg (c :: ·) ih.block
      · rw [placeholdersFrom, writes_cons, Scan.step, written_comment]
        exact congrArg (c :: ·) ih.code

/-- The scanner writes a parameter for each question mark of the code, and takes the rest over. -/
theorem placeholders_eq (sql : List Char) : placeholders sql = writes .code sql :=
  (agrees sql).code

/-! ## The driver's reading, character by character -/

/-- A character that neither opens nor closes anything. -/
def isOrdinary (c : Sent) : Bool :=
  isPlain c && c ≠ .char '*' && c ≠ .char '\n'

/-- What such a character is part of, and where the reading stands after it. -/
def mode : Scan → Mode
  | .code => .code
  | .single | .double => .literal
  | .line | .blockOpen | .block | .blockClose => .comment

def onward : Scan → Scan
  | .blockOpen => .block
  | .blockClose => .code
  | s => s

theorem step_ordinary (s : Scan) {c : Sent} (ordinary : isOrdinary c = true) (next : Option Sent) :
    s.step c next = (mode s, onward s) := by
  simp only [isOrdinary, isPlain, Bool.and_eq_true, decide_eq_true_eq] at ordinary
  obtain ⟨⟨⟨⟨⟨single, double⟩, dash⟩, slash⟩, star⟩, newline⟩ := ordinary
  cases s <;> simp [Scan.step, mode, onward, single, double, dash, slash, star, newline]

theorem scan_ordinary (follow : Option Sent) (s : Scan) {c : Sent} (ordinary : isOrdinary c = true)
    (rest : List Sent) : scan follow s (c :: rest) = (c, mode s) :: scan follow (onward s) rest := by
  rw [scan, step_ordinary s ordinary]

theorem onward_onward (s : Scan) : onward (onward s) = onward s := by
  cases s <;> rfl

theorem percent_ordinary : isOrdinary (.char '%') = true := by decide

theorem psycopg_char {c : Char} (other : c ≠ '%') (out : List Char) :
    psycopg (c :: out) = (psycopg out).map (.char c :: ·) := by
  cases out with
  | nil => simp [psycopg, other]
  | cons d rest => rw [psycopg, if_neg other]

theorem psycopg_percent (d : Char) (out : List Char) :
    psycopg ('%' :: d :: out) =
      if d = 's' then (psycopg out).map (.param :: ·)
      else if d = '%' then (psycopg out).map (.char '%' :: ·)
      else none := rfl

/-- The marks of what the driver reads, from where the reading stands. -/
def reading (s : Scan) (sql : List Char) : Option (List Sent) :=
  psycopg (writes s sql)

/-- Any other character than a percent sign is read as it is meant. -/
theorem reading_cons {c : Char} (other : c ≠ '%') (s : Scan) (rest : List Char) :
    reading s (c :: rest) =
      (reading (s.step (.char c) ((rest.map Sent.char).head?.or none)).2 rest).map
        ((meant (.char c, (s.step (.char c) ((rest.map Sent.char).head?.or none)).1)).1 :: ·) := by
  rw [reading, writes_cons, written, meant]
  split
  · exact psycopg_percent 's' _
  · exact psycopg_char other _

/-- What the driver makes of a percent sign depends on what is written after it. -/
theorem reading_percent {s : Scan} {rest : List Char} {sent : List Sent}
    (read : reading s ('%' :: rest) = some sent) :
    ∃ d rest' sent', rest = d :: rest' ∧ reading (onward s) rest' = some sent' ∧
      (d = '?' ∧ mode (onward s) = .code ∧ sent = .char '%' :: .char 's' :: sent' ∨
        d = 's' ∧ sent = .param :: sent' ∨
        d = '%' ∧ sent = .char '%' :: sent') := by
  rw [reading, writes_cons, step_ordinary s percent_ordinary] at read
  have first : written (.char '%', mode s) = ['%'] := by simp [written]
  rw [first] at read
  cases rest with
  | nil => exact nomatch read
  | cons d rest' =>
      refine ⟨d, rest', ?_⟩
      rw [writes_cons] at read
      by_cases param : d = '?' ∧ ((onward s).step (.char d) ((rest'.map Sent.char).head?.or none)).1 = .code
      · obtain ⟨rfl, code⟩ := param
        rw [step_ordinary (onward s) (by decide), onward_onward] at read code
        rw [written, if_pos ⟨rfl, code⟩] at read
        change psycopg ('%' :: '%' :: 's' :: writes (onward s) rest') = some sent at read
        rw [psycopg_percent, if_neg (by decide), if_pos rfl, psycopg_char (by decide)] at read
        obtain ⟨_, second, rfl⟩ := Option.map_eq_some_iff.mp read
        obtain ⟨sent', later, rfl⟩ := Option.map_eq_some_iff.mp second
        exact ⟨sent', rfl, later, .inl ⟨rfl, code, rfl⟩⟩
      · rw [written, if_neg param] at read
        change psycopg ('%' :: d :: writes _ rest') = some sent at read
        rw [psycopg_percent] at read
        split at read
        · next same =>
            subst same
            rw [step_ordinary (onward s) (by decide), onward_onward] at read
            obtain ⟨sent', later, rfl⟩ := Option.map_eq_some_iff.mp read
            exact ⟨sent', rfl, later, .inr (.inl ⟨rfl, rfl⟩)⟩
        · obtain ⟨same, read⟩ := Option.ite_none_right_eq_some.mp read
          subst same
          rw [step_ordinary (onward s) (by decide), onward_onward] at read
          obtain ⟨sent', later, rfl⟩ := Option.map_eq_some_iff.mp read
          exact ⟨sent', rfl, later, .inr (.inr ⟨rfl, rfl⟩)⟩

/-- What is read begins as the statement does, as far as the character before it can tell. -/
theorem edge_reading {s : Scan} {sql : List Char} {sent : List Sent}
    (read : reading s sql = some sent) :
    edge (sent.head?.or none) = edge ((sql.map Sent.char).head?.or none) := by
  cases sql with
  | nil =>
      obtain rfl := Option.some.inj read
      rfl
  | cons c rest =>
      by_cases percent : c = '%'
      · subst percent
        obtain ⟨d, rest', sent', rfl, -, ⟨-, -, rfl⟩ | ⟨-, rfl⟩ | ⟨-, rfl⟩⟩ := reading_percent read
        · rfl
        · rfl
        · rfl
      · rw [reading_cons percent] at read
        obtain ⟨sent', -, rfl⟩ := Option.map_eq_some_iff.mp read
        rw [meant]
        split
        · next param =>
            obtain ⟨rfl, -⟩ := param
            rfl
        · rfl

/-! ## Percent signs -/

/-- There is no percent sign but pairs of them in comments. -/
def clean : List Mark → Bool
  | [] => true
  | [mark] => mark.1 ≠ .char '%'
  | mark :: next :: rest =>
      if mark.1 = .char '%' then
        mark.2 = .comment && next = (.char '%', .comment) && clean rest
      else clean (next :: rest)

theorem clean_cons {mark : Mark} (other : mark.1 ≠ .char '%') (rest : List Mark) :
    clean (mark :: rest) = clean rest := by
  cases rest with
  | nil => simp [clean, other]
  | cons next rest => rw [clean, if_neg other]

theorem clean_percent {mode : Mode} {rest : List Mark} :
    clean ((.char '%', mode) :: rest) = true ↔
      mode = .comment ∧ ∃ later, rest = (.char '%', .comment) :: later ∧ clean later = true := by
  cases rest with
  | nil => simp [clean]
  | cons next rest =>
      rw [clean, if_pos rfl, Bool.and_eq_true, Bool.and_eq_true, decide_eq_true_eq,
        decide_eq_true_eq, and_assoc]
      refine and_congr_right fun _ => ⟨fun ⟨same, later⟩ => ⟨rest, by rw [same], later⟩, ?_⟩
      rintro ⟨later, same, cleaned⟩
      obtain ⟨rfl, rfl⟩ := List.cons.inj same
      exact ⟨rfl, cleaned⟩

theorem squeeze_blank (rest : List Item) : squeeze .blank (squeeze .blank rest) = squeeze .blank rest := by
  cases rest with
  | nil => rfl
  | cons first rest =>
      by_cases blank : first = .blank
      · subst blank
        simp [squeeze]
      · simp [squeeze, blank]

theorem normal_cons (mark : Mark) (list : List Mark) :
    normal (mark :: list) = squeeze (item mark) (normal list) := rfl

theorem meant_of_percent (mode : Mode) : meant (.char '%', mode) = (.char '%', mode) := by
  simp [meant]

/-- A character is part of the same thing when it is read as when it was meant. -/
theorem step_meant (s : Scan) (c : Char) (next : Option Sent) :
    s.step (meant (.char c, (s.step (.char c) next).1)).1 next = s.step (.char c) next ∧
      meant (.char c, (s.step (.char c) next).1) =
        ((meant (.char c, (s.step (.char c) next).1)).1, (s.step (.char c) next).1) := by
  rw [meant]
  split
  · next param =>
      obtain ⟨rfl, code⟩ := param
      have one := step_ordinary s (c := .char '?') (by decide) next
      have other := step_ordinary s (c := .param) (by decide) next
      exact ⟨other.trans one.symm, by rw [code]⟩
  · exact ⟨rfl, rfl⟩

/-- What is read of a statement with no stray percent sign means the same. -/
theorem reads_of_clean {s : Scan} {sql : List Char}
    (cleaned : clean (scan none s (sql.map .char)) = true) :
    ∃ sent, reading s sql = some sent ∧
      normal (scan none s sent) = normal ((scan none s (sql.map .char)).map meant) := by
  induction size : sql.length using Nat.strong_induction_on generalizing s sql with
  | _ n ih =>
      cases sql with
      | nil => exact ⟨[], rfl, rfl⟩
      | cons c rest =>
          change clean ((.char c, _) :: scan none _ (rest.map .char)) = true at cleaned
          by_cases percent : c = '%'
          · subst percent
            rw [step_ordinary s percent_ordinary] at cleaned
            obtain ⟨comment, later, shape, cleaned⟩ := clean_percent.mp cleaned
            change mode s = .comment at comment
            cases rest with
            | nil => exact nomatch shape
            | cons d rest =>
                obtain ⟨same, rfl⟩ := List.cons.inj shape
                obtain ⟨same, comment'⟩ := Prod.mk.inj same
                obtain rfl := Sent.char.inj same
                rw [step_ordinary (onward s) percent_ordinary] at comment' cleaned
                change mode (onward s) = .comment at comment'
                change clean (scan none (onward (onward s)) _) = true at cleaned
                rw [onward_onward] at cleaned
                have shorter : rest.length < n := by
                  rw [← size]
                  exact Nat.lt_of_succ_lt (Nat.lt_succ_self _)
                obtain ⟨sent, read, same'⟩ := ih rest.length shorter cleaned rfl
                refine ⟨.char '%' :: sent, ?_, ?_⟩
                · rw [reading, writes_cons, step_ordinary s percent_ordinary, writes_cons,
                    step_ordinary (onward s) percent_ordinary, onward_onward]
                  change psycopg (written (.char '%', mode s) ++
                    (written (.char '%', mode (onward s)) ++ writes (onward s) rest)) = _
                  rw [comment, comment', written_comment]
                  change psycopg ('%' :: '%' :: writes (onward s) rest) = _
                  rw [psycopg_percent, if_neg (by decide), if_pos rfl]
                  exact congrArg (Option.map _) read
                · rw [List.map_cons, List.map_cons, scan_ordinary none s percent_ordinary,
                    scan_ordinary none s percent_ordinary,
                    scan_ordinary none (onward s) percent_ordinary, onward_onward, List.map_cons,
                    List.map_cons, normal_cons, normal_cons, normal_cons, same', meant_of_percent,
                    meant_of_percent, comment, comment']
                  exact (squeeze_blank _).symm
          · rw [clean_cons (by simpa using percent)] at cleaned
            obtain ⟨sent, read, same⟩ := ih rest.length (size ▸ Nat.lt_succ_self _) cleaned rfl
            refine ⟨_ :: sent, by rw [reading_cons percent, read]; rfl, ?_⟩
            obtain ⟨onwards, shape⟩ := step_meant s c ((rest.map Sent.char).head?.or none)
            rw [scan, step_edge s _ (edge_reading read), onwards, List.map_cons, scan, List.map_cons,
              shape, normal_cons, normal_cons, same]

/-! ## What goes wrong otherwise -/

/-- The statement without its blanks. -/
def solid (list : List Mark) : List Item :=
  (list.map item).filter (· ≠ .blank)

theorem solid_cons (mark : Mark) (list : List Mark) :
    solid (mark :: list) = if item mark = .blank then solid list else item mark :: solid list := by
  rw [solid, List.map_cons, List.filter_cons]
  by_cases blank : item mark = .blank <;> simp [blank, solid]

theorem solid_of_normal {list list' : List Mark} (same : normal list = normal list') :
    solid list = solid list' := by
  have kept : ∀ list, (normal list).filter (· ≠ .blank) = solid list := by
    intro list
    induction list with
    | nil => rfl
    | cons mark rest ih =>
        rw [normal_cons, solid_cons, ← ih, squeeze]
        by_cases blank : item mark = .blank
        · rw [if_pos blank]
          split <;> simp [blank]
        · rw [if_neg blank, if_neg (fun both => blank both.1)]
          simp [blank]
  rw [← kept, ← kept, same]

theorem solid_cancel {mark : Mark} {list list' : List Mark}
    (same : solid (mark :: list) = solid (mark :: list')) : solid list = solid list' := by
  rw [solid_cons, solid_cons] at same
  split at same
  · exact same
  · exact (List.cons.inj same).2

def isPercent : Item → Bool
  | .unit (.char c, _) => c = '%'
  | _ => false

/-- How many percent signs are in code or literals. -/
def percents (list : List Mark) : Nat :=
  (solid list).countP isPercent

theorem percents_cons (mark : Mark) (list : List Mark) :
    percents (mark :: list) = percents list + if isPercent (item mark) then 1 else 0 := by
  rw [percents, solid_cons]
  by_cases blank : item mark = .blank
  · rw [if_pos blank, blank]
    rfl
  · rw [if_neg blank, List.countP_cons]
    rfl

/-- The marks of a statement and of its reading, one character on. -/
theorem scan_reading {s : Scan} {c : Char} {rest : List Char} {sent : List Sent}
    (read : reading (s.step (.char c) ((rest.map Sent.char).head?.or none)).2 rest = some sent) :
    scan none s ((meant (.char c, (s.step (.char c) ((rest.map Sent.char).head?.or none)).1)).1 :: sent)
      = meant (.char c, (s.step (.char c) ((rest.map Sent.char).head?.or none)).1) ::
        scan none (s.step (.char c) ((rest.map Sent.char).head?.or none)).2 sent := by
  obtain ⟨onwards, shape⟩ := step_meant s c ((rest.map Sent.char).head?.or none)
  rw [scan, step_edge s _ (edge_reading read), onwards, ← shape]

/-- Reading never finds more percent signs than there are. -/
theorem percents_reading {s : Scan} {sql : List Char} {sent : List Sent}
    (read : reading s sql = some sent) :
    percents (scan none s sent) ≤ percents ((scan none s (sql.map .char)).map meant) := by
  induction size : sql.length using Nat.strong_induction_on generalizing s sql sent with
  | _ n ih =>
      cases sql with
      | nil =>
          obtain rfl := Option.some.inj read
          exact le_refl _
      | cons c rest =>
          by_cases percent : c = '%'
          · subst percent
            obtain ⟨d, rest, sent, rfl, later, kinds⟩ := reading_percent read
            have shorter : rest.length < n := by
              rw [← size]
              exact Nat.lt_of_succ_lt (Nat.lt_succ_self _)
            have fewer := ih rest.length shorter later rfl
            rw [List.map_cons, List.map_cons, scan_ordinary none s percent_ordinary, List.map_cons,
              percents_cons, meant_of_percent]
            obtain ⟨rfl, code, rfl⟩ | ⟨rfl, rfl⟩ | ⟨rfl, rfl⟩ := kinds
            · rw [scan_ordinary none s percent_ordinary, scan_ordinary none (onward s) (by decide),
                scan_ordinary none (onward s) (by decide), onward_onward, percents_cons,
                percents_cons, List.map_cons, percents_cons, code]
              exact Nat.add_le_add_right (Nat.add_le_add_right fewer _) _
            · rw [scan_ordinary none s (by decide), scan_ordinary none (onward s) (by decide),
                onward_onward, percents_cons, List.map_cons, percents_cons]
              refine le_trans (Nat.add_le_add_right fewer _) ?_
              exact le_trans (Nat.add_le_add_left (by cases mode s <;> exact Nat.zero_le _) _)
                (Nat.le_add_right _ _)
            · rw [scan_ordinary none s percent_ordinary,
                scan_ordinary none (onward s) percent_ordinary, onward_onward, percents_cons,
                List.map_cons, percents_cons]
              exact Nat.add_le_add_right (le_trans fewer (Nat.le_add_right _ _)) _
          · rw [reading_cons percent] at read
            obtain ⟨sent, later, rfl⟩ := Option.map_eq_some_iff.mp read
            rw [scan_reading later, List.map_cons, scan, List.map_cons, percents_cons, percents_cons]
            exact Nat.add_le_add_right (ih rest.length (size ▸ Nat.lt_succ_self _) later rfl) _

/-- A parameter that is meant is none in a comment. -/
theorem param_not_in_comment (list : List Mark) (chars : ∀ mark ∈ list, ∃ c, mark.1 = .char c) :
    Item.unit (.param, .comment) ∉ solid (list.map meant) := by
  intro inside
  obtain ⟨mapped, -⟩ := List.mem_filter.mp inside
  obtain ⟨mark', inside', same⟩ := List.mem_map.mp mapped
  obtain ⟨⟨x, mode⟩, known, rfl⟩ := List.mem_map.mp inside'
  obtain ⟨c, rfl⟩ := chars _ known
  rw [meant] at same
  split at same
  · exact nomatch same
  · cases mode <;> simp [item] at same
    split at same <;> exact nomatch same

theorem clean_of_reads {s : Scan} {sql : List Char} {sent : List Sent}
    (read : reading s sql = some sent)
    (same : solid (scan none s sent) = solid ((scan none s (sql.map .char)).map meant)) :
    clean (scan none s (sql.map .char)) = true := by
  induction size : sql.length using Nat.strong_induction_on generalizing s sql sent with
  | _ n ih =>
      cases sql with
      | nil => rfl
      | cons c rest =>
          by_cases percent : c = '%'
          · subst percent
            obtain ⟨d, rest, sent, rfl, later, kinds⟩ := reading_percent read
            have shorter : rest.length < n := by
              rw [← size]
              exact Nat.lt_of_succ_lt (Nat.lt_succ_self _)
            have marked : scan none s (('%' :: d :: rest).map Sent.char) =
                (.char '%', mode s) :: scan none (onward s) ((d :: rest).map .char) :=
              scan_ordinary none s percent_ordinary _
            have chars : ∀ mark ∈ scan none s (('%' :: d :: rest).map Sent.char), ∃ c, mark.1 = .char c := by
              intro mark inside
              have known := List.mem_map_of_mem (f := Prod.fst) inside
              rw [map_fst_scan] at known
              obtain ⟨c, -, same⟩ := List.mem_map.mp known
              exact ⟨c, same.symm⟩
            have none_in_comment := param_not_in_comment _ chars
            rw [marked] at same none_in_comment ⊢
            rw [List.map_cons, meant_of_percent] at same none_in_comment
            obtain ⟨rfl, code, rfl⟩ | ⟨rfl, rfl⟩ | ⟨rfl, rfl⟩ := kinds
            · rw [scan_ordinary none s percent_ordinary] at same
              have same := solid_cancel same
              rw [scan_ordinary none (onward s) (by decide), List.map_cons,
                scan_ordinary none (onward s) (by decide), List.map_cons, solid_cons, solid_cons,
                code] at same
              exact nomatch same
            · rw [scan_ordinary none s (by decide)] at same
              cases here : mode s with
              | comment =>
                  rw [here] at same none_in_comment
                  rw [← same, solid_cons] at none_in_comment
                  exact absurd List.mem_cons_self none_in_comment
              | code | literal =>
                  rw [here, solid_cons, solid_cons] at same
                  exact nomatch same
            · rw [scan_ordinary none s percent_ordinary] at same
              have same := solid_cancel same
              rw [List.map_cons, scan_ordinary none (onward s) percent_ordinary, onward_onward,
                List.map_cons, meant_of_percent] at same
              have fewer := percents_reading later
              have counted := congrArg (List.countP isPercent) same
              change percents _ = percents _ at counted
              cases there : mode (onward s) with
              | comment =>
                  rw [there, solid_cons] at same
                  have here : mode s = .comment := by
                    cases s <;> first | rfl | exact nomatch there
                  rw [List.map_cons, scan_ordinary none (onward s) percent_ordinary, onward_onward]
                  exact clean_percent.mpr
                    ⟨here, _, by rw [there], ih rest.length shorter later same rfl⟩
              | code | literal =>
                  rw [counted, percents_cons, there] at fewer
                  exact absurd fewer (Nat.not_succ_le_self _)
          · rw [reading_cons percent] at read
            obtain ⟨sent, later, rfl⟩ := Option.map_eq_some_iff.mp read
            rw [scan_reading later, List.map_cons, scan, List.map_cons] at same
            rw [List.map_cons, scan, clean_cons (by simpa using percent)]
            exact ih rest.length (size ▸ Nat.lt_succ_self _) later (solid_cancel same) rfl

/-- The driver reads what the scanner wrote as it is meant, unless a percent sign is in the way. -/
theorem reads_iff (sql : List Char) :
    (∃ sent, psycopg (placeholders sql) = some sent ∧ normal (marks sent) = normal ((marksOf sql).map meant)) ↔
      clean (marksOf sql) = true := by
  rw [placeholders_eq]
  constructor
  · rintro ⟨sent, read, same⟩
    exact clean_of_reads read (solid_of_normal same)
  · exact reads_of_clean

end LocalHarness.Dialect
