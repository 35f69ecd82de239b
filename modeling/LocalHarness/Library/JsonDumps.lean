import LocalHarness.Library.JsonText

/-! # Writing JSON

What `json.dumps` writes of a value is read back as that value, where the numbers in it are whole ones,
its texts have no halves of pairs and there is room for its arrays.
-/

namespace LocalHarness.Library.JsonText

/-- A digit of a number in hexadecimal. -/
def hexChar (n : Nat) : CodePoint :=
  if n < 10 then Fin.ofNat _ (0x30 + n) else Fin.ofNat _ (0x57 + n)

/-- `\uXXXX` -/
def unit (n : Nat) : Str :=
  [point '\\', point 'u', hexChar (n / 4096 % 16), hexChar (n / 256 % 16), hexChar (n / 16 % 16),
    hexChar (n % 16)]

/-- A character as `ensure_ascii` has it written. -/
def escaped (c : CodePoint) : Str :=
  if c = point '"' ∨ c = point '\\' then [point '\\', c]
  else if c = 10 then [point '\\', point 'n']
  else if c = 13 then [point '\\', point 'r']
  else if c = 9 then [point '\\', point 't']
  else if c = 12 then [point '\\', point 'f']
  else if c = 8 then [point '\\', point 'b']
  else if 0x20 ≤ c.val ∧ c.val ≤ 0x7E then [c]
  else if c.val < 0x10000 then unit c.val
  else
    unit (0xD800 + (c.val - 0x10000) / 0x400) ++ unit (0xDC00 + (c.val - 0x10000) % 0x400)

def quote (s : Str) : Str :=
  point '"' :: (s.flatMap escaped ++ [point '"'])

mutual

/-- `json.dumps` -/
def dumps : Json → Str
  | .null => text "null"
  | .bool true => text "true"
  | .bool false => text "false"
  | .number lexeme => lexeme
  | .string s => quote s
  | .array items => point '[' :: (dumpItems items ++ [point ']'])
  | .object members => point '\x7b' :: (dumpMembers members ++ [point '\x7d'])

def dumpItems : List Json → Str
  | [] => []
  | [item] => dumps item
  | item :: next :: rest => dumps item ++ text ", " ++ dumpItems (next :: rest)

def dumpMembers : List (Str × Json) → Str
  | [] => []
  | [(name, value)] => quote name ++ text ": " ++ dumps value
  | (name, value) :: next :: rest =>
      quote name ++ text ": " ++ dumps value ++ text ", " ++ dumpMembers (next :: rest)

end

/-- `str(n)` -/
def whole (n : Nat) : Str :=
  (Nat.toDigits 10 n).map point

example : dumps (.array [.number (whole 10), .bool true, .string (text "é\n")]) =
    text "[10, true, \"\\u00e9\\n\"]" := by decide

/-! ## Reading it back -/

variable {room : Nat} {scan : Scan} {stack : List Frame} {role : Role} {high : Bool} {done s s' : Str}
  {c : CodePoint} {n : Nat} {v : Json}

/-- The machine over a part of the text. -/
def read (room : Nat) (scan : Scan) (s : Str) : Except Refusal Scan :=
  s.foldlM (step room) scan

@[simp] theorem read_nil : read room scan [] = .ok scan := rfl

@[simp] theorem read_cons : read room scan (c :: s) = (step room scan c).bind (read room · s) := rfl

theorem read_append : read room scan (s ++ s') = (read room scan s).bind (read room · s') :=
  List.foldlM_append

theorem hexDigit_hexChar : ∀ k < 16, hexDigit (hexChar k) = some k := by decide

theorem read_unit (small : n < 0x10000) :
    read room ⟨.string role high done, stack⟩ (unit n) = .ok ⟨numbered role high done n, stack⟩ := by
  have digit (k : Nat) : hexDigit (hexChar (k % 16)) = some (k % 16) :=
    hexDigit_hexChar _ (Nat.mod_lt _ (by decide))
  have value : ((0 * 16 + n / 4096 % 16) * 16 + n / 256 % 16) * 16 + n / 16 % 16 = n / 16 := by omega
  have quotes : point '\\' ≠ point '"' := by decide
  simp only [unit, read_cons, read_nil, step, if_neg quotes, if_true, Except.bind, digit,
    Nat.reduceLeDiff, if_false, Nat.reduceSub, Nat.le_refl, value]
  rw [Nat.div_add_mod']

/-- A character that is no half of a pair. -/
theorem numbered_plain (plain : c.isSurrogate = false) :
    numbered role false done c.val = .string role false (c :: done) := by
  have apart : ¬ (0xD800 ≤ c.val ∧ c.val ≤ 0xDBFF) := fun inside => by
    simp only [CodePoint.isSurrogate, Bool.and_eq_false_iff, decide_eq_false_iff_not] at plain
    omega
  have same : Fin.ofNat _ c.val = c := Fin.ofNat_val_eq_self c
  change Mode.string role (0xD800 ≤ c.val && c.val ≤ 0xDBFF) (Fin.ofNat _ c.val :: done) = _
  rw [← Bool.decide_and, decide_eq_false apart, same]

/-- Both halves of a pair. -/
theorem numbered_pair (wide : 0x10000 ≤ c.val) :
    numbered role false done (0xD800 + (c.val - 0x10000) / 0x400) =
        .string role true (Fin.ofNat _ (0xD800 + (c.val - 0x10000) / 0x400) :: done) ∧
      numbered role true (Fin.ofNat _ (0xD800 + (c.val - 0x10000) / 0x400) :: done)
          (0xDC00 + (c.val - 0x10000) % 0x400) = .string role false (c :: done) := by
  have below := c.isLt
  have first : 0xD800 ≤ 0xD800 + (c.val - 0x10000) / 0x400 ∧
      0xD800 + (c.val - 0x10000) / 0x400 ≤ 0xDBFF := by omega
  have second : 0xDC00 ≤ 0xDC00 + (c.val - 0x10000) % 0x400 ∧
      0xDC00 + (c.val - 0x10000) % 0x400 ≤ 0xDFFF := by omega
  constructor
  · change Mode.string role (0xD800 ≤ _ && _ ≤ 0xDBFF) _ = _
    rw [← Bool.decide_and, decide_eq_true first]
  · have half : (Fin.ofNat 0x110000 (0xD800 + (c.val - 0x10000) / 0x400)).val =
        0xD800 + (c.val - 0x10000) / 0x400 := Nat.mod_eq_of_lt (by omega)
    have joined : 0x10000 + (0xD800 + (c.val - 0x10000) / 0x400 - 0xD800) * 0x400 +
        (0xDC00 + (c.val - 0x10000) % 0x400 - 0xDC00) = c.val := by omega
    have same : Fin.ofNat _ c.val = c := Fin.ofNat_val_eq_self c
    simp only [numbered, if_pos second, half, joined, same]

theorem read_escaped (plain : c.isSurrogate = false) :
    read room ⟨.string role false done, stack⟩ (escaped c) =
      .ok ⟨.string role false (c :: done), stack⟩ := by
  unfold escaped
  split
  next special =>
    rcases special with rfl | rfl <;> rfl
  next other =>
    split
    next same => subst same; rfl
    split
    next same => subst same; rfl
    split
    next same => subst same; rfl
    split
    next same => subst same; rfl
    split
    next same => subst same; rfl
    obtain ⟨quotes, slash⟩ := not_or.mp other
    split
    next printed =>
      have control : ¬ c.val < 0x20 := Nat.not_lt_of_le printed.1
      simp only [read_cons, read_nil, step, if_neg quotes, if_neg slash, if_neg control, Except.bind]
    split
    next small => rw [read_unit small, numbered_plain plain]
    next wide =>
      have wide := Nat.le_of_not_lt wide
      have below := c.isLt
      rw [read_append, read_unit (by omega), Except.bind, (numbered_pair wide).1, read_unit (by omega),
        (numbered_pair wide).2]

/-- A text is read up to the quotes that end it. -/
theorem read_chars (plain : ∀ c ∈ s, c.isSurrogate = false) :
    read room ⟨.string role false done, stack⟩ (s.flatMap escaped) =
      .ok ⟨.string role false (s.reverse ++ done), stack⟩ := by
  induction s generalizing done with
  | nil => rfl
  | cons c rest ih =>
      obtain ⟨here, later⟩ := List.forall_mem_cons.mp plain
      rw [List.flatMap_cons, read_append, read_escaped here, Except.bind, ih later,
        List.reverse_cons, List.append_assoc, List.singleton_append]

/-! ### Numbers -/

theorem isDigit_digitChar : ∀ k < 10, (point k.digitChar).isDigit = true := by decide

theorem whole_of_lt (small : n < 10) : whole n = [point n.digitChar] := by
  rw [whole, Nat.toDigits_of_lt_base small, List.map_singleton]

theorem whole_of_le (large : 10 ≤ n) : whole n = whole (n / 10) ++ [point (n % 10).digitChar] := by
  rw [whole, whole, Nat.toDigits_of_base_le (by decide) large, List.map_append, List.map_singleton]

theorem isDigit_of_mem_whole : ∀ c ∈ whole n, c.isDigit = true := by
  induction n using Nat.strong_induction_on with
  | _ n ih =>
      intro c member
      rcases Nat.lt_or_ge n 10 with small | large
      · rw [whole_of_lt small, List.mem_singleton] at member
        exact member ▸ isDigit_digitChar n small
      · rw [whole_of_le large, List.mem_append, List.mem_singleton] at member
        rcases member with before | rfl
        · exact ih (n / 10) (by omega) c before
        · exact isDigit_digitChar _ (Nat.mod_lt _ (by decide))

theorem begin_digit : ∀ k < 10, 0 < k →
    begin_ room (point k.digitChar) stack = .ok ⟨.number .whole [point k.digitChar], stack⟩
  | 1, _, _ | 2, _, _ | 3, _, _ | 4, _, _ | 5, _, _ | 6, _, _ | 7, _, _ | 8, _, _ | 9, _, _ => rfl

theorem step_digit (digit : c.isDigit = true) :
    step room ⟨.number .whole done, stack⟩ c = .ok ⟨.number .whole (c :: done), stack⟩ := by
  simp only [step, reduceCtorEq, false_and, if_false, Digits.next, digit, if_true]

theorem read_whole (positive : 0 < n) :
    read room ⟨.value, stack⟩ (whole n) = .ok ⟨.number .whole (whole n).reverse, stack⟩ := by
  induction n using Nat.strong_induction_on with
  | _ n ih =>
      rcases Nat.lt_or_ge n 10 with small | large
      · have solid : isSpace (point n.digitChar) = false := by
          have each : ∀ k < 10, isSpace (point k.digitChar) = false := by decide
          exact each n small
        rw [whole_of_lt small, read_cons]
        simp only [step, solid, Bool.false_eq_true, if_false, begin_digit n small positive]
        rfl
      · rw [whole_of_le large, read_append, ih (n / 10) (by omega) (by omega), Except.bind, read_cons,
          step_digit (isDigit_digitChar _ (Nat.mod_lt _ (by decide))), List.reverse_append]
        rfl

/-! ### Values -/

/-- What is returned of the machine that has read all. -/
def ended (scan : Scan) : Except Refusal Json :=
  match scan.mode, scan.stack with
  | .ended value, _ => .ok value
  | .number digits read, [] => (digits.number? read).elim (.error .notJson) .ok
  | _, _ => .error .notJson

theorem loads_eq : loads room s = (read room ⟨.value, []⟩ s).bind ended := rfl

/-- A value has been read: what may follow one is taken so. -/
structure Complete (room : Nat) (stack : List Frame) (v : Json) (scan : Scan) : Prop where
  follows : ∀ c, c = point ',' ∨ c = point ']' → step room scan c = follow c (finish v stack)
  ends : stack = [] → ended scan = .ok v

theorem complete_finish : Complete room stack v (finish v stack) := by
  cases stack with
  | nil => exact ⟨fun c _ => rfl, fun _ => rfl⟩
  | cons frame rest => cases frame <;> exact ⟨fun c _ => rfl, nofun⟩

/-- The values that are written so that they can be read, with `depth` arrays in one another. -/
inductive Plain : Nat → Json → Prop
  | null {depth} : Plain depth .null
  | bool {depth} (b : Bool) : Plain depth (.bool b)
  | number {depth} {n : Nat} (short : (whole n).length ≤ MAX_DIGITS) : Plain depth (.number (whole n))
  | string {depth} {s : Str} (plain : ∀ c ∈ s, c.isSurrogate = false) : Plain depth (.string s)
  | array {depth} {items : List Json} (each : ∀ v ∈ items, Plain depth v) : Plain (depth + 1) (.array items)

theorem complete_whole (short : (whole n).length ≤ MAX_DIGITS) :
    ∃ scan, read room ⟨.value, stack⟩ (whole n) = .ok scan ∧
      Complete room stack (.number (whole n)) scan := by
  rcases Nat.eq_zero_or_pos n with rfl | positive
  · refine ⟨⟨.number .zero [point '0'], stack⟩, rfl, ?_, fun none => by subst none; rfl⟩
    rintro c (rfl | rfl) <;> rfl
  · refine ⟨_, read_whole positive, ?_, ?_⟩
    · have value : Digits.whole.number? (whole n).reverse = some (.number (whole n)) := by
        have few : (whole n).reverse.countP CodePoint.isDigit ≤ MAX_DIGITS :=
          List.countP_le_length.trans (by rwa [List.length_reverse])
        rw [Digits.number?, if_pos few, List.reverse_reverse]
      have other : ∀ c, c = point ',' ∨ c = point ']' → Digits.whole.next c = none := by
        rintro c (rfl | rfl) <;> rfl
      intro c mark
      simp only [step, reduceCtorEq, false_and, if_false, other c mark, value]
    · rintro rfl
      have few : (whole n).reverse.countP CodePoint.isDigit ≤ MAX_DIGITS :=
        List.countP_le_length.trans (by rwa [List.length_reverse])
      simp only [ended, Digits.number?, if_pos few, List.reverse_reverse, Option.elim]

theorem complete_string (plain : ∀ c ∈ s, c.isSurrogate = false) :
    ∃ scan, read room ⟨.value, stack⟩ (quote s) = .ok scan ∧ Complete room stack (.string s) scan := by
  have opening : step room ⟨.value, stack⟩ (point '"') = .ok ⟨.string .value false [], stack⟩ := rfl
  refine ⟨finish (.string s) stack, ?_, complete_finish⟩
  rw [quote, read_cons, opening, Except.bind, read_append, read_chars plain, Except.bind,
    List.append_nil, read_cons]
  change Except.ok (finish (.string s.reverse.reverse) stack) = _
  rw [List.reverse_reverse]

/-- A value does not begin with what could stand in its place. -/
theorem dumps_head {depth : Nat} (plain : Plain depth v) :
    ∃ c rest, dumps v = c :: rest ∧ isSpace c = false ∧ c ≠ point ']' := by
  cases plain with
  | null => exact ⟨point 'n', _, rfl, rfl, by decide⟩
  | bool b => cases b <;> exact ⟨_, _, rfl, rfl, by decide⟩
  | number short =>
      rename_i n
      cases shape : whole n with
      | nil => exact absurd (List.map_eq_nil_iff.mp shape) Nat.toDigits_ne_nil
      | cons c rest =>
          have digit := isDigit_of_mem_whole c (shape ▸ List.mem_cons_self)
          refine ⟨c, rest, by rw [dumps], ?_, ?_⟩
          · by_contra space
            simp only [Bool.not_eq_false, isSpace, Bool.or_eq_true, decide_eq_true_eq] at space
            rcases space with ((rfl | rfl) | rfl) | rfl <;> cases digit
          · rintro rfl
            cases digit
  | string => exact ⟨point '"', _, by rw [dumps, quote], rfl, by decide⟩
  | array => exact ⟨point '[', _, by rw [dumps], rfl, by decide⟩

theorem read_items {items : List Json} {done : List Json} (some_ : items ≠ [])
    (each : ∀ v ∈ items, ∀ done, ∃ scan, read room ⟨.value, .array done :: stack⟩ (dumps v) = .ok scan ∧
      Complete room (.array done :: stack) v scan) :
    read room ⟨.value, .array done :: stack⟩ (dumpItems items ++ [point ']']) =
      .ok (finish (.array (done.reverse ++ items)) stack) := by
  induction items generalizing done with
  | nil => exact absurd rfl some_
  | cons item rest ih =>
      obtain ⟨here, later⟩ := List.forall_mem_cons.mp each
      obtain ⟨scan, first, complete⟩ := here done
      cases rest with
      | nil =>
          rw [dumpItems, read_append, first, Except.bind, read_cons, complete.follows _ (.inr rfl)]
          change Except.ok (finish (.array (item :: done).reverse) stack) = _
          rw [List.reverse_cons]
      | cons next rest =>
          have comma : step room scan (point ',') = .ok ⟨.value, .array (item :: done) :: stack⟩ :=
            complete.follows _ (.inl rfl)
          have blank : step room ⟨.value, .array (item :: done) :: stack⟩ (point ' ') =
              .ok ⟨.value, .array (item :: done) :: stack⟩ := rfl
          have gap : text ", " = [point ',', point ' '] := rfl
          rw [dumpItems, gap, List.append_assoc, List.append_assoc, read_append, first, Except.bind,
            List.cons_append, read_cons, comma, Except.bind, List.cons_append, read_cons, blank,
            Except.bind, List.nil_append, ih (List.cons_ne_nil _ _) later, List.reverse_cons,
            List.append_assoc, List.singleton_append]

theorem read_dumps {depth : Nat} (plain : Plain depth v) (fits : stack.length + depth ≤ room) :
    ∃ scan, read room ⟨.value, stack⟩ (dumps v) = .ok scan ∧ Complete room stack v scan := by
  induction plain generalizing stack with
  | null => exact ⟨finish .null stack, rfl, complete_finish⟩
  | bool b => cases b <;> exact ⟨finish (.bool _) stack, rfl, complete_finish⟩
  | number short => exact complete_whole short
  | string plain => exact complete_string plain
  | array each ih =>
      rename_i depth items
      refine ⟨finish (.array items) stack, ?_, complete_finish⟩
      have opening : step room ⟨.value, stack⟩ (point '[') =
          .ok ⟨.valueOrEnd, .array [] :: stack⟩ := by
        change opened room .valueOrEnd (.array []) stack = _
        rw [opened, if_pos (by omega)]
      rw [dumps, read_cons, opening, Except.bind]
      cases items with
      | nil => rfl
      | cons item rest =>
          -- the first item is read as if one were due
          obtain ⟨c, more, shape, solid, other⟩ := dumps_head (each item List.mem_cons_self)
          have begins : ∃ more, dumpItems (item :: rest) ++ [point ']'] = c :: more := by
            cases rest <;> exact ⟨_, by rw [dumpItems, shape]; rfl⟩
          obtain ⟨more, begins⟩ := begins
          have same : step room ⟨.valueOrEnd, .array [] :: stack⟩ c =
              step room ⟨.value, .array [] :: stack⟩ c := by
            simp only [step, solid, Bool.false_eq_true, if_false, if_neg other]
          have run : read room ⟨.value, .array [] :: stack⟩ (dumpItems (item :: rest) ++ [point ']']) =
              .ok (finish (.array (item :: rest)) stack) :=
            read_items (List.cons_ne_nil item rest) fun v member done =>
              ih v member (by rw [List.length_cons]; omega)
          rw [begins, read_cons] at run ⊢
          rw [same, run]

/-! ## What it is written with -/

/-- A character that stands on a line, with nothing above ASCII. -/
def Printable (c : CodePoint) : Prop :=
  0x20 ≤ c.val ∧ c.val ≤ 0x7E

instance : Decidable (Printable c) :=
  inferInstanceAs (Decidable (0x20 ≤ c.val ∧ c.val ≤ 0x7E))

theorem printable_unit : ∀ c ∈ unit n, Printable c := by
  have digit : ∀ k < 16, Printable (hexChar k) := by decide
  have each (k : Nat) : Printable (hexChar (k % 16)) := digit _ (Nat.mod_lt _ (by decide))
  have slash : Printable (point '\\') := by decide
  have letter : Printable (point 'u') := by decide
  simp only [unit, List.forall_mem_cons, List.not_mem_nil, false_implies, implies_true, and_true]
  exact ⟨slash, letter, each _, each _, each _, each _⟩

theorem printable_escaped : ∀ d ∈ escaped c, Printable d := by
  have pair : ∀ c, Printable c → ∀ d ∈ [point '\\', c], Printable d := fun c here =>
    List.forall_mem_cons.mpr ⟨by decide, List.forall_mem_singleton.mpr here⟩
  unfold escaped
  split
  next special => rcases special with rfl | rfl <;> exact pair _ (by decide)
  split
  · exact pair _ (by decide)
  split
  · exact pair _ (by decide)
  split
  · exact pair _ (by decide)
  split
  · exact pair _ (by decide)
  split
  · exact pair _ (by decide)
  split
  next printed => exact List.forall_mem_singleton.mpr printed
  split
  · exact printable_unit
  · exact List.forall_mem_append.mpr ⟨printable_unit, printable_unit⟩

theorem printable_of_isDigit (digit : c.isDigit = true) : Printable c := by
  simp only [CodePoint.isDigit, Bool.and_eq_true, decide_eq_true_eq] at digit
  exact ⟨by omega, by omega⟩

theorem printable_dumps {depth : Nat} (plain : Plain depth v) : ∀ c ∈ dumps v, Printable c := by
  induction plain with
  | null =>
      have each : ((dumps .null).all fun c => Printable c) = true := by decide
      exact fun c member => of_decide_eq_true (List.all_eq_true.mp each c member)
  | bool b =>
      have each : ((dumps (.bool b)).all fun c => Printable c) = true := by cases b <;> decide
      exact fun c member => of_decide_eq_true (List.all_eq_true.mp each c member)
  | number short =>
      rw [dumps]
      exact fun c member => printable_of_isDigit (isDigit_of_mem_whole c member)
  | string plain =>
      rw [dumps, quote]
      refine List.forall_mem_cons.mpr ⟨by decide, List.forall_mem_append.mpr
        ⟨fun c member => ?_, List.forall_mem_singleton.mpr (by decide)⟩⟩
      obtain ⟨d, -, inside⟩ := List.mem_flatMap.mp member
      exact printable_escaped c inside
  | array each ih =>
      rename_i depth items
      rw [dumps]
      refine List.forall_mem_cons.mpr ⟨by decide, List.forall_mem_append.mpr
        ⟨?_, List.forall_mem_singleton.mpr (by decide)⟩⟩
      clear each
      induction items with
      | nil => exact List.forall_mem_nil _
      | cons item rest inner =>
          obtain ⟨here, later⟩ := List.forall_mem_cons.mp ih
          cases rest with
          | nil => exact here
          | cons next rest =>
              have gap : ∀ c ∈ [point ',', point ' '], Printable c :=
                List.forall_mem_cons.mpr ⟨by decide, List.forall_mem_singleton.mpr (by decide)⟩
              rw [dumpItems]
              exact List.forall_mem_append.mpr ⟨List.forall_mem_append.mpr ⟨here, gap⟩, inner later⟩

/-- What is written is read back. -/
theorem loads_dumps {depth : Nat} (plain : Plain depth v) (fits : depth ≤ room) :
    loads room (dumps v) = .ok v := by
  obtain ⟨scan, run, complete⟩ : ∃ scan, read room ⟨.value, []⟩ (dumps v) = .ok scan ∧
      Complete room [] v scan := read_dumps plain (by rwa [List.length_nil, Nat.zero_add])
  rw [loads_eq, run, Except.bind, complete.ends rfl]

end LocalHarness.Library.JsonText
