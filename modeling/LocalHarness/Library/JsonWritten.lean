import LocalHarness.Library.JsonDumps

/-! # Writing JSON in other letters

What is written of a value, whichever characters are written by their numbers, is read back as that value
where there is room for its arrays and objects, and is refused where there is none.
-/

namespace LocalHarness.Library.JsonText

/-- A character that is written as it is, unless JSON requires an escape. -/
def plainly (c : CodePoint) : Str :=
  if c.val < 0x20 then escaped c
  else if c = point '"' ∨ c = point '\\' then [point '\\', c]
  else [c]

section

variable (esc : CodePoint → Str)

def quoteWith (s : Str) : Str :=
  point '"' :: (s.flatMap esc ++ [point '"'])

mutual

/-- `json.dumps`, of which `esc` is what it writes of a character. -/
def dumpsWith : Json → Str
  | .null => text "null"
  | .bool true => text "true"
  | .bool false => text "false"
  | .number lexeme => lexeme
  | .string s => quoteWith esc s
  | .array items => point '[' :: (dumpItemsWith items ++ [point ']'])
  | .object members => point '\x7b' :: (dumpMembersWith members ++ [point '\x7d'])

def dumpItemsWith : List Json → Str
  | [] => []
  | [item] => dumpsWith item
  | item :: next :: rest => dumpsWith item ++ text ", " ++ dumpItemsWith (next :: rest)

def dumpMembersWith : List (Str × Json) → Str
  | [] => []
  | [(name, value)] => quoteWith esc name ++ text ": " ++ dumpsWith value
  | (name, value) :: next :: rest =>
      quoteWith esc name ++ text ": " ++ dumpsWith value ++ text ", " ++ dumpMembersWith (next :: rest)

end

end

/-! ## What a value holds -/

mutual

/-- How many arrays and objects are in one another. -/
def depth : Json → Nat
  | .array items => depthItems items + 1
  | .object members => depthMembers members + 1
  | _ => 0

def depthItems : List Json → Nat
  | [] => 0
  | item :: rest => max (depth item) (depthItems rest)

def depthMembers : List (Str × Json) → Nat
  | [] => 0
  | (_, value) :: rest => max (depth value) (depthMembers rest)

end

mutual

/-- The characters of its strings and names. -/
def letters : Json → Str
  | .string s => s
  | .array items => lettersItems items
  | .object members => lettersMembers members
  | _ => []

def lettersItems : List Json → Str
  | [] => []
  | item :: rest => letters item ++ lettersItems rest

def lettersMembers : List (Str × Json) → Str
  | [] => []
  | (name, value) :: rest => name ++ letters value ++ lettersMembers rest

end

/-- What the first character makes of a number. -/
def Digits.first (c : CodePoint) : Option Digits :=
  if c = point '-' then some .minus else if c = point '0' then some .zero
  else if c.isDigit then some .whole else none

/-- How far a text is that of a number. -/
def numeral : Str → Option Digits
  | [] => none
  | c :: rest => (Digits.first c).bind fun digits => rest.foldlM (fun digits c => digits.next c) digits

/-- The text of a number, an integer of no more digits than are read. -/
def Numeral (lexeme : Str) : Prop :=
  ∃ digits, numeral lexeme = some digits ∧ digits.number? lexeme.reverse = some (.number lexeme)

/-- The values of JSON: each of its numbers is one. -/
inductive Sound : Json → Prop
  | null : Sound .null
  | bool (b : Bool) : Sound (.bool b)
  | number {lexeme : Str} (valid : Numeral lexeme) : Sound (.number lexeme)
  | string (s : Str) : Sound (.string s)
  | array {items : List Json} (each : ∀ v ∈ items, Sound v) : Sound (.array items)
  | object {members : List (Str × Json)} (each : ∀ m ∈ members, Sound m.2) : Sound (.object members)

example : dumpsWith plainly (.object [(text "é", .string (text "\t"))]) =
    text "\x7b\"é\": \"\\t\"\x7d" := by decide

variable {room : Nat} {scan scan' : Scan} {stack : List Frame} {role : Role} {done s s' lexeme : Str}
  {c : CodePoint} {v : Json} {esc : CodePoint → Str} {digits digits' : Digits}

/-! ## Numbers -/

theorem step_next {more : Digits} (next : digits.next c = some more) :
    step room ⟨.number digits done, stack⟩ c = .ok ⟨.number more (c :: done), stack⟩ := by
  have other : ¬ (digits = .minus ∧ c = point 'I') := by
    rintro ⟨rfl, rfl⟩
    cases next
  simp only [step, if_neg other, next]

theorem read_digits (rest : s.foldlM (fun digits c => digits.next c) digits = some digits') :
    read room ⟨.number digits done, stack⟩ s = .ok ⟨.number digits' (s.reverse ++ done), stack⟩ := by
  induction s generalizing digits done with
  | nil =>
      obtain rfl := Option.some.inj rest
      rfl
  | cons c s ih =>
      rw [List.foldlM_cons] at rest
      obtain ⟨more, next, later⟩ := Option.bind_eq_some_iff.mp rest
      rw [read_cons, step_next next, Except.bind, ih later, List.reverse_cons, List.append_assoc,
        List.singleton_append]

/-- A number does not begin with what could stand in its place. -/
theorem begin_first (room : Nat) (stack : List Frame) (first : Digits.first c = some digits) :
    isSpace c = false ∧ c ≠ point ']' ∧ begin_ room c stack = .ok ⟨.number digits [c], stack⟩ := by
  unfold Digits.first at first
  split_ifs at first with minus zero digit
  · obtain rfl := Option.some.inj first
    subst minus
    exact ⟨rfl, by decide, rfl⟩
  · obtain rfl := Option.some.inj first
    subst zero
    exact ⟨rfl, by decide, rfl⟩
  · obtain rfl := Option.some.inj first
    have apart : ∀ other : CodePoint, other.isDigit = false → c ≠ other := by
      rintro other plain rfl
      cases plain.symm.trans digit
    refine ⟨?_, apart _ rfl, ?_⟩
    · simp only [isSpace, Bool.or_eq_false_iff, decide_eq_false_iff_not]
      exact ⟨⟨⟨apart _ rfl, apart _ rfl⟩, apart _ rfl⟩, apart _ rfl⟩
    · simp only [begin_, if_neg (apart (point '"') rfl), if_neg (apart (point '\x7b') rfl), if_neg (apart (point '[') rfl),
        if_neg (apart (point 'n') rfl), if_neg (apart (point 't') rfl), if_neg (apart (point 'f') rfl),
        if_neg (apart (point 'N') rfl), if_neg (apart (point 'I') rfl), if_neg minus, if_neg zero, if_pos digit]

theorem read_numeral (valid : numeral lexeme = some digits) :
    read room ⟨.value, stack⟩ lexeme = .ok ⟨.number digits lexeme.reverse, stack⟩ := by
  cases lexeme with
  | nil => cases valid
  | cons c rest =>
      obtain ⟨start, first, later⟩ := Option.bind_eq_some_iff.mp valid
      obtain ⟨solid, -, begins⟩ := begin_first room stack first
      have here : step room ⟨.value, stack⟩ c = begin_ room c stack := by
        simp only [step, solid, Bool.false_eq_true, if_false]
      rw [read_cons, here, begins, Except.bind, read_digits later, List.reverse_cons]

/-! ## A value that has been read -/

/-- What may follow a value is taken so, and the text may end there. -/
structure Taken (room : Nat) (stack : List Frame) (v : Json) (scan : Scan) : Prop where
  follows : ∀ c ∈ [point ',', point ']', point '\x7d'], step room scan c = follow c (finish v stack)
  ends : stack = [] → ended scan = .ok v

theorem taken_finish : Taken room stack v (finish v stack) := by
  cases stack with
  | nil => exact ⟨fun c _ => rfl, fun _ => rfl⟩
  | cons frame rest => cases frame <;> exact ⟨fun c _ => rfl, fun none => by cases none⟩

theorem taken_number (valid : Numeral lexeme) : ∃ scan, read room ⟨.value, stack⟩ lexeme = .ok scan ∧
    Taken room stack (.number lexeme) scan := by
  obtain ⟨digits, whole, value⟩ := valid
  refine ⟨_, read_numeral whole, fun c mark => ?_, ?_⟩
  · have mark : digits.next c = none ∧ c ≠ point 'I' := by
      rcases List.mem_cons.mp mark with rfl | mark
      · cases digits <;> exact ⟨rfl, by decide⟩
      rcases List.mem_cons.mp mark with rfl | mark
      · cases digits <;> exact ⟨rfl, by decide⟩
      obtain rfl := List.mem_singleton.mp mark
      cases digits <;> exact ⟨rfl, by decide⟩
    have other : ¬ (digits = .minus ∧ c = point 'I') := fun both => mark.2 both.2
    simp only [step, if_neg other, mark.1, value]
  · rintro rfl
    simp only [ended, value, Option.elim]

/-! ## Strings -/

/-- What is written of a character is read as that character. -/
def Reads (esc : CodePoint → Str) : Prop :=
  ∀ room stack role done c, read room ⟨.string role false done, stack⟩ (esc c) =
    .ok ⟨.string role false (c :: done), stack⟩

theorem reads_plainly : Reads plainly := by
  intro room stack role done c
  unfold plainly
  split
  next control =>
    have plain : c.isSurrogate = false := by
      simp only [CodePoint.isSurrogate, Bool.and_eq_false_iff, decide_eq_false_iff_not]
      omega
    exact read_escaped plain
  next control =>
    split
    next special => rcases special with rfl | rfl <;> rfl
    next other =>
      obtain ⟨quotes, slash⟩ := not_or.mp other
      simp only [read_cons, read_nil, step, if_neg quotes, if_neg slash, if_neg control, Except.bind]

theorem Reads.chars (reads : Reads esc) : read room ⟨.string role false done, stack⟩ (s.flatMap esc) =
    .ok ⟨.string role false (s.reverse ++ done), stack⟩ := by
  induction s generalizing done with
  | nil => rfl
  | cons c rest ih =>
      rw [List.flatMap_cons, read_append, reads, Except.bind, ih, List.reverse_cons, List.append_assoc,
        List.singleton_append]

theorem Reads.string (reads : Reads esc) :
    read room ⟨.value, stack⟩ (quoteWith esc s) = .ok (finish (.string s) stack) := by
  have opening : step room ⟨.value, stack⟩ (point '"') = .ok ⟨.string .value false [], stack⟩ := rfl
  rw [quoteWith, read_cons, opening, Except.bind, read_append, reads.chars, Except.bind, List.append_nil,
    read_cons]
  change Except.ok (finish (.string s.reverse.reverse) stack) = _
  rw [List.reverse_reverse]

/-- A name and the colon after it. -/
theorem Reads.name {members : List (Str × Json)} {before : Str} (reads : Reads esc) :
    read room ⟨.name, .object members before :: stack⟩ (quoteWith esc s ++ text ": ") =
      .ok ⟨.value, .object members s :: stack⟩ := by
  have opening : step room ⟨.name, .object members before :: stack⟩ (point '"') =
      .ok ⟨.string .name false [], .object members before :: stack⟩ := rfl
  have colon : text ": " = [point ':', point ' '] := rfl
  rw [quoteWith, List.cons_append, read_cons, opening, Except.bind, List.append_assoc, read_append, reads.chars,
    Except.bind, List.append_nil, colon]
  change Except.ok (⟨.value, .object members s.reverse.reverse :: stack⟩ : Scan) = _
  rw [List.reverse_reverse]

/-! ## Arrays and objects -/

/-- A value does not begin with what could stand in its place. -/
theorem dumpsWith_head (esc : CodePoint → Str) (sound : Sound v) :
    ∃ c rest, dumpsWith esc v = c :: rest ∧ isSpace c = false ∧ c ≠ point ']' := by
  cases sound with
  | null => exact ⟨point 'n', _, rfl, rfl, by decide⟩
  | bool b => cases b <;> exact ⟨_, _, rfl, rfl, by decide⟩
  | @number lexeme valid =>
      obtain ⟨digits, whole, -⟩ := valid
      cases lexeme with
      | nil => cases whole
      | cons c rest =>
          obtain ⟨start, first, -⟩ := Option.bind_eq_some_iff.mp whole
          obtain ⟨solid, other, -⟩ := begin_first 0 [] first
          exact ⟨c, rest, by rw [dumpsWith], solid, other⟩
  | string => exact ⟨point '"', _, by rw [dumpsWith, quoteWith], rfl, by decide⟩
  | array => exact ⟨point '[', _, by rw [dumpsWith], rfl, by decide⟩
  | object => exact ⟨point '\x7b', _, by rw [dumpsWith], rfl, by decide⟩

/-- A value is taken where there is room for it, and refused for its depth where there is none. -/
structure Parsed (esc : CodePoint → Str) (room : Nat) (v : Json) : Prop where
  fits : ∀ stack : List Frame, stack.length + depth v ≤ room →
    ∃ scan, read room ⟨.value, stack⟩ (dumpsWith esc v) = .ok scan ∧ Taken room stack v scan
  deep : ∀ stack : List Frame, stack.length ≤ room → room < stack.length + depth v →
    read room ⟨.value, stack⟩ (dumpsWith esc v) = .error .tooDeep

theorem read_comma {frame : Frame} (taken : Taken room (frame :: stack) v scan)
    (next : follow (point ',') (finish v (frame :: stack)) = .ok scan')
    (blank : step room scan' (point ' ') = .ok scan') :
    read room scan (text ", " ++ s) = read room scan' s := by
  have gap : text ", " = [point ',', point ' '] := rfl
  rw [gap, List.cons_append, read_cons, taken.follows _ List.mem_cons_self, next, Except.bind,
    List.cons_append, read_cons, blank, Except.bind, List.nil_append]

theorem read_comma_item {items : List Json} (taken : Taken room (.array items :: stack) v scan) :
    read room scan (text ", " ++ s) = read room ⟨.value, .array (v :: items) :: stack⟩ s :=
  read_comma taken rfl rfl

theorem read_comma_member {members : List (Str × Json)} {name : Str}
    (taken : Taken room (.object members name :: stack) v scan) :
    read room scan (text ", " ++ s) = read room ⟨.name, .object ((name, v) :: members) name :: stack⟩ s :=
  read_comma taken rfl rfl

theorem read_itemsWith {items done : List Json} (some_ : items ≠ []) (each : ∀ v ∈ items, Parsed esc room v)
    (fits : stack.length + 1 + depthItems items ≤ room) :
    read room ⟨.value, .array done :: stack⟩ (dumpItemsWith esc items ++ [point ']']) =
      .ok (finish (.array (done.reverse ++ items)) stack) := by
  induction items generalizing done with
  | nil => exact absurd rfl some_
  | cons item rest ih =>
      obtain ⟨here, later⟩ := List.forall_mem_cons.mp each
      rw [depthItems] at fits
      obtain ⟨scan, first, taken⟩ := here.fits (.array done :: stack) (by rw [List.length_cons]; omega)
      cases rest with
      | nil =>
          rw [dumpItemsWith, read_append, first, Except.bind, read_cons, taken.follows _ (by decide)]
          change Except.ok (finish (.array (item :: done).reverse) stack) = _
          rw [List.reverse_cons]
      | cons next rest =>
          rw [dumpItemsWith, List.append_assoc, List.append_assoc, read_append, first, Except.bind,
            read_comma_item taken, ih (List.cons_ne_nil _ _) later (by omega), List.reverse_cons,
            List.append_assoc, List.singleton_append]

theorem deep_itemsWith {items done : List Json} (each : ∀ v ∈ items, Parsed esc room v)
    (room_ : stack.length + 1 ≤ room) (deep : room < stack.length + 1 + depthItems items) :
    read room ⟨.value, .array done :: stack⟩ (dumpItemsWith esc items ++ s) = .error .tooDeep := by
  induction items generalizing done with
  | nil =>
      rw [depthItems] at deep
      omega
  | cons item rest ih =>
      obtain ⟨here, later⟩ := List.forall_mem_cons.mp each
      rw [depthItems] at deep
      by_cases fits : (Frame.array done :: stack).length + depth item ≤ room
      · obtain ⟨scan, first, taken⟩ := here.fits _ fits
        rw [List.length_cons] at fits
        cases rest with
        | nil =>
            rw [depthItems] at deep
            omega
        | cons next rest =>
            rw [dumpItemsWith, List.append_assoc, List.append_assoc, read_append, first, Except.bind,
              read_comma_item taken, ih later (by omega)]
      · have error := here.deep (.array done :: stack) room_ (by omega)
        cases rest with
        | nil => rw [dumpItemsWith, read_append, error, Except.bind]
        | cons next rest =>
            rw [dumpItemsWith, List.append_assoc, List.append_assoc, read_append, error, Except.bind]

theorem read_membersWith {members done : List (Str × Json)} {before : Str} (reads : Reads esc)
    (some_ : members ≠ []) (each : ∀ m ∈ members, Parsed esc room m.2)
    (fits : stack.length + 1 + depthMembers members ≤ room) :
    read room ⟨.name, .object done before :: stack⟩ (dumpMembersWith esc members ++ [point '\x7d']) =
      .ok (finish (.object (done.reverse ++ members)) stack) := by
  induction members generalizing done before with
  | nil => exact absurd rfl some_
  | cons m rest ih =>
      obtain ⟨name, value⟩ := m
      obtain ⟨here, later⟩ := List.forall_mem_cons.mp each
      have here : Parsed esc room value := here
      rw [depthMembers] at fits
      obtain ⟨scan, first, taken⟩ := here.fits (.object done name :: stack) (by rw [List.length_cons]; omega)
      cases rest with
      | nil =>
          rw [dumpMembersWith, read_append, read_append, reads.name, Except.bind, first, Except.bind, read_cons,
            taken.follows _ (by decide)]
          change Except.ok (finish (.object ((name, value) :: done).reverse) stack) = _
          rw [List.reverse_cons]
      | cons next rest =>
          rw [dumpMembersWith, List.append_assoc, List.append_assoc, List.append_assoc, read_append, reads.name,
            Except.bind, read_append, first, Except.bind, read_comma_member taken,
            ih (List.cons_ne_nil _ _) later (by omega), List.reverse_cons, List.append_assoc,
            List.singleton_append]

theorem deep_membersWith {members done : List (Str × Json)} {before : Str} (reads : Reads esc)
    (each : ∀ m ∈ members, Parsed esc room m.2) (room_ : stack.length + 1 ≤ room)
    (deep : room < stack.length + 1 + depthMembers members) :
    read room ⟨.name, .object done before :: stack⟩ (dumpMembersWith esc members ++ s) = .error .tooDeep := by
  induction members generalizing done before with
  | nil =>
      rw [depthMembers] at deep
      omega
  | cons m rest ih =>
      obtain ⟨name, value⟩ := m
      obtain ⟨here, later⟩ := List.forall_mem_cons.mp each
      have here : Parsed esc room value := here
      rw [depthMembers] at deep
      by_cases fits : (Frame.object done name :: stack).length + depth value ≤ room
      · obtain ⟨scan, first, taken⟩ := here.fits _ fits
        rw [List.length_cons] at fits
        cases rest with
        | nil =>
            rw [depthMembers] at deep
            omega
        | cons next rest =>
            rw [dumpMembersWith, List.append_assoc, List.append_assoc, List.append_assoc, read_append,
              reads.name, Except.bind, read_append, first, Except.bind, read_comma_member taken,
              ih later (by omega)]
      · have error := here.deep (.object done name :: stack) room_ (by omega)
        cases rest with
        | nil => rw [dumpMembersWith, read_append, read_append, reads.name, Except.bind, error, Except.bind]
        | cons next rest =>
            rw [dumpMembersWith, List.append_assoc, List.append_assoc, List.append_assoc, read_append,
              reads.name, Except.bind, read_append, error, Except.bind]

/-- An array that is open reads its first item as if one were due. -/
theorem read_first_item {items : List Json} (some_ : items ≠ []) (sound : ∀ v ∈ items, Sound v) :
    read room ⟨.valueOrEnd, .array [] :: stack⟩ (dumpItemsWith esc items ++ s) =
      read room ⟨.value, .array [] :: stack⟩ (dumpItemsWith esc items ++ s) := by
  cases items with
  | nil => exact absurd rfl some_
  | cons item rest =>
      obtain ⟨c, more, shape, solid, other⟩ := dumpsWith_head esc (sound item List.mem_cons_self)
      have begins : ∃ more, dumpItemsWith esc (item :: rest) ++ s = c :: more := by
        cases rest <;> exact ⟨_, by rw [dumpItemsWith, shape]; rfl⟩
      obtain ⟨more, begins⟩ := begins
      have same : step room ⟨.valueOrEnd, .array [] :: stack⟩ c =
          step room ⟨.value, .array [] :: stack⟩ c := by
        simp only [step, solid, Bool.false_eq_true, if_false, if_neg other]
      rw [begins, read_cons, read_cons, same]

theorem read_first_member {members : List (Str × Json)} (some_ : members ≠ []) :
    read room ⟨.nameOrEnd, .object [] [] :: stack⟩ (dumpMembersWith esc members ++ s) =
      read room ⟨.name, .object [] [] :: stack⟩ (dumpMembersWith esc members ++ s) := by
  cases members with
  | nil => exact absurd rfl some_
  | cons m rest =>
      have begins : ∃ more, dumpMembersWith esc (m :: rest) ++ s = point '"' :: more := by
        obtain ⟨name, value⟩ := m
        cases rest <;> exact ⟨_, by rw [dumpMembersWith, quoteWith]; rfl⟩
      obtain ⟨more, begins⟩ := begins
      rw [begins, read_cons, read_cons]
      rfl

/-- A value that opens nothing. -/
theorem parsed_flat (flat : depth v = 0) (taken : ∀ stack,
    ∃ scan, read room ⟨.value, stack⟩ (dumpsWith esc v) = .ok scan ∧ Taken room stack v scan) :
    Parsed esc room v :=
  ⟨fun stack _ => taken stack, fun stack room_ deep => by omega⟩

theorem step_open (c : CodePoint) {mode : Mode} {frame : Frame}
    (opens : step room ⟨.value, stack⟩ c = opened room mode frame stack) :
    step room ⟨.value, stack⟩ c =
      if stack.length < room then .ok ⟨mode, frame :: stack⟩ else .error .tooDeep :=
  opens

theorem parsed (reads : Reads esc) (sound : Sound v) : Parsed esc room v := by
  induction sound with
  | null => exact parsed_flat rfl fun stack => ⟨finish .null stack, rfl, taken_finish⟩
  | bool b =>
      refine parsed_flat rfl fun stack => ⟨finish (.bool b) stack, ?_, taken_finish⟩
      cases b <;> rfl
  | number valid =>
      refine parsed_flat rfl fun stack => ?_
      rw [dumpsWith]
      exact taken_number valid
  | string s =>
      refine parsed_flat rfl fun stack => ⟨finish (.string s) stack, ?_, taken_finish⟩
      rw [dumpsWith]
      exact reads.string
  | @array items each ih =>
      refine ⟨fun stack fits => ?_, fun stack _ deep => ?_⟩
      · rw [depth] at fits
        refine ⟨finish (.array items) stack, ?_, taken_finish⟩
        rw [dumpsWith, read_cons, step_open (point '[') rfl, if_pos (by omega), Except.bind]
        by_cases none_ : items = []
        · subst none_
          rfl
        · rw [read_first_item none_ each]
          exact read_itemsWith none_ ih (by omega)
      · rw [depth] at deep
        rw [dumpsWith, read_cons, step_open (point '[') rfl]
        split
        next room_ =>
          have none_ : items ≠ [] := by
            rintro rfl
            rw [depthItems] at deep
            omega
          rw [Except.bind, read_first_item none_ each]
          exact deep_itemsWith ih room_ (by omega)
        next => rfl
  | @object members each ih =>
      refine ⟨fun stack fits => ?_, fun stack _ deep => ?_⟩
      · rw [depth] at fits
        refine ⟨finish (.object members) stack, ?_, taken_finish⟩
        rw [dumpsWith, read_cons, step_open (point '\x7b') rfl, if_pos (by omega), Except.bind]
        by_cases none_ : members = []
        · subst none_
          rfl
        · rw [read_first_member none_]
          exact read_membersWith reads none_ ih (by omega)
      · rw [depth] at deep
        rw [dumpsWith, read_cons, step_open (point '\x7b') rfl]
        split
        next room_ =>
          have none_ : members ≠ [] := by
            rintro rfl
            rw [depthMembers] at deep
            omega
          rw [Except.bind, read_first_member none_]
          exact deep_membersWith reads ih room_ (by omega)
        next => rfl

/-- What is written is read back where there is room for it, and refused where there is none. -/
theorem loads_dumpsWith (reads : Reads esc) (sound : Sound v) :
    loads room (dumpsWith esc v) = if depth v ≤ room then .ok v else .error .tooDeep := by
  have parsed : Parsed esc room v := parsed reads sound
  rw [loads_eq]
  split
  next fits =>
    obtain ⟨scan, run, taken⟩ := parsed.fits [] (by rwa [List.length_nil, Nat.zero_add])
    rw [run, Except.bind, taken.ends rfl]
  next deep =>
    rw [parsed.deep [] (Nat.zero_le room) (by rw [List.length_nil]; omega), Except.bind]

/-! ## A text that is cut -/

variable {more : Nat}

theorem opened_mono {mode : Mode} {frame : Frame} (le : room ≤ more)
    (ok : opened room mode frame stack = .ok scan) : opened more mode frame stack = .ok scan := by
  unfold opened at ok ⊢
  split at ok
  next fits => rwa [if_pos (Nat.lt_of_lt_of_le fits le)]
  next => cases ok

theorem begin_mono (le : room ≤ more) (ok : begin_ room c stack = .ok scan) :
    begin_ more c stack = .ok scan := by
  unfold begin_ at ok ⊢
  by_cases quotes : c = point '"'
  · rwa [if_pos quotes] at ok ⊢
  rw [if_neg quotes] at ok ⊢
  by_cases brace : c = point '\x7b'
  · rw [if_pos brace] at ok ⊢
    exact opened_mono le ok
  rw [if_neg brace] at ok ⊢
  by_cases bracket : c = point '['
  · rw [if_pos bracket] at ok ⊢
    exact opened_mono le ok
  rwa [if_neg bracket] at ok ⊢

/-- More room is no hindrance. -/
theorem step_mono (le : room ≤ more) (ok : step room scan c = .ok scan') : step more scan c = .ok scan' := by
  obtain ⟨mode, stack⟩ := scan
  cases mode with
  | value =>
      simp only [step] at ok ⊢
      split at ok
      next space => rwa [if_pos space]
      next solid =>
        rw [if_neg solid]
        exact begin_mono le ok
  | valueOrEnd =>
      simp only [step] at ok ⊢
      split at ok
      next space => rwa [if_pos space]
      next solid =>
        rw [if_neg solid]
        split at ok
        next ends => rwa [if_pos ends]
        next goes =>
          rw [if_neg goes]
          exact begin_mono le ok
  | literal left means =>
      cases left with
      | nil => exact ok
      | cons => exact ok
  | name | nameOrEnd | colon | after | ended | number | string | escape | hex => exact ok

theorem read_mono (le : room ≤ more) (ok : read room scan s = .ok scan') : read more scan s = .ok scan' := by
  induction s generalizing scan with
  | nil => exact ok
  | cons c s ih =>
      rw [read_cons] at ok ⊢
      cases first : step room scan c with
      | error => rw [first] at ok; cases ok
      | ok next =>
          rw [first] at ok
          rw [step_mono le first]
          exact ih ok

/-- A value that stands by itself has been read, or the digits of one. -/
def Over (scan : Scan) : Prop :=
  (∃ v, scan.mode = .ended v) ∨
    scan.stack = [] ∧ ∃ digits s, digits ≠ .minus ∧ scan.mode = .number digits s

theorem next_ne_minus (next : digits.next c = some digits') : digits' ≠ .minus := by
  rintro rfl
  cases digits <;> simp only [Digits.next] at next <;> split_ifs at next <;> cases next

/-- What follows such a value is blank, or more of its digits. -/
theorem step_over (past : Over scan) (ok : step room scan c = .ok scan') :
    Over scan' ∧ c ≠ point '\x7d' := by
  have after (v : Json) (stack : List Frame) (ok : follow c ⟨.ended v, stack⟩ = .ok scan') :
      Over scan' ∧ c ≠ point '\x7d' := by
    unfold follow at ok
    split at ok
    next space =>
      obtain rfl := Except.ok.inj ok
      refine ⟨.inl ⟨v, rfl⟩, ?_⟩
      rintro rfl
      cases space
    next => cases ok
  obtain ⟨mode, stack⟩ := scan
  obtain ⟨v, rfl⟩ | ⟨rfl, digits, s, other, rfl⟩ := past
  · exact after v stack ok
  · have plain : ¬ (digits = .minus ∧ c = point 'I') := fun both => other both.1
    simp only [step, if_neg plain] at ok
    split at ok
    next digits' next =>
      obtain rfl := Except.ok.inj ok
      refine ⟨.inr ⟨rfl, digits', _, next_ne_minus next, rfl⟩, ?_⟩
      rintro rfl
      cases digits <;> cases next
    next =>
      split at ok
      next v _ => exact after v [] ok
      next => cases ok

theorem read_over (past : Over scan) (ok : read room scan s = .ok scan') : point '\x7d' ∉ s := by
  induction s generalizing scan with
  | nil => exact List.not_mem_nil
  | cons c s ih =>
      rw [read_cons] at ok
      cases first : step room scan c with
      | error => rw [first] at ok; cases ok
      | ok next =>
          rw [first] at ok
          obtain ⟨past', other⟩ := step_over past first
          exact List.not_mem_cons_of_ne_of_not_mem (Ne.symm other) (ih past' ok)

theorem over_of_ended (ok : ended scan = .ok v) : Over scan := by
  obtain ⟨mode, stack⟩ := scan
  unfold ended at ok
  split at ok
  next value mode_ => exact .inl ⟨value, mode_⟩
  next digits s mode_ top =>
    refine .inr ⟨top, digits, s, ?_, mode_⟩
    rintro rfl
    cases ok
  next => cases ok

/-- An object of which the end is missing is not read. -/
theorem loads_cut {members : List (Str × Json)} {p q : Str} (reads : Reads esc) (sound : Sound (.object members))
    (cut : dumpsWith esc (.object members) = p ++ q) (some_ : q ≠ []) :
    ∃ refusal, loads room p = .error refusal := by
  cases result : loads room p with
  | error refusal => exact ⟨refusal, rfl⟩
  | ok v =>
      rw [loads_eq] at result
      cases run : read room ⟨.value, []⟩ p with
      | error => rw [run] at result; cases result
      | ok scan =>
          rw [run] at result
          have past : Over scan := over_of_ended result
          -- with room for all of it the text is read to its end, past the end of the value
          have parsed : Parsed esc (max room (depth (.object members))) (.object members) := parsed reads sound
          obtain ⟨last, all, -⟩ := parsed.fits [] (by rw [List.length_nil, Nat.zero_add]; exact Nat.le_max_right ..)
          rw [cut, read_append, read_mono (Nat.le_max_left ..) run, Except.bind] at all
          obtain ⟨front, c, rfl⟩ := List.eq_nil_or_concat' q |>.resolve_left some_
          have brace : c = point '\x7d' := by
            rw [dumpsWith, ← List.cons_append, ← List.append_assoc] at cut
            exact (List.singleton_inj.mp (List.append_inj_right' cut rfl)).symm
          exact absurd (brace ▸ List.mem_append_right front List.mem_cons_self) (read_over past all)

/-! ## What it is written with -/

variable {d : CodePoint}

theorem mem_plainly (outside : ¬ Printable c) : c ∈ plainly d ↔ c = d ∧ 0x20 ≤ c.val := by
  unfold plainly
  split
  next control =>
    refine iff_of_false (fun member => outside (printable_escaped c member)) ?_
    rintro ⟨rfl, above⟩
    omega
  next above =>
    have le : 0x20 ≤ d.val := Nat.le_of_not_lt above
    split
    next special =>
      have slash : c ≠ point '\\' := by
        rintro rfl
        exact outside (by decide)
      rw [List.mem_cons, List.mem_singleton]
      exact ⟨fun either => either.elim (fun same => absurd same slash) fun same => ⟨same, same ▸ le⟩,
        fun both => .inr both.1⟩
    next => exact List.mem_singleton.trans ⟨fun same => ⟨same, same ▸ le⟩, And.left⟩

theorem mem_quoteWith (outside : ¬ Printable c) : c ∈ quoteWith plainly s ↔ c ∈ s ∧ 0x20 ≤ c.val := by
  have quotes : c ≠ point '"' := by
    rintro rfl
    exact outside (by decide)
  rw [quoteWith, List.mem_cons, List.mem_append, List.mem_singleton, or_iff_right quotes, or_iff_left quotes,
    List.mem_flatMap]
  constructor
  · rintro ⟨d, member, inside⟩
    obtain ⟨rfl, above⟩ := (mem_plainly outside).mp inside
    exact ⟨member, above⟩
  · rintro ⟨member, above⟩
    exact ⟨c, member, (mem_plainly outside).mpr ⟨rfl, above⟩⟩

theorem printable_of_next (next : digits.next c = some digits') : Printable c := by
  by_contra outside
  have apart : ∀ other : CodePoint, Printable other → c ≠ other := by
    rintro other inside rfl
    exact outside inside
  have digit : c.isDigit = false := Bool.eq_false_iff.mpr fun digit => outside (printable_of_isDigit digit)
  have zero := apart (point '0') (by decide)
  have dot := apart (point '.') (by decide)
  have small := apart (point 'e') (by decide)
  have capital := apart (point 'E') (by decide)
  have plus := apart (point '+') (by decide)
  have minus := apart (point '-') (by decide)
  cases digits <;> simp [Digits.next, digit, zero, dot, small, capital, plus, minus] at next

theorem printable_numeral (valid : numeral lexeme = some digits) : ∀ c ∈ lexeme, Printable c := by
  have later {s : Str} {digits digits' : Digits} (rest : s.foldlM (fun digits c => digits.next c) digits =
      some digits') : ∀ c ∈ s, Printable c := by
    induction s generalizing digits with
    | nil => exact List.forall_mem_nil _
    | cons c s ih =>
        rw [List.foldlM_cons] at rest
        obtain ⟨more, next, rest⟩ := Option.bind_eq_some_iff.mp rest
        exact List.forall_mem_cons.mpr ⟨printable_of_next next, ih rest⟩
  cases lexeme with
  | nil => cases valid
  | cons c rest =>
      obtain ⟨start, first, rest⟩ := Option.bind_eq_some_iff.mp valid
      refine List.forall_mem_cons.mpr ⟨?_, later rest⟩
      unfold Digits.first at first
      split_ifs at first with minus zero digit
      · exact minus ▸ by decide
      · exact zero ▸ by decide
      · exact printable_of_isDigit digit

/-- A character outside ASCII is written where it is in a string or a name. -/
theorem mem_dumpsWith (outside : ¬ Printable c) (sound : Sound v) :
    c ∈ dumpsWith plainly v ↔ c ∈ letters v ∧ 0x20 ≤ c.val := by
  have none (s : Str) (each : s.all (Printable ·) = true) : c ∉ s := fun member =>
    outside (of_decide_eq_true (List.all_eq_true.mp each c member))
  induction sound with
  | null => exact iff_of_false (none (text "null") (by decide)) fun both => List.not_mem_nil both.1
  | bool b =>
      refine iff_of_false ?_ fun both => List.not_mem_nil both.1
      cases b
      · exact none (text "false") (by decide)
      · exact none (text "true") (by decide)
  | number valid =>
      obtain ⟨digits, whole, -⟩ := valid
      rw [dumpsWith]
      exact iff_of_false (fun member => outside (printable_numeral whole c member))
        fun both => List.not_mem_nil both.1
  | string s =>
      rw [dumpsWith, letters]
      exact mem_quoteWith outside
  | @array items each ih =>
      rw [dumpsWith, letters, List.mem_cons, List.mem_append, or_iff_right, or_iff_left (none [_] (by decide))]
      · clear each
        induction items with
        | nil => exact iff_of_false List.not_mem_nil fun both => List.not_mem_nil both.1
        | cons item rest inner =>
            obtain ⟨here, later⟩ := List.forall_mem_cons.mp ih
            have here : c ∈ dumpsWith plainly item ↔ c ∈ letters item ∧ 0x20 ≤ c.val := here
            have after : c ∈ dumpItemsWith plainly rest ↔ c ∈ lettersItems rest ∧ 0x20 ≤ c.val := inner later
            rw [lettersItems, List.mem_append, or_and_right, ← here, ← after]
            cases rest with
            | nil => exact (or_iff_left List.not_mem_nil).symm
            | cons next rest =>
                rw [dumpItemsWith, List.mem_append, List.mem_append, or_iff_left (none (text ", ") (by decide))]
      · rintro rfl
        exact outside (by decide)
  | @object members each ih =>
      rw [dumpsWith, letters, List.mem_cons, List.mem_append, or_iff_right, or_iff_left (none [_] (by decide))]
      · clear each
        induction members with
        | nil => exact iff_of_false List.not_mem_nil fun both => List.not_mem_nil both.1
        | cons m rest inner =>
            obtain ⟨name, value⟩ := m
            obtain ⟨here, later⟩ := List.forall_mem_cons.mp ih
            have here : c ∈ dumpsWith plainly value ↔ c ∈ letters value ∧ 0x20 ≤ c.val := here
            have after : c ∈ dumpMembersWith plainly rest ↔ c ∈ lettersMembers rest ∧ 0x20 ≤ c.val :=
              inner later
            rw [lettersMembers, List.mem_append, List.mem_append, or_and_right, or_and_right, ← here, ← after,
              ← mem_quoteWith outside]
            cases rest with
            | nil =>
                change c ∈ quoteWith plainly name ++ text ": " ++ dumpsWith plainly value ↔ _ ∨ c ∈ []
                rw [List.mem_append, List.mem_append, or_iff_left (none (text ": ") (by decide))]
                exact (or_iff_left List.not_mem_nil).symm
            | cons next rest =>
                rw [dumpMembersWith, List.mem_append, List.mem_append, List.mem_append, List.mem_append,
                  or_iff_left (none (text ": ") (by decide)), or_iff_left (none (text ", ") (by decide))]
      · rintro rfl
        exact outside (by decide)

end LocalHarness.Library.JsonText
