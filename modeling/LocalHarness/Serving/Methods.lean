import LocalHarness.Library.Decimal
import LocalHarness.Library.Fallible

/-! # The method registry

A method is a named transform of a base candidate, `<name>:<args>:<base>`.
-/

namespace LocalHarness.Serving.Methods

open LocalHarness.Library

structure Method where
  name : String
  grammar : String
  /-- The lanes it applies to. -/
  lanes : List String
  /-- Whole numbers before the base. -/
  arity : Nat := 0
  minimum : Int := 1
  /-- The one modality of its output, or "" for its base's. -/
  modality : String := ""
  deriving DecidableEq

def SAMPLED_TEXT_LANES : List String := ["code", "web", "svg"]

def TEXT_LANES : List String := ["code", "web", "svg", "extract"]

def REGISTRY : List Method :=
  [{ name := "trace", grammar := "trace:<image engine>", lanes := ["svg"], modality := "svg" },
    { name := "trace-icon", grammar := "trace-icon:<image engine>", lanes := ["svg"]
      modality := "svg" },
    { name := "best-of", grammar := "best-of:<n>:<base>", lanes := SAMPLED_TEXT_LANES, arity := 1
      minimum := 2 },
    { name := "plan", grammar := "plan:<base>", lanes := TEXT_LANES }]

def named (name : String) : Option Method :=
  REGISTRY.find? fun method => method.name = name

structure Parsed where
  method : Method
  args : List Int
  base : String
  spec : String
  deriving DecidableEq

/-- The leading whole numbers of a spec, and what follows them. -/
def readArgs (spec : String) (method : Method) : Nat → String → Except String (List Int × String)
  | 0, rest => .ok ([], rest)
  | arity + 1, rest =>
      let cut := Text.partition rest ':'
      match Decimal.wholeNumber cut.1 with
      | none =>
          .error (Text.quoted spec ++ ": " ++ method.grammar ++ " needs a whole number, got " ++
            Text.quoted cut.1)
      | some n =>
          if n < method.minimum then
            .error (Text.quoted spec ++ ": " ++ method.grammar ++ " needs at least " ++
              toString method.minimum)
          else do
            let (args, rest) ← readArgs spec method arity cut.2
            return (n :: args, rest)

/-- The method, its arguments and its base; `none` when `spec` is not a method. -/
def parse (spec : String) : Except String (Option Parsed) :=
  let spec := Text.strip spec
  let cut := Text.partition spec ':'
  match named (Text.strip (Text.partition cut.1 ',').1) with
  | none => .ok none
  | some method => do
      let (args, rest) ← readArgs spec method method.arity cut.2
      if ':' ∉ spec.toList ∨ Text.blank rest then
        .error (Text.quoted spec ++ " names no base; spelled " ++ method.grammar)
      else return some ⟨method, args, Text.strip rest, spec⟩

/-- The base a method spec composes over, or "" for anything else. -/
def base_of (spec : String) : String :=
  match parse spec with
  | .ok (some got) => got.base
  | _ => ""

example : base_of "best-of:3:local-mid,temperature=0.9" = "local-mid,temperature=0.9" := by
  decide

private theorem partition_suffix (s : String) (sep : Char) :
    (Text.partition s sep).2.toList <:+ s.toList := by
  rw [Text.partition, String.toList_ofList]
  exact (List.tail_suffix _).trans (List.dropWhile_suffix _)

theorem readArgs_suffix {spec rest left : String} {method : Method} {arity : Nat} {args : List Int}
    (read : readArgs spec method arity rest = .ok (args, left)) : left.toList <:+ rest.toList := by
  induction arity generalizing rest args with
  | zero =>
      cases read
      exact List.suffix_refl _
  | succ arity ih =>
      unfold readArgs at read
      extract_lets cut at read
      cases whole : Decimal.wholeNumber cut.1 with
      | none =>
          rw [whole] at read
          cases read
      | some n =>
          rw [whole] at read
          by_cases low : n < method.minimum
          · have read : (if n < method.minimum then _ else _) = _ := read
            rw [if_pos low] at read
            cases read
          · have read : (if n < method.minimum then _ else _) = _ := read
            rw [if_neg low] at read
            obtain ⟨got, inner, made⟩ := bind_ok read
            cases made
            exact (ih inner).trans (partition_suffix rest ':')

/-! ## The base of a spec -/

/-- What the kind of a spec is read off. -/
def head (spec : String) : String :=
  Text.strip (Text.partition (Text.partition spec ':').1 ',').1

/-- Neither what ends a name nor what ends its options. -/
def inHead (c : Char) : Bool :=
  c != ',' && c != ':'

theorem head_eq (spec : String) : head spec = Text.strip (.ofList (spec.toList.takeWhile inHead)) := by
  have both : inHead = fun c => decide (((c != ',') = true) ∧ ((c != ':') = true)) := by
    funext c
    rw [inHead, Bool.decide_and, Bool.decide_eq_true, Bool.decide_eq_true]
  rw [head, Text.partition, Text.partition, String.toList_ofList, List.takeWhile_takeWhile, both]

theorem inHead_of_space {c : Char} (space : Text.isSpace c = true) : inHead c = true := by
  rw [inHead, Bool.and_eq_true, bne_iff_ne, bne_iff_ne]
  constructor
  · rintro rfl
    exact absurd space (by decide)
  · rintro rfl
    exact absurd space (by decide)

/-- The spaces around a spec are not in its head. -/
theorem head_strip (spec : String) : head (Text.strip spec) = head spec := by
  have lead : ∀ c ∈ spec.toList.takeWhile Text.isSpace, Text.isSpace c = true := fun c member =>
    List.mem_takeWhile_imp member
  have trail : ∀ c ∈ (spec.toList.dropWhile Text.isSpace).rtakeWhile Text.isSpace, Text.isSpace c = true :=
    fun c member => List.mem_rtakeWhile_imp member
  have trails : (spec.toList.dropWhile Text.isSpace).rdropWhile Text.isSpace ++
      (spec.toList.dropWhile Text.isSpace).rtakeWhile Text.isSpace = spec.toList.dropWhile Text.isSpace :=
    List.rdropWhile_append_rtakeWhile
  have shape : (Text.strip spec).toList = (spec.toList.dropWhile Text.isSpace).rdropWhile Text.isSpace := by
    rw [Text.strip, String.toList_ofList]
  rw [head_eq, head_eq, shape, ← List.takeWhile_append_dropWhile (p := Text.isSpace) (l := spec.toList),
    List.takeWhile_append_of_pos fun c member => inHead_of_space (lead c member), Text.strip_space_append lead,
    List.takeWhile_append_dropWhile]
  conv_rhs => rw [← trails]
  -- What stands before the first cut is the same, or the cut is behind the last character.
  rw [List.takeWhile_append]
  split
  next whole =>
    have rest : ((spec.toList.dropWhile Text.isSpace).rtakeWhile Text.isSpace).takeWhile inHead =
        (spec.toList.dropWhile Text.isSpace).rtakeWhile Text.isSpace :=
      List.takeWhile_eq_self_iff.mpr fun c member => inHead_of_space (trail c member)
    rw [rest, Text.strip_append_space trail, (List.takeWhile_prefix inHead).eq_of_length whole]
  next => rfl

/-- Nor are its options. -/
theorem head_append (spec : String) (options : List Char) :
    head (spec ++ .ofList (',' :: options)) = head spec := by
  rw [head_eq, head_eq, String.toList_append, String.toList_ofList, List.takeWhile_append]
  split
  next whole =>
    rw [(List.takeWhile_prefix inHead).eq_of_length whole, List.takeWhile_cons_of_neg (by decide), List.append_nil]
  next => rfl

/-- Nothing is read behind a cut that is not there. -/
theorem mem_of_readArgs {spec s left : String} {m : Method} {arity : Nat} {args : List Int}
    (read : readArgs spec m arity (Text.partition s ':').2 = .ok (args, left))
    (said : Text.blank left = false) : ':' ∈ s.toList := by
  by_contra clean
  have behind := readArgs_suffix read
  rw [Text.partition_of_not_mem clean, String.toList_empty, List.suffix_nil] at behind
  rw [Text.blank, behind] at said
  cases said

/-- What is read of a method spec: its method off the head, its numbers and its base behind it. -/
theorem parse_some {spec : String} {got : Parsed} (parsed : parse spec = .ok (some got)) :
    named (head spec) = some got.method ∧ ∃ rest, Text.blank rest = false ∧ got.base = Text.strip rest ∧
      readArgs (Text.strip spec) got.method got.method.arity (Text.partition (Text.strip spec) ':').2 =
        .ok (got.args, rest) := by
  rw [← head_strip]
  unfold parse at parsed
  extract_lets trimmed cut at parsed
  have same : Text.strip (Text.partition cut.1 ',').1 = head trimmed := rfl
  rw [same] at parsed
  cases known : named (head trimmed) with
  | none =>
      rw [known] at parsed
      cases parsed
  | some method =>
      rw [known] at parsed
      obtain ⟨⟨args, rest⟩, inner, made⟩ := bind_ok parsed
      have made : (if ':' ∉ trimmed.toList ∨ Text.blank rest then _ else _) = _ := made
      by_cases empty : ':' ∉ trimmed.toList ∨ Text.blank rest
      · rw [if_pos empty] at made
        cases made
      · rw [if_neg empty] at made
        obtain rfl := Option.some.inj (pure_ok made)
        exact ⟨rfl, rest, Bool.eq_false_iff.mpr (not_or.mp empty).2, rfl, inner⟩

theorem parse_of {spec rest : String} {m : Method} {args : List Int}
    (known : named (head spec) = some m) (said : Text.blank rest = false)
    (read : readArgs (Text.strip spec) m m.arity (Text.partition (Text.strip spec) ':').2 = .ok (args, rest)) :
    parse spec = .ok (some ⟨m, args, Text.strip rest, Text.strip spec⟩) := by
  have colon : ':' ∈ (Text.strip spec).toList := mem_of_readArgs read said
  rw [← head_strip, head] at known
  unfold parse
  dsimp only
  rw [known]
  dsimp only
  rw [read]
  dsimp only [bind, Except.bind]
  rw [if_neg (by simp [colon, said])]
  rfl

theorem base_of_some {spec : String} (some_ : base_of spec ≠ "") :
    ∃ got, parse spec = .ok (some got) ∧ base_of spec = got.base := by
  unfold base_of at some_ ⊢
  split at some_
  next got parsed => exact ⟨got, parsed, rfl⟩
  next => exact absurd rfl some_

theorem base_of_parse {spec : String} {got : Parsed} (parsed : parse spec = .ok (some got)) :
    base_of spec = got.base := by
  unfold base_of
  rw [parsed]

/-- A base is shorter than its spec. -/
theorem length_base_of {spec : String} (some_ : spec ≠ "") :
    (base_of spec).toList.length < spec.toList.length := by
  have long : 0 < spec.toList.length := List.length_pos_iff.mpr fun nothing => some_ (String.toList_inj.mp nothing)
  by_cases based : base_of spec = ""
  · rw [based]
    exact long
  · obtain ⟨got, parsed, same⟩ := base_of_some based
    obtain ⟨-, rest, -, shape, read⟩ := parse_some parsed
    have behind := (readArgs_suffix read).length_le
    have cut : (Text.partition (Text.strip spec) ':').2.toList.length ≤ (Text.strip spec).toList.length - 1 := by
      rw [Text.partition, String.toList_ofList, List.length_tail]
      exact Nat.sub_le_sub_right (List.dropWhile_sublist _).length_le 1
    have trimmed := (Text.sublist_strip spec).length_le
    have bare := (Text.sublist_strip rest).length_le
    rw [same, shape]
    omega

theorem readArgs_succ {spec rest left : String} {m : Method} {arity : Nat} {args : List Int} :
    readArgs spec m (arity + 1) rest = .ok (args, left) ↔
      ∃ n others, Decimal.wholeNumber (Text.partition rest ':').1 = some n ∧ m.minimum ≤ n ∧
        readArgs spec m arity (Text.partition rest ':').2 = .ok (others, left) ∧ args = n :: others := by
  rw [readArgs]
  dsimp only
  cases Decimal.wholeNumber (Text.partition rest ':').1 with
  | none => simp
  | some n =>
      dsimp only
      by_cases low : n < m.minimum
      · rw [if_pos low]
        constructor
        · intro read
          cases read
        · rintro ⟨_, _, same, least, -, -⟩
          obtain rfl := Option.some.inj same
          exact absurd low (not_lt.mpr least)
      · rw [if_neg low]
        constructor
        · intro read
          obtain ⟨⟨others, left'⟩, inner, made⟩ := bind_ok read
          obtain ⟨rfl, rfl⟩ := Prod.mk.inj (pure_ok made)
          exact ⟨n, others, rfl, not_lt.mp low, inner, rfl⟩
        · rintro ⟨_, others, same, -, inner, rfl⟩
          obtain rfl := Option.some.inj same
          rw [inner]
          rfl

/-- The numbers of a spec are read in front of whatever is added behind a base that is there. -/
theorem readArgs_append {spec spec' rest left : String} {m : Method} {arity : Nat} {args : List Int}
    (read : readArgs spec m arity rest = .ok (args, left)) (said : Text.blank left = false) (t : List Char) :
    readArgs spec' m arity (rest ++ .ofList t) = .ok (args, left ++ .ofList t) := by
  induction arity generalizing rest args with
  | zero =>
      cases read
      rfl
  | succ arity ih =>
      obtain ⟨n, others, whole, least, inner, rfl⟩ := readArgs_succ.mp read
      rw [readArgs_succ, Text.partition_append_of_mem (mem_of_readArgs inner said)]
      exact ⟨n, others, whole, least, ih inner, rfl⟩

/-- A method's options are its base's, whatever stands in front of them. -/
theorem chunks_base {spec : String} {got : Parsed} (parsed : parse spec = .ok (some got)) :
    Text.chunks (Text.partition got.base ',').2 <:+ Text.chunks (Text.partition spec ',').2 := by
  obtain ⟨-, rest, -, base, read⟩ := parse_some parsed
  rw [base, Text.chunks_strip, ← Text.chunks_strip spec]
  exact Text.chunks_suffix ((readArgs_suffix read).trans (partition_suffix _ ':'))

/-! ## Composing a spec -/

namespace Method

/-- The whole numbers that the loop crosses a method at. -/
def defaults (m : Method) : List Int :=
  if m.name = "best-of" then [3] else []

/-- The lane whose incumbent is its base, or "" for the lane itself. -/
def base_lane (m : Method) : String :=
  if m.name = "trace" ∨ m.name = "trace-icon" then "image" else ""

def crosses (m : Method) : Bool :=
  m.name ≠ "trace-icon"

def compose (m : Method) (base : String) (args : List Int) : String :=
  Text.join ':' (m.name :: (if args = [] then m.defaults else args).map toString ++ [base])

end Method

/-- A spec that does not parse is one of a method all the same. -/
def is_method (spec : String) : Bool :=
  match parse spec with
  | .ok got => got.isSome
  | .error _ => true

/-- Each crossing method of a lane over the incumbent it takes. -/
def crossings (lane : String) (incumbent_of : String → String) : List String :=
  (REGISTRY.filter fun m => lane ∈ m.lanes).filterMap fun m =>
    let base := incumbent_of (if m.base_lane ≠ "" then m.base_lane else lane)
    if !m.crosses || base = "" || is_method base then none else some (m.compose base [])

section

variable {m : Method} {base spec : String} {args : List Int} {n : Int}

theorem join_cons (part : String) {parts : List String} (some_ : parts ≠ []) :
    Text.join ':' (part :: parts) = part ++ String.ofList (':' :: (Text.join ':' parts).toList) := by
  obtain ⟨next, rest, rfl⟩ := List.exists_cons_of_ne_nil some_
  rw [← String.toList_inj]
  simp [Text.join, List.intercalate]

theorem toString_digits (nonneg : 0 ≤ n) : (toString n).toList = Nat.toDigits 10 n.toNat := by
  obtain ⟨k, rfl⟩ := Int.eq_ofNat_of_zero_le nonneg
  have shown : toString (k : Int) = Nat.repr k := rfl
  rw [shown, Nat.repr, String.toList_ofList, Int.toNat_natCast]

/-- `int(str(n))` -/
theorem wholeNumber_toString (nonneg : 0 ≤ n) : Decimal.wholeNumber (toString n) = some n := by
  have chars := toString_digits nonneg
  have digits : ∀ c ∈ (toString n).toList, c.isDigit = true := by
    rw [chars]
    exact fun c member => Nat.isDigit_of_mem_toDigits (by decide) (by decide) member
  have stripped : Text.strip (toString n) = toString n := Text.strip_of_ends
    (fun c first => Decimal.isDigit_not_space (digits c (List.mem_of_head? first)))
    fun c last => Decimal.isDigit_not_space (digits c (List.mem_of_getLast? last))
  have some_ : Nat.toDigits 10 n.toNat ≠ [] := Nat.toDigits_ne_nil
  have value : (Decimal.digits (Nat.toDigits 10 n.toNat)).map Nat.cast = some n := by
    rw [Decimal.digits, Decimal.digitRun_digits (chars ▸ digits), Option.bind_some, if_neg some_,
      Nat.ofDigitChars_ten_toDigits, Option.map_some, Int.toNat_of_nonneg nonneg]
  rw [Decimal.wholeNumber, stripped, chars]
  rw [chars] at digits
  split
  next cs shape => exact absurd rfl (Decimal.isDigit_ne (digits '-' (by rw [shape]; exact List.mem_cons_self)) rfl)
  next cs shape => exact absurd rfl (Decimal.isDigit_ne (digits '+' (by rw [shape]; exact List.mem_cons_self)) rfl)
  next => exact value

theorem named_of_registry (member : m ∈ REGISTRY) :
    named (Text.strip (Text.partition m.name ',').1) = some m ∧ ':' ∉ m.name.toList ∧
      (∀ c ∈ m.name.toList.head?, Text.isSpace c = false) ∧ m.name.toList ≠ [] ∧ 1 ≤ m.minimum := by
  -- A quantifier over the characters of a text would be decided by going through all characters.
  have each : ∀ m ∈ REGISTRY, named (Text.strip (Text.partition m.name ',').1) = some m ∧ ':' ∉ m.name.toList ∧
      (m.name.toList.head?.all fun c => !Text.isSpace c) ∧ m.name.toList ≠ [] ∧ 1 ≤ m.minimum := by decide
  obtain ⟨found, whole, clear, some_, positive⟩ := each m member
  refine ⟨found, whole, fun c first => ?_, some_, positive⟩
  rw [Option.mem_def.mp first, Option.all_some] at clear
  exact Bool.not_eq_true' _ ▸ clear

/-- The arguments of a composed spec are read back, and what follows them is its base. -/
theorem readArgs_join (positive : 1 ≤ m.minimum) (least : ∀ n ∈ args, m.minimum ≤ n) :
    readArgs spec m args.length (Text.join ':' (args.map toString ++ [base])) = .ok (args, base) := by
  induction args with
  | nil =>
      rw [List.map_nil, List.nil_append, List.length_nil, readArgs]
      simp [Text.join, List.intercalate]
  | cons n rest ih =>
      obtain ⟨low, others⟩ := List.forall_mem_cons.mp least
      have nonneg : 0 ≤ n := by omega
      have clean : ':' ∉ (toString n).toList := by
        rw [toString_digits nonneg]
        intro member
        have digit : Char.isDigit ':' = true := Nat.isDigit_of_mem_toDigits (by decide) (by decide) member
        exact Decimal.isDigit_ne digit rfl rfl
      have cut : Text.partition (Text.join ':' ((n :: rest).map toString ++ [base])) ':' =
          (toString n, Text.join ':' (rest.map toString ++ [base])) := by
        rw [List.map_cons, List.cons_append, join_cons _ (by simp), Text.partition_append clean]
      rw [List.length_cons, readArgs, cut]
      dsimp only
      rw [wholeNumber_toString nonneg]
      dsimp only
      rw [if_neg (not_lt.mpr low), ih others]
      rfl

/-- A join ends as its last part does. -/
theorem join_suffix (parts : List String) (base : String) :
    ∃ front, (Text.join ':' (parts ++ [base])).toList = front ++ base.toList := by
  induction parts with
  | nil => exact ⟨[], by simp [Text.join, List.intercalate]⟩
  | cons part rest ih =>
      obtain ⟨front, shape⟩ := ih
      refine ⟨part.toList ++ ':' :: front, ?_⟩
      rw [List.cons_append, join_cons _ (by simp), String.toList_append, String.toList_ofList, shape,
        List.append_assoc, List.cons_append]

/-- A composed spec is the method it names, at its arguments, over its base. -/
theorem parse_join (member : m ∈ REGISTRY) (count : args.length = m.arity) (least : ∀ n ∈ args, m.minimum ≤ n)
    (trim : Text.strip base = base) (some_ : base ≠ "") :
    let spec := Text.join ':' (m.name :: args.map toString ++ [base])
    parse spec = .ok (some ⟨m, args, base, spec⟩) := by
  obtain ⟨known, clean, first, named_, positive⟩ := named_of_registry member
  intro spec
  have shape : spec = m.name ++ String.ofList (':' :: (Text.join ':' (args.map toString ++ [base])).toList) :=
    join_cons _ (by simp)
  have stripped : Text.strip spec = spec := by
    obtain ⟨front, back⟩ : ∃ front, spec.toList = front ++ base.toList := join_suffix _ base
    have full : base.toList ≠ [] := fun nothing => some_ (String.toList_inj.mp nothing)
    refine Text.strip_of_ends (fun c head => ?_) fun c last => ?_
    · rw [shape, String.toList_append, List.head?_append_of_ne_nil _ named_] at head
      exact first c head
    · rw [back, List.getLast?_append_of_ne_nil _ full] at last
      have ends := (Text.strip_ends base).2
      rw [trim] at ends
      exact ends c last
  have cut : Text.partition spec ':' = (m.name, Text.join ':' (args.map toString ++ [base])) := by
    rw [shape, Text.partition_append clean]
  have colon : ':' ∈ spec.toList := by
    rw [shape]
    simp
  have said : Text.blank base = false := by
    rw [Bool.eq_false_iff, ne_eq, Text.blank_iff_strip, trim]
    exact some_
  unfold parse
  dsimp only
  rw [stripped, cut, known]
  dsimp only
  rw [← count, readArgs_join positive least]
  change (if ':' ∉ spec.toList ∨ Text.blank base = true then _ else _) = _
  rw [if_neg (by simp [colon, said]), trim]
  rfl

theorem defaults_of_registry (member : m ∈ REGISTRY) :
    m.defaults.length = m.arity ∧ ∀ n ∈ m.defaults, m.minimum ≤ n := by
  have each : ∀ m ∈ REGISTRY, m.defaults.length = m.arity ∧ ∀ n ∈ m.defaults, m.minimum ≤ n := by decide
  exact each m member

end

/-- What `compose` makes of a method, its arguments and a base, `parse` takes apart again; without arguments it is
made at the method's defaults. -/
theorem parse_compose (m : Method) (member : m ∈ REGISTRY) (args : List Int) (base : String)
    (count : args = [] ∨ args.length = m.arity) (least : ∀ n ∈ args, m.minimum ≤ n)
    (trim : Text.strip base = base) (some_ : base ≠ "") :
    parse (m.compose base args) =
      .ok (some ⟨m, if args = [] then m.defaults else args, base, m.compose base args⟩) := by
  obtain ⟨many, low⟩ := defaults_of_registry member
  unfold Method.compose
  split
  next => exact parse_join member many low trim some_
  next given => exact parse_join member (count.resolve_left given) least trim some_

/-- A base holds colons and options of its own. -/
theorem parse_compose_best_of :
    parse (({ name := "best-of", grammar := "best-of:<n>:<base>", lanes := SAMPLED_TEXT_LANES, arity := 1, minimum := 2 }
      : Method).compose "vllm:org/model,temperature=0.9" [4]) =
      .ok (some ⟨{ name := "best-of", grammar := "best-of:<n>:<base>", lanes := SAMPLED_TEXT_LANES, arity := 1, minimum := 2 },
        [4], "vllm:org/model,temperature=0.9", "best-of:4:vllm:org/model,temperature=0.9"⟩) :=
  parse_compose _ (by decide) [4] "vllm:org/model,temperature=0.9" (.inr rfl) (by decide) (by decide) (by decide)

/-- Every crossing of a lane parses: it is a method of the lane at its defaults, over an incumbent that is no
method itself. -/
theorem parse_crossing (lane : String) (incumbent_of : String → String)
    (trim : ∀ lane, Text.strip (incumbent_of lane) = incumbent_of lane) :
    ∀ spec ∈ crossings lane incumbent_of, ∃ m ∈ REGISTRY, lane ∈ m.lanes ∧
      ∃ base, parse spec = .ok (some ⟨m, m.defaults, base, spec⟩) ∧
        base = incumbent_of (if m.base_lane ≠ "" then m.base_lane else lane) ∧ is_method base = false := by
  intro spec member
  obtain ⟨m, listed, made⟩ := List.mem_filterMap.mp member
  obtain ⟨known, applies⟩ := List.mem_filter.mp listed
  have stripped := trim (if m.base_lane ≠ "" then m.base_lane else lane)
  dsimp only at made
  generalize taken : incumbent_of (if m.base_lane ≠ "" then m.base_lane else lane) = base at made stripped
  split at made
  next => cases made
  next open_ =>
    obtain rfl := Option.some.inj made
    simp only [Bool.or_eq_true, not_or, Bool.not_eq_true, decide_eq_true_eq] at open_
    obtain ⟨⟨-, some_⟩, plain⟩ := open_
    obtain ⟨many, low⟩ := defaults_of_registry known
    exact ⟨m, known, by simpa using applies, base, parse_join known many low stripped some_, taken.symm, plain⟩

/-- The code lane's incumbent is sampled three times, or asked for a plan. -/
theorem parse_crossing_code : crossings "code" (fun _ => "local-mid") = ["best-of:3:local-mid", "plan:local-mid"] ∧
    ∃ m ∈ REGISTRY, parse "best-of:3:local-mid" = .ok (some ⟨m, m.defaults, "local-mid", "best-of:3:local-mid"⟩) := by
  have crossed : crossings "code" (fun _ => "local-mid") = ["best-of:3:local-mid", "plan:local-mid"] := by decide
  obtain ⟨m, known, -, base, parsed, same, -⟩ :=
    parse_crossing "code" (fun _ => "local-mid") (fun _ => by decide) "best-of:3:local-mid" (by rw [crossed]; decide)
  exact ⟨crossed, m, known, same ▸ parsed⟩

/-! ## Serving the best of several -/

/-- What has come back so far: the best reply, its key and which it was, and the last call that failed. -/
structure Sampled (κ ε : Type) where
  best : Option (String × κ × Nat) := none
  failed : Option ε := none

section

variable {κ ε : Type} [LinearOrder κ]

/-- One call more; a reply is kept where it ranks above the best. -/
def sample (key : String → κ) (got : Sampled κ ε) (call : Nat × Except ε String) : Sampled κ ε :=
  match call.2 with
  | .error why => { got with failed := some why }
  | .ok text =>
      match got.best with
      | none => { got with best := some (text, key text, call.1) }
      | some (_, best_key, _) =>
          if best_key < key text then { got with best := some (text, key text, call.1) } else got

/-- `_serve_best_of`: the reply, and which of the calls it was. `asked i` is what the `i`th call comes to, and
`key` the rank that the lane's own check gives a reply. -/
def serve_best_of (key : String → κ) (none_ : ε) (asked : Nat → Except ε String) (n : Nat) :
    Except ε (String × Nat) :=
  let got := ((List.range' 1 n).map fun i => (i, asked i)).foldl (sample key) {}
  match got.best with
  | none => .error (got.failed.getD none_)
  | some (text, _, chosen) => .ok (text, chosen)

/-- What the calls so far leave: the first of the best replies, or none where all of them failed. -/
def Kept (key : String → κ) (asked : Nat → Except ε String) (n : Nat) (got : Sampled κ ε) : Prop :=
  match got.best with
  | none => (∀ i, 1 ≤ i → i ≤ n → ∃ why, asked i = .error why) ∧
      (n ≠ 0 → ∃ why, asked n = .error why ∧ got.failed = some why) ∧ (n = 0 → got.failed = none)
  | some (text, best_key, chosen) => best_key = key text ∧ 1 ≤ chosen ∧ chosen ≤ n ∧ asked chosen = .ok text ∧
      ∀ i reply, 1 ≤ i → i ≤ n → asked i = .ok reply → key reply ≤ key text ∧ (i < chosen → key reply < key text)

/-- One call more keeps it: a failure changes nothing, and a reply is the best where none ranks as high. -/
theorem kept_sample {key : String → κ} {asked : Nat → Except ε String} {n : Nat} {got : Sampled κ ε}
    (kept : Kept key asked n got) : Kept key asked (n + 1) (sample key got (n + 1, asked (n + 1))) := by
  obtain ⟨best, failed⟩ := got
  have split_ : ∀ i, i ≤ n + 1 → i ≤ n ∨ i = n + 1 := fun i most => by omega
  unfold sample
  cases call : asked (n + 1) with
  | error why =>
      cases best with
      | none =>
          obtain ⟨each, -, -⟩ := kept
          refine ⟨fun i some_ most => ?_, fun _ => ⟨why, call, rfl⟩, fun none_ => by omega⟩
          rcases split_ i most with before | rfl
          · exact each i some_ before
          · exact ⟨why, call⟩
      | some held =>
          obtain ⟨text, best_key, chosen⟩ := held
          obtain ⟨same, some_, most, replied, above⟩ := kept
          refine ⟨same, some_, by omega, replied, fun i reply first last came => ?_⟩
          rcases split_ i last with before | rfl
          · exact above i reply first before came
          · rw [call] at came
            cases came
  | ok reply =>
      cases best with
      | none =>
          obtain ⟨each, -, -⟩ := kept
          refine ⟨rfl, by omega, le_refl _, call, fun i other first last came => ?_⟩
          rcases split_ i last with before | rfl
          · obtain ⟨why, failure⟩ := each i first before
            rw [failure] at came
            cases came
          · rw [call] at came
            obtain rfl := Except.ok.inj came
            exact ⟨le_refl _, fun less => absurd less (lt_irrefl _)⟩
      | some held =>
          obtain ⟨text, best_key, chosen⟩ := held
          obtain ⟨rfl, some_, most, replied, above⟩ := kept
          by_cases higher : key text < key reply
          · dsimp only
            rw [if_pos higher]
            refine ⟨rfl, by omega, le_refl _, call, fun i other first last came => ?_⟩
            rcases split_ i last with before | rfl
            · have below := lt_of_le_of_lt (above i other first before came).1 higher
              exact ⟨below.le, fun _ => below⟩
            · rw [call] at came
              obtain rfl := Except.ok.inj came
              exact ⟨le_refl _, fun less => absurd less (lt_irrefl _)⟩
          · dsimp only
            rw [if_neg higher]
            refine ⟨rfl, some_, by omega, replied, fun i other first last came => ?_⟩
            rcases split_ i last with before | rfl
            · exact above i other first before came
            · rw [call] at came
              obtain rfl := Except.ok.inj came
              exact ⟨not_lt.mp higher, fun less => by omega⟩

theorem kept_calls (key : String → κ) (asked : Nat → Except ε String) (n : Nat) :
    Kept key asked n (((List.range' 1 n).map fun i => (i, asked i)).foldl (sample key) {}) := by
  induction n with
  | zero => exact ⟨fun i some_ most => by omega, fun none_ => absurd rfl none_, fun _ => rfl⟩
  | succ n ih =>
      rw [List.range'_concat, List.map_append, List.foldl_append, Nat.one_mul, Nat.add_comm 1 n]
      exact kept_sample ih

end

end LocalHarness.Serving.Methods
