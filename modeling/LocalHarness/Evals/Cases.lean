import LocalHarness.Engines.Builders
import LocalHarness.Evals.Sampling
import LocalHarness.Holdout.Only
import LocalHarness.Library.Ranked

/-! # The cases a screen sits

A screen is one small case for each modality and language. Each candidate gets those that it can run, and which
they are does not depend on who else is screened.
-/

namespace LocalHarness.Evals.Cases

open LocalHarness.Library LocalHarness.Serving
open LocalHarness.Adopt (Side)

/-- A generation knob of a case. -/
inductive Param (β : Type) where
  | int (n : Int)
  | bool (b : Bool)
  | other (v : β)
  deriving DecidableEq

/-- A case; `rest` is what no selection reads. -/
structure Case (β ρ : Type) where
  id : String
  modality : String
  language : String
  /-- The methods it can fairly test, or none for all. -/
  methods : List String
  params : Dict (Param β)
  rest : ρ
  deriving DecidableEq

variable {β ρ : Type}

/-- What a screen has one case of. -/
def pair (c : Case β ρ) : String × String :=
  (c.modality, c.language)

/-- A web case without knobs. -/
def page (id : String) : Case Empty Unit :=
  ⟨id, "web", "en", [], ∅, ()⟩

/-! ## What a candidate can run -/

/-- The lane of what each engine makes. -/
def ENGINE_MODALITIES : List (String × String) :=
  [("mflux", "image"), ("h3", "video"), ("diffusers", "image"), ("diffusers-video", "video"),
    ("acestep", "music"), ("nimble", "decide"), ("decider", "decide"), ("osocr", "ocr"), ("hf-ocr", "ocr"),
    ("bm25", "retrieval"), ("rerank", "retrieval"), ("embed", "retrieval"), ("pii-regex", "pii"), ("hf-pii", "pii")]

def NEEDLE_LANES : List String := ["decide", "agent"]

/-- The lane of the engine that a spec resolves to. -/
def engineModality (candidate : String) : Option String :=
  match Engines.read candidate with
  | .error _ => none
  | .ok reading =>
      match Engines.build reading with
      | .error _ => none
      | .ok _ => ENGINE_MODALITIES.lookup reading.engine

/-- What a method counts as for a case, or "" for whatever its base counts as. -/
def takesOf (m : Methods.Method) : String :=
  if m.name = "trace" ∨ m.name = "trace-icon" then "trace" else ""

/-- The method a candidate names. -/
def methodOf (candidate : String) : Option Methods.Method :=
  match kind_of candidate with
  | .method m => some m
  | _ => none

theorem methodOf_empty : methodOf "" = none := by decide

theorem kind_of_congr {spec spec' : String} (same : Methods.head spec = Methods.head spec') :
    kind_of spec = kind_of spec' := by
  unfold Methods.head at same
  unfold kind_of
  rw [same]

/-- A spec with a base names a method. -/
theorem methodOf_of_base {candidate : String} (based : Methods.base_of candidate ≠ "") :
    ∃ m, methodOf candidate = some m := by
  obtain ⟨got, parsed, -⟩ := Methods.base_of_some based
  obtain ⟨known, -⟩ := Methods.parse_some parsed
  have each : ∀ m ∈ Methods.REGISTRY, methodOf m.name = some m ∧ Methods.head m.name = m.name := by decide
  obtain ⟨reads, whole⟩ := each got.method (List.mem_of_find?_eq_some known)
  have named : got.method.name = Methods.head candidate := by simpa using List.find?_some known
  have kinds : kind_of candidate = kind_of got.method.name := kind_of_congr (by rw [whole, named])
  have same : methodOf candidate = methodOf got.method.name := by
    unfold methodOf
    rw [kinds]
  exact ⟨got.method, same.trans reads⟩

-- Nothing below is found by going through the characters of a spec.
attribute [local irreducible] methodOf

theorem ne_empty_of_method {candidate : String} {m : Methods.Method} (named : methodOf candidate = some m) :
    candidate ≠ "" := by
  rintro rfl
  cases methodOf_empty.symm.trans named

section

variable {α : Type} (own : Methods.Method → Option α) (plain : String → α)

/-- What a method says of itself, or else what its base comes to, so many bases down. -/
def descend : Nat → String → α
  | 0, candidate => plain candidate
  | depth + 1, candidate =>
      match methodOf candidate with
      | some m => (own m).getD (descend depth (Methods.base_of candidate))
      | none => plain candidate

theorem descend_succ (depth : Nat) (candidate : String) : descend own plain (depth + 1) candidate =
    match methodOf candidate with
    | some m => (own m).getD (descend own plain depth (Methods.base_of candidate))
    | none => plain candidate := rfl

theorem descend_empty (depth : Nat) : descend own plain depth "" = plain "" := by
  cases depth with
  | zero => rfl
  | succ depth => rw [descend_succ, methodOf_empty]

/-- However many bases down, once they are all there are. -/
theorem descend_congr {depth depth' : Nat} {candidate : String} (long : candidate.toList.length ≤ depth)
    (long' : candidate.toList.length ≤ depth') : descend own plain depth candidate = descend own plain depth' candidate := by
  induction depth generalizing depth' candidate with
  | zero =>
      obtain rfl : candidate = "" := String.toList_inj.mp (List.length_eq_zero_iff.mp (Nat.le_zero.mp long))
      rw [descend_empty, descend_empty]
  | succ depth ih =>
      cases depth' with
      | zero =>
          obtain rfl : candidate = "" := String.toList_inj.mp (List.length_eq_zero_iff.mp (Nat.le_zero.mp long'))
          rw [descend_empty, descend_empty]
      | succ depth' =>
          rw [descend_succ, descend_succ]
          cases named : methodOf candidate with
          | none => rfl
          | some m =>
              have shorter := Methods.length_base_of (ne_empty_of_method named)
              dsimp only
              congr 1
              exact ih (by omega) (by omega)

/-- All the way down, a method is what it says of itself or what its base is, and anything else is itself. -/
theorem descend_eq (candidate : String) : descend own plain candidate.toList.length candidate =
    match methodOf candidate with
    | some m => (own m).getD (descend own plain (Methods.base_of candidate).toList.length (Methods.base_of candidate))
    | none => plain candidate := by
  rw [descend_congr own plain (le_refl _) (Nat.le_succ _), descend_succ]
  cases named : methodOf candidate with
  | none => rfl
  | some m =>
      have shorter := Methods.length_base_of (ne_empty_of_method named)
      dsimp only
      rw [descend_congr own plain shorter.le (le_refl _)]

end

/-- The lane of a kind that is no method. -/
def kindModality (candidate : String) : Option String :=
  match kind_of candidate with
  | .tts => some "tts"
  | .stt => some "stt"
  | .omnisvg => some "svg"
  | .chain => some "image"
  | .needle => some "decide"
  | .process => engineModality candidate
  | _ => none

/-- The one modality a candidate can run, or none for one that runs every text lane. -/
def modality_of (candidate : String) : Option String :=
  descend (fun m => if m.modality ≠ "" then some (some m.modality) else none) kindModality
    candidate.toList.length candidate

/-- Which method a candidate is, for a case that says what it can fairly test. -/
def method_of (candidate : String) : String :=
  descend (fun m => if takesOf m ≠ "" then some (takesOf m) else none)
    (fun candidate => if kind_of candidate = .omnisvg then "omnisvg" else "llm") candidate.toList.length candidate

/-- A method that says nothing of its modality has its base's. -/
theorem modality_of_base {candidate : String} {m : Methods.Method} (named : methodOf candidate = some m)
    (unsaid : m.modality = "") : modality_of candidate = modality_of (Methods.base_of candidate) := by
  rw [modality_of, descend_eq, named]
  dsimp only
  rw [if_neg (not_not.mpr unsaid), Option.getD_none, modality_of]

theorem modality_of_own {candidate : String} {m : Methods.Method} (named : methodOf candidate = some m)
    (said : m.modality ≠ "") : modality_of candidate = some m.modality := by
  rw [modality_of, descend_eq, named]
  dsimp only
  rw [if_pos said, Option.getD_some]

theorem method_of_own {candidate : String} {m : Methods.Method} (named : methodOf candidate = some m)
    (said : takesOf m ≠ "") : method_of candidate = takesOf m := by
  rw [method_of, descend_eq, named]
  dsimp only
  rw [if_pos said, Option.getD_some]

theorem method_of_base {candidate : String} {m : Methods.Method} (named : methodOf candidate = some m)
    (unsaid : takesOf m = "") : method_of candidate = method_of (Methods.base_of candidate) := by
  rw [method_of, descend_eq, named]
  dsimp only
  rw [if_neg (not_not.mpr unsaid), Option.getD_none, method_of]

/-- The options of a spec, or none where they do not parse. -/
def options_of (candidate : String) : Dict String :=
  match Engines.parse_options (Text.partition (Text.partition candidate ':').2 ',').2 candidate with
  | .ok options => options
  | .error _ => ∅

/-- The language a speech candidate is measured in. -/
def language_of (candidate : String) : Option String :=
  match kind_of candidate with
  | .stt =>
      let language := ((options_of candidate).lookup "language").getD ""
      some (if language = "" then "en" else language)
  | .tts =>
      let ear := ((options_of candidate).lookup "ear").getD "server"
      let language := Text.strip (Text.partition ear ':').2
      some (if language = "" then "en" else language)
  | _ => none

/-- The cases whose methods take a candidate, in its method's own lanes and its language. -/
def fair (candidate : String) (picked : List (Case β ρ)) : List (Case β ρ) :=
  let lanes := ((methodOf candidate).map Methods.Method.lanes).getD []
  let picked := if lanes ≠ [] then picked.filter fun c => c.modality ∈ lanes else picked
  let picked := picked.filter fun c => c.methods = [] ∨ method_of candidate ∈ c.methods
  match language_of candidate with
  | some language => picked.filter fun c => c.language = language
  | none => picked

/-- The cases a candidate can run. -/
def cases_for (candidate : String) (cases : List (Case β ρ)) : List (Case β ρ) :=
  if kind_of candidate = .needle then cases.filter fun c => c.modality ∈ NEEDLE_LANES
  else match modality_of candidate with
  | none =>
      let text := cases.filter fun c => c.modality ∈ TEXT_MODALITIES ++ AGENT_MODALITIES
      if (methodOf candidate).isSome then fair candidate text else text
  | some modality => fair candidate (cases.filter fun c => c.modality = modality)

/-- What a choice of cases reads of a case. -/
def read (c : Case β ρ) : String × List String × String :=
  (c.modality, c.methods, c.language)

theorem fair_eq (candidate : String) : ∃ takes : String × List String × String → Bool,
    ∀ picked : List (Case β ρ), fair candidate picked = picked.filter fun c => takes (read c) := by
  refine ⟨fun key => ((language_of candidate).all fun language => key.2.2 = language) &&
    (decide (key.2.1 = [] ∨ method_of candidate ∈ key.2.1) &&
      decide (((methodOf candidate).map Methods.Method.lanes).getD [] = [] ∨
        key.1 ∈ ((methodOf candidate).map Methods.Method.lanes).getD [])), fun picked => ?_⟩
  unfold fair read
  generalize ((methodOf candidate).map Methods.Method.lanes).getD [] = lanes
  cases language_of candidate with
  | none => by_cases every : lanes = [] <;> simp [every, List.filter_filter]
  | some language => by_cases every : lanes = [] <;> simp [every, List.filter_filter]

/-- Whether a candidate is handed a case is read off that case alone. -/
theorem cases_for_eq (candidate : String) : ∃ takes : String × List String × String → Bool,
    ∀ cases : List (Case β ρ), cases_for candidate cases = cases.filter fun c => takes (read c) := by
  obtain ⟨takes, same⟩ := @fair_eq β ρ candidate
  by_cases needle : kind_of candidate = .needle
  · refine ⟨fun key => decide (key.1 ∈ NEEDLE_LANES), fun cases => ?_⟩
    rw [cases_for, if_pos needle]
    rfl
  · cases lane : modality_of candidate with
    | none =>
        by_cases method : (methodOf candidate).isSome
        · refine ⟨fun key => takes key && decide (key.1 ∈ TEXT_MODALITIES ++ AGENT_MODALITIES), fun cases => ?_⟩
          rw [cases_for, if_neg needle, lane]
          dsimp only
          rw [if_pos method, same, List.filter_filter]
          rfl
        · refine ⟨fun key => decide (key.1 ∈ TEXT_MODALITIES ++ AGENT_MODALITIES), fun cases => ?_⟩
          rw [cases_for, if_neg needle, lane]
          dsimp only
          rw [if_neg method]
          rfl
    | some modality =>
        refine ⟨fun key => takes key && decide (key.1 = modality), fun cases => ?_⟩
        rw [cases_for, if_neg needle, lane]
        dsimp only
        rw [same, List.filter_filter]
        rfl

/-! ## What a screen sits -/

/-- The smallest thing that still proves the pipeline ran. -/
def SCREEN_PARAMS : List (String × Option Int) :=
  [("width", some 256), ("height", some 256), ("steps", some 2), ("seconds", none), ("frames", none)]

/-- `min(params[k], v)` of a whole number, which a bool is too, or else `v`. -/
def least (v : Int) : Param β → Param β
  | .int n => .int (min n v)
  | .bool b => .bool b
  | .other _ => .int v

def shrink (params : Dict (Param β)) (setting : String × Option Int) : Dict (Param β) :=
  match params.lookup setting.1, setting.2 with
  | some value, some v => params.insert setting.1 (least v value)
  | _, _ => params

/-- A case at the settings of a screen. -/
def shrunk (c : Case β ρ) : Case β ρ :=
  { c with params := SCREEN_PARAMS.foldl shrink c.params }

/-- The first case by id for each modality and language. -/
def first_each (cases : List (Case β ρ)) : List (Case β ρ) :=
  Leasts.leasts Case.id pair cases

/-- One small case for each modality and language that a candidate can run. -/
def screen_cases (cases : List (Case β ρ)) (candidates : List String) : List (Case β ρ) :=
  let groups := if candidates = [] then [cases] else candidates.map fun candidate => cases_for candidate cases
  (Groups.firsts Case.id (groups.flatMap first_each)).map shrunk

/-- A chunk with an option in it belongs to the candidate before it. -/
def addChunk (out : List String) (chunk : String) : List String :=
  match out.getLast? with
  | some last => if '=' ∈ chunk.toList then out.dropLast ++ [last ++ "," ++ chunk] else out ++ [chunk]
  | none => [chunk]

/-- The candidates that a flag lists between commas. -/
def split_candidates (raw : String) : List String :=
  (Text.chunks raw).foldl addChunk []

/-- A text candidate at temperature 0, unless it says otherwise. -/
def pinned (candidate : String) : Except String String :=
  if text_candidate candidate then do
    let options ← Engines.parse_options (Text.partition candidate ',').2 candidate
    return if "temperature" ∈ options then candidate else candidate ++ ",temperature=0"
  else .ok candidate

def greedy (candidates : List String) : Except String (List String) :=
  candidates.mapM pinned

/-! ## The pin

A screen asks text candidates at temperature 0. What it adds to a candidate's spelling is an option of its base, so that
it sits what it would sit without.
-/

/-- Options are added to the base of a method spec, and leave its kind as it is. -/
theorem kind_of_base_append {spec : String} (trim : Text.strip spec = spec) (based : Methods.base_of spec ≠ "")
    {t : List Char} (ends : ∀ c ∈ (',' :: t).getLast?, Text.isSpace c = false) :
    kind_of (Methods.base_of (spec ++ .ofList (',' :: t))) = kind_of (Methods.base_of spec) := by
  obtain ⟨got, parsed, same⟩ := Methods.base_of_some based
  obtain ⟨known, rest, said, shape, read⟩ := Methods.parse_some parsed
  have colon : ':' ∈ spec.toList := trim ▸ Methods.mem_of_readArgs read said
  have some_ : spec ≠ "" := by
    rintro rfl
    cases colon
  have longer := Text.strip_append trim some_ ends (List.cons_ne_nil _ _)
  have said' : Text.blank (rest ++ .ofList (',' :: t)) = false := by
    rw [Text.blank] at said ⊢
    rw [String.toList_append, List.all_append, said, Bool.false_and]
  rw [trim] at read
  have read' : Methods.readArgs (Text.strip (spec ++ .ofList (',' :: t))) got.method got.method.arity
      (Text.partition (Text.strip (spec ++ .ofList (',' :: t))) ':').2 =
        .ok (got.args, rest ++ .ofList (',' :: t)) := by
    rw [longer, Text.partition_append_of_mem colon]
    exact Methods.readArgs_append read said _
  have base : Methods.base_of (spec ++ .ofList (',' :: t)) = Text.strip (rest ++ .ofList (',' :: t)) :=
    Methods.base_of_parse (Methods.parse_of (by rw [Methods.head_append, known]) said' read')
  rw [base, same, shape]
  exact kind_of_congr (by rw [Methods.head_strip, Methods.head_strip, Methods.head_append])

/-- Nothing is chosen by for a text spec but its kind. -/
theorem text_kind {spec : String} (text : kind_of spec ∈ TEXT_KINDS) :
    methodOf spec = none ∧ modality_of spec = none ∧ method_of spec = "llm" ∧ language_of spec = none := by
  have four : kind_of spec = .gateway ∨ kind_of spec = .llamacpp ∨ kind_of spec = .vllm ∨ kind_of spec = .ds4 := by
    simpa [TEXT_KINDS] using text
  have none_ : methodOf spec = none := by
    unfold methodOf
    rcases four with kind | kind | kind | kind <;> rw [kind]
  refine ⟨none_, ?_, ?_, ?_⟩
  · rw [modality_of, descend_eq, none_]
    unfold kindModality
    rcases four with kind | kind | kind | kind <;> rw [kind]
  · rw [method_of, descend_eq, none_]
    rcases four with kind | kind | kind | kind <;> rw [kind] <;> rfl
  · unfold language_of
    rcases four with kind | kind | kind | kind <;> rw [kind]

theorem kind_of_method {spec : String} {m : Methods.Method} (named : methodOf spec = some m) :
    kind_of spec = .method m := by
  unfold methodOf at named
  split at named
  next kind => rw [kind, Option.some.inj named]
  next => cases named

/-- Specs of one kind whose bases, if they have any, are both text specs are given the same cases. -/
theorem cases_for_congr {spec spec' : String} (kinds : kind_of spec' = kind_of spec)
    (text : kind_of spec ∈ TEXT_KINDS ∨ Methods.base_of spec ≠ "" ∧ kind_of (Methods.base_of spec) ∈ TEXT_KINDS ∧
      kind_of (Methods.base_of spec') ∈ TEXT_KINDS) (cases : List (Case β ρ)) :
    cases_for spec' cases = cases_for spec cases := by
  have chosen : methodOf spec' = methodOf spec ∧ modality_of spec' = modality_of spec ∧
      method_of spec' = method_of spec ∧ language_of spec' = language_of spec := by
    rcases text with text | ⟨based, base, base'⟩
    · obtain ⟨none_, lane, counts, language⟩ := text_kind text
      obtain ⟨none', lane', counts', language'⟩ := text_kind (kinds.symm ▸ text)
      exact ⟨none'.trans none_.symm, lane'.trans lane.symm, counts'.trans counts.symm, language'.trans language.symm⟩
    · obtain ⟨m, named⟩ := methodOf_of_base based
      have kind := kind_of_method named
      have named' : methodOf spec' = some m := by
        unfold methodOf
        rw [kinds, kind]
      obtain ⟨-, lane, counts, -⟩ := text_kind base
      obtain ⟨-, lane', counts', -⟩ := text_kind base'
      refine ⟨named'.trans named.symm, ?_, ?_, ?_⟩
      · by_cases unsaid : m.modality = ""
        · rw [modality_of_base named unsaid, modality_of_base named' unsaid, lane, lane']
        · rw [modality_of_own named unsaid, modality_of_own named' unsaid]
      · by_cases unsaid : takesOf m = ""
        · rw [method_of_base named unsaid, method_of_base named' unsaid, counts, counts']
        · rw [method_of_own named unsaid, method_of_own named' unsaid]
      · unfold language_of
        rw [kinds, kind]
  obtain ⟨method, lane, counts, language⟩ := chosen
  unfold cases_for fair
  rw [kinds, method, lane, counts, language]

theorem cases_for_pinned {candidate asked : String} (trim : Text.strip candidate = candidate)
    (pin : pinned candidate = .ok asked) (cases : List (Case β ρ)) :
    cases_for asked cases = cases_for candidate cases := by
  unfold pinned at pin
  split at pin
  next text =>
    obtain ⟨options, -, made⟩ := bind_ok pin
    have made := pure_ok made
    by_cases said : "temperature" ∈ options
    · rw [made, if_pos said]
    · have tail : ",temperature=0" = String.ofList (',' :: "temperature=0".toList) := by decide
      rw [made, if_neg said, tail]
      refine cases_for_congr (kind_of_congr (Methods.head_append candidate _)) ?_ cases
      rw [text_candidate, Bool.or_eq_true, Bool.and_eq_true, decide_eq_true_eq, decide_eq_true_eq, bne_iff_ne] at text
      refine text.imp id fun both => ⟨both.1, both.2, ?_⟩
      have clear : ∀ c ∈ (',' :: "temperature=0".toList).getLast?, Text.isSpace c = false := by
        intro c last
        have final : (',' :: "temperature=0".toList).getLast? = some '0' := by decide
        rw [final, Option.mem_some_iff] at last
        exact last ▸ rfl
      rw [kind_of_base_append trim both.1 clear]
      exact both.2
  next => rw [Except.ok.inj pin]

/-- There is something of each, and no space around it. -/
def Trimmed (listed : List String) : Prop :=
  ∀ text ∈ listed, text ≠ "" ∧ Text.strip text = text

theorem trimmed_addChunk {out : List String} {chunk : String} (all : Trimmed out) (some_ : chunk ≠ "")
    (trim : Text.strip chunk = chunk) : Trimmed (addChunk out chunk) := by
  have clear : ∀ c ∈ (',' :: chunk.toList).getLast?, Text.isSpace c = false := by
    intro c last
    have ends := (Text.strip_ends chunk).2
    rw [trim] at ends
    rw [List.getLast?_cons] at last
    cases final : chunk.toList.getLast? with
    | none => exact absurd (String.toList_inj.mp (List.getLast?_eq_none_iff.mp final)) some_
    | some d =>
        rw [final, Option.getD_some, Option.mem_some_iff] at last
        exact last ▸ ends d final
  unfold addChunk
  split
  next last found =>
    obtain ⟨lastSome, lastTrim⟩ := all last (List.mem_of_getLast? found)
    split
    next =>
      intro text member
      rcases List.mem_append.mp member with old | new
      · exact all text (List.dropLast_subset _ old)
      · obtain rfl := List.mem_singleton.mp new
        have shape : last ++ "," ++ chunk = last ++ String.ofList (',' :: chunk.toList) := by
          rw [← String.toList_inj]
          simp
        rw [shape]
        refine ⟨fun nothing => ?_, Text.strip_append lastTrim lastSome clear (List.cons_ne_nil _ _)⟩
        have chars := congrArg String.toList nothing
        simp at chars
    next =>
      intro text member
      rcases List.mem_append.mp member with old | new
      · exact all text old
      · exact List.mem_singleton.mp new ▸ ⟨some_, trim⟩
  next =>
    intro text member
    exact List.mem_singleton.mp member ▸ ⟨some_, trim⟩

theorem trimmed_foldl {chunks out : List String} (each : Trimmed chunks) (all : Trimmed out) :
    Trimmed (chunks.foldl addChunk out) := by
  induction chunks generalizing out with
  | nil => exact all
  | cons chunk rest ih =>
      obtain ⟨⟨some_, trim⟩, others⟩ := List.forall_mem_cons.mp each
      exact ih others (trimmed_addChunk all some_ trim)

theorem trimmed_split_candidates (raw : String) : Trimmed (split_candidates raw) := by
  refine trimmed_foldl (fun chunk member => ?_) (List.forall_mem_nil _)
  obtain ⟨piece, some_⟩ := List.mem_filter.mp member
  obtain ⟨whole, -, rfl⟩ := List.mem_map.mp piece
  exact ⟨bne_iff_ne.mp some_, Text.strip_strip whole⟩

/-- Whatever candidates a flag lists, a screen that pins them chooses the cases that each would be given unpinned. -/
theorem pinned_sits (raw : String) (asked : List String) (made : greedy (split_candidates raw) = .ok asked)
    (cases : List (Case β ρ)) :
    asked.map (fun candidate => cases_for candidate cases) =
      (split_candidates raw).map fun candidate => cases_for candidate cases := by
  have trims := trimmed_split_candidates raw
  generalize split_candidates raw = listed at made trims
  have pins := mapM_ok made
  clear made
  induction pins with
  | nil => rfl
  | cons pin _ ih =>
      obtain ⟨⟨-, trim⟩, others⟩ := List.forall_mem_cons.mp trims
      rw [List.map_cons, List.map_cons, cases_for_pinned trim pin, ih others]

/-- The option goes to the base of a method, and an engine is left alone. -/
theorem pinned_sits_best_of :
    ["best-of:3:local-mid,temperature=0", "mflux:z-image,steps=4"].map
        (fun candidate => cases_for candidate (["form", "cards"].map page)) =
      (split_candidates "best-of:3:local-mid, mflux:z-image, steps=4").map fun candidate =>
        cases_for candidate (["form", "cards"].map page) :=
  pinned_sits _ _ (by decide +kernel) _

/-! ## Who sits what -/

variable [DecidableEq β] [DecidableEq ρ] (draw : Holdout.Draw) (digest : Case β ρ → String)

def held (c : Case β ρ) : Holdout.Case :=
  ⟨c.id, c.modality, digest c⟩

/-- The cases on one side, each lane among them split on its own. -/
def only (cases : List (Case β ρ)) (side : Side) : List (Case β ρ) :=
  cases.filter fun c => c.id ∈ Holdout.keep draw (cases.map (held digest)) side

/-- The dev cases, and those of a modality and language that only holdout covers. -/
def screen_pool (cases : List (Case β ρ)) : List (Case β ρ) :=
  let dev := only draw digest cases .dev
  dev ++ cases.filter fun c => c ∉ dev ∧ pair c ∉ dev.map pair

/-- Who sits what in a screen of the chosen cases. -/
def screened (chosen : List (Case β ρ)) (candidates : List String) :
    Except String (List (String × List (Case β ρ))) := do
  let candidates ← greedy candidates
  -- A screen repeats nothing, so each case stands for itself.
  let cases := screen_cases (screen_pool draw digest chosen) candidates
  return candidates.map fun candidate => (candidate, first_each (cases_for candidate cases))

section

omit [DecidableEq β] [DecidableEq ρ]

variable {pool : List (Case β ρ)} {candidate : String} {candidates : List String}

theorem cases_for_subset (candidate : String) (cases : List (Case β ρ)) : cases_for candidate cases ⊆ cases := by
  obtain ⟨takes, same⟩ := @cases_for_eq β ρ candidate
  rw [same]
  exact fun c member => (List.mem_filter.mp member).1

theorem shrunk_cases (candidate : String) (cases : List (Case β ρ)) :
    cases_for candidate (cases.map shrunk) = (cases_for candidate cases).map shrunk := by
  obtain ⟨takes, same⟩ := @cases_for_eq β ρ candidate
  rw [same, same, List.filter_map]
  rfl

theorem shrunk_first_each (cases : List (Case β ρ)) :
    first_each (cases.map shrunk) = (first_each cases).map shrunk :=
  Leasts.leasts_map shrunk (fun _ => rfl) (fun _ => rfl) cases

/-- What each candidate would be given for itself, once each. -/
def picked (pool : List (Case β ρ)) (candidates : List String) : List (Case β ρ) :=
  Groups.firsts Case.id ((candidates.map fun candidate => cases_for candidate pool).flatMap first_each)

theorem screen_cases_some (pool : List (Case β ρ)) (some_ : candidates ≠ []) :
    screen_cases pool candidates = (picked pool candidates).map shrunk := by
  unfold screen_cases
  rw [if_neg some_, picked]

theorem picked_subset (pool : List (Case β ρ)) (candidates : List String) : picked pool candidates ⊆ pool := by
  intro c member
  obtain ⟨group, among, taken⟩ := List.mem_flatMap.mp ((Groups.firsts_sublist Case.id _).subset member)
  obtain ⟨one, -, rfl⟩ := List.mem_map.mp among
  exact cases_for_subset one pool (Leasts.mem_of_mem_leasts taken)

/-- What is picked for a listed candidate is among what is picked for all. -/
theorem first_each_subset (apart : Leasts.Apart Case.id pool) (listed : candidate ∈ candidates) :
    first_each (cases_for candidate pool) ⊆ picked pool candidates := by
  intro c member
  have among : c ∈ (candidates.map fun candidate => cases_for candidate pool).flatMap first_each :=
    List.mem_flatMap.mpr ⟨_, List.mem_map_of_mem listed, member⟩
  obtain ⟨kept, there, same⟩ := List.mem_map.mp
    ((Groups.mem_map_firsts Case.id).mpr (List.mem_map_of_mem among))
  have there : kept ∈ picked pool candidates := there
  have inside : c ∈ pool := cases_for_subset candidate pool (Leasts.mem_of_mem_leasts member)
  exact apart kept (picked_subset pool candidates there) c inside same ▸ there

/-- Of what is picked for all, a candidate is given what is picked for itself. -/
theorem first_each_picked (apart : Leasts.Apart Case.id pool) (listed : candidate ∈ candidates) :
    first_each (cases_for candidate (picked pool candidates)) = first_each (cases_for candidate pool) := by
  have lower := first_each_subset apart listed
  have upper := picked_subset pool candidates
  obtain ⟨takes, same⟩ := @cases_for_eq β ρ candidate
  refine Leasts.leasts_of_between (apart.subset (cases_for_subset candidate pool)) ?_ ?_
  · intro c member
    have taken : c ∈ cases_for candidate pool := Leasts.mem_of_mem_leasts member
    rw [same] at taken ⊢
    exact List.mem_filter.mpr ⟨lower member, (List.mem_filter.mp taken).2⟩
  · intro c member
    rw [same] at member ⊢
    exact List.mem_filter.mpr ⟨upper (List.mem_filter.mp member).1, (List.mem_filter.mp member).2⟩

theorem screen_alone (apart : Leasts.Apart Case.id pool) (listed : candidate ∈ candidates) :
    first_each (cases_for candidate (screen_cases pool candidates)) =
      (first_each (cases_for candidate pool)).map shrunk := by
  rw [screen_cases_some pool (List.ne_nil_of_mem listed), shrunk_cases, shrunk_first_each,
    first_each_picked apart listed]

end

variable {draw digest}

theorem screen_pool_subset (chosen : List (Case β ρ)) : screen_pool draw digest chosen ⊆ chosen := by
  intro c member
  rcases List.mem_append.mp member with dev | other
  · exact (List.mem_filter.mp dev).1
  · exact (List.mem_filter.mp other).1

variable (draw digest)

/-- Where no two cases share an id, what each candidate sits in a screen is found from that candidate and the
chosen cases, whoever else is screened. -/
theorem screened_alone (chosen : List (Case β ρ)) (candidates : List String) (apart : Leasts.Apart Case.id chosen) :
    screened draw digest chosen candidates = (greedy candidates).map fun candidates =>
      candidates.map fun candidate =>
        (candidate, (first_each (cases_for candidate (screen_pool draw digest chosen))).map shrunk) := by
  rw [screened]
  cases greedy candidates with
  | error why => rfl
  | ok candidates =>
      have each : ∀ candidate ∈ candidates,
          (candidate, first_each (cases_for candidate
            (screen_cases (screen_pool draw digest chosen) candidates))) =
          (candidate, (first_each (cases_for candidate (screen_pool draw digest chosen))).map shrunk) :=
        fun candidate listed => congrArg (Prod.mk candidate)
          (screen_alone (apart.subset (screen_pool_subset chosen)) listed)
      exact congrArg Except.ok (List.map_congr_left each)

theorem apart_pages (ids : List String) : Leasts.Apart Case.id (ids.map page) := by
  intro a first b second same
  obtain ⟨id, -, rfl⟩ := List.mem_map.mp first
  obtain ⟨id', -, rfl⟩ := List.mem_map.mp second
  exact congrArg page same

theorem screened_alone_pages : screened (fun _ => 0) (fun _ => "") (["cards", "form"].map page) ["local-mid", "omnisvg:4B"] =
    (greedy ["local-mid", "omnisvg:4B"]).map fun candidates => candidates.map fun candidate =>
      (candidate, (first_each (cases_for candidate
        (screen_pool (fun _ => 0) (fun _ => "") (["cards", "form"].map page)))).map shrunk) :=
  screened_alone _ _ _ _ (apart_pages _)

theorem mem_screen_pool {chosen : List (Case β ρ)} {c : Case β ρ} : c ∈ screen_pool draw digest chosen ↔
    c ∈ chosen ∧ (c ∈ only draw digest chosen .dev ∨ ∀ k ∈ only draw digest chosen .dev, pair k ≠ pair c) := by
  rw [screen_pool, List.mem_append]
  constructor
  · rintro (dev | other)
    · exact ⟨(List.mem_filter.mp dev).1, .inl dev⟩
    · obtain ⟨listed, apart⟩ := List.mem_filter.mp other
      exact ⟨listed, .inr fun k dev same => (of_decide_eq_true apart).2 (same ▸ List.mem_map_of_mem dev)⟩
  · rintro ⟨listed, dev | none_⟩
    · exact .inl dev
    · by_cases dev : c ∈ only draw digest chosen .dev
      · exact .inl dev
      · refine .inr (List.mem_filter.mpr ⟨listed, decide_eq_true ⟨dev, fun have_ => ?_⟩⟩)
        obtain ⟨k, inside, same⟩ := List.mem_map.mp have_
        exact none_ k inside same

/-- In a screen a candidate sits, of each modality and language that it can run, the first case by id, shrunk: a dev
case where the lane has one of that language, and one held out only where it has none. -/
theorem screened_sits (chosen : List (Case β ρ)) (candidates : List String) (apart : Leasts.Apart Case.id chosen)
    (candidate : String) (listed : candidate ∈ candidates) :
    let dev := only draw digest chosen .dev
    let sat := first_each (cases_for candidate (screen_cases (screen_pool draw digest chosen) candidates))
    let sittable := fun c => c ∈ cases_for candidate chosen ∧ (c ∈ dev ∨ ∀ k ∈ dev, pair k ≠ pair c)
    (∀ d ∈ sat, ∃ c, sittable c ∧ d = shrunk c ∧ ∀ other, sittable other → pair other = pair c → c.id ≤ other.id) ∧
      (sat.map pair).Nodup ∧ ∀ c, sittable c → ∃ d ∈ sat, pair d = pair c := by
  obtain ⟨takes, same⟩ := @cases_for_eq β ρ candidate
  have mem (c : Case β ρ) : c ∈ cases_for candidate (screen_pool draw digest chosen) ↔
      c ∈ cases_for candidate chosen ∧
        (c ∈ only draw digest chosen .dev ∨ ∀ k ∈ only draw digest chosen .dev, pair k ≠ pair c) := by
    rw [same, same, List.mem_filter, List.mem_filter, mem_screen_pool]
    exact and_right_comm
  dsimp only
  rw [screen_alone (apart.subset (screen_pool_subset chosen)) listed]
  refine ⟨fun d member => ?_, ?_, fun c taken => ?_⟩
  · obtain ⟨c, kept, rfl⟩ := List.mem_map.mp member
    exact ⟨c, (mem c).mp (Leasts.mem_of_mem_leasts kept), rfl, fun other taken same =>
      Leasts.le_of_mem_leasts kept ((mem other).mpr taken) same⟩
  · rw [List.map_map]
    exact Leasts.kinds_leasts Case.id pair (cases_for candidate (screen_pool draw digest chosen))
  · obtain ⟨d, kept, same⟩ := Leasts.exists_leasts Case.id pair ((mem c).mpr taken)
    exact ⟨shrunk d, List.mem_map_of_mem kept, same⟩

/-- Too few cases to split are all dev cases, and of two pages the first by id is sat. -/
theorem screened_sits_pages :
    let sat := first_each (cases_for "local-mid" (screen_cases
      (screen_pool (fun _ => 0) (fun _ => "") (["form", "cards"].map page)) ["local-mid", "omnisvg:4B"]))
    (sat.map pair).Nodup ∧ ∃ d ∈ sat, pair d = ("web", "en") := by
  obtain ⟨-, once, covers⟩ := screened_sits (fun _ => 0) (fun _ => "") (["form", "cards"].map page)
    ["local-mid", "omnisvg:4B"] (apart_pages _) "local-mid" (by simp)
  exact ⟨once, covers (page "cards") (by decide +kernel)⟩

end LocalHarness.Evals.Cases
