import LocalHarness.Engines.Builders

/-! # What a command says of the spec it was built from

Two specs of one engine build the same command exactly where they load the same model and
every option the command reads is read the same.
-/

namespace LocalHarness.Engines

open LocalHarness.Library

/-! ## Flags -/

theorem flags_cons (pair : String × String) (rest : List (String × String))
    (get : String → Option String) :
    flags (pair :: rest) get =
      (match get pair.2 with | some value => [pair.1, value] | none => []) ++ flags rest get :=
  List.flatMap_cons

theorem flags_append (first second : List (String × String)) (get : String → Option String) :
    flags (first ++ second) get = flags first get ++ flags second get :=
  List.flatMap_append

theorem flags_congr {pairs : List (String × String)} {get get' : String → Option String}
    (same : ∀ pair ∈ pairs, get pair.2 = get' pair.2) : flags pairs get = flags pairs get' :=
  List.flatMap_congr fun pair member => by rw [same pair member]

/-- What a command goes on with is one of the flags to come or what follows them all. -/
theorem head_flags {pairs : List (String × String)} {get : String → Option String}
    {tail : List String} {word : String} (head : word ∈ (flags pairs get ++ tail).head?) :
    word ∈ pairs.map Prod.fst ∨ word ∈ tail.head? := by
  induction pairs with
  | nil => exact .inr head
  | cons pair rest ih =>
      rw [flags_cons] at head
      cases value : get pair.2 with
      | none =>
          rw [value] at head
          exact (ih head).imp_left (List.mem_cons_of_mem _)
      | some text =>
          rw [value] at head
          obtain rfl := Option.some.inj head
          exact .inl List.mem_cons_self

/-- The flags of a command tell which values were given, whatever the values are. -/
theorem flags_injective {pairs : List (String × String)} {get get' : String → Option String}
    {tail tail' : List String} (distinct : (pairs.map Prod.fst).Nodup)
    (apart : ∀ word ∈ tail.head?, word ∉ pairs.map Prod.fst)
    (apart' : ∀ word ∈ tail'.head?, word ∉ pairs.map Prod.fst)
    (same : flags pairs get ++ tail = flags pairs get' ++ tail') :
    (∀ pair ∈ pairs, get pair.2 = get' pair.2) ∧ tail = tail' := by
  induction pairs with
  | nil => exact ⟨nofun, same⟩
  | cons pair rest ih =>
      obtain ⟨fresh, distinct⟩ := List.nodup_cons.mp distinct
      have apart_ : ∀ word ∈ tail.head?, word ∉ rest.map Prod.fst := fun word head inside =>
        apart word head (List.mem_cons_of_mem _ inside)
      have apart'_ : ∀ word ∈ tail'.head?, word ∉ rest.map Prod.fst := fun word head inside =>
        apart' word head (List.mem_cons_of_mem _ inside)
      -- A flag that only one command has is no word the other can go on with.
      have alone : ∀ {get tail}, (∀ word ∈ tail.head?, word ∉ (pair :: rest).map Prod.fst) →
          ∀ value more, flags rest get ++ tail ≠ pair.1 :: value :: more := by
        intro get tail apart value more same
        have head : pair.1 ∈ (flags rest get ++ tail).head? := by
          rw [same]
          rfl
        rcases head_flags head with later | after
        · exact fresh later
        · exact apart pair.1 after List.mem_cons_self
      rw [flags_cons, flags_cons] at same
      rw [List.forall_mem_cons]
      cases value : get pair.2 with
      | none =>
          cases value' : get' pair.2 with
          | none =>
              rw [value, value'] at same
              obtain ⟨each, tails⟩ := ih distinct apart_ apart'_ same
              exact ⟨⟨rfl, each⟩, tails⟩
          | some text' =>
              rw [value, value'] at same
              exact absurd same (alone apart text' _)
      | some text =>
          cases value' : get' pair.2 with
          | none =>
              rw [value, value'] at same
              exact absurd same.symm (alone apart' text _)
          | some text' =>
              rw [value, value'] at same
              obtain ⟨texts, same⟩ := List.cons.inj (List.cons.inj same).2
              obtain ⟨each, tails⟩ := ih distinct apart_ apart'_ same
              exact ⟨⟨congrArg some texts, each⟩, tails⟩

/-! ## What is read of the options -/

/-- What a command reads of an option: a switch is off or not, a blank prompt or root is none,
    and quantization has a default. -/
def observed (key : String) (value : Option String) : Option String :=
  if key = "offload" ∨ key = "ssd_streaming" then (if off value then some "off" else none)
  else if key = "prompt" ∨ key = "root" then value.filter (· != "")
  else if key = "quantize" then some (value.getD "8")
  else value

/-- The options are read the same. -/
def SameOptions (a b : Dict String) : Prop :=
  ∀ key, observed key (a.lookup key) = observed key (b.lookup key)

/-- A key that is read as it stands. -/
def Plain (key : String) : Prop :=
  key ∉ ["offload", "ssd_streaming", "prompt", "root", "quantize"]

instance (key : String) : Decidable (Plain key) :=
  inferInstanceAs (Decidable (¬ _))

theorem observed_plain {key : String} (plain : Plain key) (value : Option String) :
    observed key value = value := by
  simp only [Plain, List.mem_cons, List.not_mem_nil, or_false, not_or] at plain
  simp [observed, plain]

theorem SameOptions.lookup {a b : Dict String} (same : SameOptions a b) {key : String}
    (plain : Plain key) : a.lookup key = b.lookup key := by
  have here := same key
  rwa [observed_plain plain, observed_plain plain] at here

theorem SameOptions.given {a b : Dict String} (same : SameOptions a b) (params : Params)
    {key : String} (plain : Plain key) : given a params key = given b params key := by
  rw [Engines.given, Engines.given, same.lookup plain]

/-- Where the params give nothing a command reads the options. -/
theorem text_given {options : Dict String} {params : Params} {key : String}
    (unset : param params key = none) : text (given options params key) = options.lookup key := by
  rw [given, unset, Option.map_none, Option.none_or]
  cases options.lookup key with
  | none => rfl
  | some value => rfl

theorem SameOptions.flags {a b : Dict String} (same : SameOptions a b) (params : Params)
    {pairs : List (String × String)} (plain : ∀ pair ∈ pairs, Plain pair.2) :
    flags pairs (fun key => text (Engines.given a params key)) =
      flags pairs fun key => text (Engines.given b params key) :=
  flags_congr fun pair member => by rw [same.given params (plain pair member)]

theorem observed_switch {key : String} {x y : Option String}
    (switch : key = "offload" ∨ key = "ssd_streaming") (same : off x = off y) :
    observed key x = observed key y := by
  rw [observed, observed, if_pos switch, if_pos switch, same]

/-- A word that only one setting of a switch adds tells the settings apart. -/
theorem switch_told {p q : Bool} {word : String}
    (same : (if p then [word] else []) = if q then [word] else []) : p = q := by
  cases p <;> cases q <;> simp_all

/-- A text that stands in for a blank one tells whether it was blank. -/
theorem filled_told {x y : Option String}
    (same : (x.filter (· != "")).getD "" = (y.filter (· != "")).getD "") :
    x.filter (· != "") = y.filter (· != "") := by
  have filled : ∀ {z : Option String} {text : String}, z.filter (· != "") = some text → text ≠ "" := by
    intro z text found
    simpa using (Option.filter_eq_some_iff.mp found).2
  cases first : x.filter (· != "") with
  | none =>
      cases second : y.filter (· != "") with
      | none => rfl
      | some text =>
          rw [first, second] at same
          exact absurd same.symm (filled second)
  | some text =>
      cases second : y.filter (· != "") with
      | none =>
          rw [first, second] at same
          exact absurd same (filled first)
      | some text' =>
          rw [first, second] at same
          exact congrArg some same

/-- A switch is read the same, whichever of the params and the options gives it. -/
theorem SameOptions.off {a b : Dict String} (same : SameOptions a b) (params : Params) {key : String}
    (switch : key = "offload" ∨ key = "ssd_streaming") :
    off (text (Engines.given a params key)) = off (text (Engines.given b params key)) := by
  have here := same key
  rw [observed, observed, if_pos switch, if_pos switch] at here
  cases set : param params key with
  | some value => simp [Engines.given, set]
  | none =>
      rw [text_given set, text_given set]
      cases first : Engines.off (a.lookup key) <;> cases second : Engines.off (b.lookup key) <;>
        simp_all

/-! ## One lemma for each command -/

/-- A machine on which every command can be built, whose environment says nothing. -/
def anywhere (acestep_root : String) : Place where
  environ := ∅
  checkout := ""
  home := ""
  executable := ""
  h3_model_dir := ""
  acestep_root := acestep_root
  interpreter := fun root => some root
  refs := id

/-- The options of a spec are among those its engine takes. -/
def Within (options : Dict String) (allowed : List String) : Prop :=
  ∀ key, options.lookup key ≠ none → key ∈ allowed

theorem Within.sameOptions {a b : Dict String} {allowed : List String} (withinA : Within a allowed)
    (withinB : Within b allowed)
    (same : ∀ key ∈ allowed, observed key (a.lookup key) = observed key (b.lookup key)) :
    SameOptions a b := by
  intro key
  by_cases member : key ∈ allowed
  · exact same key member
  · have noneA : a.lookup key = none := not_not.mp (mt (withinA key) member)
    have noneB : b.lookup key = none := not_not.mp (mt (withinB key) member)
    rw [noneA, noneB]

/-- The flags of two commands tell the options apart that they were read from. -/
theorem flags_lookup {a b : Dict String} {params : Params} {names : List String}
    {tail tail' : List String} (distinct : ((dashed names).map Prod.fst).Nodup)
    (unset : ∀ name ∈ names, param params name = none)
    (apart : ∀ word ∈ tail.head?, word ∉ (dashed names).map Prod.fst)
    (apart' : ∀ word ∈ tail'.head?, word ∉ (dashed names).map Prod.fst)
    (same : flags (dashed names) (fun key => text (given a params key)) ++ tail =
      flags (dashed names) (fun key => text (given b params key)) ++ tail') :
    (∀ name ∈ names, a.lookup name = b.lookup name) ∧ tail = tail' := by
  obtain ⟨each, tails⟩ := flags_injective distinct apart apart' same
  refine ⟨fun name member => ?_, tails⟩
  have here := each ("--" ++ name, name) (List.mem_map_of_mem member)
  rwa [text_given (unset name member), text_given (unset name member)] at here

/-- No params at all. -/
theorem unset_empty (names : List String) : ∀ name ∈ names, param ∅ name = none := by
  intro name _
  rw [param, Finmap.lookup_empty, Option.join_none]

theorem flags_lookup_end {a b : Dict String} {params : Params} {names : List String}
    (distinct : ((dashed names).map Prod.fst).Nodup)
    (unset : ∀ name ∈ names, param params name = none)
    (same : flags (dashed names) (fun key => text (given a params key)) =
      flags (dashed names) fun key => text (given b params key)) :
    ∀ name ∈ names, a.lookup name = b.lookup name := by
  have ended := congrArg (· ++ ([] : List String)) same
  have nothing : ∀ word ∈ ([] : List String).head?, word ∉ (dashed names).map Prod.fst := by
    intro word none
    cases none
  exact (flags_lookup distinct unset nothing nothing ended).1

theorem lookups_told {a b : Dict String} {names : List String}
    (distinct : ((dashed names).map Prod.fst).Nodup)
    (same : flags (dashed names) a.lookup = flags (dashed names) b.lookup) :
    ∀ name ∈ names, a.lookup name = b.lookup name := by
  have text_lookup : ∀ options : Dict String,
      (fun key => text (given options ∅ key)) = options.lookup := by
    intro options
    funext key
    exact text_given (unset_empty [key] key List.mem_cons_self)
  rw [← text_lookup a, ← text_lookup b] at same
  exact flags_lookup_end distinct (unset_empty names) same

/-- What every command needs of a case. -/
def someCase : Params :=
  .ofItems [("input", some ⟨⟨"-", true, .ok 0⟩, ""⟩), ("schema", some ⟨⟨"-", true, .ok 0⟩, ""⟩)]

theorem unset_someCase {names : List String} (input : "input" ∉ names) (schema : "schema" ∉ names) :
    ∀ name ∈ names, param someCase name = none := by
  intro name member
  have apart : name ≠ "schema" := fun same => schema (same ▸ member)
  have apart' : name ≠ "input" := fun same => input (same ▸ member)
  rw [param, someCase, Dict.ofItems, List.foldl_cons, List.foldl_cons, List.foldl_nil,
    Finmap.lookup_insert_of_ne _ apart, Finmap.lookup_insert_of_ne _ apart', Finmap.lookup_empty,
    Option.join_none]

theorem Within.of_names {a b : Dict String} {allowed names : List String} (withinA : Within a allowed)
    (withinB : Within b allowed) (read : ∀ key ∈ allowed, key ∈ names)
    (each : ∀ name ∈ names, a.lookup name = b.lookup name) : SameOptions a b :=
  withinA.sameOptions withinB fun key member => congrArg (observed key) (each key (read key member))

section

variable {model model' : String} {a b : Dict String}

theorem diffusers_argv_eq_iff (withinA : Within a DIFFUSERS_OPTIONS)
    (withinB : Within b DIFFUSERS_OPTIONS) :
    diffusers_argv model a = diffusers_argv model' b ↔ model = model' ∧ SameOptions a b := by
  constructor
  · intro same
    have built := congrFun (congrFun (congrFun (congrFun same (anywhere "")) "") "") ∅
    simp only [diffusers_argv, Except.ok.injEq, List.cons_append, List.nil_append, List.cons.injEq,
      true_and] at built
    obtain ⟨models, flagged⟩ := built
    have each := flags_lookup_end (by decide) (unset_empty _) flagged
    exact ⟨models, withinA.of_names withinB (by decide) each⟩
  · rintro ⟨rfl, same⟩
    funext place prompt out params
    rw [diffusers_argv, diffusers_argv, same.flags params (by decide)]

theorem diffusers_video_argv_eq_iff (withinA : Within a DIFFUSERS_VIDEO_OPTIONS)
    (withinB : Within b DIFFUSERS_VIDEO_OPTIONS) :
    diffusers_video_argv model a = diffusers_video_argv model' b ↔
      model = model' ∧ SameOptions a b := by
  constructor
  · intro same
    have built := congrFun (congrFun (congrFun (congrFun same (anywhere "")) "") "") ∅
    simp only [diffusers_video_argv, Except.ok.injEq, List.cons_append, List.nil_append,
      List.cons.injEq, true_and, text_given (unset_empty ["offload"] _ List.mem_cons_self)] at built
    obtain ⟨models, flagged⟩ := built
    have apart : ∀ options : Dict String, ∀ word ∈
        (if off (options.lookup "offload") then ["--no-offload"] else []).head?,
        word ∉ (dashed ["width", "height", "frames", "fps", "steps", "seed", "guidance"]).map Prod.fst := by
      intro options word head
      split at head
      next =>
        obtain rfl := Option.some.inj head
        decide
      next => cases head
    obtain ⟨each, tails⟩ := flags_lookup (by decide) (unset_empty _) (apart a) (apart b) flagged
    refine ⟨models, withinA.sameOptions withinB fun key member => ?_⟩
    by_cases switch : key = "offload"
    · subst switch
      exact observed_switch (.inl rfl) (switch_told tails)
    · have read : ∀ key ∈ DIFFUSERS_VIDEO_OPTIONS, key ≠ "offload" →
          key ∈ ["width", "height", "frames", "fps", "steps", "seed", "guidance"] := by decide
      exact congrArg (observed key) (each key (read key member switch))
  · rintro ⟨rfl, same⟩
    funext place prompt out params
    rw [diffusers_video_argv, diffusers_video_argv, same.flags params (by decide),
      same.off params (.inl rfl)]

theorem scorer_argv_eq_iff {engine binary script_ : String} {names : List String}
    (distinct : ((dashed names).map Prod.fst).Nodup) (plain : ∀ name ∈ names, Plain name)
    (input : "input" ∉ names) (schema : "schema" ∉ names) (context : "context" ∉ names)
    (withinA : Within a names) (withinB : Within b names) :
    scorer_argv engine binary script_ names model a = scorer_argv engine binary script_ names model' b ↔
      model = model' ∧ SameOptions a b := by
  have plain : ∀ pair ∈ dashed names, Plain pair.2 := by
    intro pair member
    obtain ⟨name, inside, rfl⟩ := List.mem_map.mp member
    exact plain name inside
  constructor
  · intro same
    have built := congrFun (congrFun (congrFun (congrFun same (anywhere "")) "") "") someCase
    have given_ : (param someCase "schema").filter (fun schema => schema.truthy) =
        some ⟨⟨"-", true, .ok 0⟩, ""⟩ := by
      simp [param, someCase, Dict.ofItems]
    simp only [scorer_argv, given_, Except.ok.injEq, List.cons_append, List.nil_append,
      List.cons.injEq, true_and] at built
    have each := flags_lookup_end distinct (unset_someCase input schema) built.2.2
    exact ⟨built.1, withinA.of_names withinB (fun _ member => member) each⟩
  · rintro ⟨rfl, same⟩
    have contexts : a.lookup "context" = b.lookup "context" := by
      rw [not_not.mp (mt (withinA "context") context), not_not.mp (mt (withinB "context") context)]
    funext place prompt out params
    have contexts : given a params "context" = given b params "context" := by
      rw [given, given, contexts]
    rw [scorer_argv, scorer_argv, contexts, same.flags params plain]

theorem hf_ocr_argv_eq_iff (withinA : Within a HF_OCR_OPTIONS) (withinB : Within b HF_OCR_OPTIONS) :
    hf_ocr_argv model a = hf_ocr_argv model' b ↔ model = model' ∧ SameOptions a b := by
  constructor
  · intro same
    have built := congrFun (congrFun (congrFun (congrFun same (anywhere "")) "") "") someCase
    have image : image_of someCase = .ok "-" := by decide
    simp only [hf_ocr_argv, image, bind, Except.bind, pure, Except.pure, Except.ok.injEq,
      List.cons_append, List.nil_append, List.cons.injEq, true_and] at built
    obtain ⟨models, prompts, flagged⟩ := built
    have ended := congrArg (· ++ ([] : List String)) flagged
    have nothing : ∀ word ∈ ([] : List String).head?, word ∉ hf_ocr_flags.map Prod.fst := by
      intro word none
      cases none
    obtain ⟨each, -⟩ := flags_injective (by decide) nothing nothing ended
    refine ⟨models, withinA.sameOptions withinB fun key member => ?_⟩
    by_cases prompt : key = "prompt"
    · subst prompt
      exact filled_told prompts
    · have read : ∀ key ∈ HF_OCR_OPTIONS, key ≠ "prompt" →
          ∃ pair ∈ hf_ocr_flags, pair.2 = key := by decide
      obtain ⟨pair, inside, rfl⟩ := read key member prompt
      exact congrArg (observed pair.2) (each pair inside)
  · rintro ⟨rfl, same⟩
    have each : flags hf_ocr_flags a.lookup = flags hf_ocr_flags b.lookup :=
      flags_congr fun pair member => same.lookup (by revert pair; decide)
    have prompts : (a.lookup "prompt").filter (· != "") = (b.lookup "prompt").filter (· != "") :=
      same "prompt"
    funext place prompt out params
    rw [hf_ocr_argv, hf_ocr_argv, prompts, each]

theorem ranker_argv_eq_iff {mode : String} (withinA : Within a RANK_OPTIONS)
    (withinB : Within b RANK_OPTIONS) :
    ranker_argv mode model a = ranker_argv mode model' b ↔ model = model' ∧ SameOptions a b := by
  constructor
  · intro same
    have built := congrFun (congrFun (congrFun (congrFun same (anywhere "")) "") "") someCase
    have corpus : corpus_of someCase = .ok "-" := by decide
    simp only [ranker_argv, corpus, bind, Except.bind, pure, Except.pure, Except.ok.injEq,
      List.cons_append, List.nil_append, List.cons.injEq, true_and] at built
    exact ⟨built.1, withinA.of_names withinB (by decide) (lookups_told (by decide) built.2)⟩
  · rintro ⟨rfl, same⟩
    have each : flags (dashed ["revision", "device"]) a.lookup =
        flags (dashed ["revision", "device"]) b.lookup :=
      flags_congr fun pair member => same.lookup (by revert pair; decide)
    funext place prompt out params
    rw [ranker_argv, ranker_argv, each]

theorem hf_pii_argv_eq_iff (withinA : Within a HF_PII_OPTIONS) (withinB : Within b HF_PII_OPTIONS) :
    hf_pii_argv model a = hf_pii_argv model' b ↔ model = model' ∧ SameOptions a b := by
  constructor
  · intro same
    have built := congrFun (congrFun (congrFun (congrFun same (anywhere "")) "") "") ∅
    simp only [hf_pii_argv, Except.ok.injEq, List.cons_append, List.nil_append, List.cons.injEq,
      true_and] at built
    exact ⟨built.1, withinA.of_names withinB (by decide) (lookups_told (by decide) built.2)⟩
  · rintro ⟨rfl, same⟩
    have each : flags (dashed ["revision", "device"]) a.lookup =
        flags (dashed ["revision", "device"]) b.lookup :=
      flags_congr fun pair member => same.lookup (by revert pair; decide)
    funext place prompt out params
    rw [hf_pii_argv, hf_pii_argv, each]

theorem mflux_argv_eq_iff {binary binary' : String} (withinA : Within a MFLUX_OPTIONS)
    (withinB : Within b MFLUX_OPTIONS) :
    mflux_argv binary model a = mflux_argv binary' model' b ↔
      binary = binary' ∧ model = model' ∧ SameOptions a b := by
  constructor
  · intro same
    have built := congrFun (congrFun (congrFun (congrFun same (anywhere "")) "") "") ∅
    simp only [mflux_argv, Except.ok.injEq, List.cons_append, List.nil_append, List.cons.injEq,
      true_and] at built
    obtain ⟨binaries, models, flagged⟩ := built
    have apart : ∀ options : Dict String, ∀ word ∈
        (if quantizeOf options ≠ "none" then ["--quantize", quantizeOf options] else []).head?,
        word ∉ (dashed ["width", "height", "steps", "seed", "guidance"]).map Prod.fst := by
      intro options word head
      split at head
      next =>
        obtain rfl := Option.some.inj head
        decide
      next => cases head
    obtain ⟨each, tails⟩ := flags_lookup (by decide) (unset_empty _) (apart a) (apart b) flagged
    refine ⟨binaries, models, withinA.sameOptions withinB fun key member => ?_⟩
    by_cases quantize : key = "quantize"
    · subst quantize
      have labels : quantizeOf a = quantizeOf b := by
        by_cases bare : quantizeOf a = "none" <;> by_cases bare' : quantizeOf b = "none" <;>
          simp_all
      exact congrArg some labels
    · have read : ∀ key ∈ MFLUX_OPTIONS, key ≠ "quantize" →
          key ∈ ["width", "height", "steps", "seed", "guidance"] := by decide
      have here := each key (read key member quantize)
      rw [Finmap.lookup_erase_ne quantize, Finmap.lookup_erase_ne quantize] at here
      exact congrArg (observed key) here
  · rintro ⟨rfl, rfl, same⟩
    have labels : quantizeOf a = quantizeOf b := Option.some.inj (same "quantize")
    have erased : SameOptions (a.erase "quantize") (b.erase "quantize") := by
      intro key
      by_cases quantize : key = "quantize"
      · rw [quantize, Finmap.lookup_erase, Finmap.lookup_erase]
      · rw [Finmap.lookup_erase_ne quantize, Finmap.lookup_erase_ne quantize]
        exact same key
    funext place prompt out params
    rw [mflux_argv, mflux_argv, labels, erased.flags params (by decide)]

theorem h3_argv_eq_iff (withinA : Within a H3_OPTIONS) (withinB : Within b H3_OPTIONS) :
    h3_argv a = h3_argv b ↔ SameOptions a b := by
  constructor
  · intro same
    have built := congrFun (congrFun (congrFun (congrFun same (anywhere "")) "") "") ∅
    have unasked : ∀ options : Dict String, Within options H3_OPTIONS →
        given options ∅ "frames" = none ∧ given options ∅ "seconds" = none := by
      intro options within
      have frames : options.lookup "frames" = none := not_not.mp (mt (within "frames") (by decide))
      have seconds : options.lookup "seconds" = none := not_not.mp (mt (within "seconds") (by decide))
      exact ⟨by simp [given, param, frames], by simp [given, param, seconds]⟩
    simp only [h3_argv, h3_requested, unasked a withinA, unasked b withinB, Option.isSome_none,
      Bool.false_eq_true, and_self, if_false, bind, Except.bind, pure, Except.pure,
      Option.filter_none, Except.ok.injEq, List.cons_append, List.nil_append, List.cons.injEq,
      true_and, text_given (unset_empty ["ssd_streaming"] _ List.mem_cons_self)] at built
    have apart : ∀ options : Dict String, ∀ word ∈
        (if off (options.lookup "ssd_streaming") then [] else ["--ssd-streaming"]).head?,
        word ∉ (dashed ["width", "height", "frames", "seconds", "steps", "layers", "reuse",
          "seed"]).map Prod.fst := by
      intro options word head
      split at head
      next => cases head
      next =>
        obtain rfl := Option.some.inj head
        decide
    obtain ⟨each, tails⟩ := flags_lookup (by decide) (unset_empty _) (apart a) (apart b) built
    refine withinA.sameOptions withinB fun key member => ?_
    by_cases switch : key = "ssd_streaming"
    · subst switch
      refine observed_switch (.inr rfl) ?_
      cases first : off (a.lookup "ssd_streaming") <;>
        cases second : off (b.lookup "ssd_streaming") <;> simp_all
    · have read : ∀ key ∈ H3_OPTIONS, key ≠ "ssd_streaming" →
          key ∈ ["width", "height", "frames", "seconds", "steps", "layers", "reuse", "seed"] := by
        decide
      exact congrArg (observed key) (each key (read key member switch))
  · intro same
    funext place prompt out params
    have frames := same.given params (by decide : Plain "frames")
    have seconds := same.given params (by decide : Plain "seconds")
    simp only [h3_argv, h3_requested, frames, seconds, same.off params (.inr rfl),
      same.flags params (by decide : ∀ pair ∈ dashed ["width", "height", "frames", "seconds",
        "steps", "layers", "reuse", "seed"], Plain pair.2)]

/-- The root a command names, of the option or of the place. -/
def rootOf (options : Dict String) (default : String) : String :=
  ((options.lookup "root").filter (· != "")).getD default

theorem orElse_root (options : Dict String) (default : String) :
    orElse (given options ∅ "root") default = rootOf options default := by
  rw [orElse, rootOf, given, unset_empty ["root"] "root" List.mem_cons_self, Option.map_none,
    Option.none_or]
  cases options.lookup "root" with
  | none => rfl
  | some root =>
      have truthy : (Shown.ofText root).truthy = (root != "") := rfl
      rw [Option.map_some, Option.filter_some, Option.filter_some, truthy]
      split <;> rfl

theorem rootOf_ne_blank (options : Dict String) {default : String} (filled : default ≠ "") :
    rootOf options default ≠ "" := by
  cases found : (options.lookup "root").filter (· != "") with
  | none => simpa [rootOf, found] using filled
  | some root =>
      have filled := (Option.filter_eq_some_iff.mp found).2
      simpa [rootOf, found] using filled

/-- Where the place's own root is neither spec's, the roots of two commands tell them apart. -/
theorem root_told {options options' : Dict String}
    (same : ∀ default, default ≠ "" → rootOf options default = rootOf options' default) :
    observed "root" (options.lookup "root") = observed "root" (options'.lookup "root") := by
  change (options.lookup "root").filter (· != "") = (options'.lookup "root").filter (· != "")
  have other : ∀ root : String, ∃ default, default ≠ "" ∧ default ≠ root := by
    intro root
    by_cases slash : root = "/"
    · exact ⟨".", by decide, by rw [slash]; decide⟩
    · exact ⟨"/", by decide, Ne.symm slash⟩
  cases first : (options.lookup "root").filter (· != "") with
  | none =>
      cases second : (options'.lookup "root").filter (· != "") with
      | none => rfl
      | some root =>
          obtain ⟨default, filled, apart⟩ := other root
          have here := same default filled
          rw [rootOf, rootOf, first, second] at here
          exact absurd here apart
  | some root =>
      cases second : (options'.lookup "root").filter (· != "") with
      | none =>
          obtain ⟨default, filled, apart⟩ := other root
          have here := same default filled
          rw [rootOf, rootOf, first, second] at here
          exact absurd here.symm apart
      | some root' =>
          have here := same "/" (by decide)
          rw [rootOf, rootOf, first, second] at here
          exact congrArg some here

/-- The flags of the music lane that an option can give. -/
def acestep_flags : List (String × String) :=
  dashed ["lyrics", "bpm", "duration", "keyscale", "timesignature", "seed", "steps", "guidance", "lm",
    "task"] ++ [("--cover-strength", "cover_strength"), ("--lm-temperature", "lm_temperature"),
    ("--lm-top-p", "lm_top_p"), ("--language", "language")]

/-- What a command of the music lane is without params, wherever it is built. -/
theorem acestep_bare (model : String) (options : Dict String) {default : String}
    (filled : default ≠ "") (within : Within options ACESTEP_OPTIONS) :
    acestep_argv model options (anywhere default) "" "" ∅ =
      .ok (rootOf options default :: "/scripts/acestep_generate.py" :: "--root" ::
        rootOf options default :: "--out" :: "" :: "--caption" :: "" ::
          (flags acestep_flags options.lookup ++ ["--config", model])) := by
  have unlisted : ∀ key, key ∉ ACESTEP_OPTIONS → given options ∅ key = none := by
    intro key outside
    have unset : options.lookup key = none := not_not.mp (mt (within key) outside)
    simp [given, param, unset]
  have ref := unlisted "ref" (by decide)
  have instrumental := unlisted "instrumental" (by decide)
  have root := rootOf_ne_blank options filled
  have texts : (fun key => text (given options ∅ key)) = options.lookup := by
    funext key
    exact text_given (unset_empty [key] key List.mem_cons_self)
  have noRef : (flags [("--ref", "ref")] fun key => refOf (anywhere default) (given options ∅ key)) = [] := by
    simp [flags, ref, refOf]
  rw [acestep_argv]
  simp only [orElse_root, acestep_python, texts, noRef, instrumental, acestep_flags, flags_append]
  simp [anywhere, script, root, text, bind, Except.bind, pure, Except.pure]

theorem acestep_argv_eq_iff (withinA : Within a ACESTEP_OPTIONS) (withinB : Within b ACESTEP_OPTIONS) :
    acestep_argv model a = acestep_argv model' b ↔ model = model' ∧ SameOptions a b := by
  constructor
  · intro same
    have built : ∀ default, default ≠ "" → rootOf a default = rootOf b default ∧
        flags acestep_flags a.lookup ++ ["--config", model] =
          flags acestep_flags b.lookup ++ ["--config", model'] := by
      intro default filled
      have here := congrFun (congrFun (congrFun (congrFun same (anywhere default)) "") "") ∅
      rw [acestep_bare model a filled withinA, acestep_bare model' b filled withinB] at here
      simp only [Except.ok.injEq, List.cons.injEq, true_and] at here
      exact ⟨here.1, here.2.2⟩
    have apart : ∀ model : String, ∀ word ∈ ["--config", model].head?,
        word ∉ acestep_flags.map Prod.fst := by
      intro model word head
      obtain rfl := Option.some.inj head
      decide
    obtain ⟨each, tails⟩ := flags_injective (by decide) (apart model) (apart model')
      (built "/" (by decide)).2
    refine ⟨(List.cons.inj (List.cons.inj tails).2).1, withinA.sameOptions withinB fun key member => ?_⟩
    by_cases root : key = "root"
    · subst root
      exact root_told fun default filled => (built default filled).1
    · have read : ∀ key ∈ ACESTEP_OPTIONS, key ≠ "root" → ∃ pair ∈ acestep_flags, pair.2 = key := by
        decide
      obtain ⟨pair, inside, rfl⟩ := read key member root
      exact congrArg (observed pair.2) (each pair inside)
  · rintro ⟨rfl, same⟩
    have roots : ∀ params default, orElse (given a params "root") default =
        orElse (given b params "root") default := by
      intro params default
      cases set : param params "root" with
      | some value => rw [given, given, set, Option.map_some, Option.some_or, Option.some_or]
      | none =>
          have unset : ∀ options, given options params "root" = given options ∅ "root" := by
            intro options
            rw [given, given, set, unset_empty ["root"] "root" List.mem_cons_self]
          have filled : (a.lookup "root").filter (· != "") = (b.lookup "root").filter (· != "") :=
            same "root"
          rw [unset, unset, orElse_root, orElse_root, rootOf, rootOf, filled]
    funext place prompt out params
    have instrumental := same.given params (by decide : Plain "instrumental")
    have ref : (flags [("--ref", "ref")] fun key => refOf place (given a params key)) =
        flags [("--ref", "ref")] fun key => refOf place (given b params key) :=
      flags_congr fun pair member => by
        rw [same.given params (by rw [List.mem_singleton.mp member]; decide)]
    simp only [acestep_argv, roots, ref, instrumental,
      same.flags params (by decide : ∀ pair ∈ dashed ["lyrics", "bpm", "duration", "keyscale",
        "timesignature", "seed", "steps", "guidance", "lm", "task"], Plain pair.2),
      same.flags params (by decide : ∀ pair ∈ [("--cover-strength", "cover_strength"),
        ("--lm-temperature", "lm_temperature"), ("--lm-top-p", "lm_top_p"),
        ("--language", "language")], Plain pair.2)]

end

end LocalHarness.Engines
