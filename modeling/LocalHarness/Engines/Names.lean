import LocalHarness.Engines.Commands

/-! # What the name of an engine tells

A name is the engine, the model as the engine shortens it, and the options that are not blank.
-/

namespace LocalHarness.Engines

open LocalHarness.Library

/-! ## What each builder makes of a spec -/

/-- The part of a name that shows the model. -/
def labelOf (engine model : String) (options : Dict String) : String :=
  if engine = "mflux" then model ++ "-" ++ quantizeLabel options
  else if engine = "h3" then "minimax-h3"
  else if engine = "osocr" then backendOf model
  else if engine = "bm25" then "okapi"
  else if engine = "pii-regex" then "patterns"
  else Text.afterLast model '/'

/-- The options a label has already shown. -/
def alreadyOf (engine : String) : List String :=
  if engine = "mflux" then ["quantize"] else []

/-- What an engine loads for the model of a spec. -/
def loadedOf (engine model : String) : String :=
  if engine = "osocr" then backendOf model else model

/-- The options that any engine takes. -/
def KEYS : List String :=
  MFLUX_OPTIONS ++ H3_OPTIONS ++ DIFFUSERS_VIDEO_OPTIONS ++ ACESTEP_OPTIONS ++ NIMBLE_OPTIONS ++
    HF_OCR_OPTIONS

/-- What the engines of a builder are: their names and commands are read off the model and the
    options, and the options are accepted by their keys. -/
structure Told (engine : String) (builder : String → String → Dict String → Except String Engine) :
    Prop where
  name : ∀ {spec model options e}, builder spec model options = .ok e →
    e.name = engine ++ "/" ++ labelOf engine model options ++ distinguish options (alreadyOf engine)
  suffix : ∀ {spec spec' model model' options options' e e'}, builder spec model options = .ok e →
    builder spec' model' options' = .ok e' → e.output_suffix = e'.output_suffix
  argv : ∀ {spec spec' model model' options options' e e'}, builder spec model options = .ok e →
    builder spec' model' options' = .ok e' →
      (e.argv = e'.argv ↔ loadedOf engine model = loadedOf engine model' ∧ SameOptions options options')
  accepts : ∀ {spec model options e} (spec' options'), builder spec model options = .ok e →
    (∀ key, options'.lookup key ≠ none → options.lookup key ≠ none) →
      ∃ e', builder spec' model options' = .ok e'
  keys : ∀ {spec model options e}, builder spec model options = .ok e → Within options KEYS

theorem check_options_ok {options : Dict String} {allowed : List String} {spec : String} :
    check_options options allowed spec = .ok () ↔ Within options allowed := by
  have inside : options.keys \ allowed.toFinset = ∅ ↔ Within options allowed := by
    rw [Finset.sdiff_eq_empty_iff_subset]
    constructor
    · intro subset key given
      obtain ⟨value, found⟩ := Option.ne_none_iff_exists'.mp given
      exact List.mem_toFinset.mp (subset (Dict.mem_keys_of_lookup found))
    · intro within key member
      refine List.mem_toFinset.mpr (within key ?_)
      obtain ⟨value, found⟩ := Finmap.mem_iff.mp (Finmap.mem_keys.mp member)
      rw [found]
      nofun
  rw [← inside, check_options]
  by_cases none : options.keys \ allowed.toFinset = ∅
  · simp [none]
  · simp [none]

theorem Within.mono {options options' : Dict String} {allowed : List String}
    (within : Within options allowed)
    (fewer : ∀ key, options'.lookup key ≠ none → options.lookup key ≠ none) : Within options' allowed :=
  fun key given => within key (fewer key given)

theorem Within.subset {options : Dict String} {allowed wider : List String}
    (within : Within options allowed) (subset : ∀ key ∈ allowed, key ∈ wider) : Within options wider :=
  fun key given => subset key (within key given)

/-- Two sets of no options are read the same. -/
theorem Within.nothing {a b : Dict String} (withinA : Within a []) (withinB : Within b []) :
    SameOptions a b :=
  withinA.sameOptions withinB (fun _ member => nomatch member)

theorem distinguish_nothing {options : Dict String} (within : Within options []) (already : List String) :
    distinguish options already = "" := by
  have none : keep options already = [] := by
    rw [keep, List.filterMap_eq_nil_iff]
    intro key member
    have unset : options.lookup key = none := not_not.mp (mt (within key) List.not_mem_nil)
    simp [unset]
  rw [distinguish, if_pos none]

theorem modelEngine_ok {engine example_ output_suffix : String} {allowed : List String}
    {argv : String → Dict String → Argv} {spec model : String} {options : Dict String} {e : Engine} :
    modelEngine engine example_ output_suffix allowed argv spec model options = .ok e ↔
      model ≠ "" ∧ Within options allowed ∧
        e = { name := engine ++ "/" ++ Text.afterLast model '/' ++ distinguish options []
              spec := spec, argv := argv model options, output_suffix := output_suffix } := by
  unfold modelEngine
  by_cases blank : model = ""
  · simp [blank]
  · have within : check_options options allowed spec = .ok () ↔ _ := check_options_ok
    rw [if_neg blank, ← within]
    cases checked : check_options options allowed spec with
    | error why => simp [bind, Except.bind]
    | ok _ =>
        simp only [bind, Except.bind, pure, Except.pure, Except.ok.injEq, blank, ne_eq, not_false_eq_true,
          true_and]
        exact ⟨Eq.symm, Eq.symm⟩

theorem told_model {engine example_ output_suffix : String} {allowed : List String}
    {argv : String → Dict String → Argv}
    (shortened : ∀ model options, labelOf engine model options = Text.afterLast model '/')
    (other : alreadyOf engine = [] ∧ ∀ model, loadedOf engine model = model)
    (known : ∀ key ∈ allowed, key ∈ KEYS)
    (tells : ∀ {model model' a b}, Within a allowed → Within b allowed →
      (argv model a = argv model' b ↔ model = model' ∧ SameOptions a b)) :
    Told engine (modelEngine engine example_ output_suffix allowed argv) where
  name := by
    intro spec model options e built
    obtain ⟨-, -, rfl⟩ := modelEngine_ok.mp built
    rw [shortened, other.1]
  suffix := by
    intro spec spec' model model' options options' e e' built built'
    obtain ⟨-, -, rfl⟩ := modelEngine_ok.mp built
    obtain ⟨-, -, rfl⟩ := modelEngine_ok.mp built'
    rfl
  argv := by
    intro spec spec' model model' options options' e e' built built'
    obtain ⟨-, within, rfl⟩ := modelEngine_ok.mp built
    obtain ⟨-, within', rfl⟩ := modelEngine_ok.mp built'
    rw [tells within within', other.2, other.2]
  accepts := by
    intro spec model options e spec' options' built fewer
    obtain ⟨filled, within, -⟩ := modelEngine_ok.mp built
    exact ⟨_, modelEngine_ok.mpr ⟨filled, within.mono fewer, rfl⟩⟩
  keys := by
    intro spec model options e built
    obtain ⟨-, within, -⟩ := modelEngine_ok.mp built
    exact within.subset known

theorem mflux_ok {spec model : String} {options : Dict String} {e : Engine} :
    mflux spec model options = .ok e ↔
      model ≠ "" ∧ Within options MFLUX_OPTIONS ∧ ∃ binary, mflux_binary model = .ok binary ∧
        e = { name := "mflux/" ++ model ++ "-" ++ quantizeLabel options ++
                distinguish options ["quantize"]
              spec := spec, argv := mflux_argv binary model options, output_suffix := ".png" } := by
  unfold mflux
  by_cases blank : model = ""
  · simp [blank]
  · have within : check_options options MFLUX_OPTIONS spec = .ok () ↔ _ := check_options_ok
    rw [if_neg blank, ← within]
    cases checked : check_options options MFLUX_OPTIONS spec with
    | error why => simp [bind, Except.bind]
    | ok _ =>
        cases found : mflux_binary model with
        | error why => simp [bind, Except.bind]
        | ok binary =>
            simp only [bind, Except.bind, pure, Except.pure, Except.ok.injEq, blank, ne_eq,
              not_false_eq_true, true_and, exists_eq_left']
            exact ⟨Eq.symm, Eq.symm⟩

theorem told_mflux : Told "mflux" mflux where
  name := by
    intro spec model options e built
    obtain ⟨-, -, binary, -, rfl⟩ := mflux_ok.mp built
    simp only [labelOf, alreadyOf, if_true, String.append_assoc]
    rfl
  suffix := by
    intro spec spec' model model' options options' e e' built built'
    obtain ⟨-, -, binary, -, rfl⟩ := mflux_ok.mp built
    obtain ⟨-, -, binary', -, rfl⟩ := mflux_ok.mp built'
    rfl
  argv := by
    intro spec spec' model model' options options' e e' built built'
    obtain ⟨-, within, binary, found, rfl⟩ := mflux_ok.mp built
    obtain ⟨-, within', binary', found', rfl⟩ := mflux_ok.mp built'
    have apart : ∀ model, loadedOf "mflux" model = model := fun _ => rfl
    rw [mflux_argv_eq_iff within within', apart, apart]
    constructor
    · rintro ⟨-, models, same⟩
      exact ⟨models, same⟩
    · rintro ⟨rfl, same⟩
      exact ⟨Except.ok.inj (found.symm.trans found'), rfl, same⟩
  accepts := by
    intro spec model options e spec' options' built fewer
    obtain ⟨filled, within, binary, found, -⟩ := mflux_ok.mp built
    exact ⟨_, mflux_ok.mpr ⟨filled, within.mono fewer, binary, found, rfl⟩⟩
  keys := by
    intro spec model options e built
    obtain ⟨-, within, -⟩ := mflux_ok.mp built
    exact within.subset (by decide)

theorem h3_ok {spec model : String} {options : Dict String} {e : Engine} :
    h3 spec model options = .ok e ↔
      model = "" ∧ Within options H3_OPTIONS ∧
        e = { name := "h3/minimax-h3" ++ distinguish options []
              spec := spec, argv := h3_argv options, output_suffix := ".mp4" } := by
  unfold h3
  by_cases blank : model = ""
  · have within : check_options options H3_OPTIONS spec = .ok () ↔ _ := check_options_ok
    rw [if_neg (not_not.mpr blank), ← within]
    cases checked : check_options options H3_OPTIONS spec with
    | error why => simp [bind, Except.bind]
    | ok _ =>
        simp only [bind, Except.bind, pure, Except.pure, Except.ok.injEq, blank, true_and]
        exact ⟨Eq.symm, Eq.symm⟩
  · simp [blank]

theorem told_h3 : Told "h3" h3 where
  name := by
    intro spec model options e built
    obtain ⟨-, -, rfl⟩ := h3_ok.mp built
    rfl
  suffix := by
    intro spec spec' model model' options options' e e' built built'
    obtain ⟨-, -, rfl⟩ := h3_ok.mp built
    obtain ⟨-, -, rfl⟩ := h3_ok.mp built'
    rfl
  argv := by
    intro spec spec' model model' options options' e e' built built'
    obtain ⟨rfl, within, rfl⟩ := h3_ok.mp built
    obtain ⟨rfl, within', rfl⟩ := h3_ok.mp built'
    rw [h3_argv_eq_iff within within']
    exact ⟨fun same => ⟨rfl, same⟩, And.right⟩
  accepts := by
    intro spec model options e spec' options' built fewer
    obtain ⟨blank, within, -⟩ := h3_ok.mp built
    exact ⟨_, h3_ok.mpr ⟨blank, within.mono fewer, rfl⟩⟩
  keys := by
    intro spec model options e built
    obtain ⟨-, within, -⟩ := h3_ok.mp built
    exact within.subset (by decide)

theorem osocr_ok {spec model : String} {options : Dict String} {e : Engine} :
    osocr spec model options = .ok e ↔
      backendOf model ∈ OSOCR_BACKENDS ∧ Within options [] ∧
        e = { name := "osocr/" ++ backendOf model
              spec := spec, argv := osocr_argv model, output_suffix := ".txt" } := by
  unfold osocr
  by_cases known : backendOf model ∈ OSOCR_BACKENDS
  · have within : check_options options [] spec = .ok () ↔ _ := check_options_ok
    rw [if_neg (not_not.mpr known), ← within]
    cases checked : check_options options [] spec with
    | error why => simp [bind, Except.bind]
    | ok _ =>
        simp only [bind, Except.bind, pure, Except.pure, Except.ok.injEq, known, true_and]
        exact ⟨Eq.symm, Eq.symm⟩
  · simp [known]

theorem osocr_argv_eq_iff {model model' : String} :
    osocr_argv model = osocr_argv model' ↔ backendOf model = backendOf model' := by
  constructor
  · intro same
    have built := congrFun (congrFun (congrFun (congrFun same (anywhere "")) "") "") someCase
    have image : image_of someCase = .ok "-" := by decide
    simp only [osocr_argv, image, bind, Except.bind, pure, Except.pure, Except.ok.injEq,
      List.cons.injEq, true_and] at built
    exact built.1
  · intro same
    funext place prompt out params
    rw [osocr_argv, osocr_argv, same]

theorem told_osocr : Told "osocr" osocr where
  name := by
    intro spec model options e built
    obtain ⟨-, within, rfl⟩ := osocr_ok.mp built
    rw [distinguish_nothing within, String.append_empty]
    rfl
  suffix := by
    intro spec spec' model model' options options' e e' built built'
    obtain ⟨-, -, rfl⟩ := osocr_ok.mp built
    obtain ⟨-, -, rfl⟩ := osocr_ok.mp built'
    rfl
  argv := by
    intro spec spec' model model' options options' e e' built built'
    obtain ⟨-, within, rfl⟩ := osocr_ok.mp built
    obtain ⟨-, within', rfl⟩ := osocr_ok.mp built'
    rw [osocr_argv_eq_iff]
    exact ⟨fun same => ⟨same, within.nothing within'⟩, And.left⟩
  accepts := by
    intro spec model options e spec' options' built fewer
    obtain ⟨known, within, -⟩ := osocr_ok.mp built
    exact ⟨_, osocr_ok.mpr ⟨known, within.mono fewer, rfl⟩⟩
  keys := by
    intro spec model options e built
    obtain ⟨-, within, -⟩ := osocr_ok.mp built
    exact within.subset (fun _ member => nomatch member)

theorem plainEngine_ok {engine name output_suffix : String} {argv : Argv} {spec model : String}
    {options : Dict String} {e : Engine} :
    plainEngine engine name output_suffix argv spec model options = .ok e ↔
      model = "" ∧ Within options [] ∧
        e = { name := name, spec := spec, argv := argv, output_suffix := output_suffix } := by
  unfold plainEngine
  by_cases blank : model = ""
  · have within : check_options options [] spec = .ok () ↔ _ := check_options_ok
    rw [if_neg (not_not.mpr blank), ← within]
    cases checked : check_options options [] spec with
    | error why => simp [bind, Except.bind]
    | ok _ =>
        simp only [bind, Except.bind, pure, Except.pure, Except.ok.injEq, blank, true_and]
        exact ⟨Eq.symm, Eq.symm⟩
  · simp [blank]

theorem told_plain {engine name output_suffix : String} {argv : Argv}
    (named : ∀ options, name = engine ++ "/" ++ labelOf engine "" options) :
    Told engine (plainEngine engine name output_suffix argv) where
  name := by
    intro spec model options e built
    obtain ⟨rfl, within, rfl⟩ := plainEngine_ok.mp built
    rw [distinguish_nothing within, String.append_empty, ← named]
  suffix := by
    intro spec spec' model model' options options' e e' built built'
    obtain ⟨-, -, rfl⟩ := plainEngine_ok.mp built
    obtain ⟨-, -, rfl⟩ := plainEngine_ok.mp built'
    rfl
  argv := by
    intro spec spec' model model' options options' e e' built built'
    obtain ⟨rfl, within, rfl⟩ := plainEngine_ok.mp built
    obtain ⟨rfl, within', rfl⟩ := plainEngine_ok.mp built'
    exact ⟨fun _ => ⟨rfl, within.nothing within'⟩, fun _ => rfl⟩
  accepts := by
    intro spec model options e spec' options' built fewer
    obtain ⟨blank, within, -⟩ := plainEngine_ok.mp built
    exact ⟨_, plainEngine_ok.mpr ⟨blank, within.mono fewer, rfl⟩⟩
  keys := by
    intro spec model options e built
    obtain ⟨-, within, -⟩ := plainEngine_ok.mp built
    exact within.subset (fun _ member => nomatch member)

/-- Every engine is told by its builder. -/
theorem builders_told : ∀ entry ∈ BUILDERS, Told entry.1 entry.2 := by
  simp only [BUILDERS, List.forall_mem_cons, List.not_mem_nil, false_implies, implies_true, and_true]
  refine ⟨told_mflux, told_h3, ?diffusers, ?video, ?acestep, ?nimble, ?decider, told_osocr, ?ocr, ?bm25,
    ?rerank, ?embed, ?pii_regex, ?pii⟩
  case diffusers =>
    exact told_model (fun _ _ => rfl) ⟨rfl, fun _ => rfl⟩ (by decide) diffusers_argv_eq_iff
  case video =>
    exact told_model (fun _ _ => rfl) ⟨rfl, fun _ => rfl⟩ (by decide) diffusers_video_argv_eq_iff
  case acestep =>
    exact told_model (fun _ _ => rfl) ⟨rfl, fun _ => rfl⟩ (by decide) acestep_argv_eq_iff
  case nimble =>
    exact told_model (fun _ _ => rfl) ⟨rfl, fun _ => rfl⟩ (by decide)
      (scorer_argv_eq_iff (by decide) (by decide) (by decide) (by decide) (by decide))
  case decider =>
    exact told_model (fun _ _ => rfl) ⟨rfl, fun _ => rfl⟩ (by decide)
      (scorer_argv_eq_iff (by decide) (by decide) (by decide) (by decide) (by decide))
  case ocr =>
    exact told_model (fun _ _ => rfl) ⟨rfl, fun _ => rfl⟩ (by decide) hf_ocr_argv_eq_iff
  case bm25 => exact told_plain fun _ => rfl
  case rerank =>
    exact told_model (fun _ _ => rfl) ⟨rfl, fun _ => rfl⟩ (by decide) ranker_argv_eq_iff
  case embed =>
    exact told_model (fun _ _ => rfl) ⟨rfl, fun _ => rfl⟩ (by decide) ranker_argv_eq_iff
  case pii_regex => exact told_plain fun _ => rfl
  case pii =>
    exact told_model (fun _ _ => rfl) ⟨rfl, fun _ => rfl⟩ (by decide) hf_pii_argv_eq_iff

end LocalHarness.Engines
