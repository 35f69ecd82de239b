import LocalHarness.Engines.Options
import LocalHarness.Library.Decimal
import LocalHarness.Library.Fallible

/-! # Engines: a candidate string in, a command line out

A spec is `engine:model[,key=value,...]`. Its options are the engine's defaults, which the
params of a case override when a command is built.
-/

namespace LocalHarness.Engines

open LocalHarness.Library

/-- What a command reads of a value: its text, whether it counts as given, and `int` of it. -/
structure Shown where
  str : String
  truthy : Bool
  whole : Except String Int

def Shown.ofText (text : String) : Shown where
  str := text
  truthy := text != ""
  whole := match Decimal.wholeNumber text with
    | some n => .ok n
    | none => .error ("invalid literal for int() with base 10: " ++ Text.quoted text)

/-- A param of a case, which a scorer may also take as JSON. -/
structure Param extends Shown where
  json : String

/-- The params of a call; a `None` is as good as no param. -/
abbrev Params := Dict (Option Param)

/-- Where a command is built: the variables of the process, this checkout and the interpreter
    it runs in, and what is found on the disk. -/
structure Place where
  environ : Dict String
  checkout : String
  home : String
  executable : String
  h3_model_dir : String
  acestep_root : String
  /-- The interpreter in the virtualenv of an ACE-Step checkout. -/
  interpreter : String → Option String
  /-- A bare name under the project's `refs`. -/
  refs : String → String

abbrev Argv := Place → String → String → Params → Except String (List String)

structure Engine where
  name : String
  spec : String
  argv : Argv
  output_suffix : String

def ENVIRONMENTAL : List String := ["root", "lm"]

/-- The options a name shows, in the order of their keys. -/
def keep (options : Dict String) (already : List String) : List (String × String) :=
  (Dict.sortedKeys options.keys).filterMap fun key =>
    if key ∈ ENVIRONMENTAL ∨ key ∈ already then none
    else ((options.lookup key).filter (· != "")).map fun value => (key, value)

/-- The suffix that keeps two option-variants of one engine apart, or "". -/
def distinguish (options : Dict String) (already : List String) : String :=
  if keep options already = [] then ""
  else "@" ++ ",".intercalate ((keep options already).map fun item => item.1 ++ "=" ++ item.2)

def check_options (options : Dict String) (allowed : List String) (spec : String) :
    Except String Unit :=
  let unknown := options.keys \ allowed.toFinset
  if unknown ≠ ∅ then
    .error (spec_error spec ++ ": unknown option(s) " ++ ", ".intercalate (Dict.sortedKeys unknown) ++
      "; allowed: " ++ ", ".intercalate (Dict.sortedKeys allowed.toFinset))
  else .ok ()

/-- `--name value`, only when a value was given; each with the key it is read under. -/
def flags (pairs : List (String × String)) (get : String → Option String) : List String :=
  pairs.flatMap fun pair => match get pair.2 with
    | some value => [pair.1, value]
    | none => []

/-- `f"--{name}"` of each name. -/
def dashed (names : List String) : List (String × String) :=
  names.map fun name => ("--" ++ name, name)

def param (params : Params) (key : String) : Option Param :=
  (params.lookup key).join

/-- `p.get(key)`, of the defaults with the params over them. -/
def given (defaults : Dict String) (params : Params) (key : String) : Option Shown :=
  ((param params key).map Param.toShown).or ((defaults.lookup key).map Shown.ofText)

def text (value : Option Shown) : Option String :=
  value.map Shown.str

/-- `str(value).lower() in ("false", "0", "no")`, of a value that is on unless it is given. -/
def off (value : Option String) : Bool :=
  match value with
  | some value => ["false", "0", "no"].contains (Text.lower value)
  | none => false

def binaryAt (place : Place) (name default : String) : String :=
  (place.environ.lookup name).getD default

def script (place : Place) (name : String) : String :=
  place.checkout ++ "/scripts/" ++ name

/-! ## mflux -/

def MFLUX_OPTIONS : List String := ["quantize", "steps", "width", "height", "guidance"]

def ENTRY_POINTS : List (String × String) :=
  [("flux2-klein", "mflux-generate-flux2"), ("z-image-turbo", "mflux-generate-z-image-turbo"),
    ("z-image", "mflux-generate-z-image"), ("krea-2", "mflux-generate-krea2"),
    ("krea2", "mflux-generate-krea2"), ("qwen-image", "mflux-generate-qwen"),
    ("fibo", "mflux-generate-fibo"), ("ernie-image-turbo", "mflux-generate-ernie-image-turbo"),
    ("ernie-image", "mflux-generate-ernie-image"), ("lens-turbo", "mflux-generate-lens"),
    ("boogu", "mflux-generate-boogu"), ("ideogram-4", "mflux-generate-ideogram4")]

def FLUX1_MODELS : List String :=
  ["dev", "schnell", "krea-dev", "dev-kontext", "dev-fill", "dev-redux", "dev-depth",
    "dev-controlnet-canny", "schnell-controlnet-canny", "dev-controlnet-upscaler",
    "dev-fill-catvton"]

/-- The part of a model that can name an mflux family. -/
def family_of (model : String) : String :=
  let name := Text.strip model
  Text.lower (if Text.afterLast name '/' = "" then name else Text.afterLast name '/')

/-- The entry points, those with the longest prefixes first. -/
def longestFirst : List (String × String) :=
  ENTRY_POINTS.insertionSort fun a b => b.1.length ≤ a.1.length

/-- The mflux entry point that can actually run `model`. -/
def mflux_binary (model : String) : Except String String :=
  if model ∈ FLUX1_MODELS then .ok "mflux-generate"
  else match longestFirst.find? fun entry =>
      Text.starts model entry.1 || Text.starts (family_of model) entry.1 with
    | some entry => .ok entry.2
    | none =>
        if family_of model ∈ FLUX1_MODELS then .ok "mflux-generate"
        else .error ("unknown mflux model " ++ Text.quoted model ++ ". Known families: " ++
          ", ".intercalate (Dict.sortedKeys (ENTRY_POINTS.map Prod.fst).toFinset) ++ "; FLUX.1: " ++
          ", ".intercalate (Dict.sortedKeys FLUX1_MODELS.toFinset))

def quantizeOf (options : Dict String) : String :=
  (options.lookup "quantize").getD "8"

def quantizeLabel (options : Dict String) : String :=
  if quantizeOf options = "none" then "bf16" else "q" ++ quantizeOf options

def mflux_argv (binary model : String) (options : Dict String) : Argv :=
  fun _ prompt out params =>
    let p := given (options.erase "quantize") params
    .ok ([binary, "--model", model, "--prompt", prompt, "--output", out, "--metadata"] ++
      flags (dashed ["width", "height", "steps", "seed", "guidance"]) (fun key => text (p key)) ++
      if quantizeOf options ≠ "none" then ["--quantize", quantizeOf options] else [])

def mflux (spec model : String) (options : Dict String) : Except String Engine :=
  if model = "" then .error (spec_error spec ++ ": mflux needs a model, e.g. mflux:z-image-turbo")
  else do
    check_options options MFLUX_OPTIONS spec
    let binary ← mflux_binary model
    return {
      name := "mflux/" ++ model ++ "-" ++ quantizeLabel options ++ distinguish options ["quantize"]
      spec := spec
      argv := mflux_argv binary model options
      output_suffix := ".png" }

/-! ## h3 -/

def H3_OPTIONS : List String := ["steps", "layers", "reuse", "width", "height", "ssd_streaming"]

def H3_MIN_FRAMES : Int := 22

def H3_FPS : Int := 24

/-- The frames a call asks for, as it spells them, and as a number. -/
def h3_requested (p : String → Option Shown) : Except String (Option (String × Int)) :=
  match p "frames", p "seconds" with
  | some frames, _ => do return some (frames.str, ← frames.whole)
  | none, some seconds => do
      let n ← seconds.whole
      return some (toString (n * H3_FPS), n * H3_FPS)
  | none, none => .ok none

def h3_argv (options : Dict String) : Argv :=
  fun place prompt out params =>
    let p := given options params
    if (p "frames").isSome ∧ (p "seconds").isSome then .error "h3: pass --frames or --seconds, not both"
    else do
      let requested ← h3_requested p
      match requested.filter fun requested => requested.2 < H3_MIN_FRAMES with
      | some requested =>
          .error ("h3: minimum output is 22 frames (0.92s at 24fps), asked for " ++ requested.1 ++
            ". h3 clamps up to 22 silently rather than refusing, so the extra frames arrive " ++
            "anyway -- along with a result that does not match what was requested.")
      | none =>
          return [binaryAt place "H3_BIN" (place.home ++ "/projects/github/antirez/h3.c/h3"),
              "-d", place.h3_model_dir, "-p", prompt, "-o", out] ++
            flags (dashed ["width", "height", "frames", "seconds", "steps", "layers", "reuse", "seed"])
              (fun key => text (p key)) ++
            if off (text (p "ssd_streaming")) then [] else ["--ssd-streaming"]

def h3 (spec model : String) (options : Dict String) : Except String Engine :=
  if model ≠ "" then
    .error (spec_error spec ++ ": h3 runs the checkpoint at $H3_MODEL_DIR and cannot load " ++
      Text.quoted model ++ ". It takes no model, so a spec that names one would silently measure " ++
      "MiniMax-H3 instead. For a discovered video candidate use diffusers-video:" ++ model)
  else do
    check_options options H3_OPTIONS spec
    return {
      name := "h3/minimax-h3" ++ distinguish options []
      spec := spec
      argv := h3_argv options
      output_suffix := ".mp4" }

/-! ## The engines that load the model they name -/

/-- An engine named for its model rather than the repo owner. -/
def modelEngine (engine example_ output_suffix : String) (allowed : List String)
    (argv : String → Dict String → Argv) (spec model : String) (options : Dict String) :
    Except String Engine :=
  if model = "" then
    .error (spec_error spec ++ ": " ++ engine ++ " needs a model, e.g. " ++ engine ++ ":" ++ example_)
  else do
    check_options options allowed spec
    return {
      name := engine ++ "/" ++ Text.afterLast model '/' ++ distinguish options []
      spec := spec
      argv := argv model options
      output_suffix := output_suffix }

def DIFFUSERS_OPTIONS : List String := ["steps", "width", "height", "guidance"]

def diffusers_argv (model : String) (options : Dict String) : Argv :=
  fun place prompt out params =>
    let p := given options params
    .ok ([binaryAt place "IMAGE_DIFFUSERS_BIN" (script place "image-diffusers.sh"),
        "--model", model, "--prompt", prompt, "--output", out] ++
      flags (dashed ["width", "height", "steps", "seed", "guidance"]) fun key => text (p key))

def diffusers : String → String → Dict String → Except String Engine :=
  modelEngine "diffusers" "stabilityai/sdxl-turbo" ".png" DIFFUSERS_OPTIONS diffusers_argv

def DIFFUSERS_VIDEO_OPTIONS : List String :=
  ["steps", "width", "height", "frames", "fps", "guidance", "offload"]

def diffusers_video_argv (model : String) (options : Dict String) : Argv :=
  fun place prompt out params =>
    let p := given options params
    .ok ([binaryAt place "VIDEO_CUDA_BIN" (script place "video-cuda.sh"),
        "--model", model, "--prompt", prompt, "--output", out] ++
      flags (dashed ["width", "height", "frames", "fps", "steps", "seed", "guidance"])
        (fun key => text (p key)) ++
      if off (text (p "offload")) then ["--no-offload"] else [])

def diffusers_video : String → String → Dict String → Except String Engine :=
  modelEngine "diffusers-video" "Lightricks/LTX-Video" ".mp4" DIFFUSERS_VIDEO_OPTIONS
    diffusers_video_argv

def ACESTEP_OPTIONS : List String :=
  ["steps", "guidance", "lm", "root", "lm_temperature", "lm_top_p", "task", "cover_strength"]

/-- The interpreter inside the ACE-Step checkout. -/
def acestep_python (place : Place) (root : String) : Except String String :=
  if root = "" then
    .error ("the music lane needs the ACE-Step checkout: set $ACESTEP_ROOT, link it at " ++
      "<localharness home>/acestep, or pass root=<path> in the engine spec")
  else match place.interpreter root with
    | some python => .ok python
    | none =>
        .error ("no virtualenv in the ACE-Step checkout at " ++ root ++ "; run `uv sync` there, or " ++
          "point ACESTEP_ROOT at a checkout that has one")

/-- A value that counts as given, `x or default`. -/
def orElse (value : Option Shown) (default : String) : String :=
  ((value.filter Shown.truthy).map Shown.str).getD default

/-- The reference a case names; a bare name stands under `refs`. -/
def refOf (place : Place) (ref : Option Shown) : Option String :=
  ref.map fun ref =>
    if ref.truthy && !Text.starts ref.str "/" then place.refs ref.str else ref.str

def acestep_argv (model : String) (options : Dict String) : Argv :=
  fun place prompt out params => do
    let p := given options params
    let root := orElse (p "root") place.acestep_root
    let python ← acestep_python place root
    return [python, script place "acestep_generate.py", "--root", if root = "" then "." else root,
        "--out", out, "--caption", prompt] ++
      flags (dashed ["lyrics", "bpm", "duration", "keyscale", "timesignature", "seed", "steps",
        "guidance", "lm", "task"]) (fun key => text (p key)) ++
      flags [("--ref", "ref")] (fun key => refOf place (p key)) ++
      flags [("--cover-strength", "cover_strength"), ("--lm-temperature", "lm_temperature"),
        ("--lm-top-p", "lm_top_p"), ("--language", "language")] (fun key => text (p key)) ++
      ["--config", model] ++
      if ((text (p "instrumental")).map Text.lower).any (["true", "1", "yes"].contains ·) then
        ["--instrumental"] else []

def acestep : String → String → Dict String → Except String Engine :=
  modelEngine "acestep" "acestep-v15-turbo" ".wav" ACESTEP_OPTIONS acestep_argv

/-- A scorer of decide cases: the context and the schema of the case go through argv. -/
def scorer_argv (engine binary script_ : String) (names : List String) (model : String)
    (options : Dict String) : Argv :=
  fun place prompt out params =>
    -- The schema is the case's own; no option is called that.
    match (param params "schema").filter fun schema => schema.truthy with
    | none => .error (engine ++ " scores a decide case; this one has no schema")
    | some schema =>
        .ok ([binaryAt place binary (script place script_), "--model", model, "--out", out,
            "--context", orElse (given options params "context") prompt, "--schema", schema.json] ++
          flags (dashed names) fun key => text (given options params key))

def NIMBLE_OPTIONS : List String := ["revision", "temperature"]

def nimble : String → String → Dict String → Except String Engine :=
  modelEngine "nimble" "bespokelabs/Bespoke-Nimble-9B" ".json" NIMBLE_OPTIONS
    (scorer_argv "nimble" "NIMBLE_BIN" "nimble-score.sh" ["revision", "temperature"])

def DECIDER_OPTIONS : List String := ["revision", "device"]

def decider : String → String → Dict String → Except String Engine :=
  modelEngine "decider" "StrandsAgents/strands-decider-2B-hobson-v21" ".json" DECIDER_OPTIONS
    (scorer_argv "decider" "DECIDER_BIN" "decider-score.sh" ["revision", "device"])

/-! ## The ocr, retrieval and pii lanes -/

def input_of (params : Params) (missing : String) : Except String String :=
  match (param params "input").filter fun input => input.truthy with
  | some input => .ok input.str
  | none => .error missing

def image_of (params : Params) : Except String String :=
  input_of params "this case has no input image; the ocr lane reads one"

def corpus_of (params : Params) : Except String String :=
  input_of params "this case has no input corpus; the retrieval lane ranks one"

def hf_task (place : Place) : String :=
  binaryAt place "HF_TASK_BIN" (script place "hf-task.sh")

def HF_OCR_OPTIONS : List String := ["revision", "prompt", "max_new_tokens", "device"]

/-- A flag is spelled with dashes, its key with underscores. -/
def hf_ocr_flags : List (String × String) :=
  ["revision", "max_new_tokens", "device"].map fun key => ("--" ++ Text.replace key '_' '-', key)

def hf_ocr_argv (model : String) (options : Dict String) : Argv :=
  fun place prompt out params => do
    return [hf_task place, "ocr", "--model", model, "--image", ← image_of params,
        "--prompt", ((options.lookup "prompt").filter (· != "")).getD prompt, "--out", out] ++
      flags hf_ocr_flags options.lookup

def hf_ocr : String → String → Dict String → Except String Engine :=
  modelEngine "hf-ocr" "PaddlePaddle/PaddleOCR-VL-1.6" ".txt" HF_OCR_OPTIONS hf_ocr_argv

def RANK_OPTIONS : List String := ["revision", "device"]

def ranker_argv (mode model : String) (options : Dict String) : Argv :=
  fun place prompt out params => do
    return [hf_task place, "rank", "--mode", mode, "--model", model, "--query", prompt,
        "--corpus", ← corpus_of params, "--out", out] ++
      flags (dashed ["revision", "device"]) options.lookup

def ranker (mode head : String) : String → String → Dict String → Except String Engine :=
  modelEngine head "cross-encoder/ettin-reranker-1b-v1" ".json" RANK_OPTIONS (ranker_argv mode)

def HF_PII_OPTIONS : List String := ["revision", "device"]

def hf_pii_argv (model : String) (options : Dict String) : Argv :=
  fun place prompt out _ =>
    .ok ([hf_task place, "pii", "--model", model, "--text", prompt, "--out", out] ++
      flags (dashed ["revision", "device"]) options.lookup)

def hf_pii : String → String → Dict String → Except String Engine :=
  modelEngine "hf-pii" "openai/privacy-filter" ".json" HF_PII_OPTIONS hf_pii_argv

/-! ## The engines without a model -/

def OSOCR_BACKENDS : List String := ["auto", "vision", "windows", "rapidocr"]

def backendOf (model : String) : String :=
  if model = "" then "auto" else model

def osocr_argv (model : String) : Argv :=
  fun place _ out params => do
    return [place.executable, "-m", "harness.checks.ocr", backendOf model, ← image_of params, out]

def osocr (spec model : String) (options : Dict String) : Except String Engine :=
  if backendOf model ∉ OSOCR_BACKENDS then
    .error (spec_error spec ++ ": unknown osocr backend " ++ Text.quoted (backendOf model) ++
      "; known: " ++ ", ".intercalate OSOCR_BACKENDS)
  else do
    check_options options [] spec
    return {
      name := "osocr/" ++ backendOf model
      spec := spec
      argv := osocr_argv model
      output_suffix := ".txt" }

/-- An engine without weights: one name, one command. -/
def plainEngine (engine name output_suffix : String) (argv : Argv) (spec model : String)
    (options : Dict String) : Except String Engine :=
  if model ≠ "" then
    .error (spec_error spec ++ ": " ++ engine ++ " takes no model; it is spelled `" ++ engine ++ "`")
  else do
    check_options options [] spec
    return { name := name, spec := spec, argv := argv, output_suffix := output_suffix }

def bm25_argv : Argv :=
  fun place prompt out params => do
    return [place.executable, "-m", "harness.lexical_rank", "--query", prompt, "--corpus",
      ← corpus_of params, "--out", out]

def bm25 : String → String → Dict String → Except String Engine :=
  plainEngine "bm25" "bm25/okapi" ".json" bm25_argv

def pii_regex_argv : Argv :=
  fun place prompt out _ =>
    .ok [place.executable, "-m", "harness.pattern_pii", "--text", prompt, "--out", out]

def pii_regex : String → String → Dict String → Except String Engine :=
  plainEngine "pii-regex" "pii-regex/patterns" ".json" pii_regex_argv

/-! ## Resolving a spec -/

def BUILDERS : List (String × (String → String → Dict String → Except String Engine)) :=
  [("mflux", mflux), ("h3", h3), ("diffusers", diffusers), ("diffusers-video", diffusers_video),
    ("acestep", acestep), ("nimble", nimble), ("decider", decider), ("osocr", osocr),
    ("hf-ocr", hf_ocr), ("bm25", bm25), ("rerank", ranker "cross" "rerank"),
    ("embed", ranker "bi" "embed"), ("pii-regex", pii_regex), ("hf-pii", hf_pii)]

/-- A spec taken apart. -/
structure Reading where
  spec : String
  engine : String
  model : String
  options : Dict String

def read (spec : String) : Except String Reading :=
  let head := (Text.partition spec ',').1
  let engine := Text.strip (Text.partition head ':').1
  if engine ∉ engine_names then .error (unknown_engine engine)
  else do
    let options ← parse_options (Text.partition spec ',').2 spec
    return { spec := spec, engine := engine, model := Text.strip (Text.partition head ':').2,
             options := options }

def build (r : Reading) : Except String Engine :=
  match BUILDERS.find? fun entry => entry.1 = r.engine with
  | some entry => entry.2 r.spec r.model r.options
  | none => .error (unknown_engine r.engine)

/-- Parse a candidate spec into an Engine. -/
def resolve (spec : String) : Except String Engine := do
  build (← read spec)

/-- The one file name a case's artifact is written under. -/
def artifact_name (candidate case_id suffix : String) : String :=
  Text.replace candidate '/' '_' ++ "--" ++ case_id ++ suffix

theorem engine_names_eq :
    engine_names = Dict.sortedKeys (BUILDERS.map Prod.fst).toFinset := by
  decide

end LocalHarness.Engines
