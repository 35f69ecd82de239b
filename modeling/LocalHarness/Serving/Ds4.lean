import LocalHarness.Library.Decimal
import LocalHarness.Library.Dict

/-! # The specs of ds4's own files

`ds4:<stem>` names one file and the launch that serves it; what else stands in the
spec's tail is sampling.
-/

namespace LocalHarness.Serving

open LocalHarness.Library

/-- The variables of the process. -/
abbrev Environ := Dict String

/-- `(environ.get(name) or "").strip()` -/
def variableOf (environ : Environ) (name : String) : String :=
  Text.strip ((environ.lookup name).getD "")

/-- The URL on the port a variable names, or as it stands. -/
def atPort (url : String) (environ : Environ) (portVar : String) : String :=
  let port := variableOf environ portVar
  if Text.isdigit port then Text.beforeLast url ":" ++ ":" ++ port else url

/-- Sampling keys a spec may carry after a comma. -/
def SAMPLING_KEYS : List String := ["temperature", "top_p", "repetition_penalty"]

/-- The sampling a spec asks for. -/
abbrev Sampling := Dict Decimal.Number

namespace Ds4

def PREFIX : String := "ds4:"

def ENGINE : String := "ds4-server"

def URL : String := "http://127.0.0.1:8087"

def PORT_VAR : String := "DS4_PORT"

def DEFAULT_CTX : Int := 32768

/-- Options that change the launch. -/
def OPTIONS : List String := ["ssd_streaming", "expert_cache", "ctx"]

/-- One file ds4 publishes. -/
structure Model where
  repo : String
  stem : String
  target : String
  streams : Bool := true

def DS4F : String := "antirez/deepseek-v4-gguf"

def QWEN : String := "antirez/qwen3.8-flash-next-gguf"

def DS41F : String := "antirez/deepseek-v4.1-flash-gguf"

def MODELS : List Model :=
  [{ repo := QWEN, stem := "Qwen3.8-Flash-Next-Q2", target := "qwen38-q2", streams := false },
    { repo := QWEN, stem := "Qwen3.8-Flash-Next-Q4", target := "qwen38-q4k", streams := false },
    { repo := DS4F
      stem := "DeepSeek-V4-Flash-IQ2XXS-w2Q2K-AProjQ8-SExpQ8-OutQ8-chat-v2-imatrix-0731"
      target := "ds4f-q2" },
    { repo := DS4F
      stem := "DeepSeek-V4-Flash-Layers37-42Q4KExperts-OtherExpertLayersIQ2XXSGateUp-" ++
        "Q2KDown-AProjQ8-SExpQ8-OutQ8-chat-v2-imatrix-fixed-0731"
      target := "ds4f-q2-q4" },
    { repo := DS4F
      stem := "DeepSeek-V4-Flash-Q4KExperts-F16HC-F16Compressor-F16Indexer-Q8Attn-Q8Shared-" ++
        "Q8Out-chat-v2-imatrix-0731"
      target := "ds4f-q4" },
    { repo := DS4F
      stem := "DeepSeek-V4-Flash-MXFP4Experts-F16HC-F16Compressor-F16Indexer-Q8Attn-" ++
        "Q8Shared-Q8Out-chat-v2-mxfp4-0731"
      target := "ds4f-mxfp4" },
    { repo := DS41F, stem := "DeepSeek-V4.1-Flash-Q2", target := "ds41f-q2" },
    { repo := DS41F, stem := "DeepSeek-V4.1-Flash-Q4", target := "ds41f-q4" }]

def model_of (stem : String) : Option Model :=
  MODELS.find? fun m => m.stem = stem

/-- A repo of ds4's own files, when only its name is known. -/
def recognised (repo : String) : Bool :=
  MODELS.any fun m => Text.lower m.repo = Text.lower (Text.strip repo)

def url (environ : Environ) : String :=
  atPort URL environ PORT_VAR

structure Spec where
  stem : String
  ssd_streaming : Bool := false
  expert_cache : String := "auto"
  ctx : Int := DEFAULT_CTX
  sampling : Sampling := ∅
  deriving DecidableEq

/-- `^(auto|\d+|\d+(\.\d+)?GB)$` -/
def cacheText (text : String) : Bool :=
  let size := Text.partition (Text.removesuffix text "GB") '.'
  text == "auto" || Text.isdigit text ||
    (Text.removesuffix text "GB" != text && Text.isdigit size.1 &&
      (Text.isdigit size.2 || !(Text.removesuffix text "GB").toList.contains '.'))

/-- The launch options and the sampling of a spec's tail, read from left to right. -/
def readOption (spec : String) (read : Dict String × Sampling) (part : String) :
    Except String (Dict String × Sampling) :=
  let unknown := fun key => spec ++ ": unknown option " ++ key ++ "; ds4 takes " ++
    ", ".intercalate (OPTIONS ++ SAMPLING_KEYS)
  match Text.keyValue part with
  | none => .error (unknown (Text.strip (Text.partition part '=').1))
  | some (key, value) =>
      if key ∈ SAMPLING_KEYS then
        match Decimal.number value with
        | some number => .ok (read.1, read.2.insert key number)
        | none => .error (spec ++ ": " ++ key ++ " must be a number")
      else if key ∈ OPTIONS then .ok (read.1.insert key (Text.strip value), read.2)
      else .error (unknown key)

def streamingOf (opts : Dict String) : String :=
  Text.lower ((opts.lookup "ssd_streaming").getD "off")

def cacheOf (opts : Dict String) : String :=
  (opts.lookup "expert_cache").getD "auto"

def ctxOf (opts : Dict String) : Int :=
  match opts.lookup "ctx" with
  | some text => (Decimal.wholeNumber text).getD 0
  | none => DEFAULT_CTX

/-- What is wrong with a launch, the first check that fails. -/
def launchError (spec stem : String) (opts : Dict String) : Option String :=
  if streamingOf opts ≠ "on" ∧ streamingOf opts ≠ "off" then
    some (spec ++ ": ssd_streaming must be on or off")
  else if !cacheText (cacheOf opts) then
    some (spec ++ ": expert_cache is auto, a slot count, or a size like 32GB")
  else if cacheOf opts ≠ "auto" ∧ streamingOf opts ≠ "on" then
    some (spec ++ ": expert_cache needs ssd_streaming=on")
  else if ctxOf opts ≤ 0 then some (spec ++ ": ctx must be a positive token count")
  else ((model_of stem).filter fun known => streamingOf opts = "on" ∧ !known.streams).map fun known =>
    spec ++ ": ds4 has SSD expert streaming not implemented for " ++ known.target ++
      "; serve it resident"

/-- The launch that the options of a spec ask for. -/
def launchOf (spec stem : String) (read : Dict String × Sampling) : Except String Spec :=
  match launchError spec stem read.1 with
  | some why => .error why
  | none => .ok ⟨stem, streamingOf read.1 = "on", cacheOf read.1, ctxOf read.1, read.2⟩

/-- The spec's file and launch, or what is wrong with it. -/
def parse (spec : String) : Except String Spec :=
  let head := Text.strip (Text.partition spec ',').1
  let stem := Text.strip (Text.after head PREFIX)
  if !Text.starts head PREFIX then
    .error (Text.quoted spec ++ " is not a ds4 spec; " ++ PREFIX ++ "<gguf stem>")
  else if stem = "" then
    .error (Text.quoted spec ++ " names no model; " ++ PREFIX ++ "<gguf stem>")
  else do
    let read ← (Text.chunks (Text.partition spec ',').2).foldlM (readOption spec) (∅, ∅)
    launchOf spec stem read

theorem launchOf_ok {spec stem : String} {read : Dict String × Sampling} {got : Spec}
    (launched : launchOf spec stem read = .ok got) : got.stem = stem ∧ got.sampling = read.2 := by
  unfold launchOf at launched
  split at launched
  next => cases launched
  next =>
    cases launched
    exact ⟨rfl, rfl⟩

/-- What a spec that parses asks for is what its tail says. -/
theorem parse_ok {spec : String} {got : Spec} (parsed : parse spec = .ok got) :
    ∃ read, (Text.chunks (Text.partition spec ',').2).foldlM (readOption spec) (∅, ∅) = .ok read ∧
      got.stem = Text.strip (Text.after (Text.strip (Text.partition spec ',').1) PREFIX) ∧
      got.sampling = read.2 := by
  unfold parse at parsed
  simp only at parsed
  split at parsed
  next => cases parsed
  next =>
    split at parsed
    next => cases parsed
    next =>
      cases folded : (Text.chunks (Text.partition spec ',').2).foldlM (readOption spec) (∅, ∅) with
      | error why => simp [folded, bind, Except.bind] at parsed
      | ok read =>
          rw [folded] at parsed
          exact ⟨read, rfl, launchOf_ok parsed⟩

end Ds4

end LocalHarness.Serving
