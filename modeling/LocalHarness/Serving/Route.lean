import LocalHarness.Serving.Ds4
import LocalHarness.Serving.Methods

/-! # Where a text spec is answered, and by which server

`route` picks the server a request is sent to; `engine_for` names the server a receipt
records. They read the same spec, gateway config and environment.
-/

namespace LocalHarness.Serving

open LocalHarness.Library

def ENV_VAR : String := "TEXT_ENGINE"

def DEFAULT : String := "mlx_lm.server"

def LLAMACPP_URL : String := "http://127.0.0.1:8082"

def LLAMACPP : String := "llama-server"

def LLAMACPP_PREFIX : String := "llamacpp:"

def VLLM_PREFIX : String := "vllm:"

def VLLM_URL : String := "http://127.0.0.1:8086"

def VLLM_PORT_VAR : String := "VLLM_PORT"

def VLLM_ENGINE_VAR : String := "VLLM_ENGINE"

def VLLM_ENGINES : List String := ["vllm-mlx", "vllm-metal"]

def DEFAULT_GATEWAY : String := "http://127.0.0.1:4000"

/-- A model of the gateway's config. -/
structure Entry where
  model_name : String
  api_base : String
  model : String
  deriving DecidableEq

/-- What a spec is read against: the variables of the process, the gateway's models, the
    stems the fetched and the whole hub downloads are served under, and why a stem whose
    context was refused is not. -/
structure Setting where
  environ : Environ
  config : List Entry
  fetched : String → Option String
  hub_stem : String → Option String
  refusal : String → String

/-- A text that is not empty, as `or` and `if` take one. -/
def truthy (text : Option String) : Option String :=
  text.filter (· != "")

/-- `base.rstrip("/").removesuffix("/v1")` -/
def trimmed (base : String) : String :=
  Text.removesuffix (Text.rstrip base '/') "/v1"

def vllm_url (environ : Environ) : String :=
  atPort VLLM_URL environ VLLM_PORT_VAR

/-- The vLLM implementation serving `vllm:` specs here. -/
def vllm_engine (environ : Environ) : Except String String :=
  let got := if variableOf environ VLLM_ENGINE_VAR = "" then "vllm-mlx"
    else variableOf environ VLLM_ENGINE_VAR
  if got ∈ VLLM_ENGINES then .ok got
  else .error (VLLM_ENGINE_VAR ++ "=" ++ got ++ " is not one of " ++ ", ".intercalate VLLM_ENGINES)

/-- `router.url`: the eval router, on LLAMACPP_PORT when set. -/
def router_url (environ : Environ) : String :=
  atPort LLAMACPP_URL environ "LLAMACPP_PORT"

/-- The name of the server behind the text lane. -/
def text_engine (environ : Environ) : String :=
  if variableOf environ ENV_VAR = "" then DEFAULT else variableOf environ ENV_VAR

/-- The name of a spec, without its options. -/
def nameOf (spec : String) : String :=
  Text.strip (Text.partition spec ',').1

/-- The engine on the port an alias points at, `none` when the loop reads on. -/
def engineAt (environ : Environ) (base : String) : Option (Except String String) :=
  if base = LLAMACPP_URL then some (.ok LLAMACPP)
  else if base = vllm_url environ then some (vllm_engine environ)
  else if base = Ds4.url environ then some (.ok Ds4.ENGINE)
  else none

/-- The server that answers this candidate, read from where it routes. -/
def engine_for (w : Setting) (candidate : String) : Except String String :=
  let name := nameOf candidate
  if Text.starts name LLAMACPP_PREFIX then .ok LLAMACPP
  else if Text.starts name VLLM_PREFIX then vllm_engine w.environ
  else if Text.starts name Ds4.PREFIX then .ok Ds4.ENGINE
  else
    (w.config.findSome? fun entry =>
      if Text.lower entry.model_name = Text.lower name then
        engineAt w.environ (trimmed entry.api_base)
      else none).getD (.ok (text_engine w.environ))

/-- A text server can answer this spec. -/
def text_spec (spec : String) : Bool :=
  let name := nameOf spec
  name != "" && (!name.toList.contains ':' || Text.starts name LLAMACPP_PREFIX ||
    Text.starts name VLLM_PREFIX || Text.starts name Ds4.PREFIX)

structure Route where
  base : String
  model : String
  sampling : Sampling
  deriving DecidableEq

/-- One option of a text spec, which must be a number of a sampling key. -/
def readSampling (spec : String) (out : Sampling) (part : String) : Except String Sampling :=
  match Text.keyValue part with
  | none => .error (spec ++ ": unknown option(s) " ++ Text.strip (Text.partition part '=').1)
  | some (key, value) =>
      if key ∉ SAMPLING_KEYS then .error (spec ++ ": unknown option(s) " ++ key)
      else match Decimal.number value with
        | some number => .ok (out.insert key number)
        | none => .error (spec ++ ": " ++ key ++ " must be a number")

def sampling_ (optstr spec : String) : Except String Sampling :=
  (Text.chunks optstr).foldlM (readSampling spec) ∅

/-- The stem, unless its recorded context was refused. -/
def servable (w : Setting) (stem : String) : Except String String :=
  if w.refusal stem = "" then .ok stem
  else .error ("llamacpp:" ++ stem ++ " is not served: " ++ w.refusal stem)

/-- The router stem a GGUF-only repo id is served under, linked or not yet. -/
def gguf_stem (w : Setting) (repo : String) : Option String :=
  (truthy (w.fetched repo)).or (w.hub_stem repo)

/-- The alias names the gateway accepts, and the upstream behind the first of them that
    names one. -/
def gateway_routes (w : Setting) : List String × String :=
  ((w.config.filter fun entry => entry.model_name != "").map fun entry =>
      Text.lower (Text.strip entry.model_name),
    ((w.config.map Entry.api_base).find? (· != "")).getD "")

/-- The `--gateway` value of a candidate, or "" for the default. -/
def routed_gateway (w : Setting) (spec : String) : String :=
  let model := if Methods.base_of spec = "" then spec else Methods.base_of spec
  if Text.lower (Text.strip model) ∈ (gateway_routes w).1 then ""
  else if (truthy (w.fetched model)).isSome || (truthy (w.hub_stem model)).isSome then ""
  else if '/' ∉ model.toList then ""
  else Text.beforeLast (gateway_routes w).2 "/v1"

/-- A name that stays on the gateway. -/
def isAlias (w : Setting) (name : String) : Bool :=
  !name.toList.contains '/' || (gateway_routes w).1.contains (Text.lower name)

/-- The stem a repo of ds4's own files is served under, of those that load nowhere else. -/
def ds4_stem (w : Setting) (name : String) : Option String :=
  if !isAlias w name && Ds4.recognised name then
    (truthy (w.fetched name)).filter fun stem => (Ds4.model_of stem).isSome
  else none

/-- The stem a repo is served under by the router. -/
def router_stem (w : Setting) (name : String) : Option String :=
  if isAlias w name then none else truthy (gguf_stem w name)

/-- The server of a name that is an alias or a repo id. -/
def routeName (w : Setting) (name gateway : String) (sampling : Sampling) : Except String Route :=
  match ds4_stem w name with
  | some stem => .ok ⟨Ds4.url w.environ, stem, sampling⟩
  | none =>
      match router_stem w name with
      | some stem => do return ⟨router_url w.environ, ← servable w stem, sampling⟩
      | none =>
          if gateway ≠ "" then .ok ⟨Text.rstrip gateway '/', name, sampling⟩
          else if isAlias w name then .ok ⟨DEFAULT_GATEWAY, name, sampling⟩
          else .ok ⟨if routed_gateway w name = "" then DEFAULT_GATEWAY else routed_gateway w name,
            name, sampling⟩

/-- The server that serves a text spec. -/
def route (w : Setting) (spec gateway : String) : Except String Route :=
  let name := nameOf spec
  if Text.starts name Ds4.PREFIX then do
    let got ← Ds4.parse spec
    return ⟨Ds4.url w.environ, got.stem, got.sampling⟩
  else do
    let sampling ← sampling_ (Text.partition spec ',').2 spec
    if !text_spec name then .error (Text.quoted spec ++ " is not served by a text server")
    else if Text.starts name LLAMACPP_PREFIX then
      return ⟨router_url w.environ, ← servable w (Text.strip (Text.after name LLAMACPP_PREFIX)),
        sampling⟩
    else if Text.starts name VLLM_PREFIX then
      let model := Text.strip (Text.after name VLLM_PREFIX)
      if model = "" then .error (Text.quoted spec ++ " names no model; vllm:<repo id>")
      else return ⟨vllm_url w.environ, model, sampling⟩
    else routeName w name gateway sampling

def PROVIDER_PREFIXES : List String := ["openai/", "hosted_vllm/", "ollama/", "anthropic/"]

/-- The upstream id without LiteLLM's provider prefix. -/
def strip_provider (model : String) : String :=
  let got := Text.strip model
  ((PROVIDER_PREFIXES.find? fun head => Text.starts got head).map (Text.after got)).getD got

/-- `delegate.upstream`: the server base and the model that answer a route, a gateway
    alias resolved; two empty texts if unknown. -/
def upstream (w : Setting) (where_ : Route) : String × String :=
  if trimmed where_.base ≠ DEFAULT_GATEWAY then (trimmed where_.base, where_.model)
  else match w.config.find? fun entry =>
      Text.lower (Text.strip entry.model_name) = Text.lower where_.model with
    | some entry => (trimmed entry.api_base, strip_provider entry.model)
    | none => ("", "")

end LocalHarness.Serving
