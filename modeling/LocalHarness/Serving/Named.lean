import LocalHarness.Serving.Route

/-! # The server a receipt names

The engine recorded of a spec is compared with what stands where its requests arrive.
-/

namespace LocalHarness.Serving

open LocalHarness.Library

/-- The implementation that answers at a base URL: llama-server on its own port and on the
    router's, the vLLM and ds4 servers on theirs, the text lane's server anywhere else. -/
inductive Stands (environ : Environ) (base : String) : String → Prop where
  | llamacpp : base = LLAMACPP_URL ∨ base = router_url environ → Stands environ base LLAMACPP
  | vllm {engine} : base = vllm_url environ → vllm_engine environ = .ok engine →
      Stands environ base engine
  | ds4 : base = Ds4.url environ → Stands environ base Ds4.ENGINE
  | text : base ≠ LLAMACPP_URL → base ≠ router_url environ → base ≠ vllm_url environ →
      base ≠ Ds4.url environ → Stands environ base (text_engine environ)

theorem stands_iff {environ : Environ} {base engine : String} :
    Stands environ base engine ↔
      ((base = LLAMACPP_URL ∨ base = router_url environ) ∧ engine = LLAMACPP) ∨
        (base = vllm_url environ ∧ vllm_engine environ = .ok engine) ∨
        (base = Ds4.url environ ∧ engine = Ds4.ENGINE) ∨
        (base ≠ LLAMACPP_URL ∧ base ≠ router_url environ ∧ base ≠ vllm_url environ ∧
          base ≠ Ds4.url environ ∧ engine = text_engine environ) := by
  constructor
  · rintro (router | ⟨vllm, engine⟩ | ds4 | ⟨llamacpp, router, vllm, ds4⟩)
    · exact .inl ⟨router, rfl⟩
    · exact .inr (.inl ⟨vllm, engine⟩)
    · exact .inr (.inr (.inl ⟨ds4, rfl⟩))
    · exact .inr (.inr (.inr ⟨llamacpp, router, vllm, ds4, rfl⟩))
  · rintro (⟨router, rfl⟩ | ⟨vllm, engine⟩ | ⟨ds4, rfl⟩ | ⟨llamacpp, router, vllm, ds4, rfl⟩)
    · exact .llamacpp router
    · exact .vllm vllm engine
    · exact .ds4 ds4
    · exact .text llamacpp router vllm ds4

instance (environ : Environ) (base engine : String) : Decidable (Stands environ base engine) :=
  decidable_of_iff _ stands_iff.symm

/-- What is sent to `base` under the name `model` is answered by `engine`, if by anything known. -/
def Answered (w : Setting) (base model engine : String) : Prop :=
  (upstream w ⟨base, model, ∅⟩).1 ≠ "" → Stands w.environ (upstream w ⟨base, model, ∅⟩).1 engine

/-- The receipt of a spec names the server its requests reach. -/
def Named (w : Setting) (spec gateway : String) : Prop :=
  ∀ where_ engine, route w spec gateway = .ok where_ → engine_for w spec = .ok engine →
    Answered w where_.base where_.model engine

/-- Where a name that no local file answers is sent. -/
def sentTo (w : Setting) (name gateway : String) : String :=
  if gateway ≠ "" then Text.rstrip gateway '/'
  else if isAlias w name ∨ routed_gateway w name = "" then DEFAULT_GATEWAY
  else routed_gateway w name

/-- The first entry of the config under a name that points at a port with a known engine. -/
def knownEntry (w : Setting) (name : String) : Option Entry :=
  w.config.find? fun entry => Text.lower entry.model_name = Text.lower name ∧
    (engineAt w.environ (trimmed entry.api_base)).isSome

/-- A name with none of the servers' prefixes: an alias or a repo id. -/
def Bare (name : String) : Prop :=
  Text.starts name Ds4.PREFIX = false ∧ Text.starts name LLAMACPP_PREFIX = false ∧
    Text.starts name VLLM_PREFIX = false

/-- What a spec has to be for its receipt to name the right server, by its kind. -/
structure Clear (w : Setting) (spec gateway : String) : Prop where
  ds4 : Text.starts (nameOf spec) Ds4.PREFIX = true →
    Answered w (Ds4.url w.environ) (Text.strip (Text.after (nameOf spec) Ds4.PREFIX)) Ds4.ENGINE
  llamacpp : Text.starts (nameOf spec) LLAMACPP_PREFIX = true →
    Answered w (router_url w.environ) (Text.strip (Text.after (nameOf spec) LLAMACPP_PREFIX)) LLAMACPP
  vllm : Text.starts (nameOf spec) VLLM_PREFIX = true →
    ∀ engine, vllm_engine w.environ = .ok engine →
      Answered w (vllm_url w.environ) (Text.strip (Text.after (nameOf spec) VLLM_PREFIX)) engine
  ds4Repo : Bare (nameOf spec) → ∀ stem, ds4_stem w (nameOf spec) = some stem →
    Answered w (Ds4.url w.environ) stem (text_engine w.environ)
  ggufRepo : Bare (nameOf spec) → ds4_stem w (nameOf spec) = none →
    ∀ stem, router_stem w (nameOf spec) = some stem →
      Answered w (router_url w.environ) stem (text_engine w.environ)
  knownAlias : Bare (nameOf spec) → ds4_stem w (nameOf spec) = none →
    router_stem w (nameOf spec) = none → ∀ entry, knownEntry w (nameOf spec) = some entry →
      ∀ engine, engineAt w.environ (trimmed entry.api_base) = some (.ok engine) →
        Answered w (sentTo w (nameOf spec) gateway) (nameOf spec) engine
  otherName : Bare (nameOf spec) → ds4_stem w (nameOf spec) = none →
    router_stem w (nameOf spec) = none → knownEntry w (nameOf spec) = none →
      Answered w (sentTo w (nameOf spec) gateway) (nameOf spec) (text_engine w.environ)

theorem servable_ok {w : Setting} {stem got : String} (ok : servable w stem = .ok got) : got = stem := by
  unfold servable at ok
  split at ok <;> cases ok
  rfl

/-- The engine of a name without a prefix: its known entry's, else the text lane's. -/
theorem engine_for_name {w : Setting} {spec : String} (bare : Bare (nameOf spec)) :
    engine_for w spec =
      ((knownEntry w (nameOf spec)).bind fun entry =>
        engineAt w.environ (trimmed entry.api_base)).getD (.ok (text_engine w.environ)) := by
  have found : (w.config.findSome? fun entry =>
      if Text.lower entry.model_name = Text.lower (nameOf spec) then
        engineAt w.environ (trimmed entry.api_base) else none) =
      (knownEntry w (nameOf spec)).bind fun entry => engineAt w.environ (trimmed entry.api_base) := by
    unfold knownEntry
    induction w.config with
    | nil => rfl
    | cons entry rest ih =>
        rw [List.findSome?_cons, List.find?_cons]
        by_cases same : Text.lower entry.model_name = Text.lower (nameOf spec)
        · cases known : engineAt w.environ (trimmed entry.api_base) with
          | none => simpa [same, known] using ih
          | some engine => simp [same, known]
        · simpa [same] using ih
  simp only [engine_for, bare.1, bare.2.1, bare.2.2, Bool.false_eq_true, if_false, found]

/-- A repo id that is no alias has no entry in the config, known or not. -/
theorem knownEntry_none {w : Setting} {name : String} (trim : Text.strip name = name)
    (outside : isAlias w name = false) : knownEntry w name = none := by
  simp only [isAlias, Bool.or_eq_false_iff, Bool.not_eq_false', List.contains_eq_mem,
    decide_eq_false_iff_not, decide_eq_true_eq] at outside
  unfold knownEntry
  rw [List.find?_eq_none]
  intro entry inside known
  rw [decide_eq_true_eq] at known
  have padded := Text.strip_of_lower_eq known.1 trim
  have filled : entry.model_name ≠ "" := by
    intro empty
    have none : name.toList.map Char.toLower = [] := by
      have same := congrArg String.toList known.1
      simpa [Text.lower, empty] using same.symm
    rw [List.map_eq_nil_iff.mp none] at outside
    exact List.not_mem_nil outside.1
  apply outside.2
  have listed : Text.lower (Text.strip entry.model_name) ∈ (gateway_routes w).1 :=
    List.mem_map.mpr ⟨entry, List.mem_filter.mpr ⟨inside, bne_iff_ne.mpr filled⟩, rfl⟩
  rwa [padded, known.1] at listed

theorem isAlias_of_stem {w : Setting} {name : String}
    (found : (ds4_stem w name).isSome ∨ (router_stem w name).isSome) : isAlias w name = false := by
  cases known : isAlias w name with
  | false => rfl
  | true => simp [ds4_stem, router_stem, known] at found

/-! ## The URLs of the servers -/

/-- A URL that ends in a port is one that nothing is trimmed of. -/
theorem trimmed_port {host port : String} (digits : Text.isdigit port = true) :
    trimmed (host ++ ":" ++ port) = host ++ ":" ++ port := by
  rw [Text.isdigit, Bool.and_eq_true, bne_iff_ne, List.all_eq_true] at digits
  have reversed : (host ++ ":" ++ port).toList.reverse =
      port.toList.reverse ++ ':' :: host.toList.reverse := by simp
  obtain ⟨last, rest, shape⟩ : ∃ last rest, port.toList.reverse = last :: rest := by
    refine List.exists_cons_of_ne_nil fun none => digits.1 ?_
    rw [List.reverse_eq_nil_iff] at none
    exact String.toList_inj.mp none
  have digit : ∀ c ∈ last :: rest, c.isDigit = true := fun c inside =>
    digits.2 c (List.mem_reverse.mp (shape ▸ inside))
  have kept : Text.rstrip (host ++ ":" ++ port) '/' = host ++ ":" ++ port := by
    rw [Text.rstrip, List.rdropWhile, reversed, shape, List.cons_append, List.dropWhile_cons_of_neg,
      ← List.cons_append, ← shape, ← reversed, List.reverse_reverse, String.ofList_toList]
    have first := digit last List.mem_cons_self
    rw [beq_iff_eq]
    rintro rfl
    cases first
  rw [trimmed, kept, Text.removesuffix, if_neg]
  rw [List.isSuffixOf_iff_suffix, ← List.reverse_prefix, reversed, shape]
  intro suffix
  cases rest with
  | nil => simp [List.cons_prefix_cons] at suffix
  | cons next more =>
      have second := digit next (by simp)
      simp only [String.reduceToList, List.reverse_cons, List.reverse_nil, List.nil_append,
        List.cons_append, List.cons_prefix_cons] at suffix
      rw [← suffix.2.1] at second
      cases second

theorem trimmed_atPort {url portVar : String} (host port : String) (environ : Environ)
    (shape : url = host ++ ":" ++ port) (digits : Text.isdigit port = true)
    (cut : Text.beforeLast url ":" = host) :
    trimmed (atPort url environ portVar) = atPort url environ portVar := by
  unfold atPort
  simp only [cut]
  split
  next given => exact trimmed_port given
  next => rw [shape]; exact trimmed_port digits

theorem trimmed_router (environ : Environ) : trimmed (router_url environ) = router_url environ :=
  trimmed_atPort "http://127.0.0.1" "8082" environ (by decide) (by decide) (by decide)

theorem trimmed_vllm (environ : Environ) : trimmed (vllm_url environ) = vllm_url environ :=
  trimmed_atPort "http://127.0.0.1" "8086" environ (by decide) (by decide) (by decide)

theorem trimmed_ds4 (environ : Environ) : trimmed (Ds4.url environ) = Ds4.url environ :=
  trimmed_atPort "http://127.0.0.1" "8087" environ (by decide) (by decide) (by decide)

/-- What is sent to a server's own port is answered there, unless that is the gateway's port. -/
theorem answered_at {w : Setting} {base model engine : String} (kept : trimmed base = base)
    (apart : base ≠ DEFAULT_GATEWAY) (stands : Stands w.environ base engine) :
    Answered w base model engine := by
  intro _
  rw [upstream, if_pos (by simpa only [kept] using apart)]
  simpa only [kept] using stands

/-! ## Where a request goes, by the kind of spec -/

theorem route_ds4 {w : Setting} {spec gateway : String} {where_ : Route}
    (ds4 : Text.starts (nameOf spec) Ds4.PREFIX = true)
    (accepted : route w spec gateway = .ok where_) :
    where_.base = Ds4.url w.environ ∧
      where_.model = Text.strip (Text.after (nameOf spec) Ds4.PREFIX) := by
  simp only [route, ds4, if_true] at accepted
  obtain ⟨got, parsed, made⟩ := bind_ok accepted
  obtain rfl := pure_ok made
  obtain ⟨_, _, stem, _⟩ := Ds4.parse_ok parsed
  exact ⟨by with_reducible rfl, stem⟩

theorem route_llamacpp {w : Setting} {spec gateway : String} {where_ : Route}
    (ds4 : Text.starts (nameOf spec) Ds4.PREFIX = false)
    (llamacpp : Text.starts (nameOf spec) LLAMACPP_PREFIX = true)
    (accepted : route w spec gateway = .ok where_) :
    where_.base = router_url w.environ ∧
      where_.model = Text.strip (Text.after (nameOf spec) LLAMACPP_PREFIX) := by
  simp only [route, ds4, llamacpp, Bool.false_eq_true, if_false, if_true] at accepted
  obtain ⟨sampling, _, accepted⟩ := bind_ok accepted
  split at accepted
  next => cases accepted
  next =>
    obtain ⟨stem, served, made⟩ := bind_ok accepted
    obtain rfl := pure_ok made
    exact ⟨by with_reducible rfl, servable_ok served⟩

theorem route_vllm {w : Setting} {spec gateway : String} {where_ : Route}
    (ds4 : Text.starts (nameOf spec) Ds4.PREFIX = false)
    (llamacpp : Text.starts (nameOf spec) LLAMACPP_PREFIX = false)
    (vllm : Text.starts (nameOf spec) VLLM_PREFIX = true)
    (accepted : route w spec gateway = .ok where_) :
    where_.base = vllm_url w.environ ∧
      where_.model = Text.strip (Text.after (nameOf spec) VLLM_PREFIX) := by
  simp only [route, ds4, llamacpp, vllm, Bool.false_eq_true, if_false, if_true] at accepted
  obtain ⟨sampling, _, accepted⟩ := bind_ok accepted
  split at accepted
  next => cases accepted
  next =>
    split at accepted
    next => cases accepted
    next =>
      obtain rfl := pure_ok accepted
      constructor <;> with_reducible rfl

theorem route_name {w : Setting} {spec gateway : String} {where_ : Route}
    (bare : Bare (nameOf spec)) (accepted : route w spec gateway = .ok where_) :
    (∃ stem, ds4_stem w (nameOf spec) = some stem ∧
        where_.base = Ds4.url w.environ ∧ where_.model = stem) ∨
      (∃ stem, ds4_stem w (nameOf spec) = none ∧ router_stem w (nameOf spec) = some stem ∧
        where_.base = router_url w.environ ∧ where_.model = stem) ∨
      (ds4_stem w (nameOf spec) = none ∧ router_stem w (nameOf spec) = none ∧
        where_.base = sentTo w (nameOf spec) gateway ∧ where_.model = nameOf spec) := by
  simp only [route, bare.1, bare.2.1, bare.2.2, Bool.false_eq_true, if_false] at accepted
  obtain ⟨sampling, _, accepted⟩ := bind_ok accepted
  split at accepted
  next => cases accepted
  next =>
    unfold routeName at accepted
    split at accepted
    next stem own =>
      obtain rfl := (Except.ok.inj accepted).symm
      exact .inl ⟨stem, own, by with_reducible rfl, by with_reducible rfl⟩
    next own =>
      split at accepted
      next stem found =>
        obtain ⟨stem', served, made⟩ := bind_ok accepted
        obtain rfl := pure_ok made
        exact .inr (.inl ⟨stem, own, found, by with_reducible rfl, servable_ok served⟩)
      next found =>
        refine .inr (.inr ⟨own, found, ?_⟩)
        unfold sentTo
        split at accepted
        next given =>
          cases accepted
          exact ⟨(if_pos given).symm, rfl⟩
        next given =>
          rw [if_neg given]
          split at accepted
          next known =>
            cases accepted
            exact ⟨(if_pos (.inl known)).symm, rfl⟩
          next known =>
            cases accepted
            exact ⟨by simp [known], rfl⟩

/-- A name has at most one of the prefixes. -/
theorem prefix_cases (name : String) :
    (Text.starts name Ds4.PREFIX = true ∧ Text.starts name LLAMACPP_PREFIX = false ∧
        Text.starts name VLLM_PREFIX = false) ∨
      (Text.starts name Ds4.PREFIX = false ∧ Text.starts name LLAMACPP_PREFIX = true ∧
        Text.starts name VLLM_PREFIX = false) ∨
      (Text.starts name Ds4.PREFIX = false ∧ Text.starts name LLAMACPP_PREFIX = false ∧
        Text.starts name VLLM_PREFIX = true) ∨ Bare name := by
  cases ds4 : Text.starts name Ds4.PREFIX with
  | true =>
      exact .inl ⟨rfl, Text.starts_unique (by decide : 'd' ≠ 'l') ds4,
        Text.starts_unique (by decide : 'd' ≠ 'v') ds4⟩
  | false =>
      cases llamacpp : Text.starts name LLAMACPP_PREFIX with
      | true => exact .inr (.inl ⟨rfl, rfl, Text.starts_unique (by decide : 'l' ≠ 'v') llamacpp⟩)
      | false =>
          cases vllm : Text.starts name VLLM_PREFIX with
          | true => exact .inr (.inr (.inl ⟨rfl, rfl, rfl⟩))
          | false => exact .inr (.inr (.inr ⟨ds4, llamacpp, vllm⟩))

section

variable {w : Setting} {spec gateway : String}

private theorem clear_ds4 (ds4 : Text.starts (nameOf spec) Ds4.PREFIX = true)
    (llamacpp : Text.starts (nameOf spec) LLAMACPP_PREFIX = false)
    (vllm : Text.starts (nameOf spec) VLLM_PREFIX = false) :
    Clear w spec gateway ↔ Answered w (Ds4.url w.environ)
      (Text.strip (Text.after (nameOf spec) Ds4.PREFIX)) Ds4.ENGINE where
  mp clear := clear.ds4 ds4
  mpr answered := by
    have notBare : ¬ Bare (nameOf spec) := fun bare => Bool.noConfusion (bare.1.symm.trans ds4)
    constructor
    case ds4 => exact fun _ => answered
    case llamacpp => exact fun other => Bool.noConfusion (llamacpp.symm.trans other)
    case vllm => exact fun other => Bool.noConfusion (vllm.symm.trans other)
    all_goals exact fun bare => absurd bare notBare

private theorem clear_llamacpp (ds4 : Text.starts (nameOf spec) Ds4.PREFIX = false)
    (llamacpp : Text.starts (nameOf spec) LLAMACPP_PREFIX = true)
    (vllm : Text.starts (nameOf spec) VLLM_PREFIX = false) :
    Clear w spec gateway ↔ Answered w (router_url w.environ)
      (Text.strip (Text.after (nameOf spec) LLAMACPP_PREFIX)) LLAMACPP where
  mp clear := clear.llamacpp llamacpp
  mpr answered := by
    have notBare : ¬ Bare (nameOf spec) := fun bare =>
      Bool.noConfusion (bare.2.1.symm.trans llamacpp)
    constructor
    case ds4 => exact fun other => Bool.noConfusion (ds4.symm.trans other)
    case llamacpp => exact fun _ => answered
    case vllm => exact fun other => Bool.noConfusion (vllm.symm.trans other)
    all_goals exact fun bare => absurd bare notBare

private theorem clear_vllm (ds4 : Text.starts (nameOf spec) Ds4.PREFIX = false)
    (llamacpp : Text.starts (nameOf spec) LLAMACPP_PREFIX = false)
    (vllm : Text.starts (nameOf spec) VLLM_PREFIX = true) :
    Clear w spec gateway ↔ ∀ engine, vllm_engine w.environ = .ok engine →
      Answered w (vllm_url w.environ) (Text.strip (Text.after (nameOf spec) VLLM_PREFIX)) engine where
  mp clear := clear.vllm vllm
  mpr answered := by
    have notBare : ¬ Bare (nameOf spec) := fun bare => Bool.noConfusion (bare.2.2.symm.trans vllm)
    constructor
    case ds4 => exact fun other => Bool.noConfusion (ds4.symm.trans other)
    case llamacpp => exact fun other => Bool.noConfusion (llamacpp.symm.trans other)
    case vllm => exact fun _ => answered
    all_goals exact fun bare => absurd bare notBare

/-- The fields a bare name leaves open. -/
private theorem clear_bare (bare : Bare (nameOf spec)) :
    Clear w spec gateway ↔
      (∀ stem, ds4_stem w (nameOf spec) = some stem →
        Answered w (Ds4.url w.environ) stem (text_engine w.environ)) ∧
      (ds4_stem w (nameOf spec) = none → ∀ stem, router_stem w (nameOf spec) = some stem →
        Answered w (router_url w.environ) stem (text_engine w.environ)) ∧
      (ds4_stem w (nameOf spec) = none → router_stem w (nameOf spec) = none →
        ∀ entry, knownEntry w (nameOf spec) = some entry →
          ∀ engine, engineAt w.environ (trimmed entry.api_base) = some (.ok engine) →
            Answered w (sentTo w (nameOf spec) gateway) (nameOf spec) engine) ∧
      (ds4_stem w (nameOf spec) = none → router_stem w (nameOf spec) = none →
        knownEntry w (nameOf spec) = none →
          Answered w (sentTo w (nameOf spec) gateway) (nameOf spec) (text_engine w.environ)) where
  mp clear := ⟨clear.ds4Repo bare, clear.ggufRepo bare, clear.knownAlias bare, clear.otherName bare⟩
  mpr open_ := by
    constructor
    case ds4 => exact fun other => Bool.noConfusion (bare.1.symm.trans other)
    case llamacpp => exact fun other => Bool.noConfusion (bare.2.1.symm.trans other)
    case vllm => exact fun other => Bool.noConfusion (bare.2.2.symm.trans other)
    case ds4Repo => exact fun _ => open_.1
    case ggufRepo => exact fun _ => open_.2.1
    case knownAlias => exact fun _ => open_.2.2.1
    case otherName => exact fun _ => open_.2.2.2

end

/-- A spec that names its server is always named right, when no server has taken the
    gateway's port. -/
theorem clear_of_prefixed {w : Setting} {spec gateway : String} (prefixed : ¬ Bare (nameOf spec))
    (ds4Apart : Ds4.url w.environ ≠ DEFAULT_GATEWAY)
    (routerApart : router_url w.environ ≠ DEFAULT_GATEWAY)
    (vllmApart : vllm_url w.environ ≠ DEFAULT_GATEWAY) : Clear w spec gateway := by
  constructor
  case ds4 => exact fun _ => answered_at (trimmed_ds4 w.environ) ds4Apart (Stands.ds4 rfl)
  case llamacpp =>
    exact fun _ => answered_at (trimmed_router w.environ) routerApart (Stands.llamacpp (.inr rfl))
  case vllm =>
    exact fun _ engine known =>
      answered_at (trimmed_vllm w.environ) vllmApart (Stands.vllm rfl known)
  all_goals exact fun bare => absurd bare prefixed

/-! ## A repo that holds one GGUF file -/

/-- One alias on mlx_lm.server, and one repo whose GGUF file is fetched. -/
def withGguf : Setting where
  environ := ∅
  config := [⟨"q3-4b", "http://127.0.0.1:8081/v1", "openai/mlx-community/Qwen3-4B-Instruct-2507-4bit"⟩]
  fetched := fun repo => if repo = "org/Model-GGUF" then some "model-q4_k_m" else none
  hub_stem := fun _ => none
  refusal := fun _ => ""

end LocalHarness.Serving
