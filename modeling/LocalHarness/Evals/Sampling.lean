import LocalHarness.Engines.Options
import LocalHarness.Evals.Receipt
import LocalHarness.Serving.Named

/-! # The sampling a run records and the sampling it asks with

`effective_sampling` reads the specs of a run's text candidates into one table; the
completion client fills in the defaults of each request by itself.
-/

namespace LocalHarness.Evals

open LocalHarness.Library LocalHarness.Serving

/-- A value read from an option: a number where `float` takes it, else the text. -/
inductive Value where
  | number (n : Decimal.Number)
  | text (s : String)
  deriving DecidableEq

namespace Value

/-- `==`: a NaN is the same as nothing. -/
def same : Value → Value → Bool
  | number .nan, _ => false
  | a, b => a = b

theorem eq_of_same {a b : Value} (eq : same a b = true) : a = b := by
  unfold same at eq
  split at eq
  next => cases eq
  next => exact of_decide_eq_true eq

def read (text_ : String) : Value :=
  match Decimal.number text_ with
  | some n => number n
  | none => text text_

end Value

/-! ## Candidates -/

/-- What the head of a candidate makes of it. -/
inductive Kind where
  | process
  | tts
  | stt
  | method (m : Methods.Method)
  | omnisvg
  | repair
  | claudeCode
  | chain
  | llamacpp
  | vllm
  | ds4
  | needle
  | gateway
  deriving DecidableEq

def CHAIN_STAGES : List String := ["upscale-seedvr2", "upscale-controlnet", "controlnet"]

def kind_of (candidate : String) : Kind :=
  let head := Text.strip (Text.partition (Text.partition candidate ':').1 ',').1
  if head ∈ Engines.engine_names then .process
  else if head = "tts" then .tts
  else if head = "stt" then .stt
  else match Methods.named head with
    | some m => .method m
    | none =>
        if head = "omnisvg" then .omnisvg
        else if head = "repair" then .repair
        else if head = "claude-code" then .claudeCode
        else if head ∈ CHAIN_STAGES then .chain
        else if head = "llamacpp" then .llamacpp
        else if head = "vllm" then .vllm
        else if head = "ds4" then .ds4
        else if head = "needle" then .needle
        else .gateway

/-- Kinds a text server answers. -/
def TEXT_KINDS : List Kind := [.gateway, .llamacpp, .vllm, .ds4]

/-- A text server answers it: a text spec, or a method over one. -/
def text_candidate (candidate : String) : Bool :=
  decide (kind_of candidate ∈ TEXT_KINDS) ||
    (Methods.base_of candidate != "" && decide (kind_of (Methods.base_of candidate) ∈ TEXT_KINDS))

/-! ## What is sent -/

/-- `completion.SAMPLING` -/
def SAMPLING : Dict Sampling :=
  .ofItems
    [("svg", .ofItems [("temperature", .finite (2 / 5)), ("repetition_penalty", .finite (11 / 10))]),
      ("web", .ofItems [("temperature", .finite (2 / 5)), ("repetition_penalty", .finite (11 / 10))]),
      ("decide", .ofItems [("temperature", .finite 0)]),
      ("claims", .ofItems [("temperature", .finite 0)])]

def DEFAULT_TEMPERATURE : Decimal.Number := .finite (1 / 5)

/-- The sampling of a `complete_full` request, which is given no `temperature` of its own. -/
def completeKnobs (modality : String) (sampling : Sampling) : Sampling :=
  ((SAMPLING.lookup modality).getD ∅ |>.update sampling).setdefault "temperature" DEFAULT_TEMPERATURE

/-- The sampling of a `chat` request. -/
def chatKnobs (sampling : Sampling) : Sampling :=
  Dict.update (.ofItems [("temperature", DEFAULT_TEMPERATURE)]) sampling

/-- The sampling of a plan's first request, which is asked outside the lane. -/
def planKnobs (modality : String) (sampling : Sampling) : Sampling :=
  completeKnobs "" (((SAMPLING.lookup modality).getD ∅).update sampling)

/-- The sampling each request of a runner in this lane is sent with. -/
def asked (lane : String) (sampling : Sampling) : Sampling :=
  if lane ∈ AGENT_MODALITIES then chatKnobs sampling else completeKnobs lane sampling

/-- The sampling a runner is built to ask with; a text candidate it cannot be built for
    ends the run. -/
def buildRunner (w : Setting) (gateway lane candidate : String) : Except String Sampling :=
  if kind_of candidate ∈ TEXT_KINDS then do return (← route w candidate gateway).sampling
  else match kind_of candidate, Methods.parse candidate with
    | .method m, .ok (some got) =>
        if lane ∈ AGENT_MODALITIES then
          .error (candidate ++ " cannot drive a tool loop; the agent lane takes a text candidate " ++
            "or claude-code:<model>")
        else if m.modality ≠ "" then
          .error (Engines.unknown_engine (Text.strip
            (Text.partition (Text.partition got.base ',').1 ':').1))
        else do return (← route w got.base gateway).sampling
    | _, .error why => .error why
    | _, _ => .error (candidate ++ " is not a text candidate")

/-- The lanes whose cases a text candidate may sit in a run of `modality`. -/
def lanesOf (modality : String) : List String :=
  if modality = "all" then TEXT_MODALITIES
  else if modality ∈ TEXT_MODALITIES ∨ modality ∈ AGENT_MODALITIES then [modality]
  else []

/-- A method sits the cases of its own lanes. -/
def sits (lane candidate : String) : Bool :=
  match kind_of candidate with
  | .method m => m.lanes.contains lane
  | _ => true

/-! ## What is recorded -/

/-- Why a run is refused once it has run. -/
inductive Refusal where
  | option (why : String)
  | disagree (key : String) (spread : List (Value × List String))
  deriving DecidableEq

/-- The values seen of each key, with who states them, and the table so far. -/
structure Notes where
  seen : Dict (List (Value × List String))
  out : Dict (Dict Value)

/-- `setdefault(value, []).append(candidate)` -/
def addTo (value : Value) (candidate : String) :
    List (Value × List String) → List (Value × List String)
  | [] => [(value, [candidate])]
  | group :: rest =>
      if Value.same value group.1 then (group.1, group.2 ++ [candidate]) :: rest
      else group :: addTo value candidate rest

def note (modality candidate : String) (options : Dict String) (notes : Notes) (key : String) : Notes :=
  match options.lookup key with
  | none => notes
  | some text =>
      -- The server's launch is on the receipt by itself.
      if kind_of candidate = .ds4 ∧ key ∈ Ds4.OPTIONS then notes
      else
        { seen := notes.seen.insert key
            (addTo (Value.read text) candidate ((notes.seen.lookup key).getD []))
          out := notes.out.insert modality
            (((notes.out.lookup modality).getD ∅).insert key (Value.read text)) }

def noteCandidate (modality : String) (notes : Notes) (candidate : String) : Except Refusal Notes :=
  if !text_candidate candidate then .ok notes
  else match Engines.parse_options (Text.partition candidate ',').2 candidate with
    | .error why => .error (.option why)
    | .ok options =>
        .ok ((Dict.sortedKeys options.keys).foldl (note modality candidate options) notes)

/-- The shipped table, with the default temperature of the lane that runs. -/
def shipped (modality : String) : Dict (Dict Value) :=
  let out := SAMPLING.mapValues fun sampling => sampling.mapValues Value.number
  if modality ≠ "" ∧ modality ≠ "all" then
    out.insert modality (((out.lookup modality).getD ∅).setdefault "temperature"
      (.number DEFAULT_TEMPERATURE))
  else out

/-- What this run asked for, per modality; two values of one key are two exams. -/
def effective_sampling (modality : String) (candidates : List String) :
    Except Refusal (Dict (Dict Value)) := do
  let notes ← candidates.foldlM (noteCandidate modality) ⟨∅, shipped modality⟩
  match (Dict.sortedKeys notes.seen.keys).findSome? fun key =>
      (notes.seen.lookup key).bind fun spread =>
        if 1 < spread.length then some (Refusal.disagree key spread) else none with
  | some refusal => .error refusal
  | none => return notes.out

/-! ## What a candidate is asked with, its spec states -/

/-- Every sampling key a server was handed stands among the options, with that number. -/
def Reads (sampling : Sampling) (options : Dict String) : Prop :=
  ∀ key n, sampling.lookup key = some n →
    key ∈ SAMPLING_KEYS ∧ ∃ text, options.lookup key = some text ∧ Decimal.number text = some n

/-- What a server makes of one option: a number under a sampling key, or no sampling. -/
def Enters (part : String) (sampling sampling' : Sampling) : Prop :=
  ∀ key value, Text.keyValue part = some (key, value) →
    (key ∈ SAMPLING_KEYS ∧ ∃ n, Decimal.number value = some n ∧ sampling' = sampling.insert key n) ∨
      (key ∉ SAMPLING_KEYS ∧ sampling' = sampling)

theorem enters_sampling {spec part : String} {out out' : Sampling}
    (read : readSampling spec out part = .ok out') : Enters part out out' := by
  intro key value found
  rw [readSampling, found] at read
  simp only at read
  split at read
  next => cases read
  next known =>
    split at read
    next n number =>
      cases read
      exact .inl ⟨not_not.mp known, n, number, rfl⟩
    next => cases read

theorem enters_ds4 {spec part : String} {read read' : Dict String × Sampling}
    (step : Ds4.readOption spec read part = .ok read') : Enters part read.2 read'.2 := by
  intro key value found
  simp only [Ds4.readOption, found] at step
  split at step
  next known =>
    split at step
    next n number =>
      cases step
      exact .inl ⟨known, n, number, rfl⟩
    next => cases step
  next unknown =>
    split at step <;> cases step
    exact .inr ⟨unknown, rfl⟩

theorem number_strip (text : String) : Decimal.number (Text.strip text) = Decimal.number text := by
  rw [Decimal.number, Text.strip_strip, Decimal.number]

theorem Reads.option {spec part : String} {sampling sampling' : Sampling}
    {options options' : Dict String} (reads : Reads sampling options)
    (enters : Enters part sampling sampling')
    (option : Engines.readOption spec options part = .ok options') : Reads sampling' options' := by
  rw [Engines.readOption] at option
  cases found : Text.keyValue part with
  | none =>
      rw [found] at option
      cases option
  | some pair =>
      obtain ⟨key, value⟩ := pair
      rw [found] at option
      obtain rfl := (Except.ok.inj option).symm
      intro other n asks
      by_cases same : other = key
      · subst same
        obtain ⟨known, m, number, rfl⟩ | ⟨unknown, rfl⟩ := enters other value found
        · rw [Finmap.lookup_insert] at asks
          refine ⟨known, Text.strip value, Finmap.lookup_insert _, ?_⟩
          rw [number_strip, number, asks]
        · exact absurd (reads other n asks).1 unknown
      · rw [Finmap.lookup_insert_of_ne _ same]
        obtain ⟨-, m, -, rfl⟩ | ⟨-, rfl⟩ := enters key value found
        · rw [Finmap.lookup_insert_of_ne _ same] at asks
          exact reads other n asks
        · exact reads other n asks

/-- The two readers go through one tail side by side. -/
theorem Reads.fold {σ : Type} {read : σ → String → Except String σ} (samplingOf : σ → Sampling)
    (enters : ∀ s s' part, read s part = .ok s' → Enters part (samplingOf s) (samplingOf s'))
    {spec : String} {parts : List String} {s s' : σ} {options options' : Dict String}
    (reads : Reads (samplingOf s) options) (served : parts.foldlM read s = .ok s')
    (optioned : parts.foldlM (Engines.readOption spec) options = .ok options') :
    Reads (samplingOf s') options' := by
  induction parts generalizing s options with
  | nil =>
      cases served
      cases optioned
      exact reads
  | cons part rest ih =>
      obtain ⟨next, here, served⟩ := foldlM_cons_ok.mp served
      obtain ⟨later, option, optioned⟩ := foldlM_cons_ok.mp optioned
      exact ih (reads.option (enters s next part here) option) served optioned

theorem reads_nothing (options : Dict String) : Reads ∅ options := by
  intro key n asks
  rw [Finmap.lookup_empty] at asks
  cases asks

theorem routeName_sampling {w : Setting} {name gateway : String} {sampling : Sampling} {where_ : Route}
    (accepted : routeName w name gateway sampling = .ok where_) : where_.sampling = sampling := by
  unfold routeName at accepted
  split at accepted
  next => exact congrArg Route.sampling (pure_ok accepted)
  next =>
    split at accepted
    next =>
      obtain ⟨stem, _, made⟩ := bind_ok accepted
      exact congrArg Route.sampling (pure_ok made)
    next =>
      split at accepted
      next => exact congrArg Route.sampling (pure_ok accepted)
      next => split at accepted <;> exact congrArg Route.sampling (pure_ok accepted)

/-- The sampling of a route is read from the tail of its spec, by one reader or the other. -/
theorem route_sampling {w : Setting} {spec gateway : String} {where_ : Route}
    (accepted : route w spec gateway = .ok where_) :
    (∃ read, (Text.chunks (Text.partition spec ',').2).foldlM (Ds4.readOption spec) (∅, ∅) = .ok read ∧
        where_.sampling = read.2) ∨
      (Text.chunks (Text.partition spec ',').2).foldlM (readSampling spec) ∅ = .ok where_.sampling := by
  unfold route at accepted
  extract_lets name at accepted
  by_cases ds4 : Text.starts name Ds4.PREFIX = true
  · rw [if_pos ds4] at accepted
    obtain ⟨got, parsed, made⟩ := bind_ok accepted
    obtain ⟨read, folded, _, sampling⟩ := Ds4.parse_ok parsed
    exact .inl ⟨read, folded, (congrArg Route.sampling (pure_ok made)).trans sampling⟩
  · rw [if_neg ds4] at accepted
    obtain ⟨sampling, read, accepted⟩ := bind_ok accepted
    have same : where_.sampling = sampling := by
      split at accepted
      next => cases accepted
      next =>
        split at accepted
        next =>
          obtain ⟨stem, _, made⟩ := bind_ok accepted
          exact congrArg Route.sampling (pure_ok made)
        next =>
          split at accepted
          next =>
            split at accepted
            next => cases accepted
            next => exact congrArg Route.sampling (pure_ok accepted)
          next => exact routeName_sampling accepted
    rw [same]
    exact .inr read

/-- The value a candidate states for a key, as a run notes it. -/
def states (candidate key : String) : Option Value :=
  if !text_candidate candidate then none
  else match Engines.parse_options (Text.partition candidate ',').2 candidate with
    | .error _ => none
    | .ok options =>
        if kind_of candidate = .ds4 ∧ key ∈ Ds4.OPTIONS then none
        else (options.lookup key).map Value.read

/-- The tail of a text candidate is one of options. -/
def Readable (candidate : String) : Prop :=
  text_candidate candidate = true →
    ∃ options, Engines.parse_options (Text.partition candidate ',').2 candidate = .ok options

theorem states_of_reads {candidate key : String} {options : Dict String} {sampling : Sampling}
    {n : Decimal.Number} (text : text_candidate candidate = true)
    (read : Engines.parse_options (Text.partition candidate ',').2 candidate = .ok options)
    (reads : Reads sampling options) (asks : sampling.lookup key = some n) :
    states candidate key = some (.number n) := by
  obtain ⟨known, value, stated, number⟩ := reads key n asks
  have noLaunch : ¬ (kind_of candidate = .ds4 ∧ key ∈ Ds4.OPTIONS) := by
    rintro ⟨-, launch⟩
    revert known launch
    simp only [SAMPLING_KEYS, Ds4.OPTIONS, List.mem_cons, List.not_mem_nil, or_false]
    rintro (rfl | rfl | rfl) <;> decide
  rw [states, text, read]
  simp [noLaunch, stated, Value.read, number]

/-- Whatever a runner is built to ask with, over the defaults of its lane, the candidate
    states. -/
theorem states_of_built {w : Setting} {gateway lane candidate key : String} {sampling : Sampling}
    {n : Decimal.Number} (text : text_candidate candidate = true) (readable : Readable candidate)
    (built : buildRunner w gateway lane candidate = .ok sampling)
    (asks : sampling.lookup key = some n) : states candidate key = some (.number n) := by
  obtain ⟨options, read⟩ := readable text
  refine states_of_reads text read ?_ asks
  -- The spec that is routed is the candidate or its base, whose tail ends the candidate's.
  obtain ⟨spec, where_, suffix, accepted, rfl⟩ : ∃ spec where_,
      Text.chunks (Text.partition spec ',').2 <:+ Text.chunks (Text.partition candidate ',').2 ∧
        route w spec gateway = .ok where_ ∧ where_.sampling = sampling := by
    unfold buildRunner at built
    by_cases direct : kind_of candidate ∈ TEXT_KINDS
    · rw [if_pos direct] at built
      obtain ⟨where_, accepted, made⟩ := bind_ok built
      exact ⟨candidate, where_, List.suffix_refl _, accepted, (pure_ok made).symm⟩
    · rw [if_neg direct] at built
      split at built
      next got _ parsed =>
        split at built
        next => cases built
        next =>
          split at built
          next => cases built
          next =>
            obtain ⟨where_, accepted, made⟩ := bind_ok built
            exact ⟨got.base, where_, Methods.chunks_base parsed, accepted, (pure_ok made).symm⟩
      next => cases built
      next => cases built
  obtain ⟨front, whole⟩ := suffix
  rw [Engines.parse_options, ← whole] at read
  obtain ⟨before, _, optioned⟩ := foldlM_append_ok.mp read
  obtain ⟨served, folded, same⟩ | folded := route_sampling accepted
  · rw [same]
    exact Reads.fold Prod.snd (fun _ _ _ => enters_ds4) (reads_nothing before) folded optioned
  · exact Reads.fold id (fun _ _ _ => enters_sampling) (reads_nothing before) folded
      optioned

/-! ## What a run notes -/

namespace Notes

def spread (notes : Notes) (key : String) : List (Value × List String) :=
  (notes.seen.lookup key).getD []

def at_ (notes : Notes) (lane key : String) : Option Value :=
  (notes.out.lookup lane).bind (·.lookup key)

end Notes

def addStated (candidate : String) (spread : List (Value × List String)) :
    Option Value → List (Value × List String)
  | none => spread
  | some value => addTo value candidate spread

/-- What noting one candidate does, key by key; no lane but the run's is touched. -/
structure Noted (modality candidate : String) (notes notes' : Notes) : Prop where
  spread : ∀ key, notes'.spread key = addStated candidate (notes.spread key) (states candidate key)
  recorded : ∀ key, notes'.at_ modality key = (states candidate key).or (notes.at_ modality key)
  others : ∀ lane, lane ≠ modality → notes'.out.lookup lane = notes.out.lookup lane
  kept : ∀ lane, (notes.out.lookup lane).isSome → (notes'.out.lookup lane).isSome

/-- The notes with the value a candidate states for a key, if it states one. -/
def Notes.take (notes : Notes) (modality candidate key : String) : Option Value → Notes
  | none => notes
  | some value =>
      { seen := notes.seen.insert key (addTo value candidate (notes.spread key))
        out := notes.out.insert modality
          (((notes.out.lookup modality).getD ∅).insert key value) }

section

variable (notes : Notes) (modality candidate key : String) (stated : Option Value)

theorem spread_take : (notes.take modality candidate key stated).spread key =
    addStated candidate (notes.spread key) stated := by
  cases stated with
  | none => rfl
  | some value => simp [Notes.take, Notes.spread, addStated]

theorem spread_take_other {other : String} (apart : other ≠ key) :
    (notes.take modality candidate key stated).spread other = notes.spread other := by
  cases stated with
  | none => rfl
  | some value => simp [Notes.take, Notes.spread, Finmap.lookup_insert_of_ne _ apart]

theorem at_take : (notes.take modality candidate key stated).at_ modality key =
    stated.or (notes.at_ modality key) := by
  cases stated with
  | none => rfl
  | some value => simp [Notes.take, Notes.at_]

theorem at_take_other {other : String} (apart : other ≠ key) :
    (notes.take modality candidate key stated).at_ modality other = notes.at_ modality other := by
  cases stated with
  | none => rfl
  | some value =>
      cases lane : notes.out.lookup modality with
      | none => simp [Notes.take, Notes.at_, lane, Finmap.lookup_insert_of_ne _ apart]
      | some table => simp [Notes.take, Notes.at_, lane, Finmap.lookup_insert_of_ne _ apart]

theorem out_take {lane : String} (apart : lane ≠ modality) :
    (notes.take modality candidate key stated).out.lookup lane = notes.out.lookup lane := by
  cases stated with
  | none => rfl
  | some value => exact Finmap.lookup_insert_of_ne _ apart

theorem kept_take {lane : String} (some_ : (notes.out.lookup lane).isSome) :
    ((notes.take modality candidate key stated).out.lookup lane).isSome := by
  by_cases same : lane = modality
  · subst same
    cases stated with
    | none => exact some_
    | some value => simp [Notes.take]
  · rwa [out_take notes modality candidate key stated same]

end

section

variable {modality candidate : String} {options : Dict String}
  (text : text_candidate candidate = true)
  (read : Engines.parse_options (Text.partition candidate ',').2 candidate = .ok options)

include text read

theorem note_eq (notes : Notes) (key : String) :
    note modality candidate options notes key =
      notes.take modality candidate key (states candidate key) := by
  simp only [states, text, read, Bool.not_true, Bool.false_eq_true, if_false]
  rw [note]
  by_cases launch : kind_of candidate = .ds4 ∧ key ∈ Ds4.OPTIONS
  · rw [if_pos launch]
    cases options.lookup key with
    | none => rfl
    | some value => exact if_pos launch
  · rw [if_neg launch]
    cases options.lookup key with
    | none => rfl
    | some value => exact if_neg launch

private theorem pass_outside {keys : List String} {key : String} (absent : key ∉ keys) (notes : Notes) :
    (keys.foldl (note modality candidate options) notes).spread key = notes.spread key ∧
      (keys.foldl (note modality candidate options) notes).at_ modality key =
        notes.at_ modality key := by
  induction keys generalizing notes with
  | nil => exact ⟨rfl, rfl⟩
  | cons head rest ih =>
      obtain ⟨apart, absent⟩ := not_or.mp (mt List.mem_cons.mpr absent)
      obtain ⟨spread, recorded⟩ := ih absent (note modality candidate options notes head)
      rw [List.foldl_cons, spread, recorded, note_eq text read]
      exact ⟨spread_take_other notes modality candidate head _ apart,
        at_take_other notes modality candidate head _ apart⟩

private theorem pass_inside {keys : List String} {key : String} (distinct : keys.Nodup)
    (member : key ∈ keys) (notes : Notes) :
    (keys.foldl (note modality candidate options) notes).spread key =
        addStated candidate (notes.spread key) (states candidate key) ∧
      (keys.foldl (note modality candidate options) notes).at_ modality key =
        (states candidate key).or (notes.at_ modality key) := by
  induction keys generalizing notes with
  | nil => cases member
  | cons head rest ih =>
      obtain ⟨fresh, distinct⟩ := List.nodup_cons.mp distinct
      rw [List.foldl_cons]
      by_cases same : key = head
      · subst same
        obtain ⟨spread, recorded⟩ :=
          pass_outside text read fresh (note modality candidate options notes key)
        rw [spread, recorded, note_eq text read]
        exact ⟨spread_take notes modality candidate key _, at_take notes modality candidate key _⟩
      · obtain ⟨spread, recorded⟩ := ih distinct ((List.mem_cons.mp member).resolve_left same)
          (note modality candidate options notes head)
        rw [spread, recorded, note_eq text read,
          spread_take_other notes modality candidate head _ same,
          at_take_other notes modality candidate head _ same]
        exact ⟨rfl, rfl⟩

private theorem pass_lanes (keys : List String) (notes : Notes) :
    (∀ lane, lane ≠ modality →
        (keys.foldl (note modality candidate options) notes).out.lookup lane = notes.out.lookup lane) ∧
      ∀ lane, (notes.out.lookup lane).isSome →
        ((keys.foldl (note modality candidate options) notes).out.lookup lane).isSome := by
  induction keys generalizing notes with
  | nil => exact ⟨fun _ _ => rfl, fun _ some_ => some_⟩
  | cons head rest ih =>
      obtain ⟨others, kept⟩ := ih (note modality candidate options notes head)
      rw [note_eq text read] at others kept
      rw [List.foldl_cons, note_eq text read]
      exact ⟨fun lane apart => (others lane apart).trans (out_take notes modality candidate head _ apart),
        fun lane some_ => kept lane (kept_take notes modality candidate head _ some_)⟩

/-- One pass over the options notes each of them once. -/
theorem pass_noted (notes : Notes) :
    Noted modality candidate notes
      ((Dict.sortedKeys options.keys).foldl (note modality candidate options) notes) := by
  have distinct := Dict.nodup_sortedKeys options.keys
  have unstated : ∀ key, key ∉ Dict.sortedKeys options.keys → states candidate key = none := by
    intro key absent
    have missing : options.lookup key = none := by
      rw [Finmap.lookup_eq_none, ← Finmap.mem_keys, ← Dict.mem_sortedKeys]
      exact absent
    simp [states, text, read, missing]
  obtain ⟨others, kept⟩ := @pass_lanes modality candidate options text read
    (Dict.sortedKeys options.keys) notes
  refine ⟨fun key => ?_, fun key => ?_, others, kept⟩
  · by_cases member : key ∈ Dict.sortedKeys options.keys
    · exact (pass_inside text read distinct member notes).1
    · rw [(pass_outside text read member notes).1, unstated key member, addStated]
  · by_cases member : key ∈ Dict.sortedKeys options.keys
    · exact (pass_inside text read distinct member notes).2
    · rw [(pass_outside text read member notes).2, unstated key member, Option.none_or]

end

theorem noteCandidate_ok {modality candidate : String} {notes notes' : Notes}
    (ok : noteCandidate modality notes candidate = .ok notes') :
    Readable candidate ∧ Noted modality candidate notes notes' := by
  unfold noteCandidate at ok
  cases text : text_candidate candidate with
  | false =>
      rw [text] at ok
      obtain rfl := (Except.ok.inj ok).symm
      have unstated : ∀ key, states candidate key = none := fun key => by simp [states, text]
      refine ⟨fun given => Bool.noConfusion (text.symm.trans given), ⟨?_, ?_, fun _ _ => rfl, fun _ some_ => some_⟩⟩
      · intro key
        rw [unstated key, addStated]
      · intro key
        rw [unstated key, Option.none_or]
  | true =>
      rw [text] at ok
      cases read : Engines.parse_options (Text.partition candidate ',').2 candidate with
      | error why =>
          rw [read] at ok
          cases ok
      | ok options =>
          rw [read] at ok
          obtain rfl := (Except.ok.inj ok).symm
          exact ⟨fun _ => ⟨options, read⟩, pass_noted text read notes⟩

theorem noteCandidate_of_readable {candidate : String} (readable : Readable candidate)
    (modality : String) (notes : Notes) :
    ∃ notes', noteCandidate modality notes candidate = .ok notes' := by
  unfold noteCandidate
  cases text : text_candidate candidate with
  | false => exact ⟨notes, rfl⟩
  | true =>
      obtain ⟨options, read⟩ := readable text
      rw [read]
      exact ⟨_, rfl⟩

/-! ## What a run records -/

/-- The groups of equal values that a list of candidates states for a key. -/
def gather (key : String) (candidates : List String) (spread : List (Value × List String)) :
    List (Value × List String) :=
  candidates.foldl (fun spread candidate => addStated candidate spread (states candidate key)) spread

/-- The value stated last, or what stood before. -/
def lastStated (key : String) (candidates : List String) (before : Option Value) : Option Value :=
  candidates.foldl (fun last candidate => (states candidate key).or last) before

theorem gather_cons (key candidate : String) (rest : List String)
    (spread : List (Value × List String)) :
    gather key (candidate :: rest) spread =
      gather key rest (addStated candidate spread (states candidate key)) :=
  List.foldl_cons

theorem lastStated_cons (key candidate : String) (rest : List String) (before : Option Value) :
    lastStated key (candidate :: rest) before =
      lastStated key rest ((states candidate key).or before) :=
  List.foldl_cons

theorem noted_run {modality : String} {candidates : List String} {notes notes' : Notes}
    (ok : candidates.foldlM (noteCandidate modality) notes = .ok notes') :
    (∀ candidate ∈ candidates, Readable candidate) ∧
      (∀ key, notes'.spread key = gather key candidates (notes.spread key)) ∧
      (∀ key, notes'.at_ modality key = lastStated key candidates (notes.at_ modality key)) ∧
      (∀ lane, lane ≠ modality → notes'.out.lookup lane = notes.out.lookup lane) ∧
      ∀ lane, (notes.out.lookup lane).isSome → (notes'.out.lookup lane).isSome := by
  induction candidates generalizing notes with
  | nil =>
      cases ok
      exact ⟨nofun, fun _ => rfl, fun _ => rfl, fun _ _ => rfl, fun _ some_ => some_⟩
  | cons candidate rest ih =>
      obtain ⟨next, here, later⟩ := foldlM_cons_ok.mp ok
      obtain ⟨readable, noted⟩ := noteCandidate_ok here
      obtain ⟨readables, spread, recorded, others, kept⟩ := ih later
      refine ⟨List.forall_mem_cons.mpr ⟨readable, readables⟩, fun key => ?_, fun key => ?_,
        fun lane apart => (others lane apart).trans (noted.others lane apart),
        fun lane some_ => kept lane (noted.kept lane some_)⟩
      · rw [spread, noted.spread, gather_cons]
      · rw [recorded, noted.recorded, lastStated_cons]

theorem noted_run_of_readable {candidates : List String}
    (readable : ∀ candidate ∈ candidates, Readable candidate) (modality : String) (notes : Notes) :
    ∃ notes', candidates.foldlM (noteCandidate modality) notes = .ok notes' := by
  induction candidates generalizing notes with
  | nil => exact ⟨notes, rfl⟩
  | cons candidate rest ih =>
      obtain ⟨first, others⟩ := List.forall_mem_cons.mp readable
      obtain ⟨next, here⟩ := noteCandidate_of_readable first modality notes
      obtain ⟨notes', later⟩ := ih others next
      exact ⟨notes', foldlM_cons_ok.mpr ⟨next, here, later⟩⟩

theorem length_addTo (value : Value) (candidate : String) (spread : List (Value × List String)) :
    spread.length ≤ (addTo value candidate spread).length := by
  induction spread with
  | nil => exact Nat.zero_le _
  | cons group rest ih =>
      rw [addTo]
      split
      next => exact Nat.le_refl _
      next => exact Nat.succ_le_succ ih

theorem length_addStated (candidate : String) (spread : List (Value × List String))
    (stated : Option Value) : spread.length ≤ (addStated candidate spread stated).length := by
  cases stated with
  | none => exact Nat.le_refl _
  | some value => exact length_addTo value candidate spread

theorem length_gather (key : String) (candidates : List String)
    (spread : List (Value × List String)) : spread.length ≤ (gather key candidates spread).length := by
  induction candidates generalizing spread with
  | nil => exact Nat.le_refl _
  | cons candidate rest ih =>
      rw [gather_cons]
      exact Nat.le_trans (length_addStated candidate spread _) (ih _)

theorem gather_one (key : String) (candidates : List String) (value : Value) (who : List String) :
    (gather key candidates [(value, who)]).length ≤ 1 ↔
      ∀ candidate ∈ candidates, ∀ x ∈ states candidate key, Value.same x value = true := by
  induction candidates generalizing who with
  | nil => exact ⟨fun _ => nofun, fun _ => Nat.le_refl _⟩
  | cons candidate rest ih =>
      rw [List.forall_mem_cons, gather_cons]
      cases stated : states candidate key with
      | none =>
          rw [addStated, ih who]
          exact ⟨fun later => ⟨nofun, later⟩, And.right⟩
      | some x =>
          rw [addStated, addTo]
          by_cases same : Value.same x value = true
          · rw [if_pos same, ih]
            exact ⟨fun later => ⟨fun y here => Option.some.inj here ▸ same, later⟩, And.right⟩
          · have long := length_gather key rest [(value, who), (x, [candidate])]
            rw [if_neg same, addTo]
            constructor
            · intro short
              exact absurd (Nat.le_trans long short) (Nat.not_succ_le_self 1)
            · intro each
              exact absurd (each.1 x rfl) same

/-- One group is left of a key exactly when all who state it agree. -/
theorem gather_none (key : String) (candidates : List String) :
    (gather key candidates []).length ≤ 1 ↔
      candidates.Pairwise fun a b =>
        ∀ x ∈ states a key, ∀ y ∈ states b key, Value.same y x = true := by
  induction candidates with
  | nil => exact ⟨fun _ => .nil, fun _ => Nat.zero_le _⟩
  | cons candidate rest ih =>
      rw [List.pairwise_cons, gather_cons]
      cases stated : states candidate key with
      | none =>
          rw [addStated, ih]
          exact ⟨fun later => ⟨fun _ _ => nofun, later⟩, And.right⟩
      | some x =>
          rw [addStated, addTo, gather_one]
          constructor
          · intro each
            refine ⟨fun other member x' here y there => ?_, ?_⟩
            · rw [← Option.some.inj here]
              exact each other member y there
            · refine List.pairwise_of_forall_mem_list fun a insideA b insideB y here z there => ?_
              rw [Value.eq_of_same (each a insideA y here)]
              exact each b insideB z there
          · rintro ⟨first, -⟩ other member y there
            exact first other member x rfl y there

/-- The tails can be read, and no two candidates state two values of one key. -/
structure Consistent (candidates : List String) : Prop where
  readable : ∀ candidate ∈ candidates, Readable candidate
  agree : ∀ key, candidates.Pairwise fun a b =>
    ∀ x ∈ states a key, ∀ y ∈ states b key, Value.same y x = true

theorem Consistent.unique {candidates : List String} (consistent : Consistent candidates)
    {a b key : String} {x y : Value} (insideA : a ∈ candidates) (insideB : b ∈ candidates)
    (statesA : states a key = some x) (statesB : states b key = some y) : x = y := by
  have equal : candidates.Pairwise fun a b => ∀ x ∈ states a key, ∀ y ∈ states b key, x = y :=
    (consistent.agree key).imp fun both x here y there => (Value.eq_of_same (both x here y there)).symm
  have flipped : candidates.Pairwise (flip fun a b =>
      ∀ x ∈ states a key, ∀ y ∈ states b key, x = y) :=
    equal.imp fun both y there x here => (both x here y there).symm
  have self : ∀ a ∈ candidates, ∀ x ∈ states a key, ∀ y ∈ states a key, x = y :=
    fun a _ x here y there => Option.some.inj (here.symm.trans there)
  exact equal.forall_of_forall_of_flip self flipped insideA insideB x statesA y statesB

theorem lastStated_cases (key : String) (candidates : List String) (before : Option Value) :
    ((∀ candidate ∈ candidates, states candidate key = none) ∧
        lastStated key candidates before = before) ∨
      ∃ candidate ∈ candidates, ∃ value, states candidate key = some value ∧
        lastStated key candidates before = some value := by
  induction candidates generalizing before with
  | nil => exact .inl ⟨nofun, rfl⟩
  | cons candidate rest ih =>
      obtain ⟨unstated, last⟩ | ⟨other, member, value, stated, last⟩ :=
        ih ((states candidate key).or before)
      · cases stated : states candidate key with
        | none =>
            rw [stated, Option.none_or] at last
            refine .inl ⟨List.forall_mem_cons.mpr ⟨stated, unstated⟩, ?_⟩
            rw [lastStated_cons, stated, Option.none_or, last]
        | some value =>
            rw [stated, Option.some_or] at last
            refine .inr ⟨candidate, List.mem_cons_self, value, stated, ?_⟩
            rw [lastStated_cons, stated, Option.some_or, last]
      · refine .inr ⟨other, List.mem_cons_of_mem _ member, value, stated, ?_⟩
        rw [lastStated_cons, last]

/-! ## What is asked -/

/-- What a request of a lane is sent with when its spec states no sampling. -/
def defaults (lane : String) : Sampling := asked lane ∅

theorem lookup_asked (lane : String) (sampling : Sampling) (key : String) :
    (asked lane sampling).lookup key = (sampling.lookup key).or ((defaults lane).lookup key) := by
  unfold defaults asked
  split
  next => simp only [chatKnobs, Dict.lookup_update, Finmap.lookup_empty, Option.none_or]
  next =>
    simp only [completeKnobs, Dict.lookup_setdefault, Dict.lookup_update, Finmap.lookup_empty,
      Option.none_or, Option.or_assoc]

/-- The first request of a plan, made outside the lane, is sent with what the lane's are. -/
theorem planKnobs_eq (lane : String) (sampling : Sampling) :
    planKnobs lane sampling = completeKnobs lane sampling := by
  have outside : SAMPLING.lookup "" = none := by decide
  have empty : ∀ knobs : Sampling, Dict.update ∅ knobs = knobs := fun knobs => Finmap.union_empty
  rw [planKnobs, completeKnobs, outside, Option.getD_none, empty, completeKnobs]

theorem shipped_own {lane : String} (known : lane ∈ TEXT_MODALITIES ∨ lane ∈ AGENT_MODALITIES) :
    (shipped lane).lookup lane = some ((defaults lane).mapValues Value.number) := by
  have each : ∀ lane ∈ TEXT_MODALITIES ++ AGENT_MODALITIES,
      (shipped lane).lookup lane = some ((defaults lane).mapValues Value.number) := by decide +kernel
  exact each lane (List.mem_append.mpr known)

theorem shipped_all {lane : String} (known : lane ∈ TEXT_MODALITIES) :
    (shipped "all").lookup lane =
      if lane ∈ SAMPLING then some ((defaults lane).mapValues Value.number) else none := by
  have each : ∀ lane ∈ TEXT_MODALITIES, (shipped "all").lookup lane =
      if lane ∈ SAMPLING then some ((defaults lane).mapValues Value.number) else none := by decide +kernel
  exact each lane known

theorem effective_ok_iff {modality : String} {candidates : List String} {recorded : Dict (Dict Value)} :
    effective_sampling modality candidates = .ok recorded ↔
      ∃ notes, candidates.foldlM (noteCandidate modality) ⟨∅, shipped modality⟩ = .ok notes ∧
        (∀ key, (notes.spread key).length ≤ 1) ∧ recorded = notes.out := by
  have quiet : ∀ notes : Notes, ((Dict.sortedKeys notes.seen.keys).findSome? fun key =>
      (notes.seen.lookup key).bind fun spread =>
        if 1 < spread.length then some (Refusal.disagree key spread) else none) = none ↔
      ∀ key, (notes.spread key).length ≤ 1 := by
    intro notes
    rw [List.findSome?_eq_none_iff]
    constructor
    · intro passes key
      cases held : notes.seen.lookup key with
      | none => simp [Notes.spread, held]
      | some spread =>
          have here := passes key (Dict.mem_sortedKeys.mpr (Dict.mem_keys_of_lookup held))
          simp only [held, Option.bind_some, ite_eq_right_iff, reduceCtorEq, imp_false, not_lt] at here
          simpa [Notes.spread, held] using here
    · intro short key _
      have here := short key
      cases held : notes.seen.lookup key with
      | none => rfl
      | some spread => simpa [Notes.spread, held] using here
  constructor
  · intro ok
    obtain ⟨notes, noted, decided⟩ := bind_ok ok
    refine ⟨notes, noted, (quiet notes).mp ?_, ?_⟩
    · split at decided
      next => cases decided
      next silent => exact silent
    · split at decided
      next => cases decided
      next => exact pure_ok decided
  · rintro ⟨notes, noted, short, rfl⟩
    simp only [effective_sampling, noted, bind, Except.bind]
    rw [(quiet notes).mpr short]
    rfl

theorem spread_start (modality key : String) : Notes.spread ⟨∅, shipped modality⟩ key = [] := by
  simp [Notes.spread]

/-- A run is refused exactly where its specs are not consistent. -/
theorem refused_iff (modality : String) (candidates : List String) :
    (∃ recorded, effective_sampling modality candidates = .ok recorded) ↔ Consistent candidates := by
  constructor
  · rintro ⟨recorded, ok⟩
    obtain ⟨notes, noted, short, _⟩ := Iff.mp effective_ok_iff ok
    obtain ⟨readable, spread, _⟩ := noted_run noted
    refine ⟨readable, fun key => (gather_none key candidates).mp ?_⟩
    rw [← spread_start modality key, ← spread key]
    exact short key
  · intro consistent
    obtain ⟨notes, noted⟩ := noted_run_of_readable consistent.readable modality ⟨∅, shipped modality⟩
    obtain ⟨_, spread, _⟩ := noted_run noted
    refine ⟨notes.out, effective_ok_iff.mpr ⟨notes, noted, fun key => ?_, rfl⟩⟩
    rw [spread key, spread_start]
    exact (gather_none key candidates).mpr (consistent.agree key)

section

variable {modality : String} {candidates : List String} {recorded : Dict (Dict Value)}
  (ok : effective_sampling modality candidates = .ok recorded)

include ok

/-- In its own lane a run records what its candidates state over what is shipped. -/
theorem recorded_own {lane : String} (own : lane = modality) (key : String) :
    (recorded.lookup lane).bind (·.lookup key) =
      lastStated key candidates (((shipped modality).lookup modality).bind (·.lookup key)) := by
  subst own
  obtain ⟨notes, noted, _, rfl⟩ := Iff.mp effective_ok_iff ok
  exact (noted_run noted).2.2.1 key

/-- In any other it records the shipped table. -/
theorem recorded_other {lane : String} (other : lane ≠ modality) :
    recorded.lookup lane = (shipped modality).lookup lane := by
  obtain ⟨notes, noted, _, rfl⟩ := Iff.mp effective_ok_iff ok
  exact (noted_run noted).2.2.2.1 lane other

theorem recorded_kept {lane : String} (some_ : ((shipped modality).lookup lane).isSome) :
    (recorded.lookup lane).isSome := by
  obtain ⟨notes, noted, _, rfl⟩ := Iff.mp effective_ok_iff ok
  exact (noted_run noted).2.2.2.2 lane some_

end

/-- A candidate that answers cases of a lane, with the sampling it is built to ask with. -/
structure Answers (w : Setting) (gateway lane : String) (candidates : List String)
    (candidate : String) (sampling : Sampling) : Prop where
  listed : candidate ∈ candidates
  text : text_candidate candidate = true
  sits : sits lane candidate = true
  built : buildRunner w gateway lane candidate = .ok sampling

/-- What is recorded of a lane is what each text candidate is asked with in it. -/
def AskedAsRecorded (w : Setting) (gateway modality : String) (candidates : List String) : Prop :=
  ∀ recorded, effective_sampling modality candidates = .ok recorded →
    ∀ lane ∈ lanesOf modality, ∀ values, recorded.lookup lane = some values →
      ∀ candidate sampling, Answers w gateway lane candidates candidate sampling →
        (asked lane sampling).mapValues Value.number = values

/-- What one spec states for a key, every candidate is asked with, by its own spec or by
    the default of the lane; over all lanes, a spec states nothing but the defaults. -/
structure AskedAlike (w : Setting) (gateway modality : String) (candidates : List String) : Prop where
  lane : modality ≠ "all" → ∀ lane ∈ lanesOf modality, ∀ candidate sampling,
    Answers w gateway lane candidates candidate sampling →
      ∀ other ∈ candidates, ∀ key value, states other key = some value →
        ((sampling.lookup key).or ((defaults lane).lookup key)).map Value.number = some value
  all : modality = "all" → ∀ lane ∈ lanesOf modality, lane ∈ SAMPLING → ∀ candidate sampling,
    Answers w gateway lane candidates candidate sampling →
      ∀ key n, sampling.lookup key = some n → (defaults lane).lookup key = some n

theorem lanesOf_own {modality lane : String} (single : modality ≠ "all") (member : lane ∈ lanesOf modality) :
    lane = modality ∧ (lane ∈ TEXT_MODALITIES ∨ lane ∈ AGENT_MODALITIES) := by
  rw [lanesOf, if_neg single] at member
  split at member
  next known =>
    obtain rfl := List.mem_singleton.mp member
    exact ⟨rfl, known⟩
  next => cases member

theorem lanesOf_all {lane : String} (member : lane ∈ lanesOf "all") :
    lane ∈ TEXT_MODALITIES ∧ lane ≠ "all" := by
  rw [lanesOf, if_pos rfl] at member
  refine ⟨member, ?_⟩
  rintro rfl
  revert member
  decide

private theorem number_inj {x y : Option Decimal.Number}
    (same : x.map Value.number = y.map Value.number) : x = y :=
  Option.map_injective (fun _ _ equal => Value.number.inj equal) same

/-- A run asks with what it records exactly where it is refused or its candidates are asked alike. -/
theorem asked_as_recorded_iff (w : Setting) (gateway modality : String) (candidates : List String) :
    AskedAsRecorded w gateway modality candidates ↔
      (Consistent candidates → AskedAlike w gateway modality candidates) := by
  constructor
  · intro faithful consistent
    obtain ⟨recorded, ok⟩ := (refused_iff modality candidates).mpr consistent
    constructor
    case lane =>
      intro single lane member candidate sampling answers other inside key value stated
      obtain ⟨own, known⟩ := lanesOf_own single member
      have stands : ((shipped modality).lookup lane).isSome := by
        rw [← own, shipped_own known, Option.isSome_some]
      obtain ⟨values, found⟩ := Option.isSome_iff_exists.mp (recorded_kept ok stands)
      have same := faithful recorded ok lane member values found candidate sampling answers
      have noted := recorded_own ok own key
      rw [found, Option.bind_some, ← same, Dict.lookup_mapValues, lookup_asked] at noted
      obtain ⟨unstated, _⟩ | ⟨third, insideThird, value', stated', last⟩ :=
        lastStated_cases key candidates (((shipped modality).lookup modality).bind (·.lookup key))
      · rw [unstated other inside] at stated
        cases stated
      · rw [noted, last, consistent.unique insideThird inside stated' stated]
    case all =>
      rintro rfl lane member recorded_ candidate sampling answers key n asks
      obtain ⟨known, other⟩ := lanesOf_all member
      have found := recorded_other ok other
      rw [shipped_all known, if_pos recorded_] at found
      have same := faithful recorded ok lane member _ found candidate sampling answers
      have here := congrArg (Finmap.lookup key) same
      rw [Dict.lookup_mapValues, Dict.lookup_mapValues, lookup_asked, asks, Option.some_or] at here
      exact (number_inj here).symm
  · intro alike recorded ok lane member values found candidate sampling answers
    have consistent := (refused_iff modality candidates).mp ⟨recorded, ok⟩
    have alike := alike consistent
    apply Finmap.ext_lookup
    intro key
    rw [Dict.lookup_mapValues, lookup_asked]
    by_cases whole : modality = "all"
    · subst whole
      obtain ⟨known, other⟩ := lanesOf_all member
      rw [recorded_other ok other, shipped_all known] at found
      split at found
      next recorded_ =>
        obtain rfl := (Option.some.inj found).symm
        rw [Dict.lookup_mapValues]
        cases asks : sampling.lookup key with
        | none => rw [Option.none_or]
        | some n => rw [Option.some_or, alike.all rfl lane member recorded_ candidate sampling answers key n asks]
      next => cases found
    · obtain ⟨own, known⟩ := lanesOf_own whole member
      have noted := recorded_own ok own key
      rw [found, Option.bind_some] at noted
      rw [noted]
      obtain ⟨unstated, last⟩ | ⟨other, inside, value, stated, last⟩ :=
        lastStated_cases key candidates (((shipped modality).lookup modality).bind (·.lookup key))
      · rw [last, ← own, shipped_own known, Option.bind_some, Dict.lookup_mapValues]
        cases asks : sampling.lookup key with
        | none => rw [Option.none_or]
        | some n =>
            -- What it is built to ask with it would have stated itself.
            have states_ := states_of_built answers.text (consistent.readable candidate answers.listed)
              answers.built asks
            rw [unstated candidate answers.listed] at states_
            cases states_
      · rw [last]
        exact alike.lane whole lane member candidate sampling answers other inside key value stated

/-! ## A candidate beside a hotter one -/

/-- Two aliases on mlx_lm.server. -/
def twoAliases : Setting where
  environ := ∅
  config := [⟨"local-mid", "http://127.0.0.1:8081/v1", "openai/mid"⟩,
    ⟨"local-large", "http://127.0.0.1:8081/v1", "openai/large"⟩]
  fetched := fun _ => none
  hub_stem := fun _ => none
  refusal := fun _ => ""

/-- One spec sets a temperature and the other does not: the receipt records the first's, and
    the second is asked at the default. -/
theorem cold_misrecorded :
    ¬ AskedAsRecorded twoAliases "" "code" ["local-mid,temperature=0.7", "local-large"] := by
  intro faithful
  have recorded : (effective_sampling "code" ["local-mid,temperature=0.7", "local-large"]).toOption.bind
      (·.lookup "code") = some (.ofItems [("temperature", .number (.finite (7 / 10)))]) := by
    decide +kernel
  obtain ⟨table, ok⟩ : ∃ table,
      effective_sampling "code" ["local-mid,temperature=0.7", "local-large"] = .ok table := by
    cases ran : effective_sampling "code" ["local-mid,temperature=0.7", "local-large"] with
    | error why => rw [ran] at recorded; cases recorded
    | ok table => exact ⟨table, rfl⟩
  rw [ok] at recorded
  have same := faithful table ok "code" (by decide) _ recorded "local-large" ∅
    ⟨by decide, by decide, by decide, by decide⟩
  revert same
  decide +kernel

end LocalHarness.Evals
