import LocalHarness.Library.Dict
import LocalHarness.Library.Lenient
import LocalHarness.Library.Text
import Mathlib.Data.Rat.Defs

/-! # Receipts, and when two runs are one exam

A receipt says what a run was. Some of its fields must be equal for two runs to be
ranked in one table; the provenance that older runs do not carry is compared only
where both runs say it.
-/

namespace LocalHarness.Evals

open LocalHarness.Library

/-- A number or a text, as a setting holds one. -/
inductive Scalar where
  | number (value : ℚ)
  | text (value : String)
  deriving DecidableEq

/-- One eviction of a run's model by the router. -/
structure Swap where
  case : Option String
  at_ : Option String
  resident : List String
  deriving DecidableEq

structure Receipt where
  modality : String
  case_ids : List String
  repeat_ : Int
  sampling : Dict (Dict Scalar)
  adherence : String := ""
  tier : String := "measure"
  accelerator : String := ""
  instruments : Dict String := ∅
  where_ : String := ""
  cases_digest : String := ""
  split : String := ""
  split_version : String := ""
  devices : Dict String := ∅
  launch : Dict String := ∅
  max_tokens : Int := 0
  knobs : Dict Scalar := ∅
  router_swaps : Dict (List Swap) := ∅
  budget_ladder : List Int := []
  deriving DecidableEq

/-- A stored receipt: a field an older run does not have is missing. -/
structure Raw where
  modality : Option String := none
  case_ids : Option (List String) := none
  repeat_ : Option Int := none
  sampling : Option (Dict (Dict Scalar)) := none
  adherence : Option String := none
  tier : Option String := none
  accelerator : Option String := none
  instruments : Option (Dict String) := none
  where_ : Option String := none
  cases_digest : Option String := none
  split : Option String := none
  split_version : Option String := none
  devices : Option (Dict String) := none
  launch : Option (Dict String) := none
  max_tokens : Option Int := none
  knobs : Option (Dict Scalar) := none
  router_swaps : Option (Dict (List Swap)) := none
  budget_ladder : Option (List Int) := none

def TEXT_MODALITIES : List String := ["svg", "web", "code", "extract", "decide", "claims"]

def AGENT_MODALITIES : List String := ["agent"]

def legacy_budget (modality : String) : Int :=
  if modality ∈ AGENT_MODALITIES then 8000 else if modality ∈ TEXT_MODALITIES then 4000 else 0

/-- `x or default`, of a text. -/
def orText (x : Option String) (default : String) : String :=
  match x with
  | some text => if text = "" then default else text
  | none => default

/-- `x or default`, of a number. -/
def orNumber (x : Option Int) (default : Int) : Int :=
  match x with
  | some number => if number = 0 then default else number
  | none => default

/-- A receipt read back; a missing budget is the constant it ran at, and missing
    knobs are the `settings` of the time. A run without a modality is a `KeyError`. -/
def Receipt.from_dict (settings : String → Dict Scalar) (raw : Raw) : Option Receipt :=
  raw.modality.map fun modality =>
    { modality := modality
      case_ids := raw.case_ids.getD []
      repeat_ := orNumber raw.repeat_ 1
      sampling := raw.sampling.getD ∅
      adherence := orText raw.adherence ""
      tier := orText raw.tier "measure"
      accelerator := orText raw.accelerator ""
      instruments := raw.instruments.getD ∅
      where_ := orText raw.where_ ""
      cases_digest := orText raw.cases_digest ""
      split := orText raw.split ""
      split_version := orText raw.split_version ""
      devices := raw.devices.getD ∅
      launch := raw.launch.getD ∅
      max_tokens := raw.max_tokens.getD (legacy_budget modality)
      knobs := raw.knobs.getD (settings modality)
      router_swaps := raw.router_swaps.getD ∅
      budget_ladder := raw.budget_ladder.getD [] }

/-- Why two runs may not share a table. -/
inductive Reason where
  | swapped (key : String) (times : Nat) (first : Swap)
  | tier (a b : String)
  | modality (a b : String)
  | caseSet (a b : Nat)
  | cases (a b : String)
  | split (a b : String × String)
  | repeat_ (a b : Int)
  | ladder (a b : List Int × Int)
  | budget (a b : Int)
  | knobs (a b : Dict Scalar)
  | sampling (a b : Dict (Dict Scalar))
  | adherence (a b : String)
  | accelerator (a b : String)
  | place (a b : String)
  | device (key a b : String)
  | launch (key a b : String)
  | instrument (name a b : String)
  deriving DecidableEq

namespace Reason

def said (ladder : List Int) (max_tokens : Int) : String :=
  orText (some (",".intercalate (ladder.map toString)))
    ("none (one budget, " ++ toString max_tokens ++ ")")

/-- The settings that moved, each with both its values. -/
def moved (str : Option Scalar → String) (a b : Dict Scalar) : List String :=
  ((Dict.sortedKeys (a.keys ∪ b.keys)).filter fun k => a.lookup k ≠ b.lookup k).map fun k =>
    k ++ " " ++ str (a.lookup k) ++ " vs " ++ str (b.lookup k)

/-- The text of a refusal. `str` and `repr` are Python's own, of a setting and of the
    sampling table. -/
def text (str : Option Scalar → String) (repr : Dict (Dict Scalar) → String) : Reason → String
  | swapped key times first =>
      "router swap during the run: " ++ key ++ " lost its model " ++ toString times ++
        " time(s), first at case " ++ first.case.getD "None" ++ " (" ++ first.at_.getD "None" ++
        "), to " ++ orText (some (", ".intercalate first.resident)) "nothing resident" ++
        ". Its timings and timeouts measured a reload"
  | tier a b =>
      "different tier: " ++ a ++ " vs " ++ b ++
        ". A screen asks whether it ran; a measurement asks whether it is better"
  | modality a b => "different modality: " ++ a ++ " vs " ++ b
  | caseSet a b => "different case set: " ++ toString a ++ " vs " ++ toString b ++ " cases"
  | cases a b =>
      "same case ids, different cases: " ++ a ++ " vs " ++ b ++
        ". A prompt, a param or an assertion was edited in place"
  | split a b =>
      "different split: " ++ a.1 ++ " v" ++ a.2 ++ " vs " ++ b.1 ++ " v" ++ b.2
  | repeat_ a b => "different repeat: " ++ toString a ++ " vs " ++ toString b
  | ladder a b =>
      "different budget ladder: " ++ said a.1 a.2 ++ " vs " ++ said b.1 b.2 ++
        ". A retry at a larger budget turns a cut-off reply into an answer"
  | budget a b =>
      "different reply budget: " ++ toString a ++ " vs " ++ toString b ++
        " tokens. A reasoning model cut off at the smaller one fails on the budget, not on the answer"
  | knobs a b =>
      "different knob settings: " ++ "; ".intercalate (moved str a b) ++
        ". A limit the harness chose decides which replies count"
  | sampling a b => "different sampling: " ++ repr a ++ " vs " ++ repr b
  | adherence a b =>
      "different adherence backend: " ++ Text.quoted a ++ " vs " ++ Text.quoted b
  | accelerator a b =>
      "different accelerator: " ++ a ++ " vs " ++ b ++
        ". Two machines, and each lane has its own tool on each"
  | place a b =>
      "different place: " ++ a ++ " vs " ++ b ++
        ". One of these ran the work and the other asked somebody else to"
  | device key a b => "different device for " ++ key ++ ": " ++ a ++ " vs " ++ b
  | launch key a b => "different launch for " ++ key ++ ": " ++ a ++ " vs " ++ b
  | instrument name a b =>
      "different " ++ name ++ ": " ++ a ++ " vs " ++ b ++
        ". The hardware is not the tooling: the same card with a different grader, or a " ++
        "different server, is a different exam"

end Reason

/-- Why a run cannot be ranked at all, of the first model it lost. -/
def contaminated (r : Receipt) : Option Reason :=
  (Dict.sortedKeys r.router_swaps.keys).findSome? fun key =>
    match r.router_swaps.lookup key with
    | some (first :: rest) => some (.swapped key (rest.length + 1) first)
    | _ => none

/-- A check between two values that both runs are held to. -/
def differ {β : Type} [DecidableEq β] (a b : β) (why : Reason) : Option Reason :=
  if a ≠ b then some why else none

/-- A check that an empty text on either side passes. -/
def differStated (a b : String) (why : Reason) : Option Reason :=
  if a ≠ "" ∧ b ≠ "" ∧ a ≠ b then some why else none

/-- A check made key by key, over the keys both runs have. -/
def differShared (a b : Dict String) (check : String → String → String → Option Reason) :
    Option Reason :=
  (Dict.sortedKeys (a.keys ∩ b.keys)).findSome? fun key =>
    match a.lookup key, b.lookup key with
    | some mine, some theirs => check key mine theirs
    | _, _ => none

def differSplit (a b : Receipt) : Option Reason :=
  if a.split ≠ "" ∧ b.split ≠ "" ∧ (a.split, a.split_version) ≠ (b.split, b.split_version) then
    some (.split (a.split, a.split_version) (b.split, b.split_version))
  else none

/-- The checks of two runs, in the order the first that fails is reported. -/
def checks (a b : Receipt) : List (Option Reason) :=
  [contaminated a, contaminated b,
    differ a.tier b.tier (.tier a.tier b.tier),
    differ a.modality b.modality (.modality a.modality b.modality),
    differ a.case_ids b.case_ids (.caseSet a.case_ids.length b.case_ids.length),
    differStated a.cases_digest b.cases_digest (.cases a.cases_digest b.cases_digest),
    differSplit a b,
    differ a.repeat_ b.repeat_ (.repeat_ a.repeat_ b.repeat_),
    differ a.budget_ladder b.budget_ladder
      (.ladder (a.budget_ladder, a.max_tokens) (b.budget_ladder, b.max_tokens)),
    differ a.max_tokens b.max_tokens (.budget a.max_tokens b.max_tokens),
    differ a.knobs b.knobs (.knobs a.knobs b.knobs),
    differ a.sampling b.sampling (.sampling a.sampling b.sampling),
    differ a.adherence b.adherence (.adherence a.adherence b.adherence),
    differStated a.accelerator b.accelerator (.accelerator a.accelerator b.accelerator),
    differStated a.where_ b.where_ (.place a.where_ b.where_),
    differShared a.devices b.devices fun key x y => differ x y (.device key x y),
    differShared a.launch b.launch fun key x y => differ x y (.launch key x y),
    differShared a.instruments b.instruments fun name x y => differStated x y (.instrument name x y)]

/-- May these two runs be ranked in one table? `none` is the same exam. -/
def comparable (a b : Receipt) : Option Reason :=
  (checks a b).findSome? id

/-! ## The strict part and the lenient part -/

/-- A text that is not empty. -/
def stated (text : String) : Option String :=
  if text = "" then none else some text

@[simp] theorem stated_eq_some {text value : String} :
    stated text = some value ↔ text = value ∧ text ≠ "" := by
  unfold stated
  split <;> simp_all

/-- What two runs must agree on outright. -/
structure Exam where
  tier : String
  modality : String
  case_ids : List String
  repeat_ : Int
  budget_ladder : List Int
  max_tokens : Int
  knobs : Dict Scalar
  sampling : Dict (Dict Scalar)
  adherence : String
  deriving DecidableEq

def Receipt.exam (r : Receipt) : Exam where
  tier := r.tier
  modality := r.modality
  case_ids := r.case_ids
  repeat_ := r.repeat_
  budget_ladder := r.budget_ladder
  max_tokens := r.max_tokens
  knobs := r.knobs
  sampling := r.sampling
  adherence := r.adherence

def Receipt.splitStated (r : Receipt) : Option (String × String) :=
  (stated r.split).map fun split => (split, r.split_version)

/-- Neither run lost its model, and both sat one exam. -/
def SameExam (a b : Receipt) : Prop :=
  contaminated a = none ∧ contaminated b = none ∧ a.exam = b.exam

/-- The provenance both runs state is the same. -/
structure SameProvenance (a b : Receipt) : Prop where
  cases_digest : Agree (stated a.cases_digest) (stated b.cases_digest)
  split : Agree a.splitStated b.splitStated
  accelerator : Agree (stated a.accelerator) (stated b.accelerator)
  where_ : Agree (stated a.where_) (stated b.where_)
  devices : ∀ key, Agree (a.devices.lookup key) (b.devices.lookup key)
  launch : ∀ key, Agree (a.launch.lookup key) (b.launch.lookup key)
  instruments : ∀ name,
    Agree ((a.instruments.lookup name).bind stated) ((b.instruments.lookup name).bind stated)

theorem SameExam.symm (a b : Receipt) (same : SameExam a b) : SameExam b a :=
  ⟨same.2.1, same.1, same.2.2.symm⟩

theorem SameExam.trans (a b c : Receipt) (ab : SameExam a b) (bc : SameExam b c) : SameExam a c :=
  ⟨ab.1, bc.2.1, ab.2.2.trans bc.2.2⟩

theorem SameProvenance.symm (a b : Receipt) (same : SameProvenance a b) : SameProvenance b a where
  cases_digest := same.cases_digest.symm
  split := same.split.symm
  accelerator := same.accelerator.symm
  where_ := same.where_.symm
  devices := fun key => (same.devices key).symm
  launch := fun key => (same.launch key).symm
  instruments := fun name => (same.instruments name).symm

@[simp] theorem differ_eq_none {β : Type} [DecidableEq β] {a b : β} {why : Reason} :
    differ a b why = none ↔ a = b := by
  simp [differ]

@[simp] theorem differStated_eq_none {a b : String} {why : Reason} :
    differStated a b why = none ↔ Agree (stated a) (stated b) := by
  unfold differStated stated
  split_ifs <;> simp_all

theorem differSplit_eq_none {a b : Receipt} :
    differSplit a b = none ↔ Agree a.splitStated b.splitStated := by
  unfold differSplit Receipt.splitStated stated
  split_ifs <;> simp_all

theorem differShared_eq_none {a b : Dict String}
    {check : String → String → String → Option Reason} :
    differShared a b check = none ↔
      ∀ key x y, a.lookup key = some x → b.lookup key = some y → check key x y = none := by
  simp only [differShared, List.findSome?_eq_none_iff, Dict.mem_sortedKeys, Finset.mem_inter]
  constructor
  · intro passes key x y mine theirs
    have here := passes key ⟨Dict.mem_keys_of_lookup mine, Dict.mem_keys_of_lookup theirs⟩
    rwa [mine, theirs] at here
  · intro passes key _
    cases mine : a.lookup key with
    | none => rfl
    | some x =>
        cases theirs : b.lookup key with
        | none => rfl
        | some y => exact passes key x y mine theirs

private theorem shared_agree {a b : Dict String} {why : String → String → String → Reason} :
    (differShared a b fun key x y => differ x y (why key x y)) = none ↔
      ∀ key, Agree (a.lookup key) (b.lookup key) := by
  simp only [differShared_eq_none, differ_eq_none]
  exact ⟨fun passes key x mine y theirs => passes key x y mine theirs,
    fun agree key x y mine theirs => agree key x mine y theirs⟩

private theorem shared_stated {a b : Dict String} {why : String → String → String → Reason} :
    (differShared a b fun key x y => differStated x y (why key x y)) = none ↔
      ∀ key, Agree ((a.lookup key).bind stated) ((b.lookup key).bind stated) := by
  simp only [differShared_eq_none, differStated_eq_none]
  constructor
  · intro passes key
    cases mine : a.lookup key with
    | none => simp
    | some x =>
        cases theirs : b.lookup key with
        | none => simp
        | some y => exact passes key x y mine theirs
  · intro agree key x y mine theirs
    simpa only [mine, theirs, Option.bind_some] using agree key

theorem comparable_iff (a b : Receipt) :
    comparable a b = none ↔ SameExam a b ∧ SameProvenance a b := by
  simp only [comparable, checks, List.findSome?_eq_none_iff, List.forall_mem_cons, id_eq,
    List.not_mem_nil, false_implies, implies_true, and_true, differ_eq_none, differStated_eq_none,
    differSplit_eq_none, shared_agree, shared_stated]
  constructor
  · rintro ⟨cleanA, cleanB, tier, modality, ids, digest, split, repeated, ladder, budget, knobs,
      sampling, adherence, accelerator, place, devices, launch, instruments⟩
    refine ⟨⟨cleanA, cleanB, ?_⟩, ⟨digest, split, accelerator, place, devices, launch, instruments⟩⟩
    simp only [Receipt.exam, tier, modality, ids, repeated, ladder, budget, knobs, sampling, adherence]
  · rintro ⟨⟨cleanA, cleanB, exam⟩, same⟩
    simp only [Receipt.exam, Exam.mk.injEq] at exam
    obtain ⟨tier, modality, ids, repeated, ladder, budget, knobs, sampling, adherence⟩ := exam
    exact ⟨cleanA, cleanB, tier, modality, ids, same.cases_digest, same.split, repeated, ladder, budget,
      knobs, sampling, adherence, same.accelerator, same.where_, same.devices, same.launch,
      same.instruments⟩

/-- Two runs are compared the same way from either side, though not for the same reason. -/
theorem comparable_comm (a b : Receipt) : comparable a b = none ↔ comparable b a = none := by
  simp only [comparable_iff]
  exact ⟨fun both => ⟨.symm a b both.1, .symm a b both.2⟩,
    fun both => ⟨.symm b a both.1, .symm b a both.2⟩⟩

/-- Whatever the run, if its model was not lost it is comparable with itself. -/
theorem comparable_self {r : Receipt} (clean : contaminated r = none) : comparable r r = none := by
  have same : ∀ {β : Type} (x : Option β), Agree x x := fun x a ha b hb =>
    Option.some.inj (ha.symm.trans hb)
  exact (comparable_iff r r).mpr ⟨⟨clean, clean, rfl⟩,
    ⟨same _, same _, same _, same _, fun _ => same _, fun _ => same _, fun _ => same _⟩⟩

end LocalHarness.Evals
