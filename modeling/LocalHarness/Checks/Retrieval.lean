import LocalHarness.Library.Decimal
import LocalHarness.Library.Fallible
import LocalHarness.Library.Top

/-! # Retrieval cases

A case labels documents of its corpus as relevant, and a reply passes when all of them are in its first
`k`. The loader reads a label as text, the scorer compares it as it is, and the loader does not ask
about `k`.
-/

namespace LocalHarness.Checks.Retrieval

open LocalHarness.Library

/-- A label as the case file has it, and `str` of it where that is not the label. A list or a mapping has
    no hash. -/
inductive Label
  | str (s : String)
  | number (q : ℚ) (text : String)
  | other (text : String)
  | container (text : String)
  deriving DecidableEq

namespace Label

def text : Label → String
  | str s => s
  | number _ text | other text | container text => text

end Label

/-- What a label is compared by. Numbers are equal as numbers. -/
inductive Key
  | str (s : String)
  | number (q : ℚ)
  | other (text : String)
  deriving DecidableEq

def Label.key : Label → Option Key
  | str s => some (.str s)
  | number q _ => some (.number q)
  | other text => some (.other text)
  | container _ => none

/-! ## The scorer -/

inductive Raised
  | typeError | valueError | overflowError
  deriving DecidableEq

def NDCG_AT : Nat := 10

def DEFAULT_K : ℤ := 5

/-- `set(relevant)`. -/
def setOf (relevant : List Label) : Except Raised (List Key) :=
  match relevant.mapM Label.key with
  | none => .error .typeError
  | some keys => .ok (Tally.firsts keys)

/-- The first `k` of a ranking, duplicates counted once. -/
def top (ranking : List String) (k : ℤ) : List String :=
  Top.upTo k (Tally.firsts ranking)

/-- The relevant documents that are in the first `k`. -/
def found (ranking : List String) (relevant : List Key) (k : ℤ) : List Key :=
  ((top ranking k).map Key.str).filter (· ∈ relevant)

/-- Share of the relevant documents in the first `k`. -/
def recallAt (ranking : List String) (relevant : List Key) (k : ℤ) : ℚ :=
  (found ranking relevant k).length / relevant.length

-- What a place in the ranking counts for: one over the logarithm of two more than its number.
variable (gain : Nat → ℚ)

/-- Binary-gain nDCG over the first `NDCG_AT`. -/
def ndcgAt (ranking : List String) (relevant : List Key) : ℚ :=
  let gained := (((Tally.firsts ranking).take NDCG_AT).zipIdx.filter fun (doc, _) => Key.str doc ∈ relevant).map
    fun (_, i) => gain i
  gained.sum / ((List.range (min NDCG_AT relevant.length)).map gain).sum

structure CheckResult where
  ok : Bool
  recall_ : ℚ
  ndcg : ℚ
  /-- What a failed check names: the relevant that were missed, and the first `k`. -/
  missed : List Key
  top : List String
  deriving DecidableEq

/-- What a check says of a ranking against a set of labels. -/
def resultOf (ranking : List String) (rel : List Key) (k : ℤ) : CheckResult :=
  let recall_ := recallAt ranking rel k
  { ok := recall_ = 1
    recall_ := Decimal.rounded 4 recall_
    ndcg := Decimal.rounded 4 (ndcgAt gain ranking rel)
    missed := if recall_ = 1 then [] else rel.filter (· ∉ (top ranking k).map Key.str)
    top := if recall_ = 1 then [] else top ranking k }

/-- `check`, of a ranking that could be read. -/
def check (ranking : List String) (relevant : List Label) (k : ℤ) : Except Raised CheckResult :=
  (setOf relevant).map fun rel => resultOf gain ranking rel k

/-- The `k` of a case file, by what `int` makes of it. -/
inductive Knob
  | whole (n : ℤ)
  | float (x : Decimal.Number)
  | text (s : String)
  | other
  deriving DecidableEq

def toInt : Knob → Except Raised ℤ
  | .whole n => .ok n
  | .float (.finite q) => .ok (if q < 0 then ⌈q⌉ else ⌊q⌋)
  | .float (.infinite _) => .error .overflowError
  | .float .nan => .error .valueError
  | .text s => (Decimal.wholeNumber s).elim (.error .valueError) .ok
  | .other => .error .typeError

/-! ## The loader -/

/-- The `id` of a line of the corpus. -/
inductive DocId
  | str (s : String)
  | scalar (text : String)
  | container
  deriving DecidableEq

/-- How a document is named in a reply. -/
def DocId.text : DocId → String
  | str s | scalar s => s
  | container => ""

inductive Refused
  | missing (field : String)
  | noInput
  | unknownKeys (block : String) (keys : List String)
  | noLabels
  | unreadableCorpus
  | notInCorpus (ids : List String)
  deriving DecidableEq

/-- A case file of the lane, as far as its loading looks at it. A line of the corpus is its id, where it
    has one. -/
structure Raw where
  id : String
  prompt : String
  corpus : Option (List (Option DocId))
  paramKeys : List String := []
  assertKeys : List String := ["relevant"]
  /-- Something other than a list is none. -/
  relevant : Option (List Label)
  k : Option Knob := none
  deriving DecidableEq

structure Case where
  id : String
  prompt : String
  documents : List DocId
  relevant : List Label
  k : Option Knob
  deriving DecidableEq

def PARAM_KEYS : List String :=
  ["width", "height", "steps", "seed", "guidance", "frames", "seconds", "voice", "speed", "layers",
    "reuse", "ssd_streaming", "lyrics", "bpm", "duration", "keyscale", "timesignature", "instrumental",
    "task", "ref", "cover_strength", "schema", "system", "repo", "tools", "max_steps", "pad_tokens",
    "timeout_s"]

def ASSERTION_KEYS : List String := ["relevant", "k"]

/-- `_reject_unknown`. -/
def rejectUnknown (block : String) (given allowed : List String) : Except Refused Unit :=
  let unknown := (given.filter (· ∉ allowed)).insertionSort (· ≤ ·)
  if unknown = [] then .ok () else .error (.unknownKeys block unknown)

/-- `_check_relevant`: the labels name documents of the corpus. -/
def checkRelevant (corpus : List (Option DocId)) (relevant : Option (List Label)) :
    Except Refused (List DocId × List Label) :=
  match relevant with
  | none | some [] => .error .noLabels
  | some labels =>
      match corpus.mapM id with
      | none => .error .unreadableCorpus
      | some documents =>
          if .container ∈ documents then .error .unreadableCorpus
          else
            let missing := (labels.map Label.text).dedup.filter fun name => DocId.str name ∉ documents
            if missing = [] then .ok (documents, labels)
            else .error (.notInCorpus (missing.insertionSort (· ≤ ·)))

/-- `load_case`, of the retrieval lane. -/
def loadCase (raw : Raw) : Except Refused Case :=
  if raw.id = "" then .error (.missing "id")
  else if raw.prompt = "" then .error (.missing "prompt")
  else
    match raw.corpus with
    | none => .error .noInput
    | some corpus => do
        rejectUnknown "params" raw.paramKeys PARAM_KEYS
        rejectUnknown "assert" raw.assertKeys ASSERTION_KEYS
        let (documents, relevant) ← checkRelevant corpus raw.relevant
        .ok { id := raw.id, prompt := raw.prompt, documents, relevant, k := raw.k }

/-- `_check_retrieval`, of a reply whose ranking could be read. -/
def checkRetrieval (case_ : Case) (ranking : List String) : Except Raised CheckResult := do
  let k ← case_.k.elim (.ok DEFAULT_K) toInt
  check gain ranking case_.relevant k

/-- The reply passes. -/
def Passes (case_ : Case) (ranking : List String) : Prop :=
  ∃ result, checkRetrieval gain case_ ranking = .ok result ∧ result.ok = true

/-! ## What passes -/

variable {gain}

theorem setOf_once {relevant : List Label} {rel : List Key} (made : setOf relevant = .ok rel) : rel.Nodup := by
  rw [setOf] at made
  split at made
  next => cases made
  next keys _ =>
    obtain rfl := Except.ok.inj made
    exact Top.nodup_firsts keys

theorem mem_setOf {relevant : List Label} {rel : List Key} (made : setOf relevant = .ok rel) {label : Label}
    (member : label ∈ relevant) : ∃ key ∈ rel, label.key = some key := by
  rw [setOf] at made
  split at made
  next => cases made
  next keys mapped =>
    obtain rfl := Except.ok.inj made
    have each := mapM_some mapped
    clear made mapped
    induction each with
    | nil => cases member
    | @cons first key rest keys told _ ih =>
        rcases List.mem_cons.mp member with rfl | later
        · exact ⟨key, Top.mem_firsts.mpr List.mem_cons_self, told⟩
        · obtain ⟨key', held, told'⟩ := ih later
          exact ⟨key', Top.mem_firsts.mpr (List.mem_cons_of_mem _ (Top.mem_firsts.mp held)), told'⟩

theorem top_nodup (ranking : List String) (k : ℤ) : ((top ranking k).map Key.str).Nodup :=
  (((Top.upTo_sublist k _).nodup (Top.nodup_firsts ranking)).map fun _ _ same => Key.str.inj same)

/-- All are recalled exactly where all are in the first `k`. -/
theorem recallAt_one {ranking : List String} {rel : List Key} {k : ℤ} (once : rel.Nodup) (some_ : rel ≠ []) :
    recallAt ranking rel k = 1 ↔ rel ⊆ (top ranking k).map Key.str := by
  have pos : (rel.length : ℚ) ≠ 0 := by
    exact_mod_cast fun none => some_ (List.length_eq_zero_iff.mp none)
  have nodup : (found ranking rel k).Nodup := (top_nodup ranking k).filter _
  have inside : found ranking rel k ⊆ rel := fun key member =>
    of_decide_eq_true (List.mem_filter.mp member).2
  rw [recallAt, div_eq_one_iff_eq pos, Nat.cast_inj]
  constructor
  · intro same key wanted
    have all := (List.subperm_of_subset nodup inside).perm_of_length_le same.ge
    exact (List.mem_filter.mp (all.symm.subset wanted)).1
  · intro all
    apply le_antisymm (List.subperm_of_subset nodup inside).length_le
    exact (List.subperm_of_subset once fun key wanted =>
      List.mem_filter.mpr ⟨all wanted, decide_eq_true wanted⟩).length_le

/-- The set of labels that are all text. -/
theorem setOf_texts {relevant : List Label} (texts : ∀ label ∈ relevant, ∃ s, label = .str s) :
    setOf relevant = .ok ((Tally.firsts (relevant.map Label.text)).map Key.str) := by
  have keyed : ∀ label ∈ relevant, label.key = some (Key.str label.text) := by
    intro label member
    obtain ⟨s, rfl⟩ := texts label member
    rfl
  have mapped : relevant.mapM Label.key = some ((relevant.map Label.text).map Key.str) := by
    rw [List.map_map]
    exact mapM_of_some keyed
  rw [setOf, mapped, ← Top.firsts_map fun _ _ same => Key.str.inj same]

/-- The `k` a case is scored with. -/
def kOf (case_ : Case) : Except Raised ℤ :=
  case_.k.elim (.ok DEFAULT_K) toInt

theorem passes_iff {case_ : Case} {ranking : List String} (some_ : case_.relevant ≠ []) :
    Passes gain case_ ranking ↔
      (∀ label ∈ case_.relevant, ∃ s, label = .str s) ∧
        ∃ k, kOf case_ = .ok k ∧ Tally.firsts (case_.relevant.map Label.text) ⊆ top ranking k := by
  constructor
  · rintro ⟨result, checked, ok⟩
    obtain ⟨k, made, checked⟩ := bind_ok checked
    obtain ⟨rel, keyed, rfl⟩ := map_ok checked
    have held := of_decide_eq_true ok
    have nonempty : rel ≠ [] := by
      obtain ⟨label, member⟩ := List.exists_mem_of_ne_nil _ some_
      obtain ⟨key, inside, -⟩ := mem_setOf keyed member
      exact List.ne_nil_of_mem inside
    have all := (recallAt_one (setOf_once keyed) nonempty).mp held
    have texts : ∀ label ∈ case_.relevant, ∃ s ∈ top ranking k, label = .str s := by
      intro label member
      obtain ⟨key, inside, told⟩ := mem_setOf keyed member
      obtain ⟨s, ranked, rfl⟩ := List.mem_map.mp (all inside)
      refine ⟨s, ranked, ?_⟩
      cases label <;> simp_all [Label.key]
    refine ⟨fun label member => ?_, k, made, fun name wanted => ?_⟩
    · obtain ⟨s, -, same⟩ := texts label member
      exact ⟨s, same⟩
    · obtain ⟨label, member, rfl⟩ := List.mem_map.mp (Top.mem_firsts.mp wanted)
      obtain ⟨s, ranked, rfl⟩ := texts label member
      exact ranked
  · rintro ⟨texts, k, made, all⟩
    have keyed := setOf_texts texts
    have nonempty : (Tally.firsts (case_.relevant.map Label.text)).map Key.str ≠ [] := by
      obtain ⟨label, member⟩ := List.exists_mem_of_ne_nil _ some_
      exact List.ne_nil_of_mem (List.mem_map_of_mem (Top.mem_firsts.mpr (List.mem_map_of_mem member)))
    have recalled := (recallAt_one (setOf_once keyed) nonempty).mpr (List.map_subset _ all)
    rw [kOf] at made
    refine ⟨resultOf gain ranking _ k, ?_, decide_eq_true recalled⟩
    rw [checkRetrieval, made]
    exact congrArg (Except.map _) keyed

theorem checkRelevant_ok {corpus : List (Option DocId)} {given : Option (List Label)}
    {documents : List DocId} {relevant : List Label}
    (checked : checkRelevant corpus given = .ok (documents, relevant)) :
    relevant ≠ [] ∧ relevant.map Label.text ⊆ documents.map DocId.text := by
  unfold checkRelevant at checked
  split at checked
  next => cases checked
  next => cases checked
  next labels some_ =>
    split at checked
    next => cases checked
    next documents' _ =>
      split at checked
      next => cases checked
      next =>
        dsimp only at checked
        split at checked
        next none =>
          obtain ⟨rfl, rfl⟩ := Prod.mk.inj (Except.ok.inj checked)
          refine ⟨some_, fun name member => ?_⟩
          have named : DocId.str name ∈ documents' := by
            by_contra absent
            have missed : name ∈ (labels.map Label.text).dedup.filter fun name =>
                DocId.str name ∉ documents' :=
              List.mem_filter.mpr ⟨List.mem_dedup.mpr member, decide_eq_true absent⟩
            rw [none] at missed
            cases missed
          exact List.mem_map.mpr ⟨_, named, rfl⟩
        next => cases checked

theorem loadCase_ok {raw : Raw} {case_ : Case} (loaded : loadCase raw = .ok case_) :
    case_.relevant ≠ [] ∧ case_.relevant.map Label.text ⊆ case_.documents.map DocId.text := by
  unfold loadCase at loaded
  split at loaded
  next => cases loaded
  next =>
    split at loaded
    next => cases loaded
    next =>
      split at loaded
      next => cases loaded
      next corpus _ =>
        obtain ⟨_, -, loaded⟩ := bind_ok loaded
        obtain ⟨_, -, loaded⟩ := bind_ok loaded
        obtain ⟨⟨documents, relevant⟩, checked, loaded⟩ := bind_ok loaded
        obtain rfl := Except.ok.inj loaded
        exact checkRelevant_ok checked

/-- A case that was loaded can be passed, by some ranking of its documents, exactly where all its labels
    are text and the first `k` of its documents are as many as its labels. -/
theorem loaded_passable_iff {raw : Raw} {case_ : Case} (loaded : loadCase raw = .ok case_) :
    (∃ ranking, ranking ⊆ case_.documents.map DocId.text ∧ Passes gain case_ ranking) ↔
      (∀ label ∈ case_.relevant, ∃ s, label = .str s) ∧
        ∃ k, kOf case_ = .ok k ∧ (case_.relevant.map Label.text).dedup.length ≤
          Top.reach k (case_.documents.map DocId.text).dedup.length := by
  obtain ⟨some_, known⟩ := loadCase_ok loaded
  have ranked := fun k => Top.exists_ranking_iff (k := k)
    (Top.nodup_firsts (case_.relevant.map Label.text))
    (fun name member => known (Top.mem_firsts.mp member))
  simp only [Top.length_firsts] at ranked
  constructor
  · rintro ⟨ranking, inside, passes⟩
    obtain ⟨texts, k, made, all⟩ := (passes_iff some_).mp passes
    exact ⟨texts, k, made, (ranked k).mp ⟨ranking, inside, all⟩⟩
  · rintro ⟨texts, k, made, fits⟩
    obtain ⟨ranking, inside, all⟩ := (ranked k).mpr fits
    exact ⟨ranking, inside, (passes_iff some_).mpr ⟨texts, k, made, all⟩⟩

section Labels

/-- The gain of a place, exactly where its logarithm is whole. -/
def wholeGain (i : Nat) : ℚ :=
  1 / Nat.log2 (i + 2)

def query (relevant : List Label) : Raw :=
  { id := "q1", prompt := "who pays?", corpus := some [some (.str "1"), some (.str "2"), some (.str "3")],
    relevant := some relevant }

def queryCase (relevant : List Label) : Case :=
  { id := "q1", prompt := "who pays?", documents := [.str "1", .str "2", .str "3"], relevant, k := none }

theorem quoted_passable :
    (∃ ranking, ranking ⊆ (queryCase [.str "3"]).documents.map DocId.text ∧
        Passes wholeGain (queryCase [.str "3"]) ranking) ↔
      (∀ label ∈ (queryCase [.str "3"]).relevant, ∃ s, label = .str s) ∧
        ∃ k, kOf (queryCase [.str "3"]) = .ok k ∧
          ((queryCase [.str "3"]).relevant.map Label.text).dedup.length ≤
            Top.reach k ((queryCase [.str "3"]).documents.map DocId.text).dedup.length :=
  @loaded_passable_iff wholeGain (query [.str "3"]) _ (by decide)

/-- A label without quotes is loaded as a number, and no ranking has a number in it. -/
theorem number_unpassable :
    loadCase (query [.number 3 "3"]) = .ok (queryCase [.number 3 "3"]) ∧
      ¬ ∃ ranking, ranking ⊆ (queryCase [.number 3 "3"]).documents.map DocId.text ∧
        Passes wholeGain (queryCase [.number 3 "3"]) ranking := by
  refine ⟨by decide, ?_⟩
  rintro ⟨ranking, -, passes⟩
  obtain ⟨texts, -⟩ := (passes_iff (List.cons_ne_nil _ _)).mp passes
  obtain ⟨s, same⟩ := texts _ List.mem_cons_self
  cases same

end Labels

end LocalHarness.Checks.Retrieval
