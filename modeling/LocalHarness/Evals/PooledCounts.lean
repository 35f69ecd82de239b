import LocalHarness.Evals.Pooled

/-! # The counts behind a rate

A rate is recorded of replies of one kind only, under names of its own. Apart from the character error
rate and the Brier score it is the ratio of its two counts, or what its scorer says where there is
nothing to count.
-/

namespace LocalHarness.Evals

open LocalHarness.Library Checks

variable {jiwer : Jiwer} {similarity : Similarity} {reply : Reply}

/-- A rate is that of its counts, or `blank` where there is nothing to count. -/
structure Counted (blank rate num den : ℚ) : Prop where
  nonneg : 0 ≤ den
  none : den = 0 → num = 0
  made : rate = if den = 0 then blank else Decimal.rounded 4 (num / den)

/-- What is recorded of one interface. -/
def scoreNames (interface : Interface) : List String :=
  ["reviewed_matched", "unreviewed", "good_found", "good_total", "bad_matched", "recall", "precision",
    "pass", "near_miss", "verbatim"].map fun name => metric name interface

/-- What is recorded of claims whatever the interface. -/
def baseNames : List String :=
  ["claims_schema_valid", "claims_emitted", "claims_empty_kept", "claims_empty_cases",
    "claims_empty_rate", "claims_judge_calibrated", "claims_matcher_version"]

def claimNames : List String :=
  baseNames ++ INTERFACES.flatMap scoreNames

inductive ReplyKind
  | spoken | transcribed | marked | decided | claimed | worked
  deriving DecidableEq

def kind : Reply → ReplyKind
  | .spoken .. => .spoken
  | .transcribed .. => .transcribed
  | .marked .. => .marked
  | .decided .. => .decided
  | .claimed .. => .claimed
  | .worked .. => .worked

/-- The names under which anything is recorded of a reply of a kind. -/
def names : ReplyKind → List String
  | .spoken => ["wer", "wer_errors", "wer_words"]
  | .transcribed => ["cer", "cer_errors", "cer_chars"]
  | .marked => ["pii_f1", "pii_2tp", "pii_f1_den", "pii_precision", "pii_recall", "pii_tp", "pii_pred",
      "pii_gold"]
  | .decided => ["decide_accuracy", "decide_correct", "decide_fields", "decide_brier",
      "decide_brier_sum", "calibrated", "per_option"]
  | .claimed => claimNames
  | .worked => ["agent_steps", "agent_tool_calls", "agent_valid_calls", "agent_valid_call_rate",
      "agent_no_tool_steps", "agent_ttft_sum_s", "agent_model_s", "agent_tool_s", "agent_wall_s",
      "prompt_tokens", "completion_tokens"]

/-- The replies a rate is recorded of. -/
def Ratio.kind : Ratio → ReplyKind
  | wer => .spoken
  | cer => .transcribed
  | f1 | precision | recall_ => .marked
  | accuracy | brier => .decided
  | emptyRate | claimsRecall _ | claimsPrecision _ => .claimed
  | validCallRate => .worked

/-- No rate is recorded of replies of two kinds. -/
theorem kind_of_name {ratio : Ratio} {kind : ReplyKind} (named : ratio.name ∈ names kind) :
    kind = ratio.kind := by
  have apart : ∀ ratio ∈ Ratio.all, ∀ kind ∈ [ReplyKind.spoken, .transcribed, .marked, .decided, .claimed,
      .worked], ratio.name ∈ names kind → kind = ratio.kind := by decide
  refine apart ratio ?_ kind (by cases kind <;> decide) named
  cases ratio with
  | claimsRecall interface => cases interface <;> decide
  | claimsPrecision interface => cases interface <;> decide
  | _ => decide

theorem tokensOf_subset (name : String) (got : List Int) :
    (tokensOf name got).map Prod.fst ⊆ [name] := by
  rw [tokensOf]
  split
  next => exact List.nil_subset _
  next => exact List.Subset.refl _

theorem unscored_subset {emitted : Option (List Claims.Emitted)}
    {reviews : List (Interface × Claims.Review)} {expectEmpty : Bool}
    (unscored : emitted = none ∨ expectEmpty = true) :
    (claimsMetrics similarity emitted reviews expectEmpty).map Prod.fst ⊆ baseNames := by
  cases emitted with
  | none =>
      have known : ["claims_schema_valid", "claims_judge_calibrated", "claims_matcher_version"] ⊆
          baseNames := by decide
      exact known
  | some claims =>
      obtain rfl := unscored.resolve_left (Option.some_ne_none claims)
      exact List.Subset.refl _

/-- What is recorded of claims that are scored, but for the scores. -/
def scoredNames : List String :=
  ["claims_schema_valid", "claims_emitted", "claims_judge_calibrated", "claims_matcher_version"]

theorem scoredNames_subset : scoredNames ⊆ baseNames := by
  decide

theorem scored_subset (claims : List Claims.Emitted) (reviews : List (Interface × Claims.Review)) :
    (claimsMetrics similarity (some claims) reviews false).map Prod.fst ⊆
      scoredNames ++ INTERFACES.flatMap scoreNames := by
  intro name member
  rw [claimsMetrics, if_neg Bool.false_ne_true, List.map_append, List.map_flatMap] at member
  rcases List.mem_append.mp member with base | scored
  · exact List.mem_append_left _ base
  · obtain ⟨interface, held, inside⟩ := List.mem_flatMap.mp scored
    exact List.mem_append_right _
      (List.mem_flatMap.mpr ⟨interface, List.mem_of_mem_filter held, inside⟩)

theorem claimsMetrics_subset (emitted : Option (List Claims.Emitted))
    (reviews : List (Interface × Claims.Review)) (expectEmpty : Bool) :
    (claimsMetrics similarity emitted reviews expectEmpty).map Prod.fst ⊆ claimNames := by
  by_cases unscored : emitted = none ∨ expectEmpty = true
  · exact List.subset_append_of_subset_left _ (unscored_subset unscored)
  · rw [not_or, Bool.not_eq_true] at unscored
    obtain ⟨claims, rfl⟩ := Option.ne_none_iff_exists'.mp unscored.1
    obtain rfl := unscored.2
    intro name member
    rcases List.mem_append.mp (scored_subset claims reviews member) with base | scored
    · exact List.mem_append_left _ (scoredNames_subset base)
    · exact List.mem_append_right _ scored

theorem keys_subset {items : Metrics} (made : reply.metrics jiwer similarity = some items) :
    items.map Prod.fst ⊆ names (kind reply) := by
  cases reply with
  | spoken reference hypothesis =>
      obtain ⟨rate, -, made⟩ := Option.bind_eq_some_iff.mp made
      obtain ⟨⟨errors, words⟩, -, rfl⟩ := Option.map_eq_some_iff.mp made
      exact List.Subset.refl _
  | transcribed expected got =>
      obtain ⟨⟨errors, chars⟩, -, rfl⟩ := Option.map_eq_some_iff.mp made
      exact List.Subset.refl _
  | marked text gold predicted =>
      obtain ⟨spans, rfl, rfl⟩ := Option.map_eq_some_iff.mp made
      exact List.Subset.refl _
  | decided parsed gold schema perOption =>
      obtain ⟨scores, -, made⟩ := Option.bind_eq_some_iff.mp made
      obtain ⟨-, made⟩ := Option.ite_none_left_eq_some.mp made
      obtain rfl := Option.some.inj made
      cases perOption with
      | true => exact List.subset_append_left _ ["per_option"]
      | false => exact List.Subset.refl _
  | claimed emitted reviews expectEmpty =>
      obtain rfl := Option.some.inj made
      exact claimsMetrics_subset emitted reviews expectEmpty
  | worked steps wall =>
      obtain rfl := Option.some.inj made
      rw [rollup, List.map_append, List.map_append, List.append_assoc]
      intro name member
      rcases List.mem_append.mp member with base | tokens
      · exact List.mem_append_left ["prompt_tokens", "completion_tokens"] base
      · apply List.mem_append_right ["agent_steps", "agent_tool_calls", "agent_valid_calls",
          "agent_valid_call_rate", "agent_no_tool_steps", "agent_ttft_sum_s", "agent_model_s",
          "agent_tool_s", "agent_wall_s"]
        rcases List.mem_append.mp tokens with asked | written
        · exact List.mem_append_left ["completion_tokens"] (tokensOf_subset _ _ asked)
        · exact List.mem_cons_of_mem _ (tokensOf_subset _ _ written)

theorem kind_of_carries {ratio : Ratio} (carries : Carries jiwer similarity ratio reply) :
    kind reply = ratio.kind := by
  obtain ⟨rate, found⟩ := Option.isSome_iff_exists.mp (carries ratio.name List.mem_cons_self)
  obtain ⟨items, made, found⟩ := Option.bind_eq_some_iff.mp found
  exact kind_of_name (keys_subset made (List.mem_map_of_mem (f := Prod.fst) (mem_of_lookup found)))

/-- The value under a name, where there is one. -/
def recordedAt (jiwer : Jiwer) (similarity : Similarity) (name : String) (reply : Reply) : ℚ :=
  (value jiwer similarity reply name).getD 0

theorem value_eq {ratio : Ratio} (carries : Carries jiwer similarity ratio reply) {name : String}
    (known : name ∈ [ratio.name, ratio.numerator, ratio.denominator]) :
    value jiwer similarity reply name = some (recordedAt jiwer similarity name reply) := by
  obtain ⟨q, found⟩ := Option.isSome_iff_exists.mp (carries name known)
  rw [recordedAt, found]
  rfl

/-- The marks of a reply that has some. -/
def marks : Reply → Marks
  | .marked text gold (some predicted) => counts text gold predicted
  | _ => ⟨0, 0, 0⟩

/-- What a scorer says the rate is where there is nothing to count. -/
def blankRate : Ratio → Reply → ℚ
  | .f1, _ | .recall_, _ | .claimsRecall _, _ => 1
  | .precision, reply => if (marks reply).tp + (marks reply).fn = 0 then 1 else 0
  | _, _ => 0

/-- The counts behind a rate are as they are recorded. -/
abbrev CountedOf (jiwer : Jiwer) (similarity : Similarity) (ratio : Ratio) (reply : Reply) : Prop :=
  Counted (blankRate ratio reply) (recordedAt jiwer similarity ratio.name reply)
    (recordedAt jiwer similarity ratio.numerator reply)
    (recordedAt jiwer similarity ratio.denominator reply)

theorem countedOf_values {ratio : Ratio} {rate num den : ℚ}
    (atName : value jiwer similarity reply ratio.name = some rate)
    (above : value jiwer similarity reply ratio.numerator = some num)
    (below : value jiwer similarity reply ratio.denominator = some den)
    (counted : Counted (blankRate ratio reply) rate num den) : CountedOf jiwer similarity ratio reply := by
  simpa only [CountedOf, recordedAt, atName, above, below, Option.getD_some] using counted

theorem countedOf {ratio : Ratio} {items : Metrics} {rate num den : ℚ}
    (made : reply.metrics jiwer similarity = some items) (atName : items.lookup ratio.name = some rate)
    (above : items.lookup ratio.numerator = some num) (below : items.lookup ratio.denominator = some den)
    (counted : Counted (blankRate ratio reply) rate num den) : CountedOf jiwer similarity ratio reply := by
  have through : ∀ name, value jiwer similarity reply name = items.lookup name := by
    intro name
    rw [value, made, Option.bind_some]
  exact countedOf_values ((through _).trans atName) ((through _).trans above) ((through _).trans below)
    counted

/-- With something to count, no more is asked than that the rate is that of the counts. -/
theorem counted_of_pos {blank rate num den : ℚ} (pos : 0 < den)
    (made : rate = Decimal.rounded 4 (num / den)) : Counted blank rate num den :=
  ⟨pos.le, fun none => absurd none pos.ne', made.trans (if_neg pos.ne').symm⟩

theorem counted_spoken {reference hypothesis : List String}
    (carries : Carries jiwer similarity .wer (.spoken reference hypothesis)) :
    CountedOf jiwer similarity .wer (.spoken reference hypothesis) := by
  have some_ : reference ≠ [] := by
    rintro rfl
    exact absurd (carries "wer" List.mem_cons_self) Bool.false_ne_true
  have pos : (0 : ℚ) < reference.length := by exact_mod_cast List.length_pos_iff.mpr some_
  by_cases silent : hypothesis = []
  · have made : speechMetrics jiwer reference hypothesis = some [("wer", Decimal.rounded 4 1),
        ("wer_errors", (reference.length : ℚ)), ("wer_words", (reference.length : ℚ))] := by
      rw [speechMetrics, wer, werCounts, if_neg some_, if_neg some_, if_pos silent, if_pos silent]
      rfl
    exact countedOf made rfl rfl rfl (counted_of_pos pos (by rw [div_self pos.ne']))
  · have made : speechMetrics jiwer reference hypothesis = some
        [("wer", Decimal.rounded 4 (jiwer.wordEdits reference hypothesis / reference.length)),
          ("wer_errors", (jiwer.wordEdits reference hypothesis : ℚ)),
          ("wer_words", (reference.length : ℚ))] := by
      rw [speechMetrics, wer, werCounts, if_neg some_, if_neg some_, if_neg silent, if_neg silent,
        jiwer.wer_eq]
      rfl
    exact countedOf made rfl rfl rfl (counted_of_pos pos rfl)

/-- A rate that is counted in whole numbers. -/
theorem counted_nat {blank rate : ℚ} (num den : Nat) (none : den = 0 → num = 0)
    (made : rate = if den = 0 then blank else Decimal.rounded 4 ((num : ℚ) / den)) :
    Counted blank rate num den where
  nonneg := Nat.cast_nonneg den
  none := fun nothing => by exact_mod_cast none (by exact_mod_cast nothing)
  made := by simpa only [Nat.cast_eq_zero] using made

theorem counted_f1 (text : String) (gold predicted : List Span) :
    CountedOf jiwer similarity .f1 (.marked text gold (some predicted)) := by
  let m := counts text gold predicted
  let den := 2 * m.tp + m.fp + m.fn
  have counted : Counted 1 (Decimal.rounded 4 (if den ≠ 0 then 2 * m.tp / den else 1))
      (2 * m.tp : Nat) den := by
    refine counted_nat (2 * m.tp) den (by omega) ?_
    rw [ite_not, Nat.cast_mul]
    split
    next => exact Decimal.rounded_int 4 1
    next => rfl
  rw [Nat.cast_mul] at counted
  exact countedOf rfl rfl rfl rfl counted

theorem counted_precision (text : String) (gold predicted : List Span) :
    CountedOf jiwer similarity .precision (.marked text gold (some predicted)) := by
  let m := counts text gold predicted
  have counted : Counted (if m.tp + m.fn = 0 then 1 else 0)
      (if m.tp + m.fp ≠ 0 then Decimal.rounded 4 (m.tp / (m.tp + m.fp))
        else if m.tp + m.fn = 0 then 1 else 0) m.tp (m.tp + m.fp : Nat) := by
    refine counted_nat m.tp (m.tp + m.fp) (by omega) ?_
    rw [ite_not, Nat.cast_add]
  rw [Nat.cast_add] at counted
  exact countedOf rfl rfl rfl rfl counted

theorem counted_recall (text : String) (gold predicted : List Span) :
    CountedOf jiwer similarity .recall_ (.marked text gold (some predicted)) := by
  let m := counts text gold predicted
  have counted : Counted 1
      (if m.tp + m.fn ≠ 0 then Decimal.rounded 4 (m.tp / (m.tp + m.fn)) else 1) m.tp
      (m.tp + m.fn : Nat) := by
    refine counted_nat m.tp (m.tp + m.fn) (by omega) ?_
    rw [ite_not, Nat.cast_add]
  rw [Nat.cast_add] at counted
  exact countedOf rfl rfl rfl rfl counted

/-- Of spans that could not be read nothing is recorded. -/
theorem marked_of_carries {ratio : Ratio} (carries : Carries jiwer similarity ratio reply)
    (of_kind : ratio.kind = .marked) :
    ∃ text gold predicted, reply = .marked text gold (some predicted) := by
  have same := (kind_of_carries carries).trans of_kind
  cases reply with
  | marked text gold predicted =>
      cases predicted with
      | none => cases carries _ List.mem_cons_self
      | some predicted => exact ⟨text, gold, predicted, rfl⟩
  | _ => cases same

/-- What the counts of the marked spans stand over. -/
theorem recorded_marks {ratio : Ratio} (carries : Carries jiwer similarity ratio reply)
    (of_kind : ratio.kind = .marked) :
    recordedAt jiwer similarity "pii_f1_den" reply =
        (2 * (marks reply).tp + (marks reply).fp + (marks reply).fn : Nat) ∧
      recordedAt jiwer similarity "pii_pred" reply = ((marks reply).tp + (marks reply).fp : Nat) ∧
      recordedAt jiwer similarity "pii_gold" reply = ((marks reply).tp + (marks reply).fn : Nat) := by
  obtain ⟨text, gold, predicted, rfl⟩ := marked_of_carries carries of_kind
  exact ⟨rfl, (Nat.cast_add _ _).symm, (Nat.cast_add _ _).symm⟩

theorem counted_accuracy {parsed : List (String × Parsed)} {gold : Ordered String Value} {schema : Schema}
    {perOption : Bool} (carries : Carries jiwer similarity .accuracy (.decided parsed gold schema perOption)) :
    CountedOf jiwer similarity .accuracy (.decided parsed gold schema perOption) := by
  obtain ⟨rate, found⟩ := Option.isSome_iff_exists.mp (carries "decide_accuracy" List.mem_cons_self)
  obtain ⟨items, made, -⟩ := Option.bind_eq_some_iff.mp found
  obtain ⟨scores, -, recorded⟩ := Option.bind_eq_some_iff.mp made
  obtain ⟨some_, recorded⟩ := Option.ite_none_left_eq_some.mp recorded
  obtain rfl := Option.some.inj recorded
  have counted : Counted 0 (Decimal.rounded 4 (scores.countP FieldScore.correct / scores.length))
      (scores.countP FieldScore.correct) scores.length :=
    counted_nat _ _ (fun none => absurd none some_) (if_neg some_).symm
  exact countedOf made rfl rfl rfl counted

theorem counted_worked (steps : List Step) (wall : ℚ) :
    CountedOf jiwer similarity .validCallRate (.worked steps wall) := by
  let calls := steps.flatMap Step.calls
  have counted : Counted 0
      (if calls ≠ [] then Decimal.rounded 4 (calls.countP (· = true) / calls.length) else 0)
      (calls.countP (· = true)) calls.length := by
    refine counted_nat _ _ (fun none => Nat.le_zero.mp (none ▸ List.countP_le_length)) ?_
    rw [ite_not]
    simp only [List.length_eq_zero_iff]
  exact countedOf rfl rfl rfl rfl counted

/-! ### Claims -/

theorem lookup_eq_none {items : Metrics} {name : String} (free : name ∉ items.map Prod.fst) :
    items.lookup name = none := by
  rw [List.lookup_eq_none_iff]
  intro item member
  refine bne_iff_ne.mpr ?_
  rintro rfl
  exact free (List.mem_map_of_mem member)

theorem mem_interfaces (interface : Interface) : interface ∈ INTERFACES := by
  cases interface <;> decide

theorem scoreNames_apart {interface other : Interface} {name : String}
    (named : name ∈ scoreNames interface) (named' : name ∈ scoreNames other) : interface = other := by
  have apart : ∀ interface ∈ INTERFACES, ∀ other ∈ INTERFACES, ∀ name ∈ scoreNames interface,
      name ∈ scoreNames other → interface = other := by decide
  exact apart interface (mem_interfaces _) other (mem_interfaces _) name named named'

theorem scoreNames_base {interface : Interface} {name : String} (named : name ∈ scoreNames interface) :
    name ∉ baseNames := by
  have apart : ∀ interface ∈ INTERFACES, ∀ name ∈ scoreNames interface, name ∉ baseNames := by
    decide
  exact apart interface (mem_interfaces _) name named

theorem lookup_scores (interfaces : List Interface) (score : Interface → Claims.Score)
    {interface : Interface} {name : String} (named : name ∈ scoreNames interface) :
    (interfaces.flatMap fun other => scoreMetrics other (score other)).lookup name =
      if interface ∈ interfaces then (scoreMetrics interface (score interface)).lookup name else none := by
  induction interfaces with
  | nil => rfl
  | cons other rest ih =>
      rw [List.flatMap_cons, List.lookup_append, ih]
      by_cases same : interface = other
      · subst same
        rw [if_pos List.mem_cons_self]
        split
        next => exact Option.or_self
        next => exact Option.or_none
      · have free : (scoreMetrics other (score other)).lookup name = none :=
          lookup_eq_none fun named' => same (scoreNames_apart named named')
        simp only [free, Option.none_or, List.mem_cons, same, false_or]

/-- What is recorded of an interface is what its reviews score. -/
theorem value_scored {emitted : List Claims.Emitted} {reviews : List (Interface × Claims.Review)}
    {interface : Interface} {name : String} (named : name ∈ scoreNames interface) :
    value jiwer similarity (.claimed (some emitted) reviews false) name =
      if reviewsOf reviews interface ≠ [] then
        (scoreMetrics interface (scoreOf similarity emitted reviews interface)).lookup name
      else none := by
  have free : List.lookup name [("claims_schema_valid", (1 : ℚ)), ("claims_emitted", (emitted.length : ℚ)),
      ("claims_judge_calibrated", 0), ("claims_matcher_version", MATCHER_VERSION)] = none :=
    lookup_eq_none fun base => scoreNames_base named (scoredNames_subset base)
  rw [value, Reply.metrics, Option.bind_some, claimsMetrics, if_neg Bool.false_ne_true,
    List.lookup_append, free, Option.none_or, lookup_scores _ _ named]
  simp [mem_interfaces]

theorem counted_zero (sim : String → String → ℚ) (emitted : List Claims.Emitted)
    (reviews : List Claims.Review) :
    (Claims._score sim emitted reviews).goodTotal = 0 →
      (Claims._score sim emitted reviews).goodFound = 0 := by
  intro none
  have bad := List.countP_eq_zero.mp none
  refine List.countP_eq_zero.mpr fun pair _ good => ?_
  obtain ⟨review, placed, same⟩ := Option.map_eq_some_iff.mp (of_decide_eq_true good)
  exact bad review (List.mem_of_getElem? placed) (decide_eq_true same)

/-- Where something is recorded of an interface, it was reviewed and claims were expected. -/
theorem scored_of_isSome {emitted : Option (List Claims.Emitted)}
    {reviews : List (Interface × Claims.Review)} {expectEmpty : Bool} {interface : Interface}
    {name : String} (named : name ∈ scoreNames interface)
    (recorded : (value jiwer similarity (.claimed emitted reviews expectEmpty) name).isSome) :
    ∃ claims, emitted = some claims ∧ expectEmpty = false ∧ reviewsOf reviews interface ≠ [] := by
  by_cases unscored : emitted = none ∨ expectEmpty = true
  · have nothing : value jiwer similarity (.claimed emitted reviews expectEmpty) name = none :=
      lookup_eq_none fun known => scoreNames_base named (unscored_subset unscored known)
    rw [nothing] at recorded
    cases recorded
  · rw [not_or, Bool.not_eq_true] at unscored
    obtain ⟨claims, rfl⟩ := Option.ne_none_iff_exists'.mp unscored.1
    obtain rfl := unscored.2
    refine ⟨claims, rfl, rfl, fun none => ?_⟩
    rw [value_scored named, if_neg (not_not_intro none)] at recorded
    cases recorded

theorem lookup_score (interface : Interface) (score : Claims.Score) :
    (scoreMetrics interface score).lookup (metric "recall" interface) = some score.recall_ ∧
      (scoreMetrics interface score).lookup (metric "precision" interface) = some score.precision ∧
      (scoreMetrics interface score).lookup (metric "good_found" interface) =
        some (score.goodFound : ℚ) ∧
      (scoreMetrics interface score).lookup (metric "good_total" interface) =
        some (score.goodTotal : ℚ) ∧
      (scoreMetrics interface score).lookup (metric "reviewed_matched" interface) =
        some (score.reviewedMatched : ℚ) := by
  cases interface <;> exact ⟨rfl, rfl, rfl, rfl, rfl⟩

theorem value_score {emitted : List Claims.Emitted} {reviews : List (Interface × Claims.Review)}
    {interface : Interface} (reviewed : reviewsOf reviews interface ≠ []) {name : String} {q : ℚ}
    (named : name ∈ scoreNames interface)
    (scored : (scoreMetrics interface (scoreOf similarity emitted reviews interface)).lookup name = some q) :
    value jiwer similarity (.claimed (some emitted) reviews false) name = some q := by
  rw [value_scored named, if_pos reviewed, scored]

theorem counted_claimsRecall {interface : Interface} {emitted : Option (List Claims.Emitted)}
    {reviews : List (Interface × Claims.Review)} {expectEmpty : Bool}
    (carries : Carries jiwer similarity (.claimsRecall interface) (.claimed emitted reviews expectEmpty)) :
    CountedOf jiwer similarity (.claimsRecall interface) (.claimed emitted reviews expectEmpty) := by
  have rate : metric "recall" interface ∈ scoreNames interface := List.mem_map_of_mem (by decide)
  have above : metric "good_found" interface ∈ scoreNames interface := List.mem_map_of_mem (by decide)
  have below : metric "good_total" interface ∈ scoreNames interface := List.mem_map_of_mem (by decide)
  obtain ⟨claims, rfl, rfl, reviewed⟩ := scored_of_isSome rate (carries _ List.mem_cons_self)
  let score := scoreOf similarity claims reviews interface
  obtain ⟨recall_, -, found, total, -⟩ := lookup_score interface score
  have counted : Counted 1 score.recall_ score.goodFound score.goodTotal := by
    refine counted_nat _ _ (counted_zero _ _ _) ?_
    refine Eq.trans (apply_ite (Decimal.rounded 4) _ _ _) ?_
    rw [show Decimal.rounded 4 1 = 1 from Decimal.rounded_int 4 1]
    rfl
  exact countedOf_values (value_score reviewed rate recall_) (value_score reviewed above found)
    (value_score reviewed below total) counted

theorem counted_claimsPrecision {interface : Interface} {emitted : Option (List Claims.Emitted)}
    {reviews : List (Interface × Claims.Review)} {expectEmpty : Bool}
    (carries : Carries jiwer similarity (.claimsPrecision interface) (.claimed emitted reviews expectEmpty)) :
    CountedOf jiwer similarity (.claimsPrecision interface) (.claimed emitted reviews expectEmpty) := by
  have rate : metric "precision" interface ∈ scoreNames interface := List.mem_map_of_mem (by decide)
  have above : metric "good_found" interface ∈ scoreNames interface := List.mem_map_of_mem (by decide)
  have below : metric "reviewed_matched" interface ∈ scoreNames interface :=
    List.mem_map_of_mem (by decide)
  obtain ⟨claims, rfl, rfl, reviewed⟩ := scored_of_isSome rate (carries _ List.mem_cons_self)
  let score := scoreOf similarity claims reviews interface
  obtain ⟨-, precision, found, -, matched⟩ := lookup_score interface score
  have counted : Counted 0 score.precision score.goodFound score.reviewedMatched := by
    refine counted_nat _ _ (fun none => Nat.le_zero.mp (none ▸ List.countP_le_length)) ?_
    simp only [score, scoreOf, Claims._score, List.length_eq_zero_iff]
  exact countedOf_values (value_score reviewed rate precision) (value_score reviewed above found)
    (value_score reviewed below matched) counted

theorem counted_empty {emitted : Option (List Claims.Emitted)}
    {reviews : List (Interface × Claims.Review)} {expectEmpty : Bool}
    (carries : Carries jiwer similarity .emptyRate (.claimed emitted reviews expectEmpty)) :
    CountedOf jiwer similarity .emptyRate (.claimed emitted reviews expectEmpty) := by
  have carried := carries _ List.mem_cons_self
  cases emitted with
  | none => cases carried
  | some claims =>
      cases expectEmpty with
      | true =>
          have kept : ∀ q : ℚ, q = 0 ∨ q = 1 → Counted 0 q q 1 := by
            intro q value
            refine counted_of_pos one_pos ?_
            rcases value with rfl | rfl
            · rw [div_one, show Decimal.rounded 4 0 = 0 from Decimal.rounded_int 4 0]
            · rw [div_one, show Decimal.rounded 4 1 = 1 from Decimal.rounded_int 4 1]
          exact countedOf rfl rfl rfl rfl (kept _ (by split <;> simp))
      | false =>
          have free : "claims_empty_rate" ∉ scoredNames ++ INTERFACES.flatMap scoreNames := by
            decide
          have nothing : value jiwer similarity (.claimed (some claims) reviews false)
              "claims_empty_rate" = none :=
            lookup_eq_none fun member => free (scored_subset claims reviews member)
          rw [Ratio.name, nothing] at carried
          cases carried

/-- The reviews a reply is held against. -/
def reviews : Reply → List (Interface × Claims.Review)
  | .claimed _ reviews _ => reviews
  | _ => []

/-- Whether a recall of claims has anything to count is whether a review says good. -/
theorem recorded_good {interface : Interface}
    (carries : Carries jiwer similarity (.claimsRecall interface) reply) :
    recordedAt jiwer similarity (metric "good_total" interface) reply ≠ 0 ↔
      ∃ review ∈ reviews reply, review.1 = interface ∧ review.2.verdict = .good := by
  have of_kind := kind_of_carries carries
  cases reply with
  | claimed emitted reviews expectEmpty =>
      have rate : metric "recall" interface ∈ scoreNames interface := List.mem_map_of_mem (by decide)
      have below : metric "good_total" interface ∈ scoreNames interface := List.mem_map_of_mem (by decide)
      obtain ⟨claims, rfl, rfl, reviewed⟩ := scored_of_isSome rate (carries _ List.mem_cons_self)
      let score := scoreOf similarity claims reviews interface
      obtain ⟨-, -, -, total, -⟩ := lookup_score interface score
      rw [recordedAt, value_score reviewed below total, Option.getD_some, Nat.cast_ne_zero,
        ← Nat.pos_iff_ne_zero]
      refine List.countP_pos_iff.trans ?_
      simp [reviewsOf, LocalHarness.Evals.reviews]
  | _ => cases of_kind

/-! ### Errors and Brier scores -/

theorem recordedAt_of_made {items : Metrics} (made : reply.metrics jiwer similarity = some items)
    (name : String) : recordedAt jiwer similarity name reply = (items.lookup name).getD 0 := by
  rw [recordedAt, value, made, Option.bind_some]

/-- Character errors, and characters of the reference. -/
def cerCounts (jiwer : Jiwer) : Reply → Nat × Nat
  | .transcribed expected got => (textCer jiwer expected got).getD (0, 0)
  | _ => (0, 0)

theorem textCer_pos {expected got : String} {errors chars : Nat}
    (counted : textCer jiwer expected got = some (errors, chars)) : 0 < chars := by
  rw [textCer] at counted
  obtain ⟨some_, counted⟩ := Option.ite_none_left_eq_some.mp counted
  have pos := List.length_pos_iff.mpr some_
  split at counted
  next =>
    obtain ⟨-, rfl⟩ := Prod.mk.inj (Option.some.inj counted)
    exact pos
  next =>
    obtain ⟨-, rfl⟩ := Prod.mk.inj (Option.some.inj counted)
    exact pos

theorem recorded_cer (carries : Carries jiwer similarity .cer reply) :
    0 < (cerCounts jiwer reply).2 ∧
      recordedAt jiwer similarity "cer" reply =
        Decimal.rounded 4 (min 1 ((cerCounts jiwer reply).1 / (cerCounts jiwer reply).2)) ∧
      recordedAt jiwer similarity "cer_errors" reply = (cerCounts jiwer reply).1 ∧
      recordedAt jiwer similarity "cer_chars" reply = (cerCounts jiwer reply).2 := by
  have of_kind := kind_of_carries carries
  cases reply with
  | transcribed expected got =>
      obtain ⟨rate, found⟩ := Option.isSome_iff_exists.mp (carries "cer" List.mem_cons_self)
      obtain ⟨items, made, -⟩ := Option.bind_eq_some_iff.mp found
      obtain ⟨⟨errors, chars⟩, counted, rfl⟩ := Option.map_eq_some_iff.mp made
      have same : cerCounts jiwer (.transcribed expected got) = (errors, chars) := by
        rw [cerCounts, counted, Option.getD_some]
      have pos := textCer_pos counted
      rw [same]
      refine ⟨pos, ?_, recordedAt_of_made made _, recordedAt_of_made made _⟩
      rw [recordedAt_of_made made]
      exact congrArg (Decimal.rounded 4) (if_neg pos.ne')
  | _ => cases of_kind

/-- The sum of the Brier scores of a reply's fields, and how many fields there are. -/
def brierCounts (reply : Reply) : ℚ × Nat :=
  ((reply.scores.map FieldScore.brier).sum, reply.scores.length)

theorem recorded_brier (carries : Carries jiwer similarity .brier reply) :
    0 < (brierCounts reply).2 ∧
      recordedAt jiwer similarity "decide_brier" reply =
        Decimal.rounded 4 ((brierCounts reply).1 / (brierCounts reply).2) ∧
      recordedAt jiwer similarity "decide_brier_sum" reply = Decimal.rounded 6 (brierCounts reply).1 ∧
      recordedAt jiwer similarity "decide_fields" reply = (brierCounts reply).2 := by
  have of_kind := kind_of_carries carries
  cases reply with
  | decided parsed gold schema perOption =>
      obtain ⟨rate, found⟩ := Option.isSome_iff_exists.mp (carries "decide_brier" List.mem_cons_self)
      obtain ⟨items, made, -⟩ := Option.bind_eq_some_iff.mp found
      obtain ⟨scores, scored, recorded⟩ := Option.bind_eq_some_iff.mp made
      obtain ⟨some_, recorded⟩ := Option.ite_none_left_eq_some.mp recorded
      obtain rfl := Option.some.inj recorded
      have same : Reply.scores (.decided parsed gold schema perOption) = scores := by
        rw [Reply.scores, scored, Option.getD_some]
      rw [brierCounts, same]
      exact ⟨Nat.pos_of_ne_zero some_, recordedAt_of_made made _, recordedAt_of_made made _,
        recordedAt_of_made made _⟩
  | _ => cases of_kind

theorem counted {ratio : Ratio} (uncut : ratio ≠ .cer) (exact_ : ratio ≠ .brier)
    (carries : Carries jiwer similarity ratio reply) : CountedOf jiwer similarity ratio reply := by
  have of_kind := kind_of_carries carries
  cases ratio with
  | cer => exact absurd rfl uncut
  | brier => exact absurd rfl exact_
  | wer =>
      cases reply with
      | spoken reference hypothesis => exact counted_spoken carries
      | _ => cases of_kind
  | validCallRate =>
      cases reply with
      | worked steps wall => exact counted_worked steps wall
      | _ => cases of_kind
  | accuracy =>
      cases reply with
      | decided parsed gold schema perOption => exact counted_accuracy carries
      | _ => cases of_kind
  | f1 =>
      obtain ⟨text, gold, predicted, rfl⟩ := marked_of_carries carries rfl
      exact counted_f1 text gold predicted
  | precision =>
      obtain ⟨text, gold, predicted, rfl⟩ := marked_of_carries carries rfl
      exact counted_precision text gold predicted
  | recall_ =>
      obtain ⟨text, gold, predicted, rfl⟩ := marked_of_carries carries rfl
      exact counted_recall text gold predicted
  | emptyRate =>
      cases reply with
      | claimed emitted reviews expectEmpty => exact counted_empty carries
      | _ => cases of_kind
  | claimsRecall interface =>
      cases reply with
      | claimed emitted reviews expectEmpty => exact counted_claimsRecall carries
      | _ => cases of_kind
  | claimsPrecision interface =>
      cases reply with
      | claimed emitted reviews expectEmpty => exact counted_claimsPrecision carries
      | _ => cases of_kind

end LocalHarness.Evals
