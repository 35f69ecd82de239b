import LocalHarness.Checks.DecideAgain

/-! # Telling choices apart

A choice is compared as it is written when a schema is accepted, and without the spaces around it when an
answer is read.
-/

namespace LocalHarness.Checks

open LocalHarness.Library

variable (reader : Reader)

/-- The text of a number is read as that number. -/
def Value.Sound : Value → Prop
  | .number q text => Decimal.number text = some (.finite q)
  | _ => True

/-- Every choice has a code and a key of its own, and the code is read as the key. -/
def Distinguishes (spec : Field) : Prop :=
  ∀ got codes, choices spec = .ok got → codeMap spec = .ok codes →
    codes.map Prod.snd = got.map key ∧ (codes.map Prod.fst).Nodup ∧ (codes.map Prod.snd).Nodup ∧
      ∀ entry ∈ codes, answerKey reader (.other (.singleton entry.1)) spec = .ok (some entry.2)

/-- What a key says as a number, of a boolean. -/
def worthOf (k : String) : Option ℚ :=
  if k = "true" then some 1
  else if k = "false" then some 0
  else
    match Decimal.number k with
    | some (.finite q) => some q
    | _ => none

theorem worthOf_key {value : Value} {w : ℚ} (sound : value.Sound) (worth : value.worth = some w) :
    worthOf (key value) = some w := by
  cases value with
  | null => cases worth
  | other text => cases worth
  | bool b => cases b <;> exact worth
  | number q text =>
      have read : Decimal.number (Text.strip text) = some (.finite q) := by
        rw [← sound, Decimal.number, Decimal.number, Text.strip_strip]
      have words : Decimal.number "true" = none ∧ Decimal.number "false" = none := by decide
      have no_true : Text.strip text ≠ "true" := by
        intro same
        rw [same, words.1] at read
        cases read
      have no_false : Text.strip text ≠ "false" := by
        intro same
        rw [same, words.2] at read
        cases read
      have named : key (.number q text) = Text.strip text := rfl
      rw [named, worthOf, if_neg no_true, if_neg no_false, read]
      exact worth

/-- The choices of a boolean are two, one false and one true. -/
theorem choices_boolean {spec : Field} {got : List Value} (boolean : spec.type = "boolean")
    (made : choices spec = .ok got) (sound : ∀ value ∈ spec.choices, value.Sound) :
    got.length ≤ CODES.length ∧ (got.map key).Nodup := by
  rw [choices, if_pos boolean] at made
  dsimp only at made
  generalize chosen : (if spec.choices = [] then [Value.bool false, .bool true] else spec.choices) = given
    at made
  have sound' : ∀ value ∈ given, value.Sound := by
    rw [← chosen]
    split
    next => simp [Value.Sound]
    next => exact sound
  split at made
  next sorted =>
    cases made
    obtain ⟨worths, worth, order⟩ := Option.map_eq_some_iff.mp sorted
    have pairs := mapM_some worth
    have perm : worths.Perm [0, 1] := order ▸ (List.perm_insertionSort (· ≤ ·) worths).symm
    have length : got.length = 2 := pairs.length_eq.trans perm.length_eq
    have keys : (got.map key).map worthOf = worths.map some := by
      have both := ((List.forall₂_and_left got worths).mpr ⟨sound', pairs⟩).imp fun _ _ both => worthOf_key both.1 both.2
      rw [List.map_map, ← List.forall₂_eq_eq_eq, List.forall₂_map_left_iff, List.forall₂_map_right_iff]
      exact both
    refine ⟨by rw [length]; decide, List.Nodup.of_map worthOf ?_⟩
    rw [keys]
    exact (perm.nodup_iff.mpr (by decide)).map (Option.some_injective ℚ)
  next => cases made

theorem choices_enum {spec : Field} {got : List Value} (enum : spec.type ≠ "boolean")
    (made : choices spec = .ok got) :
    spec.type = "enum" ∧ got.length ≤ CODES.length ∧ (spec.choices.map Value.str).Nodup ∧
      got.map key = (spec.choices.map Value.str).map Text.strip := by
  rw [choices, if_neg enum] at made
  split at made
  next named =>
    dsimp only at made
    split at made
    next fits =>
      cases made
      refine ⟨named, by simpa using fits.2.1, fits.2.2, ?_⟩
      rw [List.map_map]
      exact List.map_congr_left fun _ _ => rfl
    next => cases made
  next => cases made

theorem codeMap_eq {spec : Field} {got : List Value} {codes : List (Char × String)}
    (chosen : choices spec = .ok got) (made : codeMap spec = .ok codes) : codes = CODES.zip (got.map key) := by
  rw [codeMap, chosen] at made
  exact (Except.ok.inj made).symm

/-- A letter is read as the choice it is the code of. -/
theorem answerKey_letter {spec : Field} {codes : List (Char × String)} (made : codeMap spec = .ok codes)
    {c : Char} {k : String} (listed : (c, k) ∈ codes) :
    answerKey reader (.other (.singleton c)) spec = .ok (some k) := by
  rw [answerKey_eq reader made, read_code reader made listed]

/-- The choices of every field are told apart exactly where no two of an enum differ in nothing but the
    spaces around them. -/
theorem distinguishes_iff (schema : Schema) (answers : Ordered String Value)
    (accepted : validate schema answers = .ok ())
    (sound : ∀ name spec, schema.get? name = some spec → ∀ value ∈ spec.choices, value.Sound) :
    (∀ name spec, schema.get? name = some spec → Distinguishes reader spec) ↔
      ∀ name spec, schema.get? name = some spec → spec.type = "enum" →
        ∀ a ∈ spec.choices, ∀ b ∈ spec.choices, Text.strip a.str = Text.strip b.str → a.str = b.str := by
  have coded := coded_of_validate accepted
  have each : ∀ name spec, schema.get? name = some spec → (Distinguishes reader spec ↔
      (spec.type = "enum" → ∀ a ∈ spec.choices, ∀ b ∈ spec.choices,
        Text.strip a.str = Text.strip b.str → a.str = b.str)) := by
    intro name spec held
    obtain ⟨codes, made⟩ := coded name spec held
    obtain ⟨got, chosen, few, keys⟩ : ∃ got, choices spec = .ok got ∧ got.length ≤ CODES.length ∧
        ((got.map key).Nodup ↔ (spec.type = "enum" → ∀ a ∈ spec.choices, ∀ b ∈ spec.choices,
          Text.strip a.str = Text.strip b.str → a.str = b.str)) := by
      obtain ⟨got, chosen⟩ : ∃ got, choices spec = .ok got := by
        rw [codeMap] at made
        cases chosen : choices spec with
        | error why =>
            rw [chosen] at made
            cases made
        | ok got => exact ⟨got, rfl⟩
      refine ⟨got, chosen, ?_⟩
      by_cases boolean : spec.type = "boolean"
      · obtain ⟨few, once⟩ := choices_boolean boolean chosen (sound name spec held)
        refine ⟨few, iff_of_true once fun enum => ?_⟩
        rw [boolean] at enum
        exact absurd enum (by decide)
      · obtain ⟨enum, few, once, same⟩ := choices_enum boolean chosen
        refine ⟨few, ?_⟩
        rw [same, List.nodup_map_iff_inj_on once, forall_prop_of_true enum]
        simp only [List.forall_mem_map]
    have all : codes = CODES.zip (got.map key) := codeMap_eq chosen made
    have seconds : codes.map Prod.snd = got.map key := by
      rw [all]
      exact List.map_snd_zip (by simpa using few)
    have firsts : (codes.map Prod.fst).Nodup := by
      rw [all]
      exact codes_once.sublist (map_fst_zip_sublist _ _)
    rw [← keys]
    constructor
    · exact fun apart => seconds ▸ (apart got codes chosen made).2.2.1
    · intro once got' codes' chosen' made'
      cases chosen.symm.trans chosen'
      cases made.symm.trans made'
      exact ⟨seconds, firsts, seconds ▸ once, fun entry listed => answerKey_letter reader made listed⟩
  exact forall_congr' fun name => forall_congr' fun spec => forall_congr' fun held => each name spec held

theorem severity_told_apart : Distinguishes ascii
    { type := "enum", choices := [.other "low", .other "high"], description := "How bad" } := by
  have accepted : validate severity (.fill [("severity", .other "low")]) = .ok () := rfl
  have only : ∀ name spec, severity.get? name = some spec →
      spec.choices = [.other "low", .other "high"] := by
    intro name spec held
    have listed := Ordered.get?_eq_some.mp held
    obtain ⟨-, rfl⟩ := Prod.mk.inj (List.mem_singleton.mp listed)
    rfl
  refine (distinguishes_iff ascii severity _ accepted ?_).mpr ?_ "severity" _ rfl
  · intro name spec held value member
    rw [only name spec held] at member
    rcases List.mem_pair.mp member with rfl | rfl <;> trivial
  · intro name spec held _
    rw [only name spec held]
    decide

def padded : Schema :=
  .fill [("tone", { type := "enum", choices := [.other "dry", .other "dry "], description := "How it sounds" })]

/-- Two choices that differ in a space have one key. -/
theorem padded_alike : validate padded (.fill [("tone", .other "dry")]) = .ok () ∧
    ∃ spec, padded.get? "tone" = some spec ∧ codeMap spec = .ok [('A', "dry"), ('B', "dry")] ∧
      ¬ Distinguishes ascii spec := by
  refine ⟨rfl, _, rfl, rfl, fun apart => ?_⟩
  have once := (apart _ _ rfl rfl).2.2.1
  revert once
  decide

end LocalHarness.Checks
