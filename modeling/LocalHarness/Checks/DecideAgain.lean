import LocalHarness.Checks.Decide

/-! # Reading what was read

An answer key is a text again, and is read as one: where it is a code letter itself, or is not left as
it is when it is trimmed, the decoder makes another answer of it.
-/

namespace LocalHarness.Checks

open LocalHarness.Library

variable (reader : Reader)

/-! ## What is read of a text -/

theorem trimmed_sublist (s : String) : (trimmed s).toList.Sublist s.toList := by
  have strip : ∀ s : String, (Text.strip s).toList.Sublist s.toList := by
    intro s
    rw [Text.strip, String.toList_ofList]
    exact (List.rdropWhile_prefix _ _).sublist.trans (List.dropWhile_sublist _)
  have quotes : (stripQuotes (Text.strip s)).toList.Sublist (Text.strip s).toList := by
    rw [stripQuotes, String.toList_ofList]
    exact (List.rdropWhile_prefix _ _).sublist.trans (List.dropWhile_sublist _)
  exact (strip _).trans (quotes.trans (strip s))

theorem sum_lt_of_sublist {α : Type} {f : α → Nat} (pos : ∀ a, 0 < f a) {part l : List α}
    (sub : part.Sublist l) (differ : part ≠ l) : (part.map f).sum < (l.map f).sum := by
  induction sub with
  | slnil => exact absurd rfl differ
  | @cons part l a sub _ =>
      have le := (sub.map f).sum_le_sum fun _ _ => Nat.zero_le _
      rw [List.map_cons, List.sum_cons]
      have := pos a
      omega
  | @cons_cons part l a _ ih =>
      rw [List.map_cons, List.sum_cons, List.map_cons, List.sum_cons]
      exact Nat.add_lt_add_left (ih fun same => differ (same ▸ rfl)) _

/-- What is shortened is another word in small letters too. -/
theorem lower_trimmed {s : String} (differ : trimmed s ≠ s) :
    reader.lower s ≠ reader.lower (trimmed s) := by
  intro same
  have lengths := congrArg String.length same
  rw [reader.length_lower, reader.length_lower] at lengths
  have less := sum_lt_of_sublist reader.width_pos (trimmed_sublist s) fun same =>
    differ (String.toList_injective same)
  omega

/-- A key that the decoder leaves as it is: the letter of its own choice, or no letter and not trimmed. -/
def Steady (codes : List (Char × String)) (k : String) : Prop :=
  ((codeOf (trimmed k)).bind fun c => codes.lookup c).getD (trimmed k) = k

theorem byWord_eq_some {boolean : Bool} {allowed : List String} {text k : String}
    (found : byWord reader boolean allowed text = some k) :
    boolean = true ∧ (k = "true" ∨ k = "false") ∨ k ∈ allowed ∧ reader.lower k = reader.lower text := by
  rw [byWord] at found
  by_cases yes : boolean = true ∧ reader.lower text ∈ ["true", "yes", "y"]
  · rw [if_pos yes, Option.some_inj] at found
    exact .inl ⟨yes.1, .inl found.symm⟩
  · rw [if_neg yes] at found
    by_cases no : boolean = true ∧ reader.lower text ∈ ["false", "no", "n"]
    · rw [if_pos no, Option.some_inj] at found
      exact .inl ⟨no.1, .inr found.symm⟩
    · rw [if_neg no] at found
      have named := List.find?_some found
      exact .inr ⟨(reader.mem_order _ _).mp (List.mem_of_find?_eq_some found), of_decide_eq_true named⟩

/-- The three ways to read a text. -/
theorem decoded_eq_some {boolean : Bool} {codes : List (Char × String)} {text k : String} :
    decoded reader boolean codes text = some k ↔
      match (codeOf text).bind fun c => codes.lookup c with
      | some answer => answer = k
      | none => if text ∈ codes.map Prod.snd then text = k
          else byWord reader boolean (codes.map Prod.snd) text = some k := by
  unfold decoded
  dsimp only
  cases (codeOf text).bind fun c => codes.lookup c with
  | some answer => exact Option.some_inj
  | none =>
      dsimp only
      by_cases inside : text ∈ codes.map Prod.snd
      · rw [if_pos inside, if_pos inside, Option.some_inj]
      · rw [if_neg inside, if_neg inside]

theorem trimmed_word {k : String} (word : k = "true" ∨ k = "false") :
    trimmed k = k ∧ codeOf k = none ∧ k.toList.all Char.isLower = true := by
  rcases word with rfl | rfl
  · decide
  · decide

theorem decoded_fixed_iff {boolean : Bool} {codes : List (Char × String)} {k : String}
    (allowed : k ∈ codes.map Prod.snd) :
    decoded reader boolean codes (trimmed k) = some k ↔ Steady codes k := by
  rw [decoded_eq_some]
  unfold Steady
  cases (codeOf (trimmed k)).bind fun c => codes.lookup c with
  | some answer => exact Iff.rfl
  | none =>
      dsimp only
      by_cases whole : trimmed k = k
      · rw [whole, if_pos allowed]
        exact Iff.rfl
      · refine iff_of_false (fun found => ?_) whole
        by_cases inside : trimmed k ∈ codes.map Prod.snd
        · rw [if_pos inside] at found
          exact whole found
        · rw [if_neg inside] at found
          rcases byWord_eq_some reader found with ⟨-, word⟩ | ⟨-, same⟩
          · exact whole (trimmed_word word).1
          · exact lower_trimmed reader whole same

/-- The words of a boolean are read as themselves. -/
theorem decoded_word {codes : List (Char × String)} {k : String} (word : k = "true" ∨ k = "false") :
    decoded reader true codes (trimmed k) = some k := by
  obtain ⟨whole, code, small⟩ := trimmed_word word
  rw [decoded_eq_some, whole, code, Option.bind_none]
  dsimp only
  by_cases inside : k ∈ codes.map Prod.snd
  · rw [if_pos inside]
  · rw [if_neg inside, byWord, reader.lower_plain k small]
    rcases word with rfl | rfl
    · rfl
    · rfl

theorem mem_of_lookup {codes : List (Char × String)} {c : Char} {k : String}
    (found : codes.lookup c = some k) : (c, k) ∈ codes := by
  obtain ⟨front, back, rfl, -⟩ := List.lookup_eq_some_iff.mp found
  simp

theorem decoded_mem {boolean : Bool} {codes : List (Char × String)} {text k : String}
    (found : decoded reader boolean codes text = some k) :
    k ∈ codes.map Prod.snd ∨ boolean = true ∧ (k = "true" ∨ k = "false") := by
  rw [decoded_eq_some] at found
  cases code : (codeOf text).bind fun c => codes.lookup c with
  | some answer =>
      rw [code] at found
      obtain ⟨c, -, looked⟩ := Option.bind_eq_some_iff.mp code
      exact .inl (List.mem_map.mpr ⟨_, mem_of_lookup looked, found⟩)
  | none =>
      rw [code] at found
      dsimp only at found
      by_cases inside : text ∈ codes.map Prod.snd
      · rw [if_pos inside] at found
        exact .inl (found ▸ inside)
      · rw [if_neg inside] at found
        exact (byWord_eq_some reader found).symm.imp_left And.left

theorem read_other (boolean : Bool) (codes : List (Char × String)) (text : String) :
    read reader boolean codes (.other text) = decoded reader boolean codes (trimmed text) := rfl

theorem read_mem {boolean : Bool} {codes : List (Char × String)} {raw : Value} {k : String}
    (found : read reader boolean codes raw = some k) :
    k ∈ codes.map Prod.snd ∨ boolean = true ∧ (k = "true" ∨ k = "false") := by
  cases raw with
  | bool b =>
      obtain ⟨inside, same⟩ := Option.ite_none_right_eq_some.mp found
      exact .inl (Option.some.inj same ▸ inside)
  | null =>
      have text : decoded reader boolean codes (trimmed "") = some k := found
      exact decoded_mem reader text
  | number q text =>
      have text : decoded reader boolean codes (trimmed text) = some k := found
      exact decoded_mem reader text
  | other text =>
      rw [read_other] at found
      exact decoded_mem reader found

/-! ## The codes of a field -/

theorem codeMap_ok {spec : Field} {codes : List (Char × String)} (made : codeMap spec = .ok codes) :
    ∃ keys : List String, codes = CODES.zip keys := by
  unfold codeMap at made
  cases chosen : choices spec with
  | error why =>
      rw [chosen] at made
      cases made
  | ok got =>
      rw [chosen] at made
      cases made
      exact ⟨_, rfl⟩

theorem codes_once : CODES.Nodup := by
  decide

theorem map_fst_zip_sublist {α β : Type} (l : List α) (l' : List β) :
    ((l.zip l').map Prod.fst).Sublist l := by
  induction l generalizing l' with
  | nil => exact .slnil
  | cons a l ih =>
      cases l' with
      | nil => exact List.nil_sublist _
      | cons b l' => exact (ih l').cons_cons a

/-- A letter is read as the choice it is the code of. -/
theorem read_code {spec : Field} {codes : List (Char × String)} (made : codeMap spec = .ok codes)
    {c : Char} {k : String} (member : (c, k) ∈ codes) (boolean : Bool) :
    read reader boolean codes (.other (.singleton c)) = some k := by
  obtain ⟨keys, rfl⟩ := codeMap_ok made
  have listed : c ∈ CODES := (List.of_mem_zip member).1
  have plain : (CODES.all fun c =>
      trimmed (.singleton c) = .singleton c ∧ codeOf (.singleton c) = some c) = true := by
    decide
  obtain ⟨whole, code⟩ := of_decide_eq_true (List.all_eq_true.mp plain c listed)
  have found : (CODES.zip keys).lookup c = some k := by
    refine List.lookup_eq_some_iff.mpr ?_
    obtain ⟨front, back, shape⟩ := List.append_of_mem member
    refine ⟨front, back, shape, fun entry before => ?_⟩
    have firsts := codes_once.sublist (map_fst_zip_sublist CODES keys)
    rw [shape, List.map_append, List.map_cons, List.nodup_append] at firsts
    rw [bne_iff_ne]
    exact (firsts.2.2 _ (List.mem_map_of_mem before) _ List.mem_cons_self).symm
  rw [read_other, decoded_eq_some, whole, code, Option.bind_some, found]

theorem read_letter {spec : Field} {codes : List (Char × String)} (made : codeMap spec = .ok codes)
    {k : String} (allowed : k ∈ codes.map Prod.snd) (boolean : Bool) :
    ∃ raw, read reader boolean codes raw = some k := by
  obtain ⟨⟨c, k⟩, member, rfl⟩ := List.mem_map.mp allowed
  exact ⟨_, read_code reader made member boolean⟩

theorem read_fixed_iff {spec : Field} {codes : List (Char × String)} (made : codeMap spec = .ok codes)
    (boolean : Bool) :
    (∀ raw k, read reader boolean codes raw = some k → read reader boolean codes (.other k) = some k) ↔
      ∀ k ∈ codes.map Prod.snd, Steady codes k := by
  constructor
  · intro fixed k allowed
    obtain ⟨raw, found⟩ := read_letter reader made allowed boolean
    have again := fixed raw k found
    rw [read_other] at again
    exact (decoded_fixed_iff reader allowed).mp again
  · intro steady raw k found
    rw [read_other]
    rcases read_mem reader found with allowed | ⟨rfl, word⟩
    · exact (decoded_fixed_iff reader allowed).mpr (steady k allowed)
    · exact decoded_word reader word

theorem answerKey_eq {spec : Field} {codes : List (Char × String)} (made : codeMap spec = .ok codes)
    (raw : Value) :
    answerKey reader raw spec = .ok (read reader (spec.type = "boolean") codes raw) := by
  rw [answerKey, made]
  rfl

theorem fixed_iff {spec : Field} {codes : List (Char × String)} (made : codeMap spec = .ok codes) :
    (∀ raw k, answerKey reader raw spec = .ok (some k) → answerKey reader (.other k) spec = .ok (some k)) ↔
      ∀ k ∈ codes.map Prod.snd, Steady codes k := by
  rw [← read_fixed_iff reader made (spec.type = "boolean")]
  simp only [answerKey_eq reader made, Except.ok.injEq]

/-! ## A schema that is accepted -/

/-- Every field has its codes. -/
def Coded (schema : Schema) : Prop :=
  ∀ name spec, schema.get? name = some spec → ∃ codes, codeMap spec = .ok codes

theorem coded_of_validate {schema : Schema} {answers : Ordered String Value}
    (accepted : validate schema answers = .ok ()) : Coded schema := by
  intro name spec held
  unfold validate at accepted
  split at accepted
  next => cases accepted
  next =>
    obtain ⟨_, each, -⟩ := bind_ok accepted
    have one := forM_ok each _ (Ordered.get?_eq_some.mp held)
    dsimp only at one
    unfold validateField at one
    split at one
    next => cases one
    next =>
      obtain ⟨allowed, chosen, -⟩ := bind_ok one
      exact ⟨_, by rw [codeMap, chosen]; rfl⟩

/-! ## What is written -/

variable {exp : ℚ → ℚ}

/-- The mass of choices of a field. -/
def Massed (codes : List (Char × String)) (mass : Ordered String ℚ) : Prop :=
  ∀ entry ∈ mass.items, entry.1 ∈ codes.map Prod.snd ∧ 0 ≤ entry.2

theorem addMass_massed (nonneg : ∀ x, 0 ≤ exp x) {codes : List (Char × String)} {mass : Ordered String ℚ}
    (massed : Massed codes mass) (entry : Entry) : Massed codes (addMass exp codes mass entry) := by
  unfold addMass
  split
  next answer lp code value =>
    rintro ⟨k, p⟩ member
    rcases Ordered.mem_insert.mp member with ⟨rfl, rfl⟩ | ⟨-, inside⟩
    · obtain ⟨c, -, looked⟩ := Option.bind_eq_some_iff.mp code
      refine ⟨List.mem_map.mpr ⟨_, mem_of_lookup looked, rfl⟩, add_nonneg ?_ (nonneg lp)⟩
      cases held : mass.get? k with
      | none => exact le_refl _
      | some p => exact (massed _ (Ordered.get?_eq_some.mp held)).2
    · exact massed _ inside
  next => exact massed

theorem massAt_massed (nonneg : ∀ x, 0 ≤ exp x) (codes : List (Char × String)) (answer : String)
    (tok : Token) : Massed codes (massAt exp codes answer tok) := by
  have empty : Massed codes ∅ := fun entry member => absurd member (List.not_mem_nil)
  have run : ∀ (seen : List Entry) (mass : Ordered String ℚ), Massed codes mass →
      Massed codes (seen.foldl (addMass exp codes) mass) := by
    intro seen
    induction seen with
    | nil => exact fun mass massed => massed
    | cons entry rest ih => exact fun mass massed => ih _ (addMass_massed nonneg massed entry)
  unfold massAt
  split
  next => exact empty
  next => exact run _ ∅ empty

/-- What is written of a completion are answers that were read, and masses of their choices. -/
structure Sound (schema : Schema) (written : Written) : Prop where
  answered : ∀ name k, written.answers.get? name = some k → ∃ spec raw, schema.get? name = some spec ∧
    answerKey reader raw spec = .ok (some k)
  massed : ∀ name mass, written.probabilities.get? name = some mass →
    (∃ k, written.answers.get? name = some k) ∧ mass.items ≠ [] ∧ ∃ spec codes,
      schema.get? name = some spec ∧ codeMap spec = .ok codes ∧ Massed codes mass

theorem Sound.answer {schema : Schema} {written : Written} (sound : Sound reader schema written)
    {name k : String} {spec : Field} {raw : Value} (held : schema.get? name = some spec)
    (got : answerKey reader raw spec = .ok (some k)) :
    Sound reader schema { written with answers := written.answers.insert name k } := by
  refine ⟨fun other k' found => ?_, fun other mass found => ?_⟩
  · rw [Ordered.get?_insert] at found
    split at found
    next same =>
      cases found
      exact ⟨spec, raw, same ▸ held, got⟩
    next => exact sound.answered other k' found
  · obtain ⟨⟨k', answered⟩, rest⟩ := sound.massed other mass found
    refine ⟨?_, rest⟩
    dsimp only
    rw [Ordered.get?_insert]
    split
    next => exact ⟨k, rfl⟩
    next => exact ⟨k', answered⟩

theorem Sound.mass {schema : Schema} {written : Written} (sound : Sound reader schema written)
    {name k : String} {spec : Field} {codes : List (Char × String)} {mass : Ordered String ℚ}
    (held : schema.get? name = some spec) (made : codeMap spec = .ok codes)
    (answered : written.answers.get? name = some k) (some_ : mass.items ≠ []) (massed : Massed codes mass) :
    Sound reader schema { written with probabilities := written.probabilities.insert name mass } := by
  refine ⟨sound.answered, fun other mass' found => ?_⟩
  dsimp only at found ⊢
  rw [Ordered.get?_insert] at found
  split at found
  next same =>
    cases found
    exact ⟨⟨k, same ▸ answered⟩, some_, spec, codes, same ▸ held, made, massed⟩
  next => exact sound.massed other mass' found

theorem writeField_sound (nonneg : ∀ x, 0 ≤ exp x) {schema : Schema} (coded : Coded schema)
    (body : Ordered String Value) (letters : List Token) {written : Written}
    (sound : Sound reader schema written) (item : String × Nat) :
    ∃ next, writeField reader exp body letters schema written item = .ok next ∧
      Sound reader schema next := by
  obtain ⟨name, i⟩ := item
  unfold writeField
  dsimp only
  cases held : schema.get? name with
  | none => exact ⟨written, rfl, sound⟩
  | some spec =>
      cases said : body.get? name with
      | none => exact ⟨written, rfl, sound⟩
      | some raw =>
          obtain ⟨codes, made⟩ := coded name spec held
          have asked := answerKey_eq reader made raw
          dsimp only
          rw [asked]
          dsimp only [bind, Except.bind]
          cases got : read reader (spec.type = "boolean") codes raw with
          | none => exact ⟨written, rfl, sound⟩
          | some answer =>
              rw [got] at asked
              have sound' := sound.answer reader held asked
              dsimp only
              cases letters[i]? with
              | none => exact ⟨_, rfl, sound'⟩
              | some tok =>
                  dsimp only
                  rw [made]
                  dsimp only
                  split
                  next => exact ⟨_, rfl, sound'⟩
                  next some_ =>
                    have answered : (written.answers.insert name answer).get? name = some answer := by
                      rw [Ordered.get?_insert, if_pos rfl]
                    exact ⟨_, rfl, sound'.mass reader held made answered some_
                      (massAt_massed nonneg codes answer tok)⟩

theorem fromLogprobs_sound (nonneg : ∀ x, 0 ≤ exp x) {schema : Schema} (coded : Coded schema)
    (body : Ordered String Value) (tokens : List Token) :
    ∃ written, fromLogprobs reader exp body tokens schema = .ok written ∧ Sound reader schema written := by
  have run : ∀ (items : List (String × Nat)) (written : Written), Sound reader schema written →
      ∃ next, items.foldlM (writeField reader exp body (letters tokens) schema) written = .ok next ∧
        Sound reader schema next := by
    intro items
    induction items with
    | nil => exact fun written sound => ⟨written, rfl, sound⟩
    | cons item rest ih =>
        intro written sound
        obtain ⟨next, step, sound'⟩ := writeField_sound reader nonneg coded body (letters tokens) sound item
        obtain ⟨last, others, sound''⟩ := ih next sound'
        exact ⟨last, foldlM_cons_ok.mpr ⟨next, step, others⟩, sound''⟩
  refine run _ {} ⟨fun name k held => ?_, fun name mass held => ?_⟩
  · cases held
  · cases held

/-! ## What is written, read again -/

/-- A mass where it is: each choice has what was written for it, in proportion. -/
def attached (spec : Field) (mass : Ordered String ℚ) : Option (List (String × ℚ)) :=
  (codeMap spec).toOption.bind fun codes =>
    normalized ((blank codes).map fun entry => (entry.1, (mass.get? entry.1).getD 0))

/-- Each entry of a distribution is added to the choice it names. -/
theorem foldlM_addEntry {boolean : Bool} {codes : List (Char × String)} (entries : List (String × ℚ))
    (fixed : ∀ entry ∈ entries, read reader boolean codes (.other entry.1) = some entry.1)
    (nonneg : ∀ entry ∈ entries, 0 ≤ entry.2) (got : List (String × ℚ))
    (inside : ∀ entry ∈ entries, entry.1 ∈ got.map Prod.fst) :
    (entries.map fun entry => (entry.1, some (Decimal.Number.finite entry.2))).foldlM
        (addEntry reader boolean codes) got =
      .ok (got.map fun held => (held.1,
        held.2 + ((entries.filter fun entry => entry.1 = held.1).map Prod.snd).sum)) := by
  induction entries generalizing got with
  | nil =>
      rw [List.map_nil, List.foldlM_nil]
      simp only [List.filter_nil, List.map_nil, List.sum_nil, add_zero, Prod.mk.eta, List.map_id']
      rfl
  | cons entry rest ih =>
      obtain ⟨here, fixed⟩ := List.forall_mem_cons.mp fixed
      obtain ⟨pos, nonneg⟩ := List.forall_mem_cons.mp nonneg
      obtain ⟨there, inside⟩ := List.forall_mem_cons.mp inside
      have step : addEntry reader boolean codes got (entry.1, some (.finite entry.2)) =
          .ok (got.map fun held => if held.1 = entry.1 then (held.1, held.2 + entry.2) else held) := by
        rw [addEntry]
        dsimp only
        rw [here]
        dsimp only
        rw [if_neg (not_lt.mpr pos), addTo, if_pos there]
      have names : (got.map fun held => if held.1 = entry.1 then (held.1, held.2 + entry.2) else held).map
          Prod.fst = got.map Prod.fst := by
        rw [List.map_map]
        refine List.map_congr_left fun held _ => ?_
        rw [Function.comp_apply]
        split <;> rfl
      rw [List.map_cons, foldlM_cons_ok]
      refine ⟨_, step, ?_⟩
      rw [ih fixed nonneg _ (by rwa [names]), List.map_map]
      refine congrArg Except.ok (List.map_congr_left fun held _ => ?_)
      rw [Function.comp_apply, List.filter_cons]
      by_cases same : held.1 = entry.1
      · simp [same, add_assoc]
      · simp [same, Ne.symm same]

theorem mem_blank {codes : List (Char × String)} {k : String} :
    k ∈ (blank codes).map Prod.fst ↔ k ∈ codes.map Prod.snd := by
  have names : ((codes.map Prod.snd).map fun a => (a, (0 : ℚ))).map Prod.fst = codes.map Prod.snd := by
    rw [List.map_map]
    exact List.map_id _
  exact Ordered.mem_keys_fill.trans (by rw [names])

theorem blank_zero {codes : List (Char × String)} {entry : String × ℚ} (member : entry ∈ blank codes) :
    entry.2 = 0 := by
  obtain ⟨_, _, same⟩ := List.mem_map.mp (Ordered.mem_fill_iff.mp member).mem
  exact (congrArg Prod.snd same).symm

theorem distribution_written {spec : Field} {codes : List (Char × String)}
    (made : codeMap spec = .ok codes) (steady : ∀ k ∈ codes.map Prod.snd, Steady codes k)
    {mass : Ordered String ℚ} (some_ : mass.items ≠ []) (massed : Massed codes mass) :
    distribution reader (some (mass.items.map fun entry => (entry.1, some (.finite entry.2)))) spec =
      .ok (attached spec mass) := by
  have fixed : ∀ entry ∈ mass.items,
      read reader (spec.type = "boolean") codes (.other entry.1) = some entry.1 := by
    intro entry member
    have allowed := (massed entry member).1
    rw [read_other]
    exact (decoded_fixed_iff reader allowed).mpr (steady _ allowed)
  have added := foldlM_addEntry reader mass.items fixed (fun entry member => (massed entry member).2)
    (blank codes) fun entry member => mem_blank.mpr (massed entry member).1
  have sums : ((blank codes).map fun held => (held.1,
      held.2 + ((mass.items.filter fun entry => entry.1 = held.1).map Prod.snd).sum)) =
      (blank codes).map fun entry => (entry.1, (mass.get? entry.1).getD 0) := by
    refine List.map_congr_left fun held member => ?_
    rw [blank_zero member, Ordered.filter_items, zero_add]
    cases mass.get? held.1 with
    | none => rfl
    | some p => simp
  rw [sums] at added
  obtain ⟨first, rest, shape⟩ := List.exists_cons_of_ne_nil some_
  unfold distribution attached
  rw [shape] at added ⊢
  rw [List.map_cons] at added ⊢
  dsimp only
  rw [made]
  dsimp only [bind, Except.bind]
  rw [added]
  rfl

/-- What is read of a completion. -/
def firstParse (written : Written) (item : String × Field) : String × Parsed :=
  (item.1, { answer := written.answers.get? item.1
             probs := (written.probabilities.get? item.1).bind (attached item.2) })

/-- Decoding again changes nothing: every answer key is read as itself, and what is written of a
    completion is read as the answers that were read of it, each probability at its choice. -/
structure Idempotent (schema : Schema) : Prop where
  fixed : ∀ name spec, schema.get? name = some spec → ∀ raw k,
    answerKey reader raw spec = .ok (some k) → answerKey reader (.other k) spec = .ok (some k)
  again : ∀ exp : ℚ → ℚ, (∀ x, 0 ≤ exp x) → ∀ body tokens, ∃ written,
    fromLogprobs reader exp body tokens schema = .ok written ∧
      parse reader written.artifact schema = .ok (schema.items.map (firstParse written))

theorem parse_written {schema : Schema}
    (steady : ∀ name spec codes, schema.get? name = some spec → codeMap spec = .ok codes →
      ∀ k ∈ codes.map Prod.snd, Steady codes k)
    {written : Written} (sound : Sound reader schema written) :
    parse reader written.artifact schema = .ok (schema.items.map (firstParse written)) := by
  refine mapM_of_ok fun item member => ?_
  obtain ⟨name, spec⟩ := item
  have held := Ordered.get?_eq_some.mpr member
  have answer : ((written.artifact.answers.get? name).elim (.ok none) fun raw => answerKey reader raw spec) =
      .ok (written.answers.get? name) := by
    rw [Written.artifact, Ordered.get?_mapValues]
    cases answered : written.answers.get? name with
    | none => rfl
    | some k =>
        obtain ⟨spec', raw, held', got⟩ := sound.answered name k answered
        obtain rfl := Option.some.inj (held.symm.trans held')
        obtain ⟨codes, made, -⟩ := map_ok got
        exact (fixed_iff reader made).mpr (steady name spec codes held made) raw k got
  have dist : distribution reader ((written.artifact.probabilities.get? name).getD none) spec =
      .ok ((written.probabilities.get? name).bind (attached spec)) := by
    rw [Written.artifact, Ordered.get?_mapValues]
    cases massed : written.probabilities.get? name with
    | none => rfl
    | some mass =>
        obtain ⟨-, some_, spec', codes, held', made, inside⟩ := sound.massed name mass massed
        obtain rfl := Option.some.inj (held.symm.trans held')
        exact distribution_written reader made (steady name spec codes held made) some_ inside
  have settled : (written.answers.get? name).or
      (((written.probabilities.get? name).bind (attached spec)).bind likeliest) =
        written.answers.get? name := by
    cases answered : written.answers.get? name with
    | some k => rfl
    | none =>
        cases massed : written.probabilities.get? name with
        | none => rfl
        | some mass =>
            obtain ⟨⟨k, also⟩, -⟩ := sound.massed name mass massed
            rw [answered] at also
            cases also
  dsimp only
  rw [parseField, answer]
  dsimp only [bind, Except.bind]
  rw [dist]
  dsimp only
  rw [settled]
  rfl

/-- Decoding is idempotent exactly where every choice is the letter of itself, or no letter of its field
    and not trimmed. -/
theorem idempotent_iff (schema : Schema) (answers : Ordered String Value)
    (accepted : validate schema answers = .ok ()) :
    Idempotent reader schema ↔ ∀ name spec codes, schema.get? name = some spec →
      codeMap spec = .ok codes → ∀ k ∈ codes.map Prod.snd, Steady codes k := by
  constructor
  · intro idem name spec codes held made
    exact (fixed_iff reader made).mp (idem.fixed name spec held)
  · intro steady
    have coded := coded_of_validate accepted
    refine ⟨fun name spec held => ?_, fun exp nonneg body tokens => ?_⟩
    · obtain ⟨codes, made⟩ := coded name spec held
      exact (fixed_iff reader made).mpr (steady name spec codes held made)
    · obtain ⟨written, made, sound⟩ := fromLogprobs_sound reader nonneg coded body tokens
      exact ⟨written, made, parse_written reader steady sound⟩

/-- The casing of ASCII, and sets in the order they are filled. -/
def ascii : Reader where
  lower := Text.lower
  width _ := 1
  width_pos _ := Nat.one_pos
  length_lower s := by simp [Text.lower]
  lower_plain s small := by
    have each : s.toList.map Char.toLower = s.toList := by
      conv_rhs => rw [← List.map_id s.toList]
      refine List.map_congr_left fun c member => ?_
      have lower : (decide (c.val ≥ 97) && decide (c.val ≤ 122)) = true :=
        List.all_eq_true.mp small c member
      simp only [Bool.and_eq_true, decide_eq_true_eq, ge_iff_le, UInt32.le_iff_toNat_le] at lower
      exact dif_neg fun big => absurd (lower.1.trans (UInt32.le_iff_toNat_le.mp big.2)) (by decide)
    rw [Text.lower, each, String.ofList_toList]
  order := id
  mem_order _ _ := Iff.rfl

def severity : Schema :=
  .fill [("severity", { type := "enum", choices := [.other "low", .other "high"], description := "How bad" })]

def swapped : Schema :=
  .fill [("grade", { type := "enum", choices := [.other "B", .other "A"], description := "Which grade" })]

theorem severity_idempotent : Idempotent ascii severity := by
  have accepted : validate severity (.fill [("severity", .other "low")]) = .ok () := rfl
  refine (idempotent_iff ascii severity _ accepted).mpr fun name spec codes held made => ?_
  have only := Ordered.get?_eq_some.mp held
  obtain ⟨rfl, rfl⟩ := Prod.mk.inj (List.mem_singleton.mp only)
  obtain rfl : codes = [('A', "low"), ('B', "high")] := (Except.ok.inj made).symm
  unfold Steady
  decide

def chance (x : ℚ) : ℚ := if x = 0 then 1 else 9 / 10

def reply : Ordered String Value := .fill [("grade", .other "A")]

def replyTokens : List Token :=
  [{ token := "\x7b", logprob := some (.finite 0) },
    { token := "A", logprob := some (.finite 0),
      topLogprobs := [{ token := "A", logprob := some (.finite 0) },
        { token := "B", logprob := some (.finite (-1)) }] }]

/-- The reply is the letter of choice B, and is read again as choice A. -/
theorem grade_moves : validate swapped (.fill [("grade", .other "A")]) = .ok () ∧
    ∃ written, fromLogprobs ascii chance reply replyTokens swapped = .ok written ∧
      swapped.items.map (firstParse written) =
        [("grade", { answer := some "B", probs := some [("B", 10 / 19), ("A", 9 / 19)] })] ∧
      parse ascii written.artifact swapped =
        .ok [("grade", { answer := some "A", probs := some [("B", 9 / 19), ("A", 10 / 19)] })] ∧
      ¬ Idempotent ascii swapped := by
  have seen : ((fromLogprobs ascii chance reply replyTokens swapped).toOption.map fun written =>
      (swapped.items.map (firstParse written), parse ascii written.artifact swapped)) =
      some ([("grade", { answer := some "B", probs := some [("B", 10 / 19), ("A", 9 / 19)] })],
        .ok [("grade", { answer := some "A", probs := some [("B", 9 / 19), ("A", 10 / 19)] })]) := by
    decide +kernel
  obtain ⟨written, made, same⟩ := seen_ok seen
  obtain ⟨first, second⟩ := Prod.mk.inj same
  refine ⟨rfl, written, made, first, second, fun idem => ?_⟩
  have moved := idem.fixed "grade" _ rfl (.other "A") "B" (by decide)
  revert moved
  decide

end LocalHarness.Checks
