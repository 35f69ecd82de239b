import Mathlib.Order.Bounds.Basic
import LocalHarness.Context.Values

/-! # The context a model is served at

The length it was trained for, or less where the cache of so many tokens does not fit, in whole steps. A pool
asked for by name is taken as it is or not at all.
-/

namespace LocalHarness.Context

open Library

def floor : ℤ := 8192

def step : ℤ := 1024

/-- `CACHE_BYTES` -/
def cacheBytes (cacheType : String) : Option (ℤ × ℤ) :=
  [("f32", 4, 1), ("f16", 2, 1), ("bf16", 2, 1), ("q8_0", 34, 32), ("q5_1", 24, 32), ("q5_0", 22, 32),
    ("q4_1", 20, 32), ("q4_0", 18, 32), ("iq4_nl", 18, 32)].lookup cacheType

structure Choice where
  ctx : ℤ
  trained : ℤ
  kvPerToken : ℤ
  why : String
  deriving DecidableEq

section

variable (py : Interpreter) (header : Meta)

/-- `_arch`, of a key that may not be there. -/
def arch? (key : String) : Option Value :=
  let name := py.text ((header.lookup "general.architecture").getD (.str ""))
  header.lookup s!"{name}.{key}"

def arch (key : String) (default : Value) : Value :=
  (arch? py header key).getD default

/-- `int(_arch(meta, key) or 0)` -/
def count (key : String) : Except Fault ℤ :=
  py.int ((arch py header key .none).or (.int 0))

/-- The context the model was trained for, 0 when the header does not say. -/
def trained : Except Fault ℤ :=
  count py header "context_length"

/-- The number of layers that have a cache, of so many blocks. -/
def kvLayers (blocks : ℤ) : Except Fault ℤ := do
  let nextn ← count py header "nextn_predict_layers"
  let interval ← count py header "full_attention_interval"
  return if 1 < interval then (blocks - nextn).fdiv interval else blocks - nextn

/-- `_kv_heads`: the heads of each layer that has a cache. -/
def kvHeads : Except Fault (List ℤ) := do
  let blocks ← count py header "block_count"
  match arch py header "attention.head_count_kv" (arch py header "attention.head_count" .none) with
  | .list items => (items.filter Value.truthy).mapM py.int
  | heads =>
      if heads.truthy && blocks ≠ 0 then do
        let layers ← kvLayers py header blocks
        let each ← py.int heads
        py.replicate each layers
      else return []

/-- What a head takes where the header does not say. -/
def perHead : Except Fault Value := do
  let heads ← match arch py header "attention.head_count" .none with
    | .list items => Value.largest items
    | heads => pure heads
  let embd := arch py header "embedding_length" .none
  if embd.truthy && heads.truthy then py.floordiv embd heads else return .int 0

def kvBytesPerToken (cacheType : String) : Except Fault ℤ := do
  let heads ← kvHeads py header
  let perHead ← perHead py header
  let k ← py.int ((arch py header "attention.key_length" .none).or perHead)
  let v ← py.int ((arch py header "attention.value_length" .none).or perHead)
  match cacheBytes cacheType with
  | some (num, den) => return ((heads.map (· * (k + v))).sum * num).fdiv den
  | none => throw (.key (py.quoted cacheType))

end

/-- What the weights leave of the budget, or less under a cap. -/
def roomFor (weights budget : ℤ) (kvCap : Option ℤ) : ℤ :=
  let room := max (budget - weights) 0
  match kvCap with
  | some cap => min room cap
  | none => room

/-- `n // STEP * STEP` -/
def stepsOf (n : ℤ) : ℤ :=
  n.fdiv step * step

section

variable (py : Interpreter)

/-- What a context is too short for. -/
def shortfall (full per room fits floor : ℤ) : Except Fault String :=
  if full < floor then do return s!"trained for {← decimal full}"
  else do
    let room ← py.gibibytes room
    let fits ← decimal fits
    let per ← decimal per
    return s!"{room} GiB of KV room holds {fits} tokens at {per} B/token"

/-- `choose`, of what the header says. -/
def chooseWithin (full per room slots floor : ℤ) : Except Fault Choice :=
  if full = 0 ∨ per = 0 then
    .ok ⟨0, full, per, "refused: the GGUF header gives no trained context or KV shape to size a cache from"⟩
  else
    let fits := stepsOf ((room.fdiv per).fdiv (max slots 1))
    let ctx := min (if stepsOf full ≠ 0 then stepsOf full else full) fits
    if ctx < floor then do
      let limit ← shortfall py full per room fits floor
      return ⟨0, full, per, s!"refused: {limit}, under the {← decimal floor}-token floor"⟩
    else if ctx < full then do
      let tokens ← decimal fits
      let room ← py.gibibytes room
      let cost ← decimal per
      let trained ← decimal full
      return ⟨ctx, full, per,
        s!"memory: {tokens} tokens fit in {room} GiB of KV at {cost} B/token (trained {trained})"⟩
    else do
      let trained ← decimal full
      let cost ← py.gibibytes (per * ctx)
      return ⟨ctx, full, per, s!"trained: {trained} tokens, {cost} GiB of KV fits"⟩

def choose (header : Meta) (weights budget slots : ℤ) (cacheType : String) (floor : ℤ)
    (kvCap : Option ℤ) : Except Fault Choice := do
  let full ← trained py header
  let per ← kvBytesPerToken py header cacheType
  chooseWithin py full per (roomFor weights budget kvCap) slots floor

/-- `choose_slots`, of what the header says. -/
def chooseSlotsWithin (full per room slots slotCtx : ℤ) : Except Fault Choice :=
  if per = 0 ∨ full = 0 ∨ full < slotCtx then do
    let slots ← decimal slots
    let slotCtx ← decimal slotCtx
    let trained ← decimal full
    let cost ← decimal per
    return ⟨0, full, per,
      s!"refused: {slots} slots of {slotCtx} tokens, trained for {trained}, {cost} B/token"⟩
  else if room < slots * slotCtx * per then do
    let count ← decimal slots
    let length ← decimal slotCtx
    let need ← py.gibibytes (slots * slotCtx * per)
    let room ← py.gibibytes room
    return ⟨0, full, per,
      s!"refused: {count} slots of {length} tokens need {need} GiB of KV, {room} GiB fits"⟩
  else do
    let count ← decimal slots
    let length ← decimal slotCtx
    let need ← py.gibibytes (slots * slotCtx * per)
    return ⟨slots * slotCtx, full, per, s!"slots: {count} x {length} tokens, {need} GiB of KV (#665)"⟩

def chooseSlots (header : Meta) (weights budget slots slotCtx : ℤ) (cacheType : String)
    (kvCap : Option ℤ) : Except Fault Choice := do
  let full ← trained py header
  let per ← kvBytesPerToken py header cacheType
  chooseSlotsWithin py full per (roomFor weights budget kvCap) slots slotCtx

end

/-! ## The longest context that can be had -/

/-- The caches of so many slots with a context of `n` are within the room. What a header makes negative is
measured the other way round, so that it fits no room but one a cap makes negative. -/
def Affordable (per slots room n : ℤ) : Prop :=
  0 < per ∧ n * slots * per ≤ room ∨ per < 0 ∧ room ≤ n * slots * per

/-- A context that may be served: whole steps, or all of a trained length that is no whole step while a
step can be afforded. -/
structure Admissible (full per slots room floor n : ℤ) : Prop where
  positive : 0 < n
  above : floor ≤ n
  trained : n ≤ full
  stepped : step ∣ n ∨ n = full ∧ full < step
  fits : Affordable per (max slots 1) room (max n step)

theorem step_pos : 0 < step := by
  decide

theorem step_dvd_stepsOf (n : ℤ) : step ∣ stepsOf n :=
  Int.dvd_mul_left ..

theorem stepsOf_le (n : ℤ) : stepsOf n ≤ n := by
  rw [stepsOf, Int.fdiv_eq_ediv_of_nonneg _ step_pos.le]
  exact Int.ediv_mul_le n step_pos.ne'

theorem le_stepsOf {m n : ℤ} (stepped : step ∣ m) (le : m ≤ n) : m ≤ stepsOf n := by
  obtain ⟨k, rfl⟩ := stepped
  rw [stepsOf, Int.fdiv_eq_ediv_of_nonneg _ step_pos.le, Int.mul_comm]
  refine Int.mul_le_mul_of_nonneg_right ((Int.le_ediv_iff_mul_le step_pos).mpr ?_) step_pos.le
  rwa [Int.mul_comm]

theorem step_le {n : ℤ} (stepped : step ∣ n) (positive : 0 < n) : step ≤ n :=
  Int.le_of_dvd positive stepped

theorem stepsOf_short {n : ℤ} (nonneg : 0 ≤ n) (short : n < step) : stepsOf n = 0 := by
  rw [stepsOf, Int.fdiv_eq_ediv_of_nonneg _ step_pos.le, Int.ediv_eq_zero_of_lt nonneg short, Int.zero_mul]

theorem le_fdiv_iff {per slots room n : ℤ} (costs : per ≠ 0) (some : 0 < slots) :
    n ≤ (room.fdiv per).fdiv slots ↔ Affordable per slots room n := by
  rw [Int.fdiv_eq_ediv_of_nonneg _ some.le, Int.le_ediv_iff_mul_le some]
  rcases lt_or_gt_of_ne costs with negative | positive
  · rw [← Int.neg_fdiv_neg, Int.fdiv_eq_ediv_of_nonneg _ (by omega), Int.le_ediv_iff_mul_le (by omega),
      Int.mul_neg, Int.neg_le_neg_iff]
    simp [Affordable, negative, negative.le]
  · rw [Int.fdiv_eq_ediv_of_nonneg _ positive.le, Int.le_ediv_iff_mul_le positive]
    simp [Affordable, positive, positive.le]

/-- The context `choose` comes to before it looks at the floor. -/
def longest (full per slots room : ℤ) : ℤ :=
  min (if stepsOf full ≠ 0 then stepsOf full else full) (stepsOf ((room.fdiv per).fdiv (max slots 1)))

theorem Admissible.costs {full per slots room floor n : ℤ}
    (admissible : Admissible full per slots room floor n) : full ≠ 0 ∧ per ≠ 0 := by
  obtain ⟨positive, _, trained, _, fits⟩ := admissible
  refine ⟨by omega, ?_⟩
  rcases fits with ⟨positive, _⟩ | ⟨negative, _⟩
  · exact positive.ne'
  · exact negative.ne

theorem Admissible.le_longest {full per slots room floor n : ℤ}
    (admissible : Admissible full per slots room floor n) : n ≤ longest full per slots room := by
  obtain ⟨_, costs⟩ := admissible.costs
  obtain ⟨positive, _, trained, stepped, fits⟩ := admissible
  have room := (le_fdiv_iff costs (lt_max_of_lt_right Int.one_pos)).mpr fits
  refine le_min ?_ ?_
  · split
    · next some =>
        rcases stepped with stepped | ⟨rfl, short⟩
        · exact le_stepsOf stepped trained
        · exact absurd (stepsOf_short positive.le short) some
    · exact trained
  · rcases stepped with stepped | ⟨rfl, short⟩
    · exact le_stepsOf stepped ((le_max_left ..).trans room)
    · exact short.le.trans (le_stepsOf (dvd_refl step) ((le_max_right ..).trans room))

theorem longest_admissible {full per slots room floor : ℤ} (costs : per ≠ 0)
    (positive : 0 < longest full per slots room) (above : floor ≤ longest full per slots room) :
    Admissible full per slots room floor (longest full per slots room) := by
  have most : 0 < max slots 1 := lt_max_of_lt_right Int.one_pos
  have afforded {n : ℤ} (le : n ≤ stepsOf ((room.fdiv per).fdiv (max slots 1))) :
      Affordable per (max slots 1) room n :=
    (le_fdiv_iff costs most).mp (le.trans (stepsOf_le _))
  by_cases whole : stepsOf full ≠ 0
  · have chosen : longest full per slots room =
        min (stepsOf full) (stepsOf ((room.fdiv per).fdiv (max slots 1))) := by
      rw [longest, if_pos whole]
    rw [chosen] at positive above ⊢
    have stepped : step ∣ min (stepsOf full) (stepsOf ((room.fdiv per).fdiv (max slots 1))) := by
      rcases min_choice (stepsOf full) (stepsOf ((room.fdiv per).fdiv (max slots 1))) with first | second
      · rw [first]
        exact step_dvd_stepsOf _
      · rw [second]
        exact step_dvd_stepsOf _
    refine ⟨positive, above, (min_le_left ..).trans (stepsOf_le full), .inl stepped, ?_⟩
    rw [max_eq_left (step_le stepped positive)]
    exact afforded (min_le_right ..)
  · have chosen : longest full per slots room =
        min full (stepsOf ((room.fdiv per).fdiv (max slots 1))) := by
      rw [longest, if_neg whole]
    rw [chosen] at positive above ⊢
    have short : full < step := by
      by_contra long
      have := le_stepsOf (dvd_refl step) (Int.not_lt.mp long)
      have := step_pos
      omega
    have one : step ≤ stepsOf ((room.fdiv per).fdiv (max slots 1)) :=
      step_le (step_dvd_stepsOf _) (lt_of_lt_of_le positive (min_le_right ..))
    rw [min_eq_left (short.le.trans one)] at positive above ⊢
    refine ⟨positive, above, le_rfl, .inr ⟨rfl, short⟩, ?_⟩
    rw [max_eq_right short.le]
    exact afforded one

theorem chooseWithin_ok {py : Interpreter} {full per room slots floor : ℤ} {choice : Choice}
    (chosen : chooseWithin py full per room slots floor = .ok choice) :
    ∃ why, choice = ⟨if (full = 0 ∨ per = 0) ∨ longest full per slots room < floor then 0
      else longest full per slots room, full, per, why⟩ := by
  rw [chooseWithin] at chosen
  by_cases unknown : full = 0 ∨ per = 0
  · rw [if_pos unknown] at chosen
    rw [if_pos (.inl unknown)]
    exact ⟨_, (Except.ok.inj chosen).symm⟩
  rw [if_neg unknown] at chosen
  change (if longest full per slots room < floor then _ else if longest full per slots room < full then _
    else _) = _ at chosen
  by_cases low : longest full per slots room < floor
  · rw [if_pos low] at chosen
    rw [if_pos (.inr low)]
    obtain ⟨limit, _, rest⟩ := bind_ok chosen
    obtain ⟨least, _, made⟩ := bind_ok rest
    exact ⟨_, pure_ok made⟩
  rw [if_neg low] at chosen
  rw [if_neg (not_or.mpr ⟨unknown, low⟩)]
  split at chosen
  · obtain ⟨tokens, _, rest⟩ := bind_ok chosen
    obtain ⟨size, _, rest⟩ := bind_ok rest
    obtain ⟨cost, _, rest⟩ := bind_ok rest
    obtain ⟨length, _, made⟩ := bind_ok rest
    exact ⟨_, pure_ok made⟩
  · obtain ⟨length, _, rest⟩ := bind_ok chosen
    obtain ⟨cost, _, made⟩ := bind_ok rest
    exact ⟨_, pure_ok made⟩

/-- What `choose` comes to is the longest context that may be served, and 0 when there is none. -/
theorem chooseWithin_greatest {py : Interpreter} {full per room slots : ℤ} {floor : Nat} {choice : Choice}
    (chosen : chooseWithin py full per room slots floor = .ok choice) :
    (choice.ctx ≠ 0 → IsGreatest {n | Admissible full per slots room floor n} choice.ctx) ∧
      (choice.ctx = 0 ↔ ∀ n, ¬ Admissible full per slots room floor n) := by
  obtain ⟨why, rfl⟩ := chooseWithin_ok chosen
  by_cases refused : (full = 0 ∨ per = 0) ∨ longest full per slots room < floor
  · simp only [if_pos refused]
    refine ⟨fun some => absurd rfl some, iff_of_true trivial fun n admissible => ?_⟩
    obtain ⟨trained, costs⟩ := admissible.costs
    rcases refused with (zero | zero) | low
    · exact trained zero
    · exact costs zero
    · exact absurd (admissible.above.trans admissible.le_longest) (Int.not_le.mpr low)
  · simp only [if_neg refused]
    obtain ⟨known, high⟩ := not_or.mp refused
    have above : floor ≤ longest full per slots room := Int.not_lt.mp high
    have served (some : longest full per slots room ≠ 0) :
        Admissible full per slots room floor (longest full per slots room) :=
      longest_admissible (not_or.mp known).2 (by omega) above
    refine ⟨fun some => ⟨served some, fun n admissible => admissible.le_longest⟩, fun zero n admissible => ?_,
      fun none => ?_⟩
    · have positive := admissible.positive
      have := admissible.le_longest
      omega
    · by_contra some
      exact none _ (served some)

theorem chooseSlotsWithin_ok {py : Interpreter} {full per room slots slotCtx : ℤ} {choice : Choice}
    (chosen : chooseSlotsWithin py full per room slots slotCtx = .ok choice) :
    ∃ why, choice = ⟨if (per = 0 ∨ full = 0 ∨ full < slotCtx) ∨ room < slots * slotCtx * per then 0
      else slots * slotCtx, full, per, why⟩ := by
  rw [chooseSlotsWithin] at chosen
  by_cases unknown : per = 0 ∨ full = 0 ∨ full < slotCtx
  · rw [if_pos unknown] at chosen
    rw [if_pos (.inl unknown)]
    obtain ⟨count, _, rest⟩ := bind_ok chosen
    obtain ⟨length, _, rest⟩ := bind_ok rest
    obtain ⟨trained, _, rest⟩ := bind_ok rest
    obtain ⟨cost, _, made⟩ := bind_ok rest
    exact ⟨_, pure_ok made⟩
  rw [if_neg unknown] at chosen
  by_cases tight : room < slots * slotCtx * per
  · rw [if_pos tight] at chosen
    rw [if_pos (.inr tight)]
    obtain ⟨count, _, rest⟩ := bind_ok chosen
    obtain ⟨length, _, rest⟩ := bind_ok rest
    obtain ⟨need, _, rest⟩ := bind_ok rest
    obtain ⟨left, _, made⟩ := bind_ok rest
    exact ⟨_, pure_ok made⟩
  · rw [if_neg tight] at chosen
    rw [if_neg (not_or.mpr ⟨unknown, tight⟩)]
    obtain ⟨count, _, rest⟩ := bind_ok chosen
    obtain ⟨length, _, rest⟩ := bind_ok rest
    obtain ⟨need, _, made⟩ := bind_ok rest
    exact ⟨_, pure_ok made⟩

/-- The header says how long a context may be and what a token of it costs. -/
structure Sized (py : Interpreter) (header : Meta) (cacheType : String) (choice : Choice) : Prop where
  trained : trained py header = .ok choice.trained
  cost : kvBytesPerToken py header cacheType = .ok choice.kvPerToken

theorem choose_ok {py : Interpreter} {header : Meta} {weights budget slots floor : ℤ} {cacheType : String}
    {kvCap : Option ℤ} {choice : Choice}
    (chosen : choose py header weights budget slots cacheType floor kvCap = .ok choice) :
    Sized py header cacheType choice ∧
      chooseWithin py choice.trained choice.kvPerToken (roomFor weights budget kvCap) slots floor =
        .ok choice := by
  obtain ⟨full, length, rest⟩ := bind_ok chosen
  obtain ⟨per, cost, within⟩ := bind_ok rest
  obtain ⟨why, rfl⟩ := chooseWithin_ok within
  exact ⟨⟨length, cost⟩, within⟩

theorem chooseSlots_ok {py : Interpreter} {header : Meta} {weights budget slots slotCtx : ℤ}
    {cacheType : String} {kvCap : Option ℤ} {choice : Choice}
    (chosen : chooseSlots py header weights budget slots slotCtx cacheType kvCap = .ok choice) :
    Sized py header cacheType choice ∧
      chooseSlotsWithin py choice.trained choice.kvPerToken (roomFor weights budget kvCap) slots slotCtx =
        .ok choice := by
  obtain ⟨full, length, rest⟩ := bind_ok chosen
  obtain ⟨per, cost, within⟩ := bind_ok rest
  obtain ⟨why, rfl⟩ := chooseSlotsWithin_ok within
  exact ⟨⟨length, cost⟩, within⟩

/-- A context is the longest that may be served, and 0 where there is none. A pool of slots is what was asked
for where each slot is within the trained length and all of them are within the room, and 0 elsewhere. -/
theorem chosen_spec (py : Interpreter) (header : Meta) (weights budget slots : ℤ) (cacheType : String)
    (kvCap : Option ℤ) :
    (∀ (floor : Nat) choice,
      choose py header weights budget slots cacheType floor kvCap = .ok choice →
        Sized py header cacheType choice ∧
        (choice.ctx ≠ 0 → IsGreatest
          {n | Admissible choice.trained choice.kvPerToken slots (roomFor weights budget kvCap) floor n}
          choice.ctx) ∧
        (choice.ctx = 0 ↔ ∀ n, ¬ Admissible choice.trained choice.kvPerToken slots
          (roomFor weights budget kvCap) floor n)) ∧
    (∀ slotCtx choice,
      chooseSlots py header weights budget slots slotCtx cacheType kvCap = .ok choice →
        Sized py header cacheType choice ∧
        (choice.ctx ≠ 0 → choice.ctx = slots * slotCtx) ∧
        (choice.ctx ≠ 0 ↔ choice.kvPerToken ≠ 0 ∧ choice.trained ≠ 0 ∧ slotCtx ≤ choice.trained ∧
          slots * slotCtx * choice.kvPerToken ≤ roomFor weights budget kvCap ∧ slots * slotCtx ≠ 0)) := by
  constructor
  · intro floor choice chosen
    obtain ⟨sized, within⟩ := choose_ok chosen
    exact ⟨sized, chooseWithin_greatest within⟩
  · intro slotCtx choice chosen
    obtain ⟨sized, within⟩ := chooseSlots_ok chosen
    refine ⟨sized, ?_⟩
    obtain ⟨why, made⟩ := chooseSlotsWithin_ok within
    by_cases refused : (choice.kvPerToken = 0 ∨ choice.trained = 0 ∨ choice.trained < slotCtx) ∨
        roomFor weights budget kvCap < slots * slotCtx * choice.kvPerToken
    · have zero : choice.ctx = 0 := by rw [made, if_pos refused]
      refine ⟨fun some => absurd zero some, iff_of_false (fun some => some zero) ?_⟩
      rintro ⟨costs, trained, within, fits, _⟩
      omega
    · have pool : choice.ctx = slots * slotCtx := by rw [made, if_neg refused]
      refine ⟨fun _ => pool, fun some => ?_, fun served => pool ▸ served.2.2.2.2⟩
      rw [pool] at some
      obtain ⟨known, fits⟩ := not_or.mp refused
      obtain ⟨costs, known⟩ := not_or.mp known
      obtain ⟨trained, within⟩ := not_or.mp known
      exact ⟨costs, trained, Int.not_lt.mp within, Int.not_lt.mp fits, some⟩

/-- The header of a model with eight heads of keys and values in each of 36 layers. -/
def qwen (length : ℤ) : Meta :=
  Dict.ofItems [("general.architecture", .str "qwen3"), ("qwen3.context_length", .int length),
    ("qwen3.block_count", .int 36), ("qwen3.embedding_length", .int 2560),
    ("qwen3.attention.head_count", .int 32), ("qwen3.attention.head_count_kv", .int 8),
    ("qwen3.attention.key_length", .int 128), ("qwen3.attention.value_length", .int 128)]

theorem qwen_chosen :
    IsGreatest {n | Admissible 262144 147456 1 (roomFor (10 * 1024 ^ 3) (16 * 1024 ^ 3) none) 8192 n} 43008 :=
  ((chosen_spec .usual (qwen 262144) (10 * 1024 ^ 3) (16 * 1024 ^ 3) 1 "f16" none).1 8192
    ⟨43008, 262144, 147456,
      "memory: 43008 tokens fit in 6.0 GiB of KV at 147456 B/token (trained 262144)"⟩
    (by decide +kernel)).2.1 (by decide)

/-- Eight slots of 4096 tokens are given to a model trained for 16384. -/
theorem slots_past_trained :
    ¬ ∀ header weights budget slots slotCtx kvCap choice,
      chooseSlots .usual header weights budget slots slotCtx "f16" kvCap = .ok choice → choice.ctx ≠ 0 →
        step ∣ choice.ctx ∧ floor ≤ choice.ctx ∧ choice.ctx ≤ choice.trained := by
  intro always
  have chosen : chooseSlots .usual (qwen 16384) (10 * 1024 ^ 3) (16 * 1024 ^ 3) 8 4096 "f16" none =
      .ok ⟨32768, 16384, 147456, "slots: 8 x 4096 tokens, 4.5 GiB of KV (#665)"⟩ := by decide +kernel
  exact absurd (always _ _ _ _ _ _ _ chosen (by decide)).2.2 (by decide)

end LocalHarness.Context
