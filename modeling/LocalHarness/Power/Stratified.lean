import Mathlib.Algebra.Order.Floor.Div
import LocalHarness.Library.Binary64
import LocalHarness.Library.Fallible
import LocalHarness.Library.Ordered

/-! # Rates for cases that were not measured

A case without draws takes one of the measured rates, the places in their sorted list spread over the cases
in floats. As long as cases times rates stay below two to the 52 the places are what exact arithmetic makes
them, so that each rate is taken as often as another, or once more.
-/

namespace LocalHarness.Power.Stratified

open LocalHarness.Library Binary64

inductive Raised
  | overflow
  | index
  | key
  deriving DecidableEq

def UNSEEN : ℚ := 1 / 2

/-- A result as a float; past the greatest one it is infinite, and no whole number. -/
def float (q : ℚ) : Except Raised ℚ :=
  if 2 ^ 1024 ≤ nearest q then .error .overflow else .ok (nearest q)

/-- `int((j + 0.5) * len / n)` -/
def place (len n j : ℕ) : Except Raised ℕ := do
  let half ← float ((← float j) + 1 / 2)
  let scaled ← float (half * (← float len))
  let share ← float (scaled / (← float n))
  return ⌊share⌋.toNat

def item (ordered : List ℚ) (i : ℕ) : Except Raised ℚ :=
  (ordered[i]?).elim (.error .index) .ok

def stratified (values : List ℚ) (n : ℕ) : Except Raised (List ℚ) :=
  if n = 0 then .ok []
  else
    let ordered := values.insertionSort (· ≤ ·)
    (List.range n).mapM fun j => do item ordered (← place ordered.length n j)

/-- `sum(v) / len(v)` -/
def mean (v : List Bool) : ℚ :=
  nearest (v.count true / v.length)

def drawn (draws : Ordered String (List Bool)) (id : String) : List Bool :=
  (draws.get? id).getD []

def unmeasured (draws : Ordered String (List Bool)) (case_ids : List String) : List String :=
  case_ids.filter fun c => drawn draws c = []

/-- The rates of the cases that were measured. -/
def measured (draws : Ordered String (List Bool)) : List ℚ :=
  (draws.values.filter (· ≠ [])).map mean

/-- The rates of so many cases that were not measured. -/
def projected (draws : Ordered String (List Bool)) (n : ℕ) : Except Raised (List ℚ) :=
  if measured draws = [] then .ok (List.replicate n UNSEEN) else stratified (measured draws) n

/-- What `out` is filled with: the rates of the measured cases, then those of the others in their order. -/
def rated (draws : Ordered String (List Bool)) (case_ids : List String) (fill : List ℚ) : List (String × ℚ) :=
  (case_ids.filter fun c => drawn draws c ≠ []).map (fun c => (c, mean (drawn draws c))) ++
    ((unmeasured draws case_ids).insertionSort (· ≤ ·)).zip fill

/-- `out[cid]`, under its case. -/
def entry (out : Ordered String ℚ) (c : String) : Except Raised (String × ℚ) :=
  (out.get? c).elim (.error .key) fun rate => .ok (c, rate)

def ratesFrom (draws : Ordered String (List Bool)) (case_ids : List String) :
    Except Raised (Ordered String ℚ × ℕ) := do
  let missing := (unmeasured draws case_ids).insertionSort (· ≤ ·)
  let fill ← projected draws missing.length
  let out := Ordered.fill (rated draws case_ids fill)
  let rates ← case_ids.mapM (entry out)
  return (.fill rates, (case_ids.map fun c => (drawn draws c).length).sum)

/-! ## The places -/

variable {len n j i : ℕ} {q : ℚ}

theorem float_of_nearest (exact_ : nearest q = q) (small : q < 2 ^ 53) : float q = .ok q := by
  have finite : ¬ (2 : ℚ) ^ 1024 ≤ q := by
    refine not_le.mpr (small.trans ?_)
    gcongr <;> norm_num
  rw [float, exact_, if_neg finite]

theorem float_nat {k : ℕ} (small : k < 2 ^ 53) : float k = .ok (k : ℚ) :=
  float_of_nearest (nearest_nat small) (by exact_mod_cast small)

theorem float_half {k : ℕ} (small : k < 2 ^ 53) : float (k / 2) = .ok ((k : ℚ) / 2) := by
  refine float_of_nearest (nearest_half small) ?_
  have cast : (k : ℚ) < 2 ^ 53 := by exact_mod_cast small
  have nonneg : (0 : ℚ) ≤ k := Nat.cast_nonneg k
  linarith

/-- Where place is short of two to the 53 halves, rounding does not take a share past its whole part. -/
theorem float_share {a l : ℕ} (some_ : 0 < a) (draws : 0 < n) (inside : a < 2 * n * l) (bits : 2 * n * l ≤ 2 ^ 53) :
    ∃ share, float ((a : ℚ) / 2 / n) = .ok share ∧ ⌊share⌋.toNat = a / (2 * n) := by
  have wide : (0 : ℚ) < 2 * n := by exact_mod_cast Nat.mul_pos (by decide : 0 < 2) draws
  have shape : (a : ℚ) / 2 / n = a / (2 * n) := div_div _ _ _
  have pos : (0 : ℚ) < a / (2 * n) := div_pos (by exact_mod_cast some_) wide
  have below : ((a / (2 * n) : ℕ) : ℚ) ≤ a / (2 * n) := by
    rw [le_div_iff₀ wide]
    exact_mod_cast Nat.div_mul_le_self a (2 * n)
  have next : (a : ℚ) / (2 * n) + 1 / (2 * n) ≤ (a / (2 * n) : ℕ) + 1 := by
    rw [← add_div, div_le_iff₀ wide]
    have whole := Nat.lt_mul_div_succ a (Nat.mul_pos (by decide : 0 < 2) draws)
    rw [mul_comm] at whole
    exact_mod_cast whole
  have length : (a : ℚ) / (2 * n) < l := by
    rw [div_lt_iff₀ wide, mul_comm]
    exact_mod_cast inside
  have unit : (l : ℚ) / 2 ^ 53 ≤ 1 / (2 * n) := by
    rw [div_le_div_iff₀ (by norm_num) wide, one_mul, mul_comm]
    exact_mod_cast bits
  have apart : (a : ℚ) / (2 * n) + a / (2 * n) / 2 ^ 53 < ((a / (2 * n) : ℕ) : ℤ) + 1 := by
    have error : (a : ℚ) / (2 * n) / 2 ^ 53 < l / 2 ^ 53 := by gcongr
    rw [Int.cast_natCast]
    linarith
  have short : (l : ℚ) ≤ 2 ^ 53 := by
    exact_mod_cast (Nat.le_mul_of_pos_left l (Nat.mul_pos (by decide : 0 < 2) draws)).trans bits
  have whole := floor_nearest pos (length.trans_le short) (by exact_mod_cast below) apart
  have finite : ¬ (2 : ℚ) ^ 1024 ≤ nearest (a / (2 * n)) := by
    intro past
    have least := Int.lt_floor_add_one (nearest ((a : ℚ) / (2 * n)))
    have limit : (2 : ℚ) ^ 54 ≤ 2 ^ 1024 := pow_le_pow_right₀ (by norm_num) (by norm_num)
    have reach := limit.trans past
    rw [whole, Int.cast_natCast] at least
    clear past limit
    linarith
  refine ⟨nearest (a / (2 * n)), ?_, by rw [whole, Int.toNat_natCast]⟩
  rw [shape, float, if_neg finite]

theorem place_eq (some_ : 0 < len) (inside : j < n) (small : n * len ≤ 2 ^ 52) :
    place len n j = .ok ((2 * j + 1) * len / (2 * n)) := by
  have draws : 0 < n := Nat.zero_lt_of_lt inside
  have many : n ≤ n * len := Nat.le_mul_of_pos_right n some_
  have long : len ≤ n * len := Nat.le_mul_of_pos_left len draws
  have product : (2 * j + 1) * len < 2 * n * len := by
    gcongr
    omega
  have bits : 2 * n * len ≤ 2 ^ 53 := by
    rw [Nat.mul_assoc]
    omega
  have numbers : float j = .ok (j : ℚ) ∧ float len = .ok (len : ℚ) ∧ float n = .ok (n : ℚ) :=
    ⟨float_nat (by omega), float_nat (by omega), float_nat (by omega)⟩
  have half : float ((j : ℚ) + 1 / 2) = .ok (((2 * j + 1 : ℕ) : ℚ) / 2) := by
    rw [← @float_half (2 * j + 1) (by omega)]
    push_cast
    ring_nf
  have scaled : float (((2 * j + 1 : ℕ) : ℚ) / 2 * len) = .ok ((((2 * j + 1) * len : ℕ) : ℚ) / 2) := by
    rw [← float_half (product.trans_le bits)]
    push_cast
    ring_nf
  obtain ⟨share, found, whole⟩ := float_share (Nat.mul_pos (Nat.succ_pos _) some_) draws product bits
  unfold place
  rw [numbers.1]
  change (float ((j : ℚ) + 1 / 2) >>= _) = _
  rw [half, numbers.2.1, numbers.2.2]
  change (float (((2 * j + 1 : ℕ) : ℚ) / 2 * len) >>= _) = _
  rw [scaled]
  change (float ((((2 * j + 1) * len : ℕ) : ℚ) / 2 / n) >>= _) = _
  rw [found, ← whole]
  rfl

/-! ## How often a place is taken -/

/-- The first of the draws that is at a place or after it. -/
def start (len n i : ℕ) : ℕ :=
  (2 * n * i + (len - 1)) / (2 * len)

theorem lt_start_iff (some_ : 0 < len) (draws : 0 < n) :
    j < start len n i ↔ (2 * j + 1) * len / (2 * n) < i := by
  rw [start, Nat.div_lt_iff_lt_mul (by omega), ← Nat.succ_le_iff, Nat.le_div_iff_mul_le (by omega)]
  have left : (j + 1) * (2 * len) = 2 * (j * len) + 2 * len := by ring
  have right : (2 * j + 1) * len = 2 * (j * len) + len := by ring
  have middle : i * (2 * n) = 2 * n * i := by ring
  rw [Nat.succ_eq_add_one, left, right, middle]
  omega

theorem start_succ (some_ : 0 < len) :
    start len n (i + 1) = start len n i + n / len ∨ start len n (i + 1) = start len n i + n ⌈/⌉ len := by
  have next : 2 * n * (i + 1) + (len - 1) = (2 * n * i + (len - 1)) + 2 * n := by ring
  have twice : 2 * n / (2 * len) = n / len := Nat.mul_div_mul_left n len (by decide)
  rw [start, next, Nat.add_div (by omega), twice]
  split
  next carried =>
    have left : 2 * n % (2 * len) ≠ 0 := by
      intro none
      have less := Nat.mod_lt (2 * n * i + (len - 1)) (Nat.mul_pos (by decide : 0 < 2) some_)
      omega
    rw [Nat.mul_mod_mul_left] at left
    have up : n ⌈/⌉ len = n / len + 1 := by
      have parts := Nat.div_add_mod n len
      have less := Nat.mod_lt n some_
      rw [Nat.ceilDiv_eq_add_pred_div]
      refine Nat.div_eq_of_lt_le ?_ ?_
      · rw [Nat.add_mul, Nat.mul_comm (n / len)]
        omega
      · rw [Nat.add_mul, Nat.add_mul, Nat.mul_comm (n / len)]
        omega
    exact .inr (by rw [up, ← Nat.add_assoc]; rfl)
  next => exact .inl rfl

theorem countP_range_between {a b : ℕ} (le : a ≤ b) (n : ℕ) :
    (List.range n).countP (fun j => a ≤ j ∧ j < b) = min n b - min n a := by
  induction n with
  | zero => simp
  | succ n ih =>
      rw [List.range_succ, List.countP_append, ih, List.countP_singleton]
      split
      next inside =>
        have inside := of_decide_eq_true inside
        omega
      next outside =>
        have outside := of_decide_eq_false (Bool.eq_false_iff.mpr outside)
        omega

/-- What a list of places is when it is spread over a list of values: each is taken as often as another, or
once more. -/
structure Spread (places : List ℕ) (len : ℕ) : Prop where
  inside : ∀ i ∈ places, i < len
  evenly : ∀ i < len, places.count i = places.length / len ∨ places.count i = places.length ⌈/⌉ len

/-- The places as exact arithmetic makes them. -/
def places (len n : ℕ) : List ℕ :=
  (List.range n).map fun j => (2 * j + 1) * len / (2 * n)

theorem places_spread (some_ : 0 < len) (draws : 0 < n) : Spread (places len n) len where
  inside := by
    intro i member
    obtain ⟨j, below, rfl⟩ := List.mem_map.mp member
    have below := List.mem_range.mp below
    rw [Nat.div_lt_iff_lt_mul (by omega), Nat.mul_comm len]
    gcongr
    omega
  evenly := by
    intro i below
    have last : start len n len = n := by
      have all : 2 * n * len + (len - 1) = (len - 1) + (2 * len) * n := by ring
      rw [start, all, Nat.add_mul_div_left _ _ (by omega), Nat.div_eq_of_lt (by omega), Nat.zero_add]
    have mono : Monotone (start len n) := by
      intro a b le
      unfold start
      gcongr
    have upper : start len n (i + 1) ≤ n := (mono below).trans last.le
    have lower : start len n i ≤ start len n (i + 1) := mono (Nat.le_succ i)
    have count : (places len n).count i = start len n (i + 1) - start len n i := by
      rw [places, List.count, List.countP_map]
      have same : ∀ j, ((· == i) ∘ fun j => (2 * j + 1) * len / (2 * n)) j =
          decide (start len n i ≤ j ∧ j < start len n (i + 1)) := by
        intro j
        have from_ := @lt_start_iff len n j i some_ draws
        have until_ := @lt_start_iff len n j (i + 1) some_ draws
        simp only [Function.comp_apply, beq_eq_decide, decide_eq_decide]
        generalize (2 * j + 1) * len / (2 * n) = k at from_ until_
        omega
      rw [funext same, countP_range_between lower]
      omega
    rw [count, places, List.length_map, List.length_range]
    rcases @start_succ len n i some_ with same | same
    · exact .inl (by omega)
    · exact .inr (by omega)

/-! ## The values that are drawn -/

/-- The value at a place of the sorted list. -/
def at_ (values : List ℚ) (i : ℕ) : ℚ :=
  (values.insertionSort (· ≤ ·)).getD i 0

variable {values : List ℚ}

theorem item_eq (inside : i < (values.insertionSort (· ≤ ·)).length) :
    item (values.insertionSort (· ≤ ·)) i = .ok (at_ values i) := by
  rw [item, at_, List.getD_eq_getElem?_getD, List.getElem?_eq_getElem inside]
  rfl

theorem mapM_place (some_ : values ≠ []) (small : n * values.length ≤ 2 ^ 52) :
    (List.range n).mapM (place values.length n) = .ok (places values.length n) :=
  mapM_of_ok fun _ member =>
    place_eq (List.length_pos_iff.mpr some_) (List.mem_range.mp member) small

theorem stratified_eq (some_ : values ≠ []) (small : n * values.length ≤ 2 ^ 52) :
    stratified values n = .ok ((places values.length n).map (at_ values)) := by
  unfold stratified
  split
  next none =>
    subst none
    rfl
  next some_draws =>
    have length := List.length_insertionSort (· ≤ ·) values
    rw [places, List.map_map]
    refine mapM_of_ok fun j member => ?_
    have below := List.mem_range.mp member
    have pos := List.length_pos_iff.mpr some_
    have taken := place_eq pos below small
    have inside := (places_spread pos (Nat.pos_of_ne_zero some_draws)).inside _
      (List.mem_map_of_mem (List.mem_range.mpr below))
    rw [length, taken]
    exact item_eq (length ▸ inside)

section
variable {α : Type} [DecidableEq α] {xs : List α} {taken : List ℕ} {low high : ℕ} {x v : α}

/-- The draws at the last place are of the last value. -/
theorem countP_concat (inside : ∀ i ∈ taken, i < xs.length + 1) :
    taken.countP (fun i => (xs ++ [x])[i]? = some v) =
      (taken.filter (· < xs.length)).countP (fun i => xs[i]? = some v) +
        if x = v then taken.count xs.length else 0 := by
  rw [List.countP_eq_countP_filter_add taken _ fun i => decide (i < xs.length)]
  congr 1
  · refine List.countP_congr fun i member => ?_
    have below := of_decide_eq_true (List.mem_filter.mp member).2
    rw [List.getElem?_append_left below]
  · rw [List.countP_filter]
    have last : ∀ i ∈ taken, ¬ i < xs.length → i = xs.length := by
      intro i member past
      have most := inside i member
      omega
    split
    next same =>
      refine List.countP_congr fun i member => ?_
      simp only [Bool.and_eq_true, decide_eq_true_eq, Bool.not_eq_true', decide_eq_false_iff_not, beq_iff_eq]
      constructor
      · exact fun found => last i member found.2
      · rintro rfl
        simp [same]
    next apart =>
      refine List.countP_eq_zero.mpr fun i member => ?_
      simp only [Bool.and_eq_true, decide_eq_true_eq, Bool.not_eq_true', decide_eq_false_iff_not]
      rintro ⟨found, past⟩
      rw [last i member past, List.getElem?_concat_length] at found
      exact apart (Option.some.inj found)

/-- Where each place is taken so often, a value is taken so often for each time it is in the list. -/
theorem countP_between (v : α) (inside : ∀ i ∈ taken, i < xs.length)
    (each : ∀ i < xs.length, low ≤ taken.count i ∧ taken.count i ≤ high) :
    xs.count v * low ≤ taken.countP (fun i => xs[i]? = some v) ∧
      taken.countP (fun i => xs[i]? = some v) ≤ xs.count v * high := by
  induction xs using List.reverseRecOn generalizing taken with
  | nil =>
      have empty : taken = [] :=
        List.eq_nil_iff_forall_not_mem.mpr fun i member => Nat.not_lt_zero i (inside i member)
      simp [empty]
  | append_singleton xs x ih =>
      rw [List.length_append, List.length_singleton] at inside each
      have before := @ih (taken.filter (· < xs.length))
        (fun i member => of_decide_eq_true (List.mem_filter.mp member).2)
        (fun i below => by
          have same := @List.count_filter _ _ _ (fun j => decide (j < xs.length)) i taken (decide_eq_true below)
          rw [same]
          exact each i (Nat.lt_succ_of_lt below))
      have last := each xs.length (Nat.lt_succ_self _)
      rw [countP_concat inside, List.count_append]
      by_cases same : x = v
      · rw [if_pos same, same, List.count_singleton_self, Nat.add_mul, Nat.add_mul, one_mul, one_mul]
        omega
      · have none : [x].count v = 0 := List.count_eq_zero_of_not_mem (by simpa using Ne.symm same)
        rw [if_neg same, none]
        exact before

end

/-- Each value is drawn as often as it is there for each round over the list, up to one draw more for each. -/
def KeepsShares (values taken : List ℚ) : Prop :=
  ∀ v, values.count v * (taken.length / values.length) ≤ taken.count v ∧
    taken.count v ≤ values.count v * (taken.length ⌈/⌉ values.length)

theorem floor_le_ceil (a b : ℕ) : a / b ≤ a ⌈/⌉ b := by
  rcases Nat.eq_zero_or_pos b with rfl | pos
  · simp
  · rw [Nat.ceilDiv_eq_add_pred_div]
    exact Nat.div_le_div_right (by omega)

theorem Spread.keepsShares {taken : List ℕ} (spread : Spread taken values.length) :
    KeepsShares values (taken.map (at_ values)) := by
  intro v
  have length := List.length_insertionSort (· ≤ ·) values
  have inside : ∀ i ∈ taken, i < (values.insertionSort (· ≤ ·)).length :=
    fun i member => length ▸ spread.inside i member
  have bounds := @countP_between _ _ (values.insertionSort (· ≤ ·)) taken _ _ v inside fun i below => by
    have floor := floor_le_ceil taken.length values.length
    rcases spread.evenly i (length ▸ below) with same | same <;> rw [same]
    · exact ⟨le_rfl, floor⟩
    · exact ⟨floor, le_rfl⟩
  have count : (taken.map (at_ values)).count v =
      taken.countP fun i => (values.insertionSort (· ≤ ·))[i]? = some v := by
    rw [List.count, List.countP_map]
    refine List.countP_congr fun i member => ?_
    simp [at_, List.getElem?_eq_getElem (inside i member)]
  rw [List.length_map, count, ← (List.perm_insertionSort (· ≤ ·) values).count_eq v]
  exact bounds

/-! ## The rates of the cases -/

variable {draws : Ordered String (List Bool)} {case_ids : List String} {fill : List ℚ}

theorem map_get?_zip {keys : List String} {dict : Ordered String ℚ} (length : keys.length = fill.length)
    (each : ∀ pair ∈ keys.zip fill, dict.get? pair.1 = some pair.2) : keys.map dict.get? = fill.map some := by
  rw [← List.map_fst_zip length.le, List.map_map]
  conv_rhs => rw [← List.map_snd_zip length.ge, List.map_map]
  exact List.map_congr_left each

theorem keys_rated (length : fill.length = (unmeasured draws case_ids).length) :
    (rated draws case_ids fill).map Prod.fst =
      (case_ids.filter fun c => drawn draws c ≠ []) ++ (unmeasured draws case_ids).insertionSort (· ≤ ·) := by
  have sorted := List.length_insertionSort (· ≤ ·) (unmeasured draws case_ids)
  rw [rated, List.map_append, List.map_map, List.map_fst_zip (by omega)]
  congr 1
  exact List.map_id _

theorem keys_rated_perm (length : fill.length = (unmeasured draws case_ids).length) :
    ((rated draws case_ids fill).map Prod.fst).Perm case_ids := by
  rw [keys_rated length]
  have parts := List.filter_append_perm (fun c => decide (drawn draws c ≠ [])) case_ids
  refine (List.Perm.append_left _ ((List.perm_insertionSort (· ≤ ·) _).trans ?_)).trans parts
  rw [unmeasured]
  simp

/-- What a dictionary made from a function holds. -/
theorem get?_fill_map {keys : List String} {f : String → ℚ} {id : String} (member : id ∈ keys) :
    (Ordered.fill (keys.map fun c => (c, f c))).get? id = some (f id) := by
  have key : id ∈ (Ordered.fill (keys.map fun c => (c, f c))).keys := by
    rw [Ordered.mem_keys_fill, List.map_map]
    exact List.mem_map_of_mem member
  obtain ⟨rate, found⟩ := Ordered.mem_keys.mp key
  obtain ⟨other, _, same⟩ := List.mem_map.mp (Ordered.mem_fill_iff.mp (Ordered.get?_eq_some.mp found)).mem
  cases same
  exact found

/-- Every case has a rate, and those that were not measured have the ones that were drawn for them. -/
theorem ratesFrom_ok (length : fill.length = (unmeasured draws case_ids).length)
    (filled : projected draws (unmeasured draws case_ids).length = .ok fill) :
    ∃ rates seen, ratesFrom draws case_ids = .ok (rates, seen) ∧
      (∀ id ∈ case_ids, ∃ rate, rates.get? id = some rate) ∧
      (case_ids.Nodup →
        ((unmeasured draws case_ids).insertionSort (· ≤ ·)).map rates.get? = fill.map some) := by
  have sorted := List.length_insertionSort (· ≤ ·) (unmeasured draws case_ids)
  have perm := keys_rated_perm length
  have held : ∀ id ∈ case_ids, ∃ rate, (Ordered.fill (rated draws case_ids fill)).get? id = some rate :=
    fun id member => Ordered.mem_keys.mp (Ordered.mem_keys_fill.mpr (perm.mem_iff.mpr member))
  have each : ∀ id ∈ case_ids, entry (.fill (rated draws case_ids fill)) id =
      .ok (id, ((Ordered.fill (rated draws case_ids fill)).get? id).getD 0) := by
    intro id member
    obtain ⟨rate, found⟩ := held id member
    rw [entry, found]
    rfl
  have made : ratesFrom draws case_ids = .ok
      (.fill (case_ids.map fun id => (id, ((Ordered.fill (rated draws case_ids fill)).get? id).getD 0)),
        (case_ids.map fun c => (drawn draws c).length).sum) := by
    unfold ratesFrom
    change (projected draws _ >>= _) = _
    rw [sorted, filled]
    change (case_ids.mapM (entry (.fill (rated draws case_ids fill))) >>= _) = _
    rw [mapM_of_ok each]
    rfl
  refine ⟨_, _, made, fun id member => ⟨_, get?_fill_map member⟩, fun once => ?_⟩
  refine map_get?_zip (by omega) fun pair member => ?_
  have items := Ordered.fill_of_once (perm.nodup_iff.mpr once)
  have listed : (pair.1, pair.2) ∈ (Ordered.fill (rated draws case_ids fill)).items := by
    rw [items]
    exact List.mem_append_right _ member
  have own : pair.1 ∈ case_ids :=
    List.mem_of_mem_filter ((List.perm_insertionSort (· ≤ ·) _).mem_iff.mp (List.of_mem_zip member).1)
  rw [get?_fill_map own, Ordered.get?_eq_some.mpr listed]
  rfl

theorem projected_ok (few : n * (measured draws).length ≤ 2 ^ 52) :
    ∃ fill, projected draws n = .ok fill ∧ fill.length = n ∧
      (measured draws ≠ [] → KeepsShares (measured draws) fill) := by
  by_cases none : measured draws = []
  · exact ⟨List.replicate n UNSEEN, if_pos none, List.length_replicate, fun some_ => absurd none some_⟩
  · refine ⟨_, (if_neg none).trans (stratified_eq none few), by simp [places], fun _ => ?_⟩
    rcases Nat.eq_zero_or_pos n with rfl | pos
    · exact fun v => by simp [places]
    · exact (places_spread (List.length_pos_iff.mpr none) pos).keepsShares

/-- While cases times rates are at most two to the 52, each place is in the list and taken as often as another
or once more; every case has a rate, and those of the cases that were not measured are as the measured ones. -/
theorem few_spread :
    (∀ (values : List ℚ) (n : ℕ), values ≠ [] → 0 < n → n * values.length ≤ 2 ^ 52 →
      ∃ taken, (List.range n).mapM (place values.length n) = .ok taken ∧ taken.length = n ∧
        Spread taken values.length ∧ stratified values n = .ok (taken.map (at_ values))) ∧
    ∀ (draws : Ordered String (List Bool)) (case_ids : List String),
      (unmeasured draws case_ids).length * (measured draws).length ≤ 2 ^ 52 →
      ∃ rates seen, ratesFrom draws case_ids = .ok (rates, seen) ∧
        (∀ id ∈ case_ids, ∃ rate, rates.get? id = some rate) ∧
        (case_ids.Nodup → measured draws ≠ [] →
          KeepsShares (measured draws) ((unmeasured draws case_ids).filterMap rates.get?)) := by
  constructor
  · intro values n some_ pos few
    exact ⟨_, mapM_place some_ few, by simp [places],
      places_spread (List.length_pos_iff.mpr some_) pos, stratified_eq some_ few⟩
  · intro draws case_ids few
    obtain ⟨fill, filled, length, shares⟩ := projected_ok few
    obtain ⟨rates, seen, returned, all, own⟩ := ratesFrom_ok length filled
    refine ⟨rates, seen, returned, all, fun once some_ v => ?_⟩
    have perm : ((unmeasured draws case_ids).filterMap rates.get?).Perm fill := by
      refine ((List.perm_insertionSort (· ≤ ·) _).symm.filterMap _).trans (.of_eq ?_)
      rw [← Function.id_comp rates.get?, ← List.filterMap_map, own once, List.filterMap_map]
      exact List.filterMap_some
    rw [perm.length_eq, perm.count_eq]
    exact shares some_ v

theorem two_rates_over_three :
    (∃ taken, (List.range 3).mapM (place 2 3) = .ok taken ∧ taken.length = 3 ∧ Spread taken 2 ∧
      stratified [1, 0] 3 = .ok (taken.map (at_ [1, 0]))) ∧
    ∃ rates seen, ratesFrom (.fill [("a", [true]), ("b", [false])]) ["a", "c"] = .ok (rates, seen) ∧
      (∀ id ∈ ["a", "c"], ∃ rate, rates.get? id = some rate) ∧
      (["a", "c"].Nodup → measured (.fill [("a", [true]), ("b", [false])]) ≠ [] →
        KeepsShares (measured (.fill [("a", [true]), ("b", [false])]))
          ((unmeasured (.fill [("a", [true]), ("b", [false])]) ["a", "c"]).filterMap rates.get?)) :=
  ⟨few_spread.1 [1, 0] 3 (by decide) (by decide) (by decide), few_spread.2 _ _ (by decide)⟩

theorem place_past {k : ℕ} (past : 2 ^ 52 ≤ k) (small : k + 1 < 2 ^ 53) (odd : k % 2 = 1) :
    place 1 (k + 1) k = .ok 1 := by
  have next : float ((k : ℚ) + 1 / 2) = .ok (((k + 1 : ℕ) : ℚ)) := by
    have kept := float_nat small
    rw [float, nearest_nat small] at kept
    rw [float, nearest_half_past past small.le odd, ← Nat.cast_succ]
    exact kept
  have scaled : float (((k + 1 : ℕ) : ℚ) * (1 : ℕ)) = .ok ((k + 1 : ℕ) : ℚ) := by
    rw [Nat.cast_one, mul_one, float_nat small]
  have one : float (1 : ℕ) = .ok ((1 : ℕ) : ℚ) := float_nat (by decide)
  have share : float (((k + 1 : ℕ) : ℚ) / (k + 1 : ℕ)) = .ok ((1 : ℕ) : ℚ) := by
    rw [div_self (by positivity), ← one, Nat.cast_one]
  unfold place
  rw [float_nat (Nat.lt_of_succ_lt small)]
  change (float ((k : ℚ) + 1 / 2) >>= _) = _
  rw [next, one, float_nat small]
  change (float (((k + 1 : ℕ) : ℚ) * (1 : ℕ)) >>= _) = _
  rw [scaled]
  change (float (((k + 1 : ℕ) : ℚ) / (k + 1 : ℕ)) >>= _) = _
  rw [share]
  change Except.ok ⌊((1 : ℕ) : ℚ)⌋.toNat = Except.ok 1
  rw [Int.floor_natCast]
  rfl

theorem stratified_past {k : ℕ} (v : ℚ) {taken : List ℚ} (past : place 1 (k + 1) k = .ok 1) :
    stratified [v] (k + 1) ≠ .ok taken := by
  intro returned
  rw [stratified, if_neg (Nat.succ_ne_zero k)] at returned
  obtain ⟨rate, -, found⟩ := ok_of_mapM returned (List.mem_range.mpr (Nat.lt_succ_self k))
  rw [List.length_insertionSort, List.length_singleton, past] at found
  cases found

/-- The last of two to the 52 draws and two is past the one value there is. -/
theorem last_draw_past :
    place 1 (2 ^ 52 + 2) (2 ^ 52 + 1) = .ok 1 ∧ ∀ taken, stratified [1] (2 ^ 52 + 2) ≠ .ok taken := by
  have past : place 1 (2 ^ 52 + 1 + 1) (2 ^ 52 + 1) = .ok 1 := place_past (by decide) (by decide) (by decide)
  exact ⟨past, fun _ => stratified_past 1 past⟩

end LocalHarness.Power.Stratified
