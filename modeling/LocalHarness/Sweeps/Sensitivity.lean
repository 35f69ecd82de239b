import Mathlib.Data.List.Dedup
import Mathlib.Data.Option.Basic
import LocalHarness.Library.Fallible
import LocalHarness.Library.Ordered

/-! # Whether a constant does anything

What comes out at each value of a constant is compared with what comes out at its default, by how much of it
differs. A place that one of two outputs does not have is read as `None` there, which an output may hold itself.
-/

namespace LocalHarness.Sweeps.Sensitivity

open LocalHarness.Library

/-! ## Outputs -/

/-- What Python says of the values of an output and of the keys of a mapping; keys that are equal are one. -/
structure Objects (κ α : Type) where
  none_ : α
  /-- `==` -/
  eq : α → α → Bool
  truthy : α → Bool
  hashable : α → Bool
  /-- The characters of a string; none of a value that is no string. -/
  chars : α → Option (List α)
  /-- `<` does not raise. -/
  comparable : κ → κ → Bool

inductive SequenceKind
  | list
  | tuple
  deriving DecidableEq

inductive Output (κ α : Type)
  | scalar (a : α)
  | sequence (kind : SequenceKind) (items : List α)
  | mapping (entries : Ordered κ α)

inductive Raised
  /-- A key is not less than another, nor the other than it. -/
  | noOrder
  | noHash
  | noSequence
  /-- The default is not among the values swept. -/
  | noDefault

variable {κ α β : Type} (o : Objects κ α)

/-! ## Distances -/

/-- Positions whose occupant differs. -/
def moved (base other : List α) : Nat :=
  ((List.range (max base.length other.length)).filter fun i =>
    !o.eq (base[i]?.getD o.none_) (other[i]?.getD o.none_)).length

/-- The number of `rank_distance`. Its text has the items put in sets, which an item without a hash does not
allow. -/
def rank_distance (base other : List α) : Except Raised Nat :=
  if (base ++ other).all o.hashable then .ok (moved o base other) else .error .noHash

variable [DecidableEq κ]

def keysOf (base other : Ordered κ α) : List κ :=
  (base.keys ++ other.keys).dedup

/-- `sorted` compares keys until their order is known, so it raises where two of them have none. -/
def sortable (keys : List κ) : Bool :=
  keys.all fun a => keys.all fun b => a = b || o.comparable a b

/-- Keys whose value differs. -/
def map_distance (base other : Ordered κ α) : Except Raised Nat :=
  if sortable o (keysOf base other) then
    .ok ((keysOf base other).filter fun k =>
      !o.eq ((base.get? k).getD o.none_) ((other.get? k).getD o.none_)).length
  else .error .noOrder

def truthy : Output κ α → Bool
  | .scalar a => o.truthy a
  | .sequence _ items => items ≠ []
  | .mapping entries => entries.items ≠ []

/-- `distance`; a value that is no mapping has no `get`. -/
def distance (base other : Output κ α) : Except Raised Nat :=
  match base, other with
  | .mapping m, .mapping n => map_distance o m n
  | .mapping m, other => if truthy o other then .error .noSequence else map_distance o m ∅
  | base, .mapping n => if truthy o base then .error .noSequence else map_distance o ∅ n
  | .scalar a, .scalar b => .ok (if o.eq a b then 0 else 1)
  | .scalar _, .sequence _ _ => .ok 1
  | .sequence _ xs, .sequence _ ys => rank_distance o xs ys
  | .sequence _ xs, .scalar b =>
      match o.chars b with
      | some cs => rank_distance o xs cs
      | none => .error .noSequence

/-! ## Verdicts -/

structure Reading (β : Type) where
  value : β
  /-- Less than nothing where it could not be taken. -/
  distance : Int
  error : String
  quality : String

def FAILED : Int := -1

def Reading.taken (r : Reading β) : Bool :=
  r.distance ≠ FAILED

inductive Verdict
  | unmeasurable
  | inert
  | band
  | edge
  deriving DecidableEq

structure Finding (β : Type) where
  name : String
  default : β
  verdict : Verdict
  readings : List (Reading β)
  band : List β
  note : String

/-- From a place on down, as long as the one below is zero. -/
def lowest (zero : Nat → Bool) : Nat → Nat
  | 0 => 0
  | i + 1 => if zero i then lowest zero i else i + 1

/-- From a place on up, as long as the one above is zero, so many at most. -/
def highest (zero : Nat → Bool) : Nat → Nat → Nat
  | 0, i => i
  | more + 1, i => if zero (i + 1) then highest zero more (i + 1) else i

variable [DecidableEq β]

def verdict_for (default : β) (values : List β) (readings : List (Reading β)) :
    Except Raised (Verdict × List β) :=
  let taken := readings.filter Reading.taken
  if taken = [] then .ok (.unmeasurable, [])
  else if taken.all fun r => r.distance = 0 then .ok (.inert, taken.map Reading.value)
  else
    let byValue (v : β) := readings.reverse.find? fun r => r.value = v
    let order := values.filter fun v => (byValue v).any Reading.taken
    if default ∉ order then .error .noDefault
    else
      let zero (i : Nat) := (order[i]?.bind byValue).any fun r => r.distance = 0
      let i := order.idxOf default
      let band := (order.take (highest zero (order.length - 1 - i) i + 1)).drop (lowest zero i)
      .ok (if band.length = 1 then .edge else .band, band)

variable (run : β → Except String (Output κ α)) (quality : Option (β → Except String String))

/-- What the probe's own check says, or the name of what it raised. -/
def mark (value : β) : String :=
  match quality with
  | none => ""
  | some check =>
      match check value with
      | .ok said => said
      | .error exc => "check failed: " ++ exc

def readingAt (base : Output κ α) (value : β) : Except Raised (Reading β) :=
  match run value with
  | .error exc => .ok ⟨value, FAILED, String.ofList (exc.toList.take 160), ""⟩
  | .ok out => (distance o base out).map fun d : Nat => ⟨value, (d : Int), "", mark quality value⟩

def measure (name : String) (default : β) (values : List β) (note : String) : Except Raised (Finding β) :=
  match run default with
  | .error exc => .ok ⟨name, default, .unmeasurable, [⟨default, FAILED, String.ofList (exc.toList.take 160), ""⟩],
      [], note⟩
  | .ok base => do
      let readings ← values.mapM (readingAt o run quality base)
      let (verdict, band) ← verdict_for default values readings
      return ⟨name, default, verdict, readings, band, note⟩

/-! ## What a distance is for -/

/-- `==` -/
def same : Output κ α → Output κ α → Prop
  | .scalar a, .scalar b => o.eq a b = true
  | .sequence k xs, .sequence l ys => k = l ∧ List.Forall₂ (fun a b => o.eq a b = true) xs ys
  | .mapping m, .mapping n => ∀ key, Option.Rel (fun a b => o.eq a b = true) (m.get? key) (n.get? key)
  | _, _ => False

def alike : Output κ α → Output κ α → Prop
  | .scalar _, .scalar _ | .sequence _ _, .sequence _ _ | .mapping _, .mapping _ => True
  | _, _ => False

/-- Zero says that two outputs are the same, and two of one kind have a distance. -/
def Faithful (base other : Output κ α) : Prop :=
  (distance o base other = .ok 0 ↔ same o base other) ∧
    (alike base other → ∃ d, distance o base other = .ok d)

/-- The same items, but for `None` at the end of one. -/
inductive Padded : List α → List α → Prop
  | nil : Padded [] []
  | cons {a b xs ys} (here : o.eq a b = true) (rest : Padded xs ys) : Padded (a :: xs) (b :: ys)
  | left {a xs} (here : o.eq a o.none_ = true) (rest : Padded xs []) : Padded (a :: xs) []
  | right {b ys} (here : o.eq o.none_ b = true) (rest : Padded [] ys) : Padded [] (b :: ys)

def Hashable (xs : List α) : Prop :=
  ∀ a ∈ xs, o.hashable a = true

/-- The keys of two mappings have an order. -/
def InOrder (m n : Ordered κ α) : Prop :=
  ∀ a ∈ keysOf m n, ∀ b ∈ keysOf m n, a ≠ b → o.comparable a b = true

/-- The same values, but for `None` under a key of one. -/
def Agree (m n : Ordered κ α) : Prop :=
  ∀ key ∈ keysOf m n, o.eq ((m.get? key).getD o.none_) ((n.get? key).getD o.none_) = true

/-- Two outputs that differ where the distance does not see it. -/
inductive Hidden : Output κ α → Output κ α → Prop
  /-- One of two sequences has `None` at its end, or they are a list and a tuple. -/
  | padded {k l xs ys} (hash : Hashable o (xs ++ ys)) (padded : Padded o xs ys)
      (differ : k ≠ l ∨ xs.length ≠ ys.length) : Hidden (.sequence k xs) (.sequence l ys)
  | characters {k xs b cs} (string : o.chars b = some cs) (hash : Hashable o (xs ++ cs))
      (padded : Padded o xs cs) : Hidden (.sequence k xs) (.scalar b)
  /-- One of two mappings has `None` under a key of its own. -/
  | missing {m n} (order : InOrder o m n) (agree : Agree o m n) (key : κ) (own : key ∈ m.keys ↔ key ∉ n.keys) :
      Hidden (.mapping m) (.mapping n)
  /-- A mapping of `None` stands against an output that is empty. -/
  | left {m other} (empty : truthy o other = false) (unlike : ¬ alike (.mapping m) other)
      (order : InOrder o m ∅) (agree : Agree o m ∅) : Hidden (.mapping m) other
  | right {base n} (empty : truthy o base = false) (unlike : ¬ alike base (.mapping n))
      (order : InOrder o ∅ n) (agree : Agree o ∅ n) : Hidden base (.mapping n)

/-- Two outputs of one kind that cannot be compared: an item has no hash, or two keys have no order. -/
def Fails : Output κ α → Output κ α → Prop
  | .sequence _ xs, .sequence _ ys => ¬ Hashable o (xs ++ ys)
  | .mapping m, .mapping n => ¬ InOrder o m n
  | _, _ => False

variable {o} {xs ys : List α} {m n : Ordered κ α} {base other : Output κ α}

/-! ## When a distance is zero -/

omit [DecidableEq κ] in
theorem padded_iff : Padded o xs ys ↔
    ∀ i < max xs.length ys.length, o.eq (xs[i]?.getD o.none_) (ys[i]?.getD o.none_) = true := by
  induction xs generalizing ys with
  | nil =>
      induction ys with
      | nil => exact iff_of_true .nil fun i less => absurd less (Nat.not_lt_zero i)
      | cons b ys ih =>
          rw [List.length_nil, Nat.zero_max] at ih ⊢
          rw [List.length_cons, Nat.forall_lt_succ_left]
          refine Iff.trans ?_ (and_congr_right fun _ => ih)
          constructor
          · intro padded
            cases padded with
            | right here rest => exact ⟨here, rest⟩
          · rintro ⟨here, rest⟩
            exact .right here rest
  | cons a xs ih =>
      cases ys with
      | nil =>
          rw [List.length_nil, Nat.max_zero, List.length_cons, Nat.forall_lt_succ_left]
          have ih := @ih []
          rw [List.length_nil, Nat.max_zero] at ih
          refine Iff.trans ?_ (and_congr_right fun _ => ih)
          constructor
          · intro padded
            cases padded with
            | left here rest => exact ⟨here, rest⟩
          · rintro ⟨here, rest⟩
            exact .left here rest
      | cons b ys =>
          rw [List.length_cons, List.length_cons, Nat.succ_max_succ, Nat.forall_lt_succ_left]
          refine Iff.trans ?_ (and_congr_right fun _ => ih)
          constructor
          · intro padded
            cases padded with
            | cons here rest => exact ⟨here, rest⟩
          · rintro ⟨here, rest⟩
            exact .cons here rest

omit [DecidableEq κ] in
theorem moved_eq_zero_iff : moved o xs ys = 0 ↔ Padded o xs ys := by
  rw [padded_iff, moved, List.length_eq_zero_iff, List.filter_eq_nil_iff]
  simp only [List.mem_range, Bool.not_eq_true', Bool.not_eq_false]

omit [DecidableEq κ] in
theorem rank_distance_eq_iff : rank_distance o xs ys = .ok 0 ↔ Hashable o (xs ++ ys) ∧ Padded o xs ys := by
  rw [rank_distance, ← moved_eq_zero_iff, Hashable, ← List.all_eq_true]
  split
  next hash => simp [hash]
  next none_ => simp [none_]

theorem sortable_iff : sortable o (keysOf m n) = true ↔ InOrder o m n := by
  simp only [sortable, InOrder, List.all_eq_true, Bool.or_eq_true, decide_eq_true_eq, or_iff_not_imp_left]

theorem map_distance_eq_iff : map_distance o m n = .ok 0 ↔ InOrder o m n ∧ Agree o m n := by
  rw [map_distance, ← sortable_iff]
  split
  next order =>
    have none_ : ((keysOf m n).filter fun k =>
        !o.eq ((m.get? k).getD o.none_) ((n.get? k).getD o.none_)).length = 0 ↔ Agree o m n := by
      rw [List.length_eq_zero_iff, List.filter_eq_nil_iff, Agree]
      simp only [Bool.not_eq_true', Bool.not_eq_false]
    rw [← none_]
    simp [order]
  next none_ => simp [none_]

omit [DecidableEq κ] in
theorem padded_iff_forall (length : xs.length = ys.length) :
    Padded o xs ys ↔ List.Forall₂ (fun a b => o.eq a b = true) xs ys := by
  constructor
  · intro padded
    induction padded with
    | nil => exact .nil
    | cons here _ ih => exact .cons here (ih (Nat.succ.inj length))
    | left => cases length
    | right => cases length
  · intro all
    clear length
    induction all with
    | nil => exact .nil
    | cons here _ ih => exact .cons here ih

theorem mem_keysOf {key : κ} : key ∈ keysOf m n ↔ key ∈ m.keys ∨ key ∈ n.keys := by
  rw [keysOf, List.mem_dedup, List.mem_append]

theorem get?_ne_none_iff {key : κ} : m.get? key ≠ none ↔ key ∈ m.keys := by
  rw [Ordered.mem_keys, Option.ne_none_iff_exists']

omit [DecidableEq κ] in
theorem rel_iff {x y : Option α} : Option.Rel (fun a b => o.eq a b = true) x y ↔
    (x ≠ none ∨ y ≠ none → o.eq (x.getD o.none_) (y.getD o.none_) = true) ∧ (x ≠ none ↔ y ≠ none) := by
  cases x <;> cases y <;> simp

/-- Two mappings are the same where they agree and have the same keys. -/
theorem same_mapping_iff : same o (.mapping m) (.mapping n) ↔ Agree o m n ∧ ∀ key, key ∈ m.keys ↔ key ∈ n.keys := by
  rw [same, Agree, ← forall_and]
  refine forall_congr' fun key => ?_
  rw [rel_iff, get?_ne_none_iff, get?_ne_none_iff, mem_keysOf]

theorem distance_sequence {k l : SequenceKind} : distance o (.sequence k xs) (.sequence l ys) = .ok 0 ↔
    same o (.sequence k xs) (.sequence l ys) ∧ ¬ Fails o (.sequence k xs) (.sequence l ys) ∨
      Hidden o (.sequence k xs) (.sequence l ys) := by
  rw [distance, rank_distance_eq_iff, same, Fails, not_not]
  constructor
  · rintro ⟨hash, padded⟩
    by_cases differ : k ≠ l ∨ xs.length ≠ ys.length
    · exact .inr (.padded hash padded differ)
    · rw [not_or, not_not, not_not] at differ
      exact .inl ⟨⟨differ.1, (padded_iff_forall differ.2).mp padded⟩, hash⟩
  · rintro (⟨⟨-, all⟩, hash⟩ | ⟨hash, padded, -⟩)
    · exact ⟨hash, (padded_iff_forall all.length_eq).mpr all⟩
    · exact ⟨hash, padded⟩

theorem distance_mapping : distance o (.mapping m) (.mapping n) = .ok 0 ↔
    same o (.mapping m) (.mapping n) ∧ ¬ Fails o (.mapping m) (.mapping n) ∨
      Hidden o (.mapping m) (.mapping n) := by
  rw [distance, map_distance_eq_iff, same_mapping_iff, Fails, not_not]
  constructor
  · rintro ⟨order, agree⟩
    by_cases keys : ∀ key, key ∈ m.keys ↔ key ∈ n.keys
    · exact .inl ⟨⟨agree, keys⟩, order⟩
    · obtain ⟨key, own⟩ := not_forall.mp keys
      exact .inr (.missing order agree key (by tauto))
  · rintro (⟨⟨agree, -⟩, order⟩ | hidden)
    · exact ⟨order, agree⟩
    · cases hidden with
      | missing order agree => exact ⟨order, agree⟩
      | left _ unlike => exact absurd trivial unlike
      | right _ unlike => exact absurd trivial unlike

theorem distance_left (unlike : ¬ alike (.mapping m) other) :
    (if truthy o other then .error .noSequence else map_distance o m ∅) = .ok 0 ↔ Hidden o (.mapping m) other := by
  split
  next some_ =>
    refine ⟨fun zero => (by cases zero), fun hidden => ?_⟩
    cases hidden with
    | missing => exact absurd trivial unlike
    | left empty => rw [some_] at empty; cases empty
    | right _ unlike => exact absurd trivial unlike
  next empty =>
    rw [map_distance_eq_iff]
    constructor
    · rintro ⟨order, agree⟩
      exact .left (Bool.eq_false_iff.mpr empty) unlike order agree
    · intro hidden
      cases hidden with
      | missing => exact absurd trivial unlike
      | left _ _ order agree => exact ⟨order, agree⟩
      | right _ unlike => exact absurd trivial unlike

theorem distance_right (unlike : ¬ alike base (.mapping n)) :
    (if truthy o base then .error .noSequence else map_distance o ∅ n) = .ok 0 ↔ Hidden o base (.mapping n) := by
  split
  next some_ =>
    refine ⟨fun zero => (by cases zero), fun hidden => ?_⟩
    cases hidden with
    | missing => exact absurd trivial unlike
    | right empty => rw [some_] at empty; cases empty
    | left _ unlike => exact absurd trivial unlike
  next empty =>
    rw [map_distance_eq_iff]
    constructor
    · rintro ⟨order, agree⟩
      exact .right (Bool.eq_false_iff.mpr empty) unlike order agree
    · intro hidden
      cases hidden with
      | missing => exact absurd trivial unlike
      | right _ _ order agree => exact ⟨order, agree⟩
      | left _ unlike => exact absurd trivial unlike

theorem distance_characters {k : SequenceKind} {b : α} :
    distance o (.sequence k xs) (.scalar b) = .ok 0 ↔ Hidden o (.sequence k xs) (.scalar b) := by
  rw [distance]
  cases found : o.chars b with
  | none =>
      refine ⟨fun zero => (by cases zero), fun hidden => ?_⟩
      cases hidden with
      | characters string => rw [found] at string; cases string
  | some cs =>
      simp only
      rw [rank_distance_eq_iff]
      constructor
      · rintro ⟨hash, padded⟩
        exact .characters found hash padded
      · intro hidden
        cases hidden with
        | characters string hash padded =>
            obtain rfl := Option.some.inj (found.symm.trans string)
            exact ⟨hash, padded⟩

/-- Zero is the distance of outputs that are the same and can be compared, and of those whose difference is
hidden. -/
theorem distance_eq_zero_iff : distance o base other = .ok 0 ↔
    same o base other ∧ ¬ Fails o base other ∨ Hidden o base other := by
  cases base with
  | scalar a =>
      cases other with
      | scalar b =>
          have sound : ¬ Fails o (.scalar a) (.scalar b) := fun fails => fails
          have seen : ¬ Hidden o (.scalar a) (.scalar b) := fun hidden => by cases hidden
          rw [or_iff_left seen, and_iff_left sound, distance, same]
          split
          next eq => simp [eq]
          next differ => simp [differ]
      | sequence l ys =>
          refine iff_of_false (fun zero => by cases zero) ?_
          rintro (⟨both, -⟩ | hidden)
          · exact both
          · cases hidden
      | mapping n =>
          have unlike : ¬ alike (.scalar a) (.mapping n) := fun both => both
          exact (distance_right unlike).trans (or_iff_right fun both => both.1).symm
  | sequence k xs =>
      cases other with
      | scalar b => exact distance_characters.trans (or_iff_right fun both => both.1).symm
      | sequence l ys => exact distance_sequence
      | mapping n =>
          have unlike : ¬ alike (.sequence k xs) (.mapping n) := fun both => both
          exact (distance_right unlike).trans (or_iff_right fun both => both.1).symm
  | mapping m =>
      cases other with
      | scalar b =>
          have unlike : ¬ alike (.mapping m) (.scalar b) := fun both => both
          exact (distance_left unlike).trans (or_iff_right fun both => both.1).symm
      | sequence l ys =>
          have unlike : ¬ alike (.mapping m) (.sequence l ys) := fun both => both
          exact (distance_left unlike).trans (or_iff_right fun both => both.1).symm
      | mapping n => exact distance_mapping

theorem Hidden.differs (hidden : Hidden o base other) : ¬ same o base other := by
  cases hidden with
  | padded _ _ differ =>
      rintro ⟨kind, all⟩
      exact differ.elim (fun other => other kind) fun other => other all.length_eq
  | characters => exact id
  | missing _ _ key own =>
      intro both
      have keys := (same_mapping_iff.mp both).2 key
      tauto
  | left _ unlike =>
      cases other with
      | scalar | sequence => exact id
      | mapping => exact absurd trivial unlike
  | right _ unlike =>
      cases base with
      | scalar | sequence => exact id
      | mapping => exact absurd trivial unlike

theorem Fails.raises (fails : Fails o base other) : alike base other ∧ ∀ d, distance o base other ≠ .ok d := by
  cases base with
  | scalar => cases other <;> exact absurd fails id
  | sequence k xs =>
      cases other with
      | scalar | mapping => exact absurd fails id
      | sequence l ys =>
          refine ⟨trivial, fun d ok => ?_⟩
          have unhashed : ¬ (xs ++ ys).all o.hashable = true := fun all => fails (List.all_eq_true.mp all)
          rw [distance, rank_distance, if_neg unhashed] at ok
          cases ok
  | mapping m =>
      cases other with
      | scalar | sequence => exact absurd fails id
      | mapping n =>
          refine ⟨trivial, fun d ok => ?_⟩
          rw [distance, map_distance, if_neg (fun order => fails (sortable_iff.mp order))] at ok
          cases ok

theorem exists_distance (kind : alike base other) (sound : ¬ Fails o base other) :
    ∃ d, distance o base other = .ok d := by
  cases base with
  | scalar =>
      cases other with
      | scalar => exact ⟨_, rfl⟩
      | sequence | mapping => exact absurd kind id
  | sequence k xs =>
      cases other with
      | scalar | mapping => exact absurd kind id
      | sequence l ys =>
          have hash : (xs ++ ys).all o.hashable = true := List.all_eq_true.mpr (not_not.mp sound)
          exact ⟨_, if_pos hash⟩
  | mapping m =>
      cases other with
      | scalar | sequence => exact absurd kind id
      | mapping n => exact ⟨_, if_pos (sortable_iff.mpr (not_not.mp sound))⟩

theorem faithful_of (base other : Output κ α) :
    Faithful o base other ↔ ¬ Hidden o base other ∧ ¬ Fails o base other := by
  rw [Faithful, distance_eq_zero_iff]
  constructor
  · rintro ⟨zero, returns⟩
    refine ⟨fun hidden => hidden.differs (zero.mp (.inr hidden)), fun fails => ?_⟩
    obtain ⟨d, ok⟩ := returns fails.raises.1
    exact fails.raises.2 d ok
  · rintro ⟨seen, sound⟩
    rw [or_iff_left seen, and_iff_left sound]
    exact ⟨Iff.rfl, fun kind => exists_distance kind sound⟩

/-! ## When a constant is inert -/

variable {run : β → Except String (Output κ α)} {quality : Option (β → Except String String)} {default : β}
  {values : List β} {readings : List (Reading β)} {name note : String}

theorem verdict_inert_iff : (∃ band, verdict_for default values readings = .ok (.inert, band)) ↔
    (∃ r ∈ readings, r.taken = true) ∧ ∀ r ∈ readings, r.taken = true → r.distance = 0 := by
  have some_iff : readings.filter Reading.taken = [] ↔ ¬ ∃ r ∈ readings, r.taken = true := by
    rw [List.filter_eq_nil_iff]
    simp
  have all_iff : ((readings.filter Reading.taken).all fun r => r.distance = 0) = true ↔
      ∀ r ∈ readings, r.taken = true → r.distance = 0 := by
    simp only [List.all_eq_true, List.mem_filter, decide_eq_true_eq, and_imp]
  rw [verdict_for]
  simp only
  split
  next none_ =>
    refine iff_of_false ?_ fun both => some_iff.mp none_ both.1
    rintro ⟨band, same⟩
    cases same
  next some_ =>
    rw [some_iff, not_not] at some_
    split
    next zero => exact iff_of_true ⟨_, rfl⟩ ⟨some_, all_iff.mp zero⟩
    next differ =>
      refine iff_of_false ?_ fun both => differ (all_iff.mpr both.2)
      rintro ⟨band, same⟩
      split at same
      next => cases same
      next =>
        have verdict := congrArg Prod.fst (Except.ok.inj same)
        simp only at verdict
        split at verdict
        next => cases verdict
        next => cases verdict

/-- What is read at a value has a distance of zero. -/
def AllZero (o : Objects κ α) (run : β → Except String (Output κ α)) (base : Output κ α) (values : List β) : Prop :=
  ∀ value ∈ values, ∀ out, run value = .ok out → distance o base out = .ok 0

omit [DecidableEq β] in
theorem zero_of_reading {value : β} {r : Reading β} {out : Output κ α}
    (reading : readingAt o run quality base value = .ok r) (read : run value = .ok out)
    (zero : r.taken = true → r.distance = 0) : distance o base out = .ok 0 := by
  rw [readingAt, read] at reading
  simp only at reading
  obtain ⟨d, measured, rfl⟩ := map_ok reading
  have taken : (⟨value, (d : Int), "", mark quality value⟩ : Reading β).taken = true := by
    rw [Reading.taken, FAILED, decide_eq_true_iff]
    change (d : Int) ≠ -1
    omega
  obtain rfl := Int.ofNat_eq_zero.mp (zero taken)
  exact measured

/-- The reading at a value, where what is read has a distance of zero. -/
def zeroReading (run : β → Except String (Output κ α)) (quality : Option (β → Except String String)) (value : β) :
    Reading β :=
  match run value with
  | .error exc => ⟨value, FAILED, String.ofList (exc.toList.take 160), ""⟩
  | .ok _ => ⟨value, 0, "", mark quality value⟩

omit [DecidableEq β] in
theorem readings_of_zero (zero : AllZero o run base values) :
    values.mapM (readingAt o run quality base) = .ok (values.map (zeroReading run quality)) := by
  refine mapM_of_ok fun value member => ?_
  rw [readingAt, zeroReading]
  cases read : run value with
  | error exc => rfl
  | ok out =>
      simp only
      rw [zero value member out read]
      rfl

omit [DecidableEq κ] [DecidableEq β] in
theorem zeroReading_zero (value : β) (taken : (zeroReading run quality value).taken = true) :
    (zeroReading run quality value).distance = 0 := by
  rw [zeroReading] at taken ⊢
  split
  next read =>
    rw [read] at taken
    cases taken
  next => rfl

/-- A constant is found to be inert where something is read and all that is read has a distance of zero. -/
theorem measure_inert_iff (started : run default = .ok base) :
    (∃ f, measure o run quality name default values note = .ok f ∧ f.verdict = .inert) ↔
      (∃ value ∈ values, ∃ out, run value = .ok out) ∧ AllZero o run base values := by
  rw [measure, started]
  simp only
  constructor
  · rintro ⟨f, measured, inert⟩
    obtain ⟨readings, read, measured⟩ := bind_ok measured
    obtain ⟨⟨verdict, band⟩, found, measured⟩ := bind_ok measured
    obtain rfl := pure_ok measured
    obtain rfl : verdict = .inert := inert
    obtain ⟨⟨r, member, taken⟩, zero⟩ := verdict_inert_iff.mp ⟨band, found⟩
    refine ⟨?_, fun value member out ran => ?_⟩
    · obtain ⟨value, member, reading⟩ := mem_mapM read member
      refine ⟨value, member, ?_⟩
      cases ran : run value with
      | ok out => exact ⟨out, rfl⟩
      | error exc =>
          rw [readingAt, ran] at reading
          obtain rfl := Except.ok.inj reading
          cases taken
    · obtain ⟨r, inside, reading⟩ := ok_of_mapM read member
      exact zero_of_reading reading ran (zero r inside)
  · rintro ⟨⟨value, member, out, ran⟩, zero⟩
    have inert : ∃ band, verdict_for default values (values.map (zeroReading run quality)) = .ok (.inert, band) := by
      refine verdict_inert_iff.mpr ⟨⟨zeroReading run quality value, List.mem_map_of_mem member, ?_⟩, ?_⟩
      · rw [zeroReading, ran]
        rfl
      · rintro r member taken
        obtain ⟨value, -, rfl⟩ := List.mem_map.mp member
        exact zeroReading_zero value taken
    obtain ⟨band, found⟩ := inert
    refine ⟨⟨name, default, .inert, values.map (zeroReading run quality), band, note⟩, ?_, rfl⟩
    rw [readings_of_zero zero]
    change (verdict_for default values _ >>= _) = _
    rw [found]
    rfl

/-- A constant is found to be inert only where all that is read is what comes out at the default. -/
def InertSound (o : Objects κ α) (run : β → Except String (Output κ α))
    (quality : Option (β → Except String String)) (name : String) (default : β) (values : List β) (note : String) :
    Prop :=
  ∀ base f, run default = .ok base → measure o run quality name default values note = .ok f → f.verdict = .inert →
    ∀ value ∈ values, ∀ out, run value = .ok out → same o base out

/-- Not all that is read is the same as what comes out at the default or hidden from it, or none is hidden. -/
def Seen (o : Objects κ α) (run : β → Except String (Output κ α)) (default : β) (values : List β) : Prop :=
  ∀ base, run default = .ok base →
    (∀ value ∈ values, ∀ out, run value = .ok out → same o base out ∧ ¬ Fails o base out ∨ Hidden o base out) →
      ∀ value ∈ values, ∀ out, run value = .ok out → ¬ Hidden o base out

theorem inertSound_iff :
    InertSound o run quality name default values note ↔ Seen o run default values := by
  have zero_iff {base : Output κ α} : AllZero o run base values ↔
      ∀ value ∈ values, ∀ out, run value = .ok out → same o base out ∧ ¬ Fails o base out ∨ Hidden o base out :=
    forall₄_congr fun _ _ _ _ => distance_eq_zero_iff
  constructor
  · intro sound base started all value member out ran hidden
    have marked : ∃ f, measure o run quality name default values note = .ok f ∧ f.verdict = .inert :=
      (measure_inert_iff started).mpr ⟨⟨value, member, out, ran⟩, zero_iff.mpr all⟩
    obtain ⟨f, measured, inert⟩ := marked
    exact hidden.differs (sound base f started measured inert value member out ran)
  · intro seen base f started measured inert value member out ran
    have zero := ((measure_inert_iff started).mp ⟨f, measured, inert⟩).2
    have all := zero_iff.mp zero
    exact ((all value member out ran).resolve_right (seen base started all value member out ran)).1

/-- A distance is faithful where no difference is hidden and nothing fails, and `inert` is where no output that
is read is hidden; and neither is elsewhere. -/
theorem distance_faithful_iff (o : Objects κ α) :
    (∀ base other, Faithful o base other ↔ ¬ Hidden o base other ∧ ¬ Fails o base other) ∧
      ∀ (run : β → Except String (Output κ α)) quality name default values note,
        InertSound o run quality name default values note ↔ Seen o run default values :=
  ⟨faithful_of, fun _ _ _ _ _ _ => inertSound_iff⟩

/-- Numbers and `None`, with names for keys. -/
def numbers : Objects String (Option Int) where
  none_ := none
  eq a b := a = b
  truthy a := a ≠ none ∧ a ≠ some 0
  hashable _ := true
  chars _ := none
  comparable _ _ := true

/-- A list with `None` after its items is no distance from the list without it. -/
theorem none_hidden : ¬ Faithful numbers (.sequence .list [some 1]) (.sequence .list [some 1, none]) := by
  intro faithful
  have zero : distance numbers (.sequence .list [some 1]) (.sequence .list [some 1, none]) = .ok 0 := by rfl
  obtain ⟨-, all⟩ := faithful.1.mp zero
  cases all.length_eq

end LocalHarness.Sweeps.Sensitivity
