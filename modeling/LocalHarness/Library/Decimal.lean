import Mathlib.Algebra.Order.Field.Rat
import Mathlib.Algebra.Order.Floor.Ring
import Mathlib.Data.Rat.Floor
import Mathlib.Tactic.Linarith
import Mathlib.Tactic.Positivity
import LocalHarness.Library.Text

/-! # Fixed-point decimal text

`fixed places q` is the text of `q` with a set number of decimals, rounded half to even
as a formatted float is; `number` reads a text the way `float` does. Reading what was
written gives the rounded value, so what a printed number says is known exactly.
-/

namespace LocalHarness.Library.Decimal

/-- The nearest integer, and the even one of two that are equally near. -/
def roundHalfEven (q : ℚ) : ℤ :=
  let rest := q - ⌊q⌋
  if rest < 1 / 2 then ⌊q⌋
  else if 1 / 2 < rest then ⌊q⌋ + 1
  else if ⌊q⌋ % 2 = 0 then ⌊q⌋
  else ⌊q⌋ + 1

theorem roundHalfEven_nonneg {q : ℚ} (nonneg : 0 ≤ q) : 0 ≤ roundHalfEven q := by
  have floor : 0 ≤ ⌊q⌋ := Int.floor_nonneg.mpr nonneg
  unfold roundHalfEven
  dsimp only
  split_ifs <;> omega

theorem roundHalfEven_int (n : ℤ) : roundHalfEven n = n := by
  simp [roundHalfEven]

/-- `n` is reached from half a unit below it on, and at the half only where it is even. -/
theorem le_roundHalfEven_iff {n : ℤ} {q : ℚ} :
    n ≤ roundHalfEven q ↔ (n : ℚ) - 1 / 2 < q ∨ (n : ℚ) - 1 / 2 = q ∧ n % 2 = 0 := by
  have low : (⌊q⌋ : ℚ) ≤ q := Int.floor_le q
  have high : q < ⌊q⌋ + 1 := Int.lt_floor_add_one q
  unfold roundHalfEven
  dsimp only
  generalize ⌊q⌋ = k at low high
  have apart : n ≤ k ∨ n = k + 1 ∨ k + 2 ≤ n := by omega
  rcases apart with below | rfl | above
  · have cast : (n : ℚ) ≤ k := by exact_mod_cast below
    refine iff_of_true ?_ (.inl (by linarith))
    split_ifs <;> omega
  · push_cast
    split_ifs with under beyond even
    · refine iff_of_false (by omega) ?_
      rintro (more | ⟨same, -⟩) <;> linarith
    · exact iff_of_true le_rfl (.inl (by linarith))
    · refine iff_of_false (by omega) ?_
      rintro (more | ⟨-, odd⟩)
      · linarith
      · omega
    · exact iff_of_true le_rfl (.inr ⟨by linarith, by omega⟩)
  · have cast : (k : ℚ) + 2 ≤ n := by exact_mod_cast above
    refine iff_of_false (by split_ifs <;> omega) ?_
    rintro (more | ⟨same, -⟩) <;> linarith

theorem roundHalfEven_le_iff {n : ℤ} {q : ℚ} :
    roundHalfEven q ≤ n ↔ q < (n : ℚ) + 1 / 2 ∨ q = (n : ℚ) + 1 / 2 ∧ n % 2 = 0 := by
  have next : ((n + 1 : ℤ) : ℚ) - 1 / 2 = n + 1 / 2 := by push_cast; ring
  rw [← not_lt, ← Int.add_one_le_iff, le_roundHalfEven_iff, next, not_or, not_and, not_lt]
  constructor
  · rintro ⟨most, tie⟩
    rcases most.lt_or_eq with less | same
    · exact .inl less
    · have odd := tie same.symm
      exact .inr ⟨same, by omega⟩
  · rintro (less | ⟨same, even⟩)
    · exact ⟨less.le, fun tie => absurd tie.symm less.ne⟩
    · exact ⟨same.le, fun _ => by omega⟩

theorem roundHalfEven_neg (q : ℚ) : roundHalfEven (-q) = -roundHalfEven q := by
  apply le_antisymm
  · have up := le_roundHalfEven_iff.mp (le_refl (roundHalfEven q))
    rw [roundHalfEven_le_iff]
    push_cast
    rcases up with less | ⟨same, even⟩
    · exact .inl (by linarith)
    · exact .inr ⟨by linarith, by omega⟩
  · have down := roundHalfEven_le_iff.mp (le_refl (roundHalfEven q))
    rw [le_roundHalfEven_iff]
    push_cast
    rcases down with less | ⟨same, even⟩
    · exact .inl (by linarith)
    · exact .inr ⟨by linarith, by omega⟩

theorem roundHalfEven_mono {q r : ℚ} (le : q ≤ r) : roundHalfEven q ≤ roundHalfEven r := by
  rcases le_roundHalfEven_iff.mp (le_refl (roundHalfEven q)) with less | ⟨same, even⟩
  · exact le_roundHalfEven_iff.mpr (.inl (less.trans_le le))
  · rcases le.lt_or_eq with less | rfl
    · exact le_roundHalfEven_iff.mpr (.inl (same.trans_lt less))
    · exact le_rfl

/-- The value `f"{q:.{places}f}"` prints. -/
def rounded (places : Nat) (q : ℚ) : ℚ :=
  roundHalfEven (q * 10 ^ places) / 10 ^ places

theorem rounded_int (places : Nat) (n : ℤ) : rounded places n = n := by
  have whole : ((n : ℚ) * 10 ^ places) = ((n * 10 ^ places : ℤ) : ℚ) := by push_cast; ring
  rw [rounded, whole, roundHalfEven_int]
  push_cast
  field_simp

theorem rounded_mono (places : Nat) : Monotone (rounded places) := by
  intro q r le
  have scaled : roundHalfEven (q * 10 ^ places) ≤ roundHalfEven (r * 10 ^ places) :=
    roundHalfEven_mono (by gcongr)
  unfold rounded
  gcongr

/-- What has no more decimals than are kept is kept as it is. -/
theorem rounded_div_pow (places : Nat) (n : ℤ) : rounded places (n / 10 ^ places) = n / 10 ^ places := by
  rw [rounded, div_mul_cancel₀ _ (by positivity), roundHalfEven_int]

theorem rounded_neg (places : Nat) (q : ℚ) : rounded places (-q) = -rounded places q := by
  rw [rounded, rounded, neg_mul, roundHalfEven_neg, Int.cast_neg, neg_div]

/-- Halfway between one number of `places` decimals and the next. -/
def tie (places : Nat) (k : ℤ) : ℚ :=
  (k + 1 / 2) / 10 ^ places

theorem tie_neg (places : Nat) (k : ℤ) : tie places (-k - 1) = -tie places k := by
  rw [tie, tie, ← neg_div]
  push_cast
  ring

theorem rounded_le_iff {places : Nat} {k : ℤ} {q : ℚ} :
    rounded places q ≤ k / 10 ^ places ↔ q < tie places k ∨ q = tie places k ∧ k % 2 = 0 := by
  have pos : (0 : ℚ) < 10 ^ places := by positivity
  rw [rounded, div_le_div_iff_of_pos_right pos, Int.cast_le, roundHalfEven_le_iff, tie, lt_div_iff₀ pos,
    eq_div_iff pos.ne']

theorem lt_rounded_iff {places : Nat} {k : ℤ} {q : ℚ} :
    k / 10 ^ places < rounded places q ↔ tie places k < q ∨ q = tie places k ∧ k % 2 = 1 := by
  rw [← not_le, rounded_le_iff, not_or, not_and, not_lt]
  constructor
  · rintro ⟨most, odd⟩
    rcases most.lt_or_eq with less | same
    · exact .inl less
    · have odd := odd same.symm
      exact .inr ⟨same.symm, by omega⟩
  · rintro (less | ⟨same, odd⟩)
    · exact ⟨less.le, fun same => absurd same less.ne'⟩
    · exact ⟨same.ge, fun _ => by omega⟩

/-- Whole multiples of a tie have one more decimal, so they are kept by a finer rounding. -/
theorem rounded_mul_tie {places finer : Nat} (more : places < finer) (n : Nat) (k : ℤ) :
    rounded finer (n * tie places k) = n * tie places k := by
  obtain ⟨d, rfl⟩ : ∃ d, finer = places + d + 1 := ⟨finer - places - 1, by omega⟩
  have whole : (n : ℚ) * tie places k =
      ((n * (2 * k + 1) * 5 * 10 ^ d : ℤ) : ℚ) / 10 ^ (places + d + 1) := by
    rw [tie, eq_div_iff (by positivity)]
    push_cast
    field_simp
    ring
  rw [whole, rounded_div_pow]

/-- The digits of `n`, with zeros in front until there are more than `places`. -/
def padded (places n : Nat) : List Char :=
  List.replicate (places + 1 - (Nat.toDigits 10 n).length) '0' ++ Nat.toDigits 10 n

def whole (places n : Nat) : List Char :=
  (padded places n).take ((padded places n).length - places)

def fraction (places n : Nat) : List Char :=
  (padded places n).drop ((padded places n).length - places)

/-- The point goes in before the last `places` digits. -/
def pointed (places n : Nat) : List Char :=
  whole places n ++ if places = 0 then [] else '.' :: fraction places n

/-- `f"{q:.{places}f}"`. -/
def fixed (places : Nat) (q : ℚ) : String :=
  let digits := pointed places (roundHalfEven (|q| * 10 ^ places)).toNat
  .ofList (if q < 0 then '-' :: digits else digits)

/-- `str` of a float that needs no exponent: the fewest decimals that say it, and at least one. -/
def shortest (q : ℚ) : String :=
  fixed (((List.range' 1 16).find? fun places => rounded places q = q).getD 17) q

/-- What `float` makes of a text. -/
inductive Number
  | finite (q : ℚ)
  | infinite (negative : Bool)
  | nan
  deriving DecidableEq

/-- `have > number`. -/
def Number.below (have_ : ℚ) : Number → Bool
  | .finite q => q < have_
  | .infinite negative => negative
  | .nan => false

/-- Digits with single underscores between them, the underscores taken out. -/
def digitRun (cs : List Char) : Option (List Char) :=
  if cs.all (fun c => c.isDigit || c == '_') && cs.head? != some '_' && cs.getLast? != some '_' &&
      !(cs.zip cs.tail).any (fun pair => pair == ('_', '_')) then
    some (cs.filter (· != '_'))
  else none

def digits (cs : List Char) : Option Nat :=
  (digitRun cs).bind fun run => if run = [] then none else some (Nat.ofDigitChars 10 run 0)

/-- `int(text)`, for the digits of ASCII. -/
def wholeNumber (text : String) : Option ℤ :=
  match (Text.strip text).toList with
  | '-' :: cs => (digits cs).map fun n => -(n : ℤ)
  | '+' :: cs => (digits cs).map Nat.cast
  | cs => (digits cs).map Nat.cast

def exponent : List Char → Option ℤ
  | [] => some 0
  | _ :: '-' :: digits => (digitRun digits).bind fun run =>
      if run = [] then none else some (-(Nat.ofDigitChars 10 run 0 : ℤ))
  | _ :: '+' :: digits => (digitRun digits).bind fun run =>
      if run = [] then none else some (Nat.ofDigitChars 10 run 0)
  | _ :: digits => (digitRun digits).bind fun run =>
      if run = [] then none else some (Nat.ofDigitChars 10 run 0)

/-- A number without a sign: digits, perhaps a point, perhaps an exponent. -/
def magnitude (cs : List Char) : Option ℚ :=
  let isE := fun c : Char => c == 'e' || c == 'E'
  let mantissa := cs.takeWhile fun c => !isE c
  (digitRun (mantissa.takeWhile (· != '.'))).bind fun whole =>
  (digitRun (mantissa.dropWhile (· != '.')).tail).bind fun fraction =>
  (exponent (cs.dropWhile fun c => !isE c)).bind fun power =>
    if whole = [] ∧ fraction = [] then none
    else some (Nat.ofDigitChars 10 (whole ++ fraction) 0 / 10 ^ fraction.length * (10 : ℚ) ^ power)

def unsigned (negative : Bool) (cs : List Char) : Option Number :=
  let name := cs.map Char.toLower
  if name = "inf".toList ∨ name = "infinity".toList then some (.infinite negative)
  else if name = "nan".toList then some .nan
  else (magnitude cs).map fun q => .finite (if negative then -q else q)

/-- `float(text)`, or `none` where it raises `ValueError`. -/
def number (text : String) : Option Number :=
  match (Text.strip text).toList with
  | '-' :: cs => unsigned true cs
  | '+' :: cs => unsigned false cs
  | cs => unsigned false cs

theorem isDigit_ne {c other : Char} (digit : c.isDigit = true) (plain : other.isDigit = false) :
    c ≠ other := by
  rintro rfl
  rw [digit] at plain
  cases plain

theorem isDigit_not_space {c : Char} (digit : c.isDigit = true) : Text.isSpace c = false :=
  Text.not_space_of_alphanum (by rw [Char.isAlphanum, digit, Bool.or_true])

theorem digitRun_digits {cs : List Char} (digits : ∀ c ∈ cs, c.isDigit = true) :
    digitRun cs = some cs := by
  have plain : ∀ c ∈ cs, c ≠ '_' := fun c member => isDigit_ne (digits c member) rfl
  have first : cs.head? ≠ some '_' := fun same => plain '_' (List.mem_of_head? same) rfl
  have last : cs.getLast? ≠ some '_' := fun same => plain '_' (List.mem_of_getLast? same) rfl
  have apart : (cs.zip cs.tail).any (fun pair => pair == ('_', '_')) = false := by
    rw [List.any_eq_false]
    rintro ⟨a, b⟩ member same
    rw [beq_iff_eq, Prod.mk.injEq] at same
    exact plain a (List.of_mem_zip member).1 same.1
  have all : cs.all (fun c => c.isDigit || c == '_') = true := by
    rw [List.all_eq_true]
    intro c member
    rw [digits c member, Bool.true_or]
  have kept : cs.filter (· != '_') = cs := by
    rw [List.filter_eq_self]
    intro c member
    exact bne_iff_ne.mpr (plain c member)
  rw [digitRun, if_pos (by simp [all, first, last, apart]), kept]

theorem padded_digits (places n : Nat) : ∀ c ∈ padded places n, c.isDigit = true := by
  intro c member
  rcases List.mem_append.mp member with zero | digit
  · rw [List.eq_of_mem_replicate zero]
    rfl
  · exact Nat.isDigit_of_mem_toDigits (by decide) (by decide) digit

theorem length_padded (places n : Nat) : places < (padded places n).length := by
  rw [padded, List.length_append, List.length_replicate]
  omega

theorem value_padded (places n : Nat) : Nat.ofDigitChars 10 (padded places n) 0 = n := by
  rw [padded, Nat.ofDigitChars_append, Nat.ofDigitChars_replicate_zero, Nat.mul_zero,
    Nat.ofDigitChars_ten_toDigits]

theorem whole_append_fraction (places n : Nat) :
    whole places n ++ fraction places n = padded places n :=
  List.take_append_drop _ _

theorem length_fraction (places n : Nat) : (fraction places n).length = places := by
  have long := length_padded places n
  rw [fraction, List.length_drop]
  omega

theorem whole_digits (places n : Nat) : ∀ c ∈ whole places n, c.isDigit = true :=
  fun c member => padded_digits places n c (List.mem_of_mem_take member)

theorem fraction_digits (places n : Nat) : ∀ c ∈ fraction places n, c.isDigit = true :=
  fun c member => padded_digits places n c (List.mem_of_mem_drop member)

theorem whole_cons (places n : Nat) : ∃ c rest, whole places n = c :: rest := by
  have long := length_padded places n
  cases shape : whole places n with
  | nil =>
      have length := congrArg List.length shape
      rw [whole, List.length_take, List.length_nil] at length
      omega
  | cons c rest => exact ⟨c, rest, rfl⟩

theorem pointed_chars (places n : Nat) :
    ∀ c ∈ pointed places n, c.isDigit = true ∨ c = '.' := by
  intro c member
  rcases List.mem_append.mp member with front | back
  · exact .inl (whole_digits places n c front)
  · split at back
    next => cases back
    next =>
      rcases List.mem_cons.mp back with point | rest
      · exact .inr point
      · exact .inl (fraction_digits places n c rest)

/-- Cutting a formatted number at its point gives its two parts back. -/
theorem cut_pointed (places n : Nat) :
    (pointed places n).takeWhile (· != '.') = whole places n ∧
      ((pointed places n).dropWhile (· != '.')).tail = fraction places n := by
  have passes : ∀ c ∈ whole places n, (c != '.') = true := by
    intro c member
    exact bne_iff_ne.mpr (isDigit_ne (whole_digits places n c member) rfl)
  rw [pointed, List.takeWhile_append_of_pos passes, List.dropWhile_append_of_pos passes]
  by_cases none : places = 0
  · have nothing : fraction places n = [] := List.eq_nil_of_length_eq_zero
      ((length_fraction places n).trans none)
    subst none
    simpa using nothing
  · simp [none]

theorem magnitude_pointed (places n : Nat) :
    magnitude (pointed places n) = some ((n : ℚ) / 10 ^ places) := by
  have plain : ∀ c ∈ pointed places n, (!(c == 'e' || c == 'E')) = true := by
    intro c member
    rcases pointed_chars places n c member with digit | point
    · have lower : c ≠ 'e' := isDigit_ne digit rfl
      have upper : c ≠ 'E' := isDigit_ne digit rfl
      simp [lower, upper]
    · rw [point]
      rfl
  have mantissa := List.takeWhile_eq_self_iff.mpr plain
  have power := List.dropWhile_eq_nil_iff.mpr plain
  obtain ⟨c, rest, shape⟩ := whole_cons places n
  have some_ : ¬ (whole places n = [] ∧ fraction places n = []) := by
    rw [shape]
    simp
  simp only [magnitude, mantissa, power, (cut_pointed places n).1, (cut_pointed places n).2,
    digitRun_digits (whole_digits places n), digitRun_digits (fraction_digits places n),
    exponent, Option.bind_some, if_neg some_, whole_append_fraction, value_padded,
    length_fraction, zpow_zero, mul_one]

theorem unsigned_pointed (places n : Nat) :
    unsigned false (pointed places n) = some (.finite ((n : ℚ) / 10 ^ places)) := by
  obtain ⟨c, rest, shape⟩ := whole_cons places n
  have digit : c.isDigit = true := whole_digits places n c (by simp [shape])
  have first : pointed places n = c :: (pointed places n).tail := by
    rw [pointed, shape]
    rfl
  have same : c.toLower = c := by
    refine dif_neg ?_
    simp only [Char.isDigit, ge_iff_le, Bool.and_eq_true, decide_eq_true_eq,
      UInt32.le_iff_toNat_le] at digit
    simp only [ge_iff_le, UInt32.le_iff_toNat_le, not_and]
    have below : '9'.val.toNat < 'A'.val.toNat := by decide
    omega
  have named : ∀ name : List Char, (name.head?.all fun d => !d.isDigit) = true → name ≠ [] →
      (pointed places n).map Char.toLower ≠ name := by
    intro name plain some_ equal
    rw [first, List.map_cons, same] at equal
    rw [← equal] at plain
    simp [digit] at plain
  have notInf := named "inf".toList (by decide) (by decide)
  have notInfinity := named "infinity".toList (by decide) (by decide)
  have notNan := named "nan".toList (by decide) (by decide)
  simp only [unsigned, notInf, notInfinity, notNan, or_self, if_false, magnitude_pointed,
    Option.map_some]
  rfl

/-- Reading a formatted number gives what it was rounded to. -/
theorem number_fixed {places : Nat} {q : ℚ} (nonneg : 0 ≤ q) :
    number (fixed places q) = some (.finite (rounded places q)) := by
  have scaled : 0 ≤ roundHalfEven (q * 10 ^ places) :=
    roundHalfEven_nonneg (mul_nonneg nonneg (by positivity))
  obtain ⟨n, value⟩ : ∃ n : Nat, roundHalfEven (q * 10 ^ places) = n :=
    ⟨_, (Int.toNat_of_nonneg scaled).symm⟩
  have text : fixed places q = .ofList (pointed places n) := by
    rw [fixed, abs_of_nonneg nonneg, value, if_neg (not_lt.mpr nonneg), Int.toNat_natCast]
  have solid : ∀ c ∈ pointed places n, Text.isSpace c = false := by
    intro c member
    rcases pointed_chars places n c member with digit | point
    · exact isDigit_not_space digit
    · rw [point]
      rfl
  have stripped : Text.strip (.ofList (pointed places n)) = .ofList (pointed places n) := by
    apply Text.strip_of_ends
    · intro c first
      rw [String.toList_ofList] at first
      exact solid c (List.mem_of_head? first)
    · intro c last
      rw [String.toList_ofList] at last
      exact solid c (List.mem_of_getLast? last)
  obtain ⟨c, rest, shape⟩ := whole_cons places n
  have digit : c.isDigit = true := whole_digits places n c (by simp [shape])
  have first : pointed places n = c :: (pointed places n).tail := by
    rw [pointed, shape]
    rfl
  have minus : c ≠ '-' := isDigit_ne digit rfl
  have plus : c ≠ '+' := isDigit_ne digit rfl
  rw [number, text, stripped, String.toList_ofList]
  have plain := unsigned_pointed places n
  rw [first] at plain ⊢
  split
  next cs same => exact absurd (List.cons.inj same).1 minus
  next cs same => exact absurd (List.cons.inj same).1 plus
  next => rw [plain, rounded, value, Int.cast_natCast]

end LocalHarness.Library.Decimal
