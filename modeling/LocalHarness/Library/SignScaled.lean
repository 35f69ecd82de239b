import Mathlib.Data.Rat.Floor
import Mathlib.Tactic.FieldSimp
import Mathlib.Tactic.Ring
import LocalHarness.Library.SignTest

/-! # The sign test on fewer pairs

Of `l + g` pairs that moved, `l` went one way. Where fewer of each go and their ratio is no more
uneven, the chance of it under no effect is no smaller. Counts on the way there need not be whole,
so the chance is drawn straight between whole ones, and then followed along the ratio one `g` at a
time.
-/

namespace LocalHarness.Library.SignTest

/-- The chance that at most `l` of `l + g` go one way. -/
def chance (l g : Nat) : ℚ :=
  tail (l + g) l / 2 ^ (l + g)

theorem tail_double (n k : Nat) : tail (n + 1) k + n.choose k = 2 * tail n k := by
  cases k with
  | zero => simp [tail]
  | succ k =>
      rw [tail_pascal, tail_succ n k]
      omega

theorem chance_succ_right (l g : Nat) :
    chance l (g + 1) = chance l g - (l + g).choose l / 2 ^ (l + g + 1) := by
  have double : ((tail (l + g + 1) l + (l + g).choose l : Nat) : ℚ) = (2 * tail (l + g) l : Nat) := by
    rw [tail_double]
  push_cast at double
  rw [chance, chance, ← Nat.add_assoc, pow_succ, eq_sub_of_add_eq double]
  field_simp

theorem chance_succ_left (l g : Nat) :
    chance (l + 1) g = chance l g + (l + g).choose (l + 1) / 2 ^ (l + g + 1) := by
  have pascal : tail (l + g + 1) (l + 1) = 2 * tail (l + g) l + (l + g).choose (l + 1) := by
    rw [tail_pascal, tail_succ]
    omega
  have shape : l + 1 + g = l + g + 1 := by omega
  rw [chance, chance, shape, pascal, pow_succ]
  push_cast
  field_simp

theorem chance_mono {l l' : Nat} (le : l ≤ l') (g : Nat) : chance l g ≤ chance l' g := by
  induction l', le using Nat.le_induction with
  | base => exact le_refl _
  | succ m _ ih =>
      rw [chance_succ_left]
      have more : (0 : ℚ) ≤ (m + g).choose (m + 1) / 2 ^ (m + g + 1) := by positivity
      linarith

theorem two_chance_le_one {l g : Nat} (less : l < g) : 2 * chance l g ≤ 1 := by
  obtain ⟨m, rfl⟩ := Nat.exists_eq_succ_of_ne_zero (Nat.ne_zero_of_lt less)
  have half : chance m (m + 1) = 1 / 2 := by
    have shape : m + (m + 1) = 2 * m + 1 := by omega
    rw [chance, shape, tail_odd, pow_succ, pow_mul]
    norm_num
    field_simp
  have below := chance_mono (Nat.lt_succ_iff.mp less) (m + 1)
  rw [half] at below
  linarith

/-- The chance for a count past `l`, straight between the whole ones next to it. -/
def drawn (l : Nat) (θ : ℚ) (g : Nat) : ℚ :=
  chance l g + θ * ((l + g).choose (l + 1) / 2 ^ (l + g + 1))

def spread (x : ℚ) (g : Nat) : ℚ :=
  drawn ⌊x⌋₊ (x - ⌊x⌋₊) g

theorem spread_nat (l g : Nat) : spread l g = chance l g := by
  simp [spread, drawn]

theorem chance_le_spread {l : Nat} {x : ℚ} (le : (l : ℚ) ≤ x) (g : Nat) :
    chance l g ≤ spread x g := by
  have nonneg : 0 ≤ x := (Nat.cast_nonneg l).trans le
  have below := chance_mono (Nat.le_floor le) g
  have part : 0 ≤ x - ⌊x⌋₊ := sub_nonneg.mpr (Nat.floor_le nonneg)
  have more : (0 : ℚ) ≤ (⌊x⌋₊ + g).choose (⌊x⌋₊ + 1) / 2 ^ (⌊x⌋₊ + g + 1) := by positivity
  have product := mul_nonneg part more
  unfold spread drawn
  linarith

/-! ## One step along the ratio -/

/-- The step, where the count stays between the same whole ones: `a` and `b` are the binomials at
    the count and above it, `θ` is how far the count is past the whole one, and `σ` what it moves. -/
theorem step_within {a b θ σ : ℚ} (nonneg : 0 ≤ a) (grows : a ≤ b) (past : 0 ≤ θ) (small : σ ≤ 1)
    (moved : σ * b ≤ a) : (θ + σ) * (a + b) ≤ 2 * a + 2 * (θ * b) := by
  have first := mul_le_mul_of_nonneg_right small nonneg
  have second := mul_le_mul_of_nonneg_left grows past
  linarith

/-- What lies between two values that are small enough is small enough. -/
theorem between_le {σ u x y m : ℚ} (pos : 0 < σ) (low : 0 ≤ u) (high : u ≤ σ) (left : σ * x ≤ m)
    (right : σ * y ≤ m) : (σ - u) * x + u * y ≤ m := by
  have first := mul_le_mul_of_nonneg_left left (sub_nonneg.mpr high)
  have second := mul_le_mul_of_nonneg_left right low
  have scaled : σ * ((σ - u) * x + u * y) ≤ σ * m := by linarith
  exact le_of_mul_le_mul_left scaled pos

/-- The step past a whole count, with `c` the next binomial and `u` what was left to it. -/
theorem step_past {a b c σ u : ℚ} (nonneg : 0 ≤ a) (grows : a ≤ b) (pos : 0 < σ) (small : σ ≤ 1)
    (low : 0 ≤ u) (high : u ≤ σ) (moved : σ * b ≤ a) (moved' : σ * c ≤ b) :
    2 * (b - a) + (σ - u) * (a + 2 * b + c) ≤ 4 * ((1 - u) * b) := by
  have first := mul_le_mul_of_nonneg_right small nonneg
  have second := mul_le_mul_of_nonneg_right small (nonneg.trans grows)
  have between : (σ - u) * (a + 2 * b + c) + u * (4 * b) ≤ 2 * a + 2 * b := by
    apply between_le pos low high
    · linarith
    · linarith
  linarith

/-- The binomials around `l`, and a move by a `g`-th part of a count that is at most `l + 1`. -/
structure Around (l g : Nat) (σ a b c : ℚ) : Prop where
  nonneg : 0 ≤ a
  grows : a ≤ b
  small : σ ≤ 1
  moved : σ * b ≤ a
  moved' : σ * c ≤ b

theorem around {l g : Nat} {x : ℚ} (room : l ≤ g) (high : x ≤ l + 1) :
    Around l (g + 1) (x / (g + 1)) ((l + (g + 1)).choose l) ((l + (g + 1)).choose (l + 1))
      ((l + (g + 1)).choose (l + 2)) := by
  have above := Nat.choose_succ_right_eq (l + (g + 1)) l
  have next := Nat.choose_succ_right_eq (l + (g + 1)) (l + 1)
  rw [Nat.add_sub_cancel_left] at above
  rw [show l + (g + 1) - (l + 1) = g by omega] at next
  generalize (l + (g + 1)).choose l = a at *
  generalize (l + (g + 1)).choose (l + 1) = b at *
  generalize (l + (g + 1)).choose (l + 2) = c at *
  have above : (b : ℚ) * (l + 1) = a * (g + 1) := by exact_mod_cast above
  have next : (c : ℚ) * (l + 2) = b * g := by exact_mod_cast next
  have room : (l : ℚ) ≤ g := by exact_mod_cast room
  have l0 : (0 : ℚ) ≤ l := Nat.cast_nonneg l
  have a0 : (0 : ℚ) ≤ a := Nat.cast_nonneg a
  have b0 : (0 : ℚ) ≤ b := Nat.cast_nonneg b
  have g0 : (0 : ℚ) < (g : ℚ) + 1 := by linarith
  constructor
  · exact a0
  · have wider : (a : ℚ) * (l + 1) ≤ b * (l + 1) := by
      rw [above]
      exact mul_le_mul_of_nonneg_left (by linarith) a0
    exact le_of_mul_le_mul_right wider (by linarith)
  · rw [div_le_one g0]
    linarith
  · rw [div_mul_eq_mul_div, div_le_iff₀ g0, ← above, mul_comm]
    exact mul_le_mul_of_nonneg_left high b0
  · rw [div_mul_eq_mul_div, div_le_iff₀ g0]
    have wide : x * c ≤ (l + 2) * c := mul_le_mul_of_nonneg_right (by linarith) (Nat.cast_nonneg c)
    linarith

theorem drawn_within {l g : Nat} {x : ℚ} (room : l ≤ g) (low : l ≤ x) (high : x ≤ l + 1) :
    drawn l (x - l + x / (g + 1)) (g + 1 + 1) ≤ drawn l (x - l) (g + 1) := by
  have here := around room high
  have step := step_within here.nonneg here.grows (sub_nonneg.mpr low) here.small here.moved
  have pascal : ((l + (g + 1 + 1)).choose (l + 1) : ℚ) =
      (l + (g + 1)).choose l + (l + (g + 1)).choose (l + 1) := by
    exact_mod_cast Nat.choose_succ_succ' (l + (g + 1)) l
  have power : (2 : ℚ) ^ (l + (g + 1 + 1) + 1) = 2 * 2 ^ (l + (g + 1) + 1) := pow_succ' 2 _
  unfold drawn
  rw [chance_succ_right, pascal, power]
  generalize ((l + (g + 1)).choose l : ℚ) = a at *
  generalize ((l + (g + 1)).choose (l + 1) : ℚ) = b at *
  have pos : (0 : ℚ) < 2 ^ (l + (g + 1) + 1) := by positivity
  generalize (2 : ℚ) ^ (l + (g + 1) + 1) = whole at *
  have gap : (x - l) * (b / whole) + a / whole - (x - l + x / (g + 1)) * ((a + b) / (2 * whole)) =
      (2 * a + 2 * ((x - l) * b) - (x - l + x / (g + 1)) * (a + b)) / (2 * whole) := by
    field_simp
    ring
  have nonneg := div_nonneg (sub_nonneg.mpr step) (by linarith : 0 ≤ 2 * whole)
  linarith

theorem drawn_past {l g : Nat} {x : ℚ} (room : l ≤ g) (high : x ≤ l + 1)
    (beyond : 1 ≤ x - l + x / (g + 1)) :
    drawn (l + 1) (x - l + x / (g + 1) - 1) (g + 1 + 1) ≤ drawn l (x - l) (g + 1) := by
  have here := around room high
  have low' : 0 ≤ 1 - (x - l) := by linarith
  have reach : 1 - (x - l) ≤ x / (g + 1) := by linarith
  have pos : 0 < x / (g + 1 : ℚ) := by
    rcases low'.eq_or_lt with none_ | some_
    · have l0 : (0 : ℚ) ≤ l := Nat.cast_nonneg l
      have x0 : 0 < x := by linarith
      positivity
    · exact some_.trans_le reach
  have step := step_past here.nonneg here.grows pos here.small low' reach here.moved here.moved'
  have first : ((l + (g + 1) + 1).choose (l + 1) : ℚ) =
      (l + (g + 1)).choose l + (l + (g + 1)).choose (l + 1) := by
    exact_mod_cast Nat.choose_succ_succ' (l + (g + 1)) l
  have second : ((l + (g + 1) + 1).choose (l + 1 + 1) : ℚ) =
      (l + (g + 1)).choose (l + 1) + (l + (g + 1)).choose (l + 2) := by
    exact_mod_cast Nat.choose_succ_succ' (l + (g + 1)) (l + 1)
  have third : ((l + (g + 1) + 1 + 1).choose (l + 1 + 1) : ℚ) =
      (l + (g + 1) + 1).choose (l + 1) + (l + (g + 1) + 1).choose (l + 1 + 1) := by
    exact_mod_cast Nat.choose_succ_succ' (l + (g + 1) + 1) (l + 1)
  have shape : l + 1 + (g + 1) = l + (g + 1) + 1 := by omega
  have shape' : l + 1 + (g + 1 + 1) = l + (g + 1) + 1 + 1 := by omega
  unfold drawn
  rw [chance_succ_right, chance_succ_left, shape', shape, third, first, second, pow_succ _ (_ + 1 + 1),
    pow_succ _ (_ + 1)]
  generalize ((l + (g + 1)).choose l : ℚ) = a at *
  generalize ((l + (g + 1)).choose (l + 1) : ℚ) = b at *
  generalize ((l + (g + 1)).choose (l + 2) : ℚ) = c at *
  have whole0 : (0 : ℚ) < 2 ^ (l + (g + 1) + 1) := by positivity
  generalize (2 : ℚ) ^ (l + (g + 1) + 1) = whole at *
  have gap : (x - l) * (b / whole) - b / whole + (a + b) / (whole * 2) -
      (x - l + x / (g + 1) - 1) * ((a + b + (b + c)) / (whole * 2 * 2)) =
      (4 * ((1 - (1 - (x - l))) * b) -
        (2 * (b - a) + (x / (g + 1) - (1 - (x - l))) * (a + 2 * b + c))) / (whole * 2 * 2) := by
    field_simp
    ring
  have nonneg := div_nonneg (sub_nonneg.mpr step) (by linarith : 0 ≤ whole * 2 * 2)
  linarith

theorem spread_step {x : ℚ} {g : Nat} (nonneg : 0 ≤ x) (below : x < g + 1) :
    spread (x + x / (g + 1)) (g + 1 + 1) ≤ spread x (g + 1) := by
  have low := Nat.floor_le nonneg
  have high := (Nat.lt_floor_add_one x).le
  have room : ⌊x⌋₊ ≤ g := Nat.lt_succ_iff.mp ((Nat.floor_lt nonneg).mpr (by exact_mod_cast below))
  have moved : 0 ≤ x / (g + 1) := by positivity
  have less : x / ((g : ℚ) + 1) < 1 := (div_lt_one (by positivity)).mpr below
  have part := Nat.lt_floor_add_one x
  rcases lt_or_ge (x - ⌊x⌋₊ + x / (g + 1)) 1 with within | beyond
  · have floor : ⌊x + x / (g + 1)⌋₊ = ⌊x⌋₊ :=
      (Nat.floor_eq_iff (add_nonneg nonneg moved)).mpr ⟨by linarith, by linarith⟩
    have step := drawn_within room low high
    rwa [spread, floor, add_sub_right_comm]
  · have floor : ⌊x + x / (g + 1)⌋₊ = ⌊x⌋₊ + 1 :=
      (Nat.floor_eq_iff (add_nonneg nonneg moved)).mpr
        ⟨by push_cast; linarith, by push_cast; linarith⟩
    have step := drawn_past room high beyond
    have moved : x + x / (g + 1) - (⌊x⌋₊ + 1 : Nat) = x - ⌊x⌋₊ + x / (g + 1) - 1 := by
      push_cast
      ring
    rwa [spread, floor, moved]

/-! ## Along the ratio -/

theorem spread_antitone {r : ℚ} (nonneg : 0 ≤ r) (less : r < 1) {g g' : Nat} (pos : 0 < g')
    (le : g' ≤ g) : spread (r * g) g ≤ spread (r * g') g' := by
  induction g, le using Nat.le_induction with
  | base => exact le_refl _
  | succ m above ih =>
      obtain ⟨g, rfl⟩ := Nat.exists_eq_succ_of_ne_zero (pos.trans_le above).ne'
      have below : r * ((g + 1 : Nat) : ℚ) < g + 1 := by
        push_cast
        exact mul_lt_of_lt_one_left (by positivity) less
      have step := spread_step (mul_nonneg nonneg (Nat.cast_nonneg _)) below
      have moved : r * ((g + 1 : Nat) : ℚ) + r * ((g + 1 : Nat) : ℚ) / (g + 1) =
          r * ((g + 1 + 1 : Nat) : ℚ) := by
        push_cast
        field_simp
      rw [moved] at step
      exact step.trans ih

/-- Fewer pairs that moved no more unevenly are no less likely. -/
theorem chance_scaled {l g l' g' : Nat} (less : l' < g') (fewer : g' ≤ g)
    (ratio : l * g' ≤ l' * g) : chance l g ≤ chance l' g' := by
  have pos : (0 : ℚ) < g' := by exact_mod_cast Nat.zero_lt_of_lt less
  have r1 : (l' : ℚ) / g' < 1 := (div_lt_one pos).mpr (by exact_mod_cast less)
  have along := spread_antitone (by positivity) r1 (Nat.zero_lt_of_lt less) fewer
  have whole : (l' : ℚ) / g' * g' = l' := div_mul_cancel₀ _ pos.ne'
  have reach : (l : ℚ) ≤ l' / g' * g := by
    rw [div_mul_eq_mul_div, le_div_iff₀ pos]
    exact_mod_cast ratio
  rw [whole, spread_nat] at along
  exact (chance_le_spread reach g).trans along

theorem signTest_eq_chance {l g : Nat} (le : l ≤ g) :
    signTest (min l g) (l + g) = min 1 (2 * chance l g) := by
  have room : min l (l + g - l) = l := by omega
  rw [signTest, min_eq_left le]
  split
  next none_ =>
    obtain ⟨rfl, rfl⟩ := Nat.add_eq_zero_iff.mp none_
    norm_num [chance, tail]
  next => rw [room, chance]

/-- The sign test of fewer pairs, which moved no more unevenly, is no smaller. -/
theorem signTest_scaled {l g l' g' : Nat} (le : l ≤ g) (le' : l' ≤ g') (fewer : g' ≤ g)
    (ratio : l * g' ≤ l' * g) :
    signTest (min l g) (l + g) ≤ signTest (min l' g') (l' + g') := by
  rcases le'.eq_or_lt with rfl | less
  · rw [signTest_balanced (le_refl l') (Nat.le_succ l'), signTest_eq_chance le]
    exact min_le_left _ _
  · rw [signTest_eq_chance le, signTest_eq_chance le']
    exact min_le_min_left _ (mul_le_mul_of_nonneg_left (chance_scaled less fewer ratio) zero_le_two)

end LocalHarness.Library.SignTest
