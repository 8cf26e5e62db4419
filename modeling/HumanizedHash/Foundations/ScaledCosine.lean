import Mathlib.Analysis.SpecialFunctions.Trigonometric.Basic
import Mathlib.Tactic.IntervalCases

/-!
# The cosines of a transform of eight points

The multiples of `√2` by the cosines of the multiples of `π / 16`, and a table of them in
millionths. The square of such a number is one more than the cosine of the double angle, which is
how the entries of the table are bounded; the symmetries of the cosine reduce every multiple to the
first quarter.

## Main definitions

* `ScaledCosine.value`, `ScaledCosine.millionths`.

## Main results

* `ScaledCosine.abs_value_sub_le`: every entry is off by half a millionth at most.
* `ScaledCosine.value_four_mul_odd`: the values that are one or minus one.
-/

namespace HumanizedHash

open Real

namespace ScaledCosine

/-- The cosine of `n * π / 16`, scaled. -/
noncomputable def value (n : ℕ) : ℝ := √2 * cos (n * π / 16)

/-- The values of the first quarter in millionths. -/
def quarter : List ℤ :=
  [1414214, 1387040, 1306563, 1175876, 1000000, 785695, 541196, 275899, 0]

/-- The values in millionths. -/
def millionths (n : ℕ) : ℤ :=
  let r := n % 32
  let s := if r ≤ 16 then r else 32 - r
  if s ≤ 8 then quarter.getD s 0 else -quarter.getD (16 - s) 0

/-! ### The first quarter -/

/-- A number between two others, by their squares. -/
theorem mem_of_sq {x lo hi : ℝ} (hx : 0 ≤ x) (hhi : 0 ≤ hi) (hlow : lo ^ 2 ≤ x ^ 2)
    (hhigh : x ^ 2 ≤ hi ^ 2) : lo ≤ x ∧ x ≤ hi :=
  ⟨le_of_abs_le ((sq_le_sq.mp hlow).trans_eq (abs_of_nonneg hx)),
    (pow_le_pow_iff_left₀ hx hhi two_ne_zero).mp hhigh⟩

theorem sqrt_two_mem : 1.4142135 ≤ √2 ∧ √2 ≤ 1.4142136 := by
  refine mem_of_sq (sqrt_nonneg 2) (by norm_num) ?_ ?_ <;> rw [sq_sqrt (by norm_num)] <;> norm_num

/-- The cosine of half an angle, by the cosine of the angle. -/
theorem cos_half_mem {x lo hi : ℝ} (hx : 0 ≤ cos x) (hhi : 0 ≤ hi)
    (hlow : 2 * lo ^ 2 - 1 ≤ cos (2 * x)) (hhigh : cos (2 * x) ≤ 2 * hi ^ 2 - 1) :
    lo ≤ cos x ∧ cos x ≤ hi := by
  have hsq := cos_sq x
  exact mem_of_sq hx hhi (by linarith) (by linarith)

theorem cos_nonneg_of_le {x : ℝ} (hx : 0 ≤ x) (hle : x ≤ π / 2) : 0 ≤ cos x :=
  cos_nonneg_of_neg_pi_div_two_le_of_le (by linarith [pi_pos]) hle

theorem cos_eighth_mem : 0.9238795 ≤ cos (π / 8) ∧ cos (π / 8) ≤ 0.9238796 := by
  have hroot := sqrt_two_mem
  have hdouble : cos (2 * (π / 8)) = √2 / 2 := by
    rw [show 2 * (π / 8) = π / 4 by ring, cos_pi_div_four]
  refine cos_half_mem (cos_nonneg_of_le (by positivity) (by linarith [pi_pos])) (by norm_num) ?_ ?_
  · rw [hdouble]
    linarith
  · rw [hdouble]
    linarith

theorem cos_three_eighths_mem : 0.3826834 ≤ cos (3 * π / 8) ∧ cos (3 * π / 8) ≤ 0.3826835 := by
  have hroot := sqrt_two_mem
  have hdouble : cos (2 * (3 * π / 8)) = -(√2 / 2) := by
    rw [show 2 * (3 * π / 8) = π - π / 4 by ring, cos_pi_sub, cos_pi_div_four]
  refine cos_half_mem (cos_nonneg_of_le (by positivity) (by linarith [pi_pos])) (by norm_num) ?_ ?_
  · rw [hdouble]
    linarith
  · rw [hdouble]
    linarith

/-- The square of a value. -/
theorem value_sq (n : ℕ) : value n ^ 2 = 1 + cos (n * π / 8) := by
  rw [value, mul_pow, sq_sqrt (by norm_num), cos_sq, show 2 * (n * π / 16) = n * π / 8 by ring]
  ring

theorem value_nonneg {n : ℕ} (hn : n ≤ 8) : 0 ≤ value n := by
  have hle : (n : ℝ) ≤ 8 := by exact_mod_cast hn
  refine mul_nonneg (sqrt_nonneg 2) (cos_nonneg_of_le (by positivity) ?_)
  have := mul_le_mul_of_nonneg_right hle pi_pos.le
  linarith

theorem value_eight : value 8 = 0 := by
  rw [value, show ((8 : ℕ) * π / 16) = π / 2 by push_cast; ring, cos_pi_div_two, mul_zero]

/-- A value of the first quarter, by the cosine of the double angle. -/
theorem abs_value_sub_le_of_cos {n : ℕ} (hn : n ≤ 8) {a : ℝ} (lo hi : ℝ) (ha : 0 ≤ a)
    (hlow : (a - 1 / 2000000) ^ 2 ≤ 1 + lo) (hhigh : 1 + hi ≤ (a + 1 / 2000000) ^ 2)
    (hcos : lo ≤ cos (n * π / 8) ∧ cos (n * π / 8) ≤ hi) : |value n - a| ≤ 1 / 2000000 := by
  have hsq := value_sq n
  have hmem : a - 1 / 2000000 ≤ value n ∧ value n ≤ a + 1 / 2000000 :=
    mem_of_sq (value_nonneg hn) (by linarith) (by linarith) (by linarith)
  rw [abs_le]
  constructor <;> linarith

/-- The cosines of the multiples of `π / 8` up to a quarter turn. -/
theorem cos_mul_mem :
    cos ((0 : ℕ) * π / 8) = 1 ∧
      (0.9238795 ≤ cos ((1 : ℕ) * π / 8) ∧ cos ((1 : ℕ) * π / 8) ≤ 0.9238796) ∧
      (0.7071067 ≤ cos ((2 : ℕ) * π / 8) ∧ cos ((2 : ℕ) * π / 8) ≤ 0.7071068) ∧
      (0.3826834 ≤ cos ((3 : ℕ) * π / 8) ∧ cos ((3 : ℕ) * π / 8) ≤ 0.3826835) ∧
      cos ((4 : ℕ) * π / 8) = 0 := by
  have hroot := sqrt_two_mem
  have htwo : ((2 : ℕ) * π / 8) = π / 4 := by
    push_cast
    ring
  have hfour : ((4 : ℕ) * π / 8) = π / 2 := by
    push_cast
    ring
  refine ⟨?_, ?_, ?_, ?_, ?_⟩
  · rw [Nat.cast_zero, zero_mul, zero_div, cos_zero]
  · rw [Nat.cast_one, one_mul]
    exact cos_eighth_mem
  · rw [htwo, cos_pi_div_four]
    constructor <;> linarith
  · rw [Nat.cast_ofNat]
    exact cos_three_eighths_mem
  · rw [hfour, cos_pi_div_two]

/-- The cosines behind a quarter turn. -/
theorem cos_mul_reflect {k n : ℕ} (h : n + k = 8) : cos (n * π / 8) = -cos (k * π / 8) := by
  have hcast : (n : ℝ) = 8 - k := by
    rw [eq_sub_iff_add_eq]
    exact_mod_cast h
  rw [← cos_pi_sub, hcast]
  congr 1
  ring

/-- **The entries of the first quarter.** -/
theorem abs_value_sub_le_quarter {n : ℕ} (hn : n ≤ 8) :
    |value n - (quarter.getD n 0 : ℤ) / 1000000| ≤ 1 / 2000000 := by
  obtain ⟨hzero, hone, htwo, hthree, hfour⟩ := cos_mul_mem
  have hreflect {k m : ℕ} {lo hi : ℝ} (h : m + k = 8)
      (hcos : lo ≤ cos (k * π / 8) ∧ cos (k * π / 8) ≤ hi) :
      -hi ≤ cos (m * π / 8) ∧ cos (m * π / 8) ≤ -lo := by
    rw [cos_mul_reflect h]
    exact ⟨neg_le_neg hcos.2, neg_le_neg hcos.1⟩
  interval_cases n
  · exact abs_value_sub_le_of_cos hn 1 1 (by norm_num [quarter]) (by norm_num [quarter])
      (by norm_num [quarter]) ⟨hzero.ge, hzero.le⟩
  · exact abs_value_sub_le_of_cos hn _ _ (by norm_num [quarter]) (by norm_num [quarter])
      (by norm_num [quarter]) hone
  · exact abs_value_sub_le_of_cos hn _ _ (by norm_num [quarter]) (by norm_num [quarter])
      (by norm_num [quarter]) htwo
  · exact abs_value_sub_le_of_cos hn _ _ (by norm_num [quarter]) (by norm_num [quarter])
      (by norm_num [quarter]) hthree
  · exact abs_value_sub_le_of_cos hn 0 0 (by norm_num [quarter]) (by norm_num [quarter])
      (by norm_num [quarter]) ⟨hfour.ge, hfour.le⟩
  · exact abs_value_sub_le_of_cos hn _ _ (by norm_num [quarter]) (by norm_num [quarter])
      (by norm_num [quarter]) (hreflect rfl hthree)
  · exact abs_value_sub_le_of_cos hn _ _ (by norm_num [quarter]) (by norm_num [quarter])
      (by norm_num [quarter]) (hreflect rfl htwo)
  · exact abs_value_sub_le_of_cos hn _ _ (by norm_num [quarter]) (by norm_num [quarter])
      (by norm_num [quarter]) (hreflect rfl hone)
  · rw [value_eight]
    norm_num [quarter]

/-! ### All multiples -/

theorem value_add (n : ℕ) : value (n + 32) = value n := by
  rw [value, value, ← cos_add_two_pi (n * π / 16)]
  congr 2
  push_cast
  ring

/-- The cosine is even. -/
theorem value_reflect {n k : ℕ} (h : n + k = 32) : value n = value k := by
  have hcast : (n : ℝ) = 32 - k := by
    rw [eq_sub_iff_add_eq]
    exact_mod_cast h
  rw [value, value, ← cos_two_pi_sub (k * π / 16), hcast]
  congr 2
  ring

/-- The cosine is odd about a quarter turn. -/
theorem value_antireflect {n k : ℕ} (h : n + k = 16) : value n = -value k := by
  have hcast : (n : ℝ) = 16 - k := by
    rw [eq_sub_iff_add_eq]
    exact_mod_cast h
  rw [value, value, ← mul_neg, ← cos_pi_sub, hcast]
  congr 2
  ring

theorem value_mod (n : ℕ) : value (n % 32) = value n := by
  conv_rhs => rw [← Nat.mod_add_div n 32]
  generalize n / 32 = q
  induction q with
  | zero => rfl
  | succ q ih => rw [ih, Nat.mul_succ, ← Nat.add_assoc, value_add]

/-- **Every entry** is off by half a millionth at most. -/
theorem abs_value_sub_le (n : ℕ) : |value n - millionths n / 1000000| ≤ 1 / 2000000 := by
  have hlt : n % 32 < 32 := Nat.mod_lt n (by decide)
  rw [← value_mod, millionths]
  generalize n % 32 = r at hlt ⊢
  -- the first half turn
  have hhalf (s : ℕ) (hs : s ≤ 16) :
      |value s - (if s ≤ 8 then quarter.getD s 0 else -quarter.getD (16 - s) 0 : ℤ) / 1000000| ≤
        1 / 2000000 := by
    by_cases hquarter : s ≤ 8
    · rw [if_pos hquarter]
      exact abs_value_sub_le_quarter hquarter
    · have hentry := abs_value_sub_le_quarter (show 16 - s ≤ 8 by omega)
      rw [if_neg hquarter, value_antireflect (show s + (16 - s) = 16 by omega), Int.cast_neg,
        neg_div, ← neg_sub', abs_neg]
      exact hentry
  by_cases h : r ≤ 16
  · simp only [if_pos h]
    exact hhalf r h
  · rw [value_reflect (show r + (32 - r) = 32 by omega)]
    simp only [if_neg h]
    exact hhalf (32 - r) (by omega)

/-- The values of the odd multiples of an eighth turn. -/
theorem value_four_mul_odd (j : ℕ) :
    value ((2 * j + 1) * 4) = millionths ((2 * j + 1) * 4) / 1000000 := by
  have hfour : value 4 = 1 := by
    rw [value, show ((4 : ℕ) * π / 16) = π / 4 by push_cast; ring, cos_pi_div_four, mul_div_assoc',
      mul_self_sqrt (by norm_num)]
    norm_num
  have hmod : (2 * j + 1) * 4 % 32 = 4 ∨ (2 * j + 1) * 4 % 32 = 12 ∨ (2 * j + 1) * 4 % 32 = 20 ∨
      (2 * j + 1) * 4 % 32 = 28 := by omega
  rw [← value_mod, millionths]
  rcases hmod with h | h | h | h <;> rw [h]
  · rw [hfour]
    norm_num [quarter]
  · rw [value_antireflect (show 12 + 4 = 16 from rfl), hfour]
    norm_num [quarter]
  · rw [value_reflect (show 20 + 12 = 32 from rfl), value_antireflect (show 12 + 4 = 16 from rfl),
      hfour]
    norm_num [quarter]
  · rw [value_reflect (show 28 + 4 = 32 from rfl), hfour]
    norm_num [quarter]

end ScaledCosine

end HumanizedHash
