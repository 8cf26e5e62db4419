import Mathlib.Analysis.Matrix.Normed
import Mathlib.Analysis.SpecialFunctions.Trigonometric.Complex

/-!
# The cosine transform of `n` points

The rows of cosines of the transform are orthogonal, all of the same length, for every number of
points: the product of two cosines is a sum of cosines, and the cosines of the odd multiples of an
angle cancel over a half turn. A matrix with such rows, on both sides of a square of numbers, keeps
the sum of the squares up to a factor, and its transpose undoes it.

## Main definitions

* `CosineTransform.cosineMatrix`: the transform.
* `CosineTransform.Scales`: a matrix with orthogonal rows of one length.
* `CosineTransform.forward`, `CosineTransform.inverse`: both sides of a square.

## Main results

* `CosineTransform.scales_cosineMatrix`: the transform is orthogonal up to a factor.
* `CosineTransform.Scales.inverse_forward`: the inverse undoes the transform.
* `CosineTransform.Scales.norm_forward`, `CosineTransform.Scales.norm_inverse`: the norms.
-/

namespace HumanizedHash

open scoped Matrix Matrix.Norms.Frobenius

namespace CosineTransform

open Finset Real

/-! ### The transform -/

/-- The transform, scaled: the first row is ones, and the other ones are cosines times `√2`. -/
noncomputable def cosineMatrix (n : ℕ) : Matrix (Fin n) (Fin n) ℝ := Matrix.of fun k j =>
  if (k : ℕ) = 0 then 1 else √(2 : ℕ) * cos ((2 * j + 1 : ℕ) * (k : ℕ) * π / (2 * n : ℕ))

variable {n : ℕ}

/-- The cosines of the odd multiples of `m * π / (2 * n)` cancel. -/
theorem sum_cos_odd_eq_zero {m : ℕ} (hm : 0 < m) (hlt : m < 2 * n) :
    ∑ j ∈ range n, cos ((2 * (j : ℝ) + 1) * m * π / (2 * n)) = 0 := by
  have hn : (0 : ℝ) < n := by
    have hpos : 0 < n := by omega
    exact_mod_cast hpos
  have hm' : (0 : ℝ) < m := by exact_mod_cast hm
  have hlt' : (m : ℝ) < 2 * n := by exact_mod_cast hlt
  have hangle : (m : ℝ) * π / (2 * n) < π := by
    rw [div_lt_iff₀ (by positivity), mul_comm π]
    exact mul_lt_mul_of_pos_right hlt' pi_pos
  have hsin : sin (m * π / n / 2) ≠ 0 := by
    rw [div_div, mul_comm (n : ℝ) 2]
    exact (sin_pos_of_pos_of_lt_pi (by positivity) hangle).ne'
  have hsum := sin_mul_sum_cos n (m * π / n) (m * π / (2 * n))
  -- the sine of a whole multiple of a half turn, or the cosine of a quarter turn more
  have hzero : sin (n * (m * π / n) / 2) *
      cos ((n - 1) * (m * π / n) / 2 + m * π / (2 * n)) = 0 := by
    have hfirst : (n : ℝ) * (m * π / n) / 2 = m * π / 2 := by field_simp
    have hsecond : ((n : ℝ) - 1) * (m * π / n) / 2 + m * π / (2 * n) = m * π / 2 := by
      field_simp
      ring
    have hdouble : sin (2 * (m * π / 2)) = 0 := by
      rw [show 2 * ((m : ℝ) * π / 2) = m * π by ring]
      exact sin_nat_mul_pi m
    rw [hfirst, hsecond]
    rw [sin_two_mul] at hdouble
    linarith
  rw [hzero] at hsum
  have hterm (j : ℕ) : cos ((2 * (j : ℝ) + 1) * m * π / (2 * n)) =
      cos (m * π / n * j + m * π / (2 * n)) := by
    congr 1
    field_simp
  simp only [hterm]
  exact (mul_eq_zero.mp hsum).resolve_left hsin

/-- The product of two entries of a column. -/
theorem cos_mul_cos_odd (k l j : ℕ) (h : l ≤ k) :
    2 * (cos ((2 * (j : ℝ) + 1) * k * π / (2 * n)) * cos ((2 * (j : ℝ) + 1) * l * π / (2 * n))) =
      cos ((2 * (j : ℝ) + 1) * (k - l : ℕ) * π / (2 * n)) +
        cos ((2 * (j : ℝ) + 1) * (k + l : ℕ) * π / (2 * n)) := by
  have hdiff : (2 * (j : ℝ) + 1) * (k - l : ℕ) * π / (2 * n) =
      (2 * (j : ℝ) + 1) * k * π / (2 * n) - (2 * (j : ℝ) + 1) * l * π / (2 * n) := by
    rw [Nat.cast_sub h]
    ring
  have hsum : (2 * (j : ℝ) + 1) * (k + l : ℕ) * π / (2 * n) =
      (2 * (j : ℝ) + 1) * k * π / (2 * n) + (2 * (j : ℝ) + 1) * l * π / (2 * n) := by
    rw [Nat.cast_add]
    ring
  rw [hdiff, hsum, cos_sub, cos_add]
  ring

/-- Two rows of cosines. -/
theorem sum_cos_mul_cos {k l : ℕ} (hl : 0 < l) (hle : l ≤ k) (hk : k < n) :
    2 * ∑ j ∈ range n,
        cos ((2 * (j : ℝ) + 1) * k * π / (2 * n)) * cos ((2 * (j : ℝ) + 1) * l * π / (2 * n)) =
      if k = l then (n : ℝ) else 0 := by
  rw [mul_sum, sum_congr rfl fun j _ => cos_mul_cos_odd k l j hle, sum_add_distrib,
    sum_cos_odd_eq_zero (show 0 < k + l by omega) (by omega), add_zero]
  by_cases heq : k = l
  · subst heq
    rw [if_pos rfl, Nat.sub_self]
    simp
  · rw [if_neg heq]
    exact sum_cos_odd_eq_zero (by omega) (by omega)

/-- The entries of the transform behind the first row. -/
theorem cosineMatrix_apply {k : Fin n} (hk : (k : ℕ) ≠ 0) (j : Fin n) :
    cosineMatrix n k j = √2 * cos ((2 * (j : ℕ) + 1) * (k : ℕ) * π / (2 * n)) := by
  rw [cosineMatrix, Matrix.of_apply, if_neg hk]
  push_cast
  rfl

/-- The entries of the first row. -/
theorem cosineMatrix_apply_zero {k : Fin n} (hk : (k : ℕ) = 0) (j : Fin n) :
    cosineMatrix n k j = 1 := by
  rw [cosineMatrix, Matrix.of_apply, if_pos hk]

/-! ### Orthogonal rows -/

/-- A matrix whose rows are orthogonal and of the square length `c`. -/
structure Scales (c : ℝ) (U : Matrix (Fin n) (Fin n) ℝ) : Prop where
  /-- The length is not zero. -/
  ne_zero : c ≠ 0
  mul_transpose : U * Uᵀ = c • 1

/-- Two different rows of the transform, or the same one. -/
theorem sum_cosineMatrix_mul (k l : Fin n) (hle : l ≤ k) :
    ∑ j, cosineMatrix n k j * cosineMatrix n l j = if k = l then (n : ℝ) else 0 := by
  have hkn := k.isLt
  by_cases hk : (k : ℕ) = 0
  · -- both are the first row
    have hl : (l : ℕ) = 0 := Nat.le_zero.mp (hk ▸ hle)
    rw [if_pos (Fin.ext (hk.trans hl.symm))]
    simp only [cosineMatrix_apply_zero hk, cosineMatrix_apply_zero hl]
    simp
  by_cases hl : (l : ℕ) = 0
  · -- one is the first row
    rw [if_neg fun h : k = l => hk (by rw [h, hl])]
    simp only [cosineMatrix_apply hk, cosineMatrix_apply_zero hl, mul_one]
    rw [← mul_sum, Fin.sum_univ_eq_sum_range
      (fun j => cos ((2 * (j : ℝ) + 1) * (k : ℕ) * π / (2 * n))) n,
      sum_cos_odd_eq_zero (by omega) (by omega), mul_zero]
  · have hroot : √2 * √2 = 2 := mul_self_sqrt (by norm_num)
    have hentry (j : Fin n) : cosineMatrix n k j * cosineMatrix n l j =
        2 * (cos ((2 * (j : ℕ) + 1) * (k : ℕ) * π / (2 * n)) *
          cos ((2 * (j : ℕ) + 1) * (l : ℕ) * π / (2 * n))) := by
      rw [cosineMatrix_apply hk, cosineMatrix_apply hl, mul_mul_mul_comm, hroot]
    simp only [hentry]
    rw [← mul_sum, Fin.sum_univ_eq_sum_range
      (fun j => cos ((2 * (j : ℝ) + 1) * (k : ℕ) * π / (2 * n)) *
        cos ((2 * (j : ℝ) + 1) * (l : ℕ) * π / (2 * n))) n,
      sum_cos_mul_cos (by omega) hle hkn]
    simp only [Fin.ext_iff]

/-- The rows behind the first one sum to zero. -/
theorem sum_cosineMatrix_eq_zero {k : Fin n} (hk : (k : ℕ) ≠ 0) : ∑ j, cosineMatrix n k j = 0 := by
  have hkn := k.isLt
  obtain ⟨z, hz⟩ : ∃ z : Fin n, (z : ℕ) = 0 := ⟨⟨0, by omega⟩, rfl⟩
  have hfirst := sum_cosineMatrix_mul k z (Fin.le_def.mpr (hz ▸ Nat.zero_le _))
  rw [if_neg fun heq => hk ((congrArg Fin.val heq).trans hz)] at hfirst
  simpa only [cosineMatrix_apply_zero hz, mul_one] using hfirst

/-- **The transform is orthogonal**, and all its rows are of the square length `n`. -/
theorem scales_cosineMatrix (hn : 0 < n) : Scales n (cosineMatrix n) where
  ne_zero := Nat.cast_ne_zero.mpr hn.ne'
  mul_transpose := by
    ext k l
    rw [Matrix.mul_apply, Matrix.smul_apply, Matrix.one_apply, smul_eq_mul, mul_ite, mul_one,
      mul_zero]
    simp only [Matrix.transpose_apply]
    rcases le_total l k with hle | hle
    · exact sum_cosineMatrix_mul k l hle
    · have hsum := sum_cosineMatrix_mul l k hle
      simp only [mul_comm (cosineMatrix n k _), hsum, eq_comm]

/-! ### Both sides of a square -/

/-- The transform of the rows and the columns of a square. -/
def forward (U X : Matrix (Fin n) (Fin n) ℝ) : Matrix (Fin n) (Fin n) ℝ := U * X * Uᵀ

/-- The transform by the transpose. -/
def inverse (U Y : Matrix (Fin n) (Fin n) ℝ) : Matrix (Fin n) (Fin n) ℝ := Uᵀ * Y * U

theorem inverse_sub (U Y Z : Matrix (Fin n) (Fin n) ℝ) :
    inverse U (Y - Z) = inverse U Y - inverse U Z := by
  rw [inverse, inverse, inverse, Matrix.mul_sub, Matrix.sub_mul]

theorem inverse_smul (U : Matrix (Fin n) (Fin n) ℝ) (a : ℝ) (Y : Matrix (Fin n) (Fin n) ℝ) :
    inverse U (a • Y) = a • inverse U Y := by
  rw [inverse, inverse, Matrix.mul_smul, Matrix.smul_mul]

theorem forward_add (U X Z : Matrix (Fin n) (Fin n) ℝ) :
    forward U (X + Z) = forward U X + forward U Z := by
  rw [forward, forward, forward, Matrix.mul_add, Matrix.add_mul]

/-- A square with only the first coefficient is constant. -/
theorem inverse_eq_of_single {Y : Matrix (Fin n) (Fin n) ℝ} {z : Fin n} (hz : (z : ℕ) = 0)
    (h : ∀ k l : Fin n, (k : ℕ) ≠ 0 ∨ (l : ℕ) ≠ 0 → Y k l = 0) (i j : Fin n) :
    inverse (cosineMatrix n) Y i j = Y z z := by
  have hne {k : Fin n} (hk : k ≠ z) : (k : ℕ) ≠ 0 := fun hzero => hk (Fin.ext (hzero.trans hz.symm))
  rw [inverse, Matrix.mul_apply, sum_eq_single z]
  · rw [Matrix.mul_apply, sum_eq_single z]
    · rw [Matrix.transpose_apply, cosineMatrix_apply_zero hz, cosineMatrix_apply_zero hz, one_mul,
        mul_one]
    · exact fun k _ hk => by rw [h k z (Or.inl (hne hk)), mul_zero]
    · exact fun hmem => absurd (mem_univ z) hmem
  · intro l _ hl
    rw [Matrix.mul_apply, sum_eq_zero fun k _ => by rw [h k l (Or.inr (hne hl)), mul_zero], zero_mul]
  · exact fun hmem => absurd (mem_univ z) hmem

theorem sq_norm_eq_sum (X : Matrix (Fin n) (Fin n) ℝ) : ‖X‖ ^ 2 = ∑ i, ∑ j, X i j ^ 2 := by
  have hentry (i j : Fin n) : ‖X i j‖ ^ (2 : ℝ) = X i j ^ 2 := by
    rw [rpow_two, norm_eq_abs, sq_abs]
  rw [Matrix.frobenius_norm_def, ← sqrt_eq_rpow,
    sq_sqrt (sum_nonneg fun i _ => sum_nonneg fun j _ => by positivity)]
  simp only [hentry]

/-- A constant has only the first coefficient. -/
theorem forward_const_eq_zero (a : ℝ) {k l : Fin n} (h : (k : ℕ) ≠ 0 ∨ (l : ℕ) ≠ 0) :
    forward (cosineMatrix n) (Matrix.of fun _ _ => a) k l = 0 := by
  rw [forward, Matrix.mul_apply]
  simp only [Matrix.mul_apply, Matrix.of_apply, Matrix.transpose_apply, ← sum_mul, ← mul_sum]
  rcases h with hk | hl
  · rw [sum_cosineMatrix_eq_zero hk, zero_mul, zero_mul]
  · rw [sum_cosineMatrix_eq_zero hl, mul_zero]

/-- The sum of the squares as a trace. -/
theorem sq_norm_eq_trace (X : Matrix (Fin n) (Fin n) ℝ) : ‖X‖ ^ 2 = (X * Xᵀ).trace := by
  rw [sq_norm_eq_sum]
  simp only [sq]
  rfl

namespace Scales

variable {c : ℝ} {U : Matrix (Fin n) (Fin n) ℝ}

/-- The columns are orthogonal too. -/
theorem transpose_mul (h : Scales c U) : Uᵀ * U = c • 1 := by
  have hinv : U * (c⁻¹ • Uᵀ) = 1 := by
    rw [Matrix.mul_smul, h.mul_transpose, smul_smul, inv_mul_cancel₀ h.ne_zero, one_smul]
  have hcomm := mul_eq_one_comm.mp hinv
  rw [Matrix.smul_mul] at hcomm
  rw [← hcomm, smul_smul, mul_inv_cancel₀ h.ne_zero, one_smul]

theorem transpose (h : Scales c U) : Scales c Uᵀ where
  ne_zero := h.ne_zero
  mul_transpose := by rw [Matrix.transpose_transpose, h.transpose_mul]

/-- **The transpose undoes the transform**, up to the factor. -/
theorem inverse_forward (h : Scales c U) (X : Matrix (Fin n) (Fin n) ℝ) :
    inverse U (forward U X) = c ^ 2 • X := by
  calc Uᵀ * (U * X * Uᵀ) * U = (Uᵀ * U) * X * (Uᵀ * U) := by simp only [Matrix.mul_assoc]
    _ = c ^ 2 • X := by
        rw [h.transpose_mul, Matrix.smul_mul, Matrix.one_mul, Matrix.mul_smul, Matrix.mul_one,
          smul_smul, sq]

/-- The sum of the squares is kept up to the factor. -/
theorem sq_norm_forward (h : Scales c U) (X : Matrix (Fin n) (Fin n) ℝ) :
    ‖forward U X‖ ^ 2 = c ^ 2 * ‖X‖ ^ 2 := by
  have hproduct : forward U X * (forward U X)ᵀ = c • (U * (X * Xᵀ) * Uᵀ) := by
    calc U * X * Uᵀ * (U * X * Uᵀ)ᵀ = U * X * (Uᵀ * U) * Xᵀ * Uᵀ := by
          simp only [Matrix.transpose_mul, Matrix.transpose_transpose, Matrix.mul_assoc]
      _ = c • (U * (X * Xᵀ) * Uᵀ) := by
          rw [h.transpose_mul]
          simp only [Matrix.mul_smul, Matrix.smul_mul, Matrix.mul_one, Matrix.mul_assoc]
  rw [sq_norm_eq_trace, sq_norm_eq_trace, hproduct, Matrix.trace_smul, Matrix.trace_mul_comm,
    ← Matrix.mul_assoc, h.transpose_mul, Matrix.smul_mul, Matrix.one_mul, Matrix.trace_smul,
    smul_eq_mul, smul_eq_mul, sq c, mul_assoc]

/-- **The norm is kept up to the factor.** -/
theorem norm_forward (h : Scales c U) (X : Matrix (Fin n) (Fin n) ℝ) :
    ‖forward U X‖ = |c| * ‖X‖ := by
  have hsq := h.sq_norm_forward X
  rw [← sq_abs c, ← mul_pow] at hsq
  exact (sq_eq_sq₀ (norm_nonneg _) (by positivity)).mp hsq

/-- The norm of the inverse. -/
theorem norm_inverse (h : Scales c U) (Y : Matrix (Fin n) (Fin n) ℝ) :
    ‖inverse U Y‖ = |c| * ‖Y‖ := by
  have hforward := h.transpose.norm_forward Y
  rw [forward, Matrix.transpose_transpose] at hforward
  exact hforward

end Scales

/-- An entry is at most the norm. -/
theorem abs_entry_le_norm (X : Matrix (Fin n) (Fin n) ℝ) (i j : Fin n) : |X i j| ≤ ‖X‖ := by
  have hsq : X i j ^ 2 ≤ ‖X‖ ^ 2 := by
    rw [sq_norm_eq_sum]
    calc X i j ^ 2 ≤ ∑ j, X i j ^ 2 :=
          single_le_sum (f := fun j => X i j ^ 2) (fun j _ => sq_nonneg _) (mem_univ j)
      _ ≤ ∑ i, ∑ j, X i j ^ 2 :=
          single_le_sum (f := fun i => ∑ j, X i j ^ 2)
            (fun i _ => sum_nonneg fun j _ => sq_nonneg _) (mem_univ i)
  exact abs_le_of_sq_le_sq hsq (norm_nonneg _)

/-- Entries that are bounded one by one. -/
theorem sq_norm_le_of_entries {X B : Matrix (Fin n) (Fin n) ℝ} (h : ∀ i j, |X i j| ≤ B i j) :
    ‖X‖ ^ 2 ≤ ∑ i, ∑ j, B i j ^ 2 := by
  rw [sq_norm_eq_sum]
  exact sum_le_sum fun i _ => sum_le_sum fun j _ =>
    sq_le_sq' (neg_le_of_abs_le (h i j)) (le_of_abs_le (h i j))

end CosineTransform

end HumanizedHash
