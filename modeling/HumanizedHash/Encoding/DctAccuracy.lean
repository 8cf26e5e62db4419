import HumanizedHash.Encoding.Dct
import HumanizedHash.Foundations.ScaledCosine
import Mathlib.Algebra.BigOperators.Field
import Mathlib.Data.Matrix.Mul

/-!
# The accuracy of the forward transform

A pass of the integer transform is a row of cosines in units of `2 ^ -13`, up to the rounding of the
coefficients and of the result. The error of the first pass is spread by the second one, which adds
its own. Rows 0 and 4 have the coefficients one and minus one, and nothing is rounded in them.

## Main definitions

* `dctMatrix`: the matrix of the exact transform, scaled by `√8` on either side.
* `samples`: a block as a matrix.
* `passWeight`: the coefficients of a pass.

## Main results

* `sum_abs_dctMatrix_sub_le`, `sum_abs_dctMatrix_le`: the coefficients of a row.
* `abs_passValue_sub_le`: the rounding of a pass.
* `forwardDct_close`: the integer transform and the exact one.

## References

* `src/src/jpeg.cpp`, `src/docs/SPEC.md` (section 13.5).
-/

namespace HumanizedHash

open ScaledCosine

/-! ### The exact transform -/

/-- The cosine transform, scaled: the entries behind the first row are the cosines of the multiples
`(2 * j + 1) * k` of `π / 16`, times `√2`. -/
noncomputable def dctMatrix : Matrix (Fin 8) (Fin 8) ℝ := Matrix.of fun k j =>
  if (k : ℕ) = 0 then 1 else value ((2 * (j : ℕ) + 1) * k)

/-- The samples of a block. -/
def samples (block : Block) : Matrix (Fin 8) (Fin 8) ℝ :=
  Matrix.of fun i j => (block.load (8 * i + j) : ℝ)

/-- The entries of the exact transform in millionths. -/
def rowMillionths (k j : Fin 8) : ℤ :=
  if (k : ℕ) = 0 then 1000000 else millionths ((2 * (j : ℕ) + 1) * k)

/-- The coefficients of a pass in units of `2 ^ -13`. -/
def passWeight (k i : Fin 8) : ℤ :=
  passMatrix k i * if (k : ℕ) = 0 ∨ (k : ℕ) = 4 then 8192 else 1

/-- The coefficients of a pass as numbers. -/
noncomputable def passCoefficient (k i : Fin 8) : ℝ := passWeight k i / 8192

/-- The entries behind the first row are those of the cosine transform. -/
theorem dctMatrix_eq_cos {k : Fin 8} (hk : k ≠ 0) (j : Fin 8) :
    dctMatrix k j = √2 * Real.cos ((2 * (j : ℕ) + 1) * (k : ℕ) * Real.pi / 16) := by
  rw [dctMatrix, Matrix.of_apply, if_neg (Fin.val_ne_zero_iff.mpr hk), value]
  push_cast
  rfl

theorem abs_dctMatrix_sub_le (k j : Fin 8) :
    |dctMatrix k j - rowMillionths k j / 1000000| ≤ 1 / 2000000 := by
  rw [dctMatrix, Matrix.of_apply, rowMillionths]
  split_ifs
  · norm_num
  · exact abs_value_sub_le _

/-- Rows 0 and 4 of both transforms are the same. -/
theorem dctMatrix_exact {k : Fin 8} (hk : k = 0 ∨ k = 4) (j : Fin 8) :
    dctMatrix k j = passMatrix k j := by
  have hrow : ∀ j : Fin 8, passMatrix 0 j = 1 ∧
      millionths ((2 * (j : ℕ) + 1) * 4) = 1000000 * passMatrix 4 j := by decide
  rcases hk with rfl | rfl
  · have hzero : ((0 : Fin 8) : ℕ) = 0 := rfl
    rw [dctMatrix, Matrix.of_apply, if_pos hzero, (hrow j).1, Int.cast_one]
  · have hvalue := value_four_mul_odd j
    rw [dctMatrix, Matrix.of_apply, if_neg (by decide)]
    refine hvalue.trans ?_
    rw [(hrow j).2]
    push_cast
    ring

/-- The entries of a row in sum, by integers that they are close to in some unit. -/
theorem sum_abs_le_of_close {f : Fin 8 → ℝ} {z : Fin 8 → ℤ} {c : ℝ} (hc : 0 < c)
    (h : ∀ i, |f i - z i / c| ≤ 1 / 2000000) {B : ℤ} (hz : ∑ i, |z i| ≤ B) :
    ∑ i, |f i| ≤ 8 / 2000000 + B / c := by
  have hsum : ∑ i, |(z i : ℝ)| ≤ B := by exact_mod_cast hz
  have hentry (i : Fin 8) : |f i| ≤ 1 / 2000000 + |(z i : ℝ)| / c := by
    have hsplit : f i = (f i - z i / c) + z i / c := by ring
    rw [hsplit]
    refine (abs_add_le _ _).trans (add_le_add (h i) ?_)
    rw [abs_div, abs_of_pos hc]
  calc ∑ i, |f i|
      ≤ ∑ i : Fin 8, (1 / 2000000 + |(z i : ℝ)| / c) := Finset.sum_le_sum fun i _ => hentry i
    _ = 8 / 2000000 + (∑ i, |(z i : ℝ)|) / c := by
        rw [Finset.sum_add_distrib, Finset.sum_const, Finset.card_univ, Fintype.card_fin,
          Finset.sum_div]
        norm_num
    _ ≤ 8 / 2000000 + B / c := by gcongr

/-- **The coefficients of a row** are off by less than five units in sum. -/
theorem sum_abs_dctMatrix_sub_le (k : Fin 8) :
    ∑ i, |dctMatrix k i - passCoefficient k i| ≤ 61 / 100000 := by
  have hinteger : ∀ k : Fin 8,
      ∑ i, |8192 * rowMillionths k i - 1000000 * passWeight k i| ≤ 4950000 := by decide
  have hclose (i : Fin 8) : |dctMatrix k i - passCoefficient k i -
      (8192 * rowMillionths k i - 1000000 * passWeight k i : ℤ) / 8192000000| ≤ 1 / 2000000 := by
    have hentry : dctMatrix k i - passCoefficient k i -
        (8192 * rowMillionths k i - 1000000 * passWeight k i : ℤ) / 8192000000 =
        dctMatrix k i - rowMillionths k i / 1000000 := by
      rw [passCoefficient]
      push_cast
      ring
    rw [hentry]
    exact abs_dctMatrix_sub_le k i
  refine (sum_abs_le_of_close (by norm_num) hclose (hinteger k)).trans ?_
  norm_num

/-- The coefficients of a row in sum. -/
theorem sum_abs_dctMatrix_le (k : Fin 8) : ∑ i, |dctMatrix k i| ≤ 801 / 100 := by
  have hinteger : ∀ k : Fin 8, ∑ i, |rowMillionths k i| ≤ 8000000 := by decide
  refine (sum_abs_le_of_close (by norm_num) (abs_dctMatrix_sub_le k) (hinteger k)).trans ?_
  norm_num

/-! ### The passes -/

/-- A number rounded to the nearest multiple of a power of two. -/
theorem abs_rounded_sub_le (x : ℤ) {n : ℕ} (hn : n ≠ 0) :
    |(rounded x n : ℝ) - x / 2 ^ n| ≤ 1 / 2 := by
  obtain ⟨m, rfl⟩ := Nat.exists_eq_succ_of_ne_zero hn
  have hpow : (0 : ℤ) < 2 ^ m := by positivity
  have hreal : (0 : ℝ) < 2 ^ (m + 1) := by positivity
  have hdiv := Int.mul_ediv_add_emod (x + 2 ^ m) (2 ^ (m + 1))
  have hnonneg := Int.emod_nonneg (x + 2 ^ m) (show (2 : ℤ) ^ (m + 1) ≠ 0 by positivity)
  have hlt := Int.emod_lt_of_pos (x + 2 ^ m) (show (0 : ℤ) < 2 ^ (m + 1) by positivity)
  have hdouble : (2 : ℤ) ^ (m + 1) = 2 * 2 ^ m := pow_succ' 2 m
  rw [rounded, Nat.succ_eq_add_one, Nat.add_sub_cancel]
  generalize (x + 2 ^ m) / 2 ^ (m + 1) = q at hdiv ⊢
  have hlow : (2 : ℝ) ^ (m + 1) * q ≤ x + 2 ^ (m + 1) / 2 := by
    have h : (2 : ℤ) ^ (m + 1) * q * 2 ≤ x * 2 + 2 ^ (m + 1) := by omega
    have hcast : (2 : ℝ) ^ (m + 1) * q * 2 ≤ x * 2 + 2 ^ (m + 1) := by exact_mod_cast h
    linarith
  have hhigh : x - 2 ^ (m + 1) / 2 ≤ (2 : ℝ) ^ (m + 1) * q := by
    have h : x * 2 - 2 ^ (m + 1) ≤ (2 : ℤ) ^ (m + 1) * q * 2 := by omega
    have hcast : (x : ℝ) * 2 - 2 ^ (m + 1) ≤ (2 : ℝ) ^ (m + 1) * q * 2 := by exact_mod_cast h
    linarith
  have hdiff : (q : ℝ) - x / 2 ^ (m + 1) = (2 ^ (m + 1) * q - x) / 2 ^ (m + 1) := by
    field_simp
  rw [hdiff, abs_le, le_div_iff₀ hreal, div_le_iff₀ hreal]
  constructor <;> linarith

/-- A row of a pass, by its coefficients. -/
theorem sum_passCoefficient (x : Fin 8 → ℤ) (k : Fin 8) : ∑ i, passCoefficient k i * (x i : ℝ) =
    ((∑ i, passMatrix k i * x i : ℤ) : ℝ) *
      (if (k : ℕ) = 0 ∨ (k : ℕ) = 4 then 1 else 1 / 8192) := by
  rw [Int.cast_sum, Finset.sum_mul]
  refine Finset.sum_congr rfl fun i _ => ?_
  rw [passCoefficient, passWeight]
  split_ifs <;> push_cast <;> ring

/-- **The rounding of a pass.** The first pass is scaled by four, the second one by a quarter. -/
theorem abs_passValue_sub_le (first : Bool) (x : Fin 8 → ℤ) (k : Fin 8) :
    |(passValue first x k : ℝ) -
      (if first then 4 else 1 / 4) * ∑ i, passCoefficient k i * (x i : ℝ)| ≤ 1 / 2 := by
  rw [sum_passCoefficient, passValue]
  generalize ∑ i, passMatrix k i * x i = y
  have hval : (k = 0 ∨ k = 4) ↔ ((k : ℕ) = 0 ∨ (k : ℕ) = 4) := by
    rw [Fin.ext_iff, Fin.ext_iff]
    rfl
  by_cases hk : k = 0 ∨ k = 4
  · rw [if_pos hk, if_pos (hval.mp hk)]
    cases first with
    | true =>
      rw [if_pos rfl, if_pos rfl, show ((y * 4 : ℤ) : ℝ) - 4 * (y * 1) = 0 by push_cast; ring,
        abs_zero]
      norm_num
    | false =>
      have hround := abs_rounded_sub_le y two_ne_zero
      rw [if_neg Bool.false_ne_true, if_neg Bool.false_ne_true,
        show (1 / 4 : ℝ) * (y * 1) = y / 2 ^ 2 by ring]
      exact hround
  · rw [if_neg hk, if_neg (mt hval.mpr hk)]
    cases first with
    | true =>
      have hround := abs_rounded_sub_le y (show 11 ≠ 0 by decide)
      rw [if_pos rfl, if_pos rfl, show (4 : ℝ) * (y * (1 / 8192)) = y / 2 ^ 11 by ring]
      exact hround
    | false =>
      have hround := abs_rounded_sub_le y (show 15 ≠ 0 by decide)
      rw [if_neg Bool.false_ne_true, if_neg Bool.false_ne_true,
        show (1 / 4 : ℝ) * (y * (1 / 8192)) = y / 2 ^ 15 by ring]
      exact hround

/-- A weighted sum of small numbers. -/
theorem abs_sum_mul_le {ι : Type*} [Fintype ι] (a : ι → ℝ) {x : ι → ℝ} {B : ℝ}
    (h : ∀ i, |x i| ≤ B) : |∑ i, a i * x i| ≤ (∑ i, |a i|) * B := by
  calc |∑ i, a i * x i| ≤ ∑ i, |a i * x i| := Finset.abs_sum_le_sum_abs _ _
    _ ≤ ∑ i, |a i| * B := Finset.sum_le_sum fun i _ => by
        rw [abs_mul]
        exact mul_le_mul_of_nonneg_left (h i) (abs_nonneg _)
    _ = (∑ i, |a i|) * B := (Finset.sum_mul ..).symm

/-! ### Both passes -/

section Passes

variable {block : Block}

/-- The values of the first pass. -/
def rowValue (block : Block) (v i : Fin 8) : ℤ := passValue true (lane block (8 * i) 1) v

theorem lane_eq_load (block : Block) (i j : Fin 8) :
    lane block (8 * i) 1 j = block.load (8 * i + j) := by
  rw [lane, Nat.mul_one]

variable (h : ∀ a < 64, -128 ≤ block.load a ∧ block.load a ≤ 127)

include h

theorem abs_samples_le (i j : Fin 8) : |samples block i j| ≤ 128 := by
  obtain ⟨hlow, hhigh⟩ := h (8 * i + j) (by omega)
  have hlow' : (-128 : ℝ) ≤ block.load (8 * i + j) := by exact_mod_cast hlow
  have hhigh' : (block.load (8 * i + j) : ℝ) ≤ 127 := by exact_mod_cast hhigh
  rw [samples, Matrix.of_apply, abs_le]
  constructor <;> linarith

theorem abs_rowValue_le (v i : Fin 8) : |(rowValue block v i : ℝ)| ≤ 4096 := by
  obtain ⟨hlow, hhigh⟩ := passValue_true_mem (x := lane block (8 * i) 1)
    (fun k => by rw [lane_eq_load]; exact h _ (by omega)) v
  have hlow' : (-4096 : ℝ) ≤ rowValue block v i := by exact_mod_cast hlow
  have hhigh' : (rowValue block v i : ℝ) ≤ 4096 := by exact_mod_cast hhigh
  exact abs_le.mpr ⟨hlow', hhigh'⟩

/-- **The error of the first pass.** -/
theorem abs_rowValue_sub_le (v i : Fin 8) :
    |(rowValue block v i : ℝ) - 4 * ∑ j, dctMatrix v j * samples block i j| ≤ 813 / 1000 := by
  have hround := abs_passValue_sub_le true (lane block (8 * i) 1) v
  have hlane : (fun j : Fin 8 => (lane block (8 * i) 1 j : ℝ)) = samples block i :=
    funext fun j => congrArg Int.cast (lane_eq_load block i j)
  simp only [if_true, congrFun hlane] at hround
  have hcoefficients := abs_sum_mul_le (fun j => dctMatrix v j - passCoefficient v j)
    (abs_samples_le h i)
  have hsum := sum_abs_dctMatrix_sub_le v
  have hsplit : ∑ j, (dctMatrix v j - passCoefficient v j) * samples block i j =
      ∑ j, dctMatrix v j * samples block i j - ∑ j, passCoefficient v j * samples block i j := by
    rw [← Finset.sum_sub_distrib]
    exact Finset.sum_congr rfl fun j _ => sub_mul _ _ _
  rw [hsplit] at hcoefficients
  rw [rowValue]
  rw [abs_le] at hround hcoefficients ⊢
  constructor <;> linarith

/-- **The error of both passes.** -/
theorem abs_passValue_rowValue_sub_lt (u v : Fin 8) :
    |(passValue false (rowValue block v) u : ℝ) -
      ∑ i, dctMatrix u i * ∑ j, dctMatrix v j * samples block i j| < 3 := by
  have hround := abs_passValue_sub_le false (rowValue block v) u
  rw [if_neg Bool.false_ne_true] at hround
  have hcoefficients := abs_sum_mul_le (fun i => dctMatrix u i - passCoefficient u i)
    (abs_rowValue_le h v)
  have hspread := abs_sum_mul_le (dctMatrix u) (abs_rowValue_sub_le h v)
  have hsum := sum_abs_dctMatrix_sub_le u
  have htotal := sum_abs_dctMatrix_le u
  have hsplit : ∑ i, (dctMatrix u i - passCoefficient u i) * (rowValue block v i : ℝ) =
      ∑ i, dctMatrix u i * (rowValue block v i : ℝ) -
        ∑ i, passCoefficient u i * (rowValue block v i : ℝ) := by
    rw [← Finset.sum_sub_distrib]
    exact Finset.sum_congr rfl fun i _ => sub_mul _ _ _
  have hexact : ∑ i, dctMatrix u i *
      ((rowValue block v i : ℝ) - 4 * ∑ j, dctMatrix v j * samples block i j) =
      ∑ i, dctMatrix u i * (rowValue block v i : ℝ) -
        4 * ∑ i, dctMatrix u i * ∑ j, dctMatrix v j * samples block i j := by
    rw [Finset.mul_sum, ← Finset.sum_sub_distrib]
    exact Finset.sum_congr rfl fun i _ => by ring
  rw [hsplit] at hcoefficients
  rw [hexact] at hspread
  rw [abs_le] at hround hcoefficients hspread
  rw [abs_lt]
  constructor <;> linarith

omit h

/-- Rows 0 and 4 are exact in both passes. -/
theorem passValue_rowValue_eq {u v : Fin 8} (hu : u = 0 ∨ u = 4) (hv : v = 0 ∨ v = 4) :
    (passValue false (rowValue block v) u : ℝ) =
      ∑ i, dctMatrix u i * ∑ j, dctMatrix v j * samples block i j := by
  have hrow (i : Fin 8) : rowValue block v i =
      (∑ j, passMatrix v j * block.load (8 * i + j)) * 4 := by
    rw [rowValue, passValue, if_pos hv, if_pos rfl]
    simp only [lane_eq_load]
  have hcolumn : ∑ i, passMatrix u i * rowValue block v i =
      (∑ i, passMatrix u i * ∑ j, passMatrix v j * block.load (8 * i + j)) * 4 := by
    rw [Finset.sum_mul]
    exact Finset.sum_congr rfl fun i _ => by rw [hrow, mul_assoc]
  rw [passValue, if_pos hu, if_neg Bool.false_ne_true, hcolumn, rounded_four_mul]
  push_cast
  refine Finset.sum_congr rfl fun i _ => ?_
  rw [dctMatrix_exact hu]
  congr 1
  exact Finset.sum_congr rfl fun j _ => by rw [dctMatrix_exact hv, samples, Matrix.of_apply]

/-- An output of the transform. -/
theorem load_transform (block : Block) (u v : Fin 8) :
    (transform block).load (8 * u + v) = passValue false (rowValue block v) u := by
  have hlane := congrFun (transform_lane block v) u
  rw [lane] at hlane
  rw [Nat.mul_comm 8, Nat.add_comm]
  exact hlane

/-- An entry of the exact transform. -/
theorem dct_apply (block : Block) (u v : Fin 8) :
    (dctMatrix * samples block * dctMatrix.transpose) u v =
      ∑ i, dctMatrix u i * ∑ j, dctMatrix v j * samples block i j := by
  rw [Matrix.mul_assoc, Matrix.mul_apply]
  refine Finset.sum_congr rfl fun i _ => congrArg (dctMatrix u i * ·) ?_
  rw [Matrix.mul_apply]
  exact Finset.sum_congr rfl fun j _ => mul_comm _ _

end Passes

/-- **The integer transform is the cosine transform, scaled.** For a block of samples it does not
overflow, every output is less than three off the exact one, the four outputs of rows and columns 0
and 4 are exact, and the first output is the sum of the samples. -/
theorem forwardDct_close (block : Block) (h : ∀ a < 64, -128 ≤ block.load a ∧ block.load a ≤ 127) :
    ∃ d, forwardDct checked block = some d ∧
      (∀ u v : Fin 8, |(d.load (8 * u + v) : ℝ) -
        (dctMatrix * samples block * dctMatrix.transpose) u v| < 3) ∧
      (∀ u v : Fin 8, u = 0 ∨ u = 4 → v = 0 ∨ v = 4 →
        (d.load (8 * u + v) : ℝ) = (dctMatrix * samples block * dctMatrix.transpose) u v) ∧
      d.load 0 = ∑ i : Fin 8, ∑ k : Fin 8, block.load (8 * i + k) := by
  refine ⟨transform block, forwardDct_checked h, fun u v => ?_, fun u v hu hv => ?_,
    transform_zero block⟩
  · rw [load_transform, dct_apply]
    exact abs_passValue_rowValue_sub_lt h u v
  · rw [load_transform, dct_apply]
    exact passValue_rowValue_eq hu hv

/-- A block of one sample value. -/
theorem forwardDct_close_constant :
    ∃ d, forwardDct checked (Vector.replicate 64 100) = some d ∧ d.load 0 = 6400 := by
  obtain ⟨d, hd, -, -, hfirst⟩ := forwardDct_close (Vector.replicate 64 100) (by decide)
  refine ⟨d, hd, hfirst.trans ?_⟩
  decide

end HumanizedHash
