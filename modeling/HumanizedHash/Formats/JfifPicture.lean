import HumanizedHash.Formats.Jfif
import HumanizedHash.Foundations.CosineTransform
import HumanizedHash.Raster.Blend

/-!
# The picture that a JPEG file shows

What a decoder makes of the coefficients of a file: each multiplied by its element of the quantiser,
the inverse cosine transform with the level shift, and the colours by the formulas of JFIF. Nothing
is rounded here; the rounding of a pixel to bytes is a definition of its own.

## Main definitions

* `Jfif.zigzagPlace`: the place of a coefficient in the order of the file.
* `Jfif.coefficients`, `Jfif.blockSamples`: the samples of a block.
* `Jfif.Decoded.blockAt`, `Jfif.Decoded.coefficientsAt`: a component in a block position.
* `Jfif.colourOf`, `Jfif.Decoded.colourAt`, `Jfif.toByte`: the colours.

## Main results

* `Jfif.blockSamples_eq`: the inverse transform by the transform that is orthogonal.
-/

namespace HumanizedHash

open CosineTransform
open scoped Matrix

namespace Jfif

/-! ### A block -/

/-- The place of the coefficient in row `u` and column `v`. The diagonals come one behind the other,
in alternating directions. -/
def zigzagPlace (u v : Fin 8) : ℕ :=
  let s := (u : ℕ) + v
  let along := if s % 2 = 0 then (v : ℕ) else u
  if s < 8 then s * (s + 1) / 2 + along
  else 64 - (15 - s) * (16 - s) / 2 + (along - (s - 7))

/-- The coefficients of a block, each the value of the file by its element of the quantiser. -/
def coefficients (quantiser : List UInt8) (block : List ℤ) (u v : Fin 8) : ℤ :=
  block.getD (zigzagPlace u v) 0 * (quantiser.getD (zigzagPlace u v) 0).toNat

/-- The factor of a row or a column of coefficients. -/
noncomputable def rowFactor (u : Fin 8) : ℝ := if (u : ℕ) = 0 then 1 / √(2 : ℕ) else 1

/-- The samples of a block: the inverse transform and the level shift. -/
noncomputable def blockSamples (quantiser : List UInt8) (block : List ℤ) :
    Matrix (Fin 8) (Fin 8) ℝ :=
  Matrix.of fun i j => 128 + 1 / 4 * ∑ u, ∑ v, rowFactor u * rowFactor v *
    coefficients quantiser block u v *
    Real.cos ((2 * i + 1 : ℕ) * (u : ℕ) * Real.pi / (16 : ℕ)) *
    Real.cos ((2 * j + 1 : ℕ) * (v : ℕ) * Real.pi / (16 : ℕ))

/-- The coefficients as a matrix. -/
def coefficientMatrix (quantiser : List UInt8) (block : List ℤ) : Matrix (Fin 8) (Fin 8) ℝ :=
  Matrix.of fun u v => (coefficients quantiser block u v : ℝ)

/-- A cosine with its factor. -/
theorem rowFactor_mul_cos (u i : Fin 8) :
    rowFactor u * Real.cos ((2 * i + 1 : ℕ) * (u : ℕ) * Real.pi / (16 : ℕ)) =
      1 / √2 * cosineMatrix 8 u i := by
  have hroot : √2 * √2 = 2 := Real.mul_self_sqrt (by norm_num)
  have hpos : √2 ≠ 0 := Real.sqrt_ne_zero'.mpr (by norm_num)
  rw [rowFactor, Nat.cast_ofNat]
  split_ifs with hu
  · rw [cosineMatrix_apply_zero hu, hu, Nat.cast_zero, mul_zero, zero_mul, zero_div, Real.cos_zero]
  · rw [cosineMatrix_apply hu, one_mul, ← mul_assoc, one_div_mul_cancel hpos, one_mul]
    norm_num

/-- **The inverse transform of a block** is that of the orthogonal matrix, divided by 8. -/
theorem blockSamples_eq (quantiser : List UInt8) (block : List ℤ) :
    blockSamples quantiser block = Matrix.of (fun _ _ => (128 : ℝ)) +
      (1 / 8 : ℝ) • inverse (cosineMatrix 8) (coefficientMatrix quantiser block) := by
  have hroot : 1 / √2 * (1 / √2) = 1 / 2 := by
    rw [div_mul_div_comm, Real.mul_self_sqrt (by norm_num), one_mul]
  ext i j
  rw [blockSamples, Matrix.of_apply, Matrix.add_apply, Matrix.of_apply, Matrix.smul_apply,
    smul_eq_mul, inverse, Matrix.mul_assoc, Matrix.mul_apply, Finset.mul_sum, Finset.mul_sum]
  congr 1
  refine Finset.sum_congr rfl fun u _ => ?_
  rw [Matrix.mul_apply, Matrix.transpose_apply, Finset.mul_sum, Finset.mul_sum, Finset.mul_sum]
  refine Finset.sum_congr rfl fun v _ => ?_
  have hrow := rowFactor_mul_cos u i
  have hcolumn := rowFactor_mul_cos v j
  calc 1 / 4 * (rowFactor u * rowFactor v * coefficients quantiser block u v *
        Real.cos ((2 * i + 1 : ℕ) * (u : ℕ) * Real.pi / (16 : ℕ)) *
        Real.cos ((2 * j + 1 : ℕ) * (v : ℕ) * Real.pi / (16 : ℕ)))
      = 1 / 4 * coefficients quantiser block u v *
          (rowFactor u * Real.cos ((2 * i + 1 : ℕ) * (u : ℕ) * Real.pi / (16 : ℕ))) *
          (rowFactor v * Real.cos ((2 * j + 1 : ℕ) * (v : ℕ) * Real.pi / (16 : ℕ))) := by ring
    _ = 1 / 4 * coefficients quantiser block u v * (1 / √2 * (1 / √2)) *
          (cosineMatrix 8 u i * cosineMatrix 8 v j) := by
        rw [hrow, hcolumn]
        ring
    _ = 1 / 8 * (cosineMatrix 8 u i *
          (coefficientMatrix quantiser block u v * cosineMatrix 8 v j)) := by
        rw [hroot, coefficientMatrix, Matrix.of_apply]
        ring

/-! ### A picture -/

/-- The samples of the component `c` in the block position in this row and column. -/
noncomputable def Decoded.blockAt (d : Decoded) (c row column : ℕ) : Matrix (Fin 8) (Fin 8) ℝ :=
  let place := (row * ((d.width + 7) / 8) + column) * d.quantisers.length + c
  blockSamples (d.quantisers.getD c []) (d.blocks.getD place [])

/-- The coefficients of the component `c` in the block position in this row and column. -/
def Decoded.coefficientsAt (d : Decoded) (c row column : ℕ) (u v : Fin 8) : ℤ :=
  let place := (row * ((d.width + 7) / 8) + column) * d.quantisers.length + c
  coefficients (d.quantisers.getD c []) (d.blocks.getD place []) u v

/-- The part of the second component in a channel. -/
noncomputable def cbWeight : Channel → ℝ
  | .r => 0
  | .g => -0.34414
  | .b => 1.772

/-- The part of the third component in a channel. -/
noncomputable def crWeight : Channel → ℝ
  | .r => 1.402
  | .g => -0.71414
  | .b => 0

/-- The colour for the samples of a pixel. -/
noncomputable def colourOf (y cb cr : ℝ) (channel : Channel) : ℝ :=
  y + cbWeight channel * (cb - 128) + crWeight channel * (cr - 128)

/-- A channel in a block position. -/
noncomputable def Decoded.colourAt (d : Decoded) (row column : ℕ) (channel : Channel) :
    Matrix (Fin 8) (Fin 8) ℝ :=
  Matrix.of fun i j => colourOf (d.blockAt 0 row column i j) (d.blockAt 1 row column i j)
    (d.blockAt 2 row column i j) channel

/-- A value as a byte: rounded, and cut at the ends of the range. -/
noncomputable def toByte (v : ℝ) : ℤ := max 0 (min 255 (round v))

end Jfif

end HumanizedHash
