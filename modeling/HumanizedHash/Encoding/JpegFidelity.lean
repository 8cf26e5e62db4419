import HumanizedHash.Encoding.DctAccuracy
import HumanizedHash.Encoding.JpegInverse
import HumanizedHash.Formats.JfifPicture

/-!
# What a JPEG file shows is close to the picture

The quantiser is the only loss of the encoder that is of any size. The exact transform keeps the
norm, so that the distance of a decoded block to the encoded one is that of the coefficients, each
of them less than half a step of the quantiser and three eighths off. No AC coefficient reaches the
range of its codes, and the clamp in front of the coder has no effect.

## Main definitions

* `exactDct`: the coefficients of a block, not rounded.
* `quantiserLoss`: what a quantiser can lose in a block.
* `levelOf`, `codedColour`: the samples and the colours that the file stands for.

## Main results

* `unitBlock_unclamped`: the values of the file are the rounded quotients.
* `abs_coefficients_sub_le`: a coefficient of the file and the exact one.
* `sq_norm_blockSamples_sub_le`: a decoded block and the encoded one.
* `abs_colourOf_levelOf_sub_le`: a colour and the colour of its three samples.
* `encodeJpeg_close`: the file of a picture and the picture.
* `encodeJpeg_plain`: a block of one colour keeps it.

## References

* `src/src/jpeg.cpp`, `src/docs/SPEC.md` (sections 13.3 to 13.6).
-/

namespace HumanizedHash

open CosineTransform
open scoped Matrix Matrix.Norms.Frobenius

/-! ### The exact coefficients -/

/-- The matrix of the exact transform is the cosine transform of eight points. -/
theorem dctMatrix_eq_cosineMatrix : dctMatrix = cosineMatrix 8 := by
  ext k j
  rw [dctMatrix, cosineMatrix, Matrix.of_apply, Matrix.of_apply, ScaledCosine.value]
  push_cast
  norm_num

theorem scales_eight : Scales 8 (cosineMatrix 8) := by
  have h := scales_cosineMatrix (show 0 < 8 by decide)
  rwa [Nat.cast_ofNat] at h

/-- The coefficients of a block, not rounded. -/
noncomputable def exactDct (block : Block) : Matrix (Fin 8) (Fin 8) ℝ :=
  (1 / 8 : ℝ) • forward (cosineMatrix 8) (samples block)

/-- The inverse transform of the exact coefficients is the block. -/
theorem inverse_exactDct (block : Block) :
    (1 / 8 : ℝ) • inverse (cosineMatrix 8) (exactDct block) = samples block := by
  rw [exactDct, inverse_smul, scales_eight.inverse_forward, smul_smul, smul_smul]
  norm_num

section Samples

variable {block : Block} (h : ∀ a < 64, -128 ≤ block.load a ∧ block.load a ≤ 127)

include h

/-- The integer transform and the exact coefficients, which it scales by 8. -/
theorem abs_transform_sub_lt (u v : Fin 8) :
    |((transform block).load (8 * u + v) : ℝ) - 8 * exactDct block u v| < 3 := by
  have hclose := abs_passValue_rowValue_sub_lt h u v
  rw [← load_transform, ← dct_apply, dctMatrix_eq_cosineMatrix] at hclose
  rw [exactDct, Matrix.smul_apply, smul_eq_mul, forward]
  convert hclose using 2
  ring

/-- **The coefficients behind the first one.** A constant does not change them, so the samples can
be taken from -127.5 to 127.5. -/
theorem abs_exactDct_le {u v : Fin 8} (huv : (u : ℕ) ≠ 0 ∨ (v : ℕ) ≠ 0) :
    |exactDct block u v| ≤ 1020 := by
  have hconstant := forward_const_eq_zero (1 / 2 : ℝ) huv
  have hcentred : ‖samples block + Matrix.of fun _ _ => (1 / 2 : ℝ)‖ ≤ 1020 := by
    have hentries := sq_norm_le_of_entries (X := samples block + Matrix.of fun _ _ => (1 / 2 : ℝ))
      (B := Matrix.of fun _ _ => (127.5 : ℝ)) fun i j => by
        obtain ⟨hlow, hhigh⟩ := h (8 * i + j) (by omega)
        have hlow' : (-128 : ℝ) ≤ block.load (8 * i + j) := by exact_mod_cast hlow
        have hhigh' : (block.load (8 * i + j) : ℝ) ≤ 127 := by exact_mod_cast hhigh
        rw [Matrix.add_apply, samples, Matrix.of_apply, Matrix.of_apply, Matrix.of_apply, abs_le]
        constructor <;> linarith
    have hsum : ∑ _i : Fin 8, ∑ _j : Fin 8, (127.5 : ℝ) ^ 2 = 1020 ^ 2 := by
      simp only [Finset.sum_const, Finset.card_univ, Fintype.card_fin]
      norm_num
    exact abs_le_of_sq_le_sq' (hentries.trans_eq hsum) (by norm_num) |>.2
  have hnorm := scales_eight.norm_forward (samples block + Matrix.of fun _ _ => (1 / 2 : ℝ))
  have hentry := abs_entry_le_norm
    (forward (cosineMatrix 8) (samples block + Matrix.of fun _ _ => (1 / 2 : ℝ))) u v
  rw [hnorm, forward_add, Matrix.add_apply, hconstant, add_zero,
    abs_of_pos (show (0 : ℝ) < 8 by norm_num)] at hentry
  rw [exactDct, Matrix.smul_apply, smul_eq_mul, abs_mul,
    abs_of_pos (show (0 : ℝ) < 1 / 8 by norm_num)]
  linarith

end Samples

/-! ### Quantisation -/

/-- The rounded quotient, times the divisor. -/
theorem abs_mul_quantise_sub_le (v : ℤ) {q : ℤ} (hq : 0 < q) :
    |8 * q * quantise v (8 * q) - v| ≤ 4 * q := by
  have hhalf : (8 * q).tdiv 2 = 4 * q := by
    rw [Int.tdiv_eq_ediv_of_nonneg (by omega)]
    omega
  have hround (w : ℤ) (hw : 0 ≤ w) : |8 * q * ((w + 4 * q).tdiv (8 * q)) - w| ≤ 4 * q := by
    rw [Int.tdiv_eq_ediv_of_nonneg (by omega)]
    have hdiv := Int.mul_ediv_add_emod (w + 4 * q) (8 * q)
    have hnonneg := Int.emod_nonneg (w + 4 * q) (show 8 * q ≠ 0 by omega)
    have hlt := Int.emod_lt_of_pos (w + 4 * q) (show 0 < 8 * q by omega)
    rw [abs_le]
    constructor <;> linarith
  rw [quantise, hhalf]
  split_ifs with hsign
  · exact hround v hsign
  · have hneg := hround (-v) (by omega)
    rw [← abs_neg] at hneg
    convert hneg using 2
    ring

/-- The quotient of a value that is at most 8163, or at least -8163. -/
theorem quantise_mem_of_abs_le {v q : ℤ} (hq : 0 < q) (hv : |v| ≤ 8163) :
    -1023 ≤ quantise v (8 * q) ∧ quantise v (8 * q) ≤ 1023 := by
  have hround := abs_mul_quantise_sub_le v hq
  generalize quantise v (8 * q) = w at hround ⊢
  rw [abs_le] at hv hround
  constructor
  · by_contra hlt
    have hprod : q * w ≤ q * -1024 := mul_le_mul_of_nonneg_left (by omega) hq.le
    linarith
  · by_contra hlt
    have hprod : q * 1024 ≤ q * w := mul_le_mul_of_nonneg_left (by omega) hq.le
    linarith

/-- A value that is far from the ends of the range is not clamped. -/
theorem clamp_eq_of_mem {v low high : ℤ} (hlow : low ≤ v) (hhigh : v ≤ high) :
    clamp v low high = v := by
  rw [clamp, if_neg (by omega), if_neg (by omega)]

/-- The place of a coefficient in the file, as an index of the zigzag order. -/
def zigzagIndex (u v : Fin 8) : Fin 64 := ⟨Jfif.zigzagPlace u v % 64, Nat.mod_lt _ (by decide)⟩

/-- The zigzag order of the encoder is the one of the format. -/
theorem jpegZigzag_zigzagIndex (u v : Fin 8) :
    (jpegZigzag.get (zigzagIndex u v)).val = 8 * u + v ∧
      (zigzagIndex u v).val = Jfif.zigzagPlace u v ∧
      ((zigzagIndex u v).val ≠ 0 ↔ (u : ℕ) ≠ 0 ∨ (v : ℕ) ≠ 0) := by
  revert u v
  decide

section Units

variable (img : PixelView) (quality : ℤ) (matte : Rgb) (u : ScanUnit)

/-- The samples of a unit. -/
def unitSamples : Block := sampleBlock img matte u.left u.top u.component

/-- The element of the quantiser of a unit. -/
def unitQuantiser (k : Fin 64) : ℤ := ((quantisers quality (tableOf u.component)).get k).toNat

theorem unitQuantiser_pos (k : Fin 64) : 0 < unitQuantiser quality u k := by
  have hpos := one_le_quantisers quality (tableOf u.component) k
  rw [unitQuantiser]
  omega

/-- **The clamp has no effect.** Every value of the file is the rounded quotient of its
coefficient. -/
theorem unitBlock_unclamped (i : Fin 64) : (unitBlock img quality matte u).get i =
    quantise ((transform (unitSamples img matte u)).get (jpegZigzag.get i))
      (8 * unitQuantiser quality u (jpegZigzag.get i)) := by
  rw [unitBlock_get]
  dsimp only
  split_ifs with hi
  · obtain ⟨r, s, rfl⟩ : ∃ r s : Fin 8, i = zigzagIndex r s := by
      revert i
      decide
    obtain ⟨hplace, -, hfirst⟩ := jpegZigzag_zigzagIndex r s
    have hbound := abs_exactDct_le (sampleBlock_mem img matte u.left u.top u.component)
      (hfirst.mp hi)
    have hclose := abs_transform_sub_lt (sampleBlock_mem img matte u.left u.top u.component) r s
    rw [← hplace, ← Block.get_eq_load] at hclose
    have hmem : |(transform (unitSamples img matte u)).get (jpegZigzag.get (zigzagIndex r s))| ≤
        8163 := by
      rw [abs_le] at hbound
      rw [abs_lt] at hclose
      have hreal : |((transform (sampleBlock img matte u.left u.top u.component)).get
          (jpegZigzag.get (zigzagIndex r s)) : ℝ)| ≤ 8163 := by
        rw [abs_le]
        constructor <;> linarith
      exact_mod_cast hreal
    have hquotient := quantise_mem_of_abs_le
      (unitQuantiser_pos quality u (jpegZigzag.get (zigzagIndex r s))) hmem
    exact clamp_eq_of_mem hquotient.1 hquotient.2
  · rfl

/-! ### A decoded block -/

/-- The quantiser of a unit, as the file holds it. -/
def fileQuantiser : List UInt8 := zigzagOf (quantisers quality (tableOf u.component))

theorem getD_fileQuantiser (r s : Fin 8) :
    (((fileQuantiser quality u).getD (Jfif.zigzagPlace r s) 0).toNat : ℤ) =
      unitQuantiser quality u (jpegZigzag.get (zigzagIndex r s)) := by
  obtain ⟨-, hplace, -⟩ := jpegZigzag_zigzagIndex r s
  have hlt := (zigzagIndex r s).isLt
  rw [← hplace, unitQuantiser, fileQuantiser, zigzagOf, List.getD_eq_getElem _ _ (by
    rw [List.length_map, Vector.length_toList]
    exact hlt), List.getElem_map, Vector.getElem_toList]
  rfl

theorem getD_toList_unitBlock (r s : Fin 8) :
    (unitBlock img quality matte u).toList.getD (Jfif.zigzagPlace r s) 0 =
      (unitBlock img quality matte u).get (zigzagIndex r s) := by
  obtain ⟨-, hplace, -⟩ := jpegZigzag_zigzagIndex r s
  have hlt := (zigzagIndex r s).isLt
  rw [← hplace, List.getD_eq_getElem _ _ (by
    rw [Vector.length_toList]
    exact hlt), Vector.getElem_toList]
  rfl

/-- **A coefficient of the file** is less than half a step and three eighths off the exact one. -/
theorem abs_coefficients_sub_le (r s : Fin 8) :
    |(Jfif.coefficients (fileQuantiser quality u) (unitBlock img quality matte u).toList r s : ℝ) -
      exactDct (unitSamples img matte u) r s| ≤
        ((fileQuantiser quality u).getD (Jfif.zigzagPlace r s) 0).toNat / 2 + 3 / 8 := by
  obtain ⟨hplace, -, -⟩ := jpegZigzag_zigzagIndex r s
  have hclose := abs_transform_sub_lt (sampleBlock_mem img matte u.left u.top u.component) r s
  rw [← hplace, ← Block.get_eq_load] at hclose
  have hquantiser := getD_fileQuantiser quality u r s
  have hround := abs_mul_quantise_sub_le
    ((transform (unitSamples img matte u)).get (jpegZigzag.get (zigzagIndex r s)))
    (unitQuantiser_pos quality u (jpegZigzag.get (zigzagIndex r s)))
  rw [← unitBlock_unclamped] at hround
  rw [Jfif.coefficients, getD_toList_unitBlock, hquantiser, show
    (((fileQuantiser quality u).getD (Jfif.zigzagPlace r s) 0).toNat : ℝ) =
      (unitQuantiser quality u (jpegZigzag.get (zigzagIndex r s)) : ℝ) by exact_mod_cast hquantiser]
  generalize unitQuantiser quality u (jpegZigzag.get (zigzagIndex r s)) = q at hround ⊢
  generalize (unitBlock img quality matte u).get (zigzagIndex r s) = w at hround ⊢
  rw [unitSamples] at hround ⊢
  have hreal : |8 * (q : ℝ) * w - ((transform (sampleBlock img matte u.left u.top
      u.component)).get (jpegZigzag.get (zigzagIndex r s)) : ℝ)| ≤ 4 * q := by exact_mod_cast hround
  push_cast
  rw [abs_le] at hreal ⊢
  rw [abs_lt] at hclose
  constructor <;> linarith

/-- What a quantiser can lose in a block: the squares of half a step and three eighths. -/
noncomputable def quantiserLoss (quantiser : List UInt8) : ℝ :=
  ∑ r, ∑ s, ((4 * (quantiser.getD (Jfif.zigzagPlace r s) 0).toNat + 3 : ℕ) / 8 : ℝ) ^ 2

/-- The samples of a component before the level shift. -/
def unitLevels : Matrix (Fin 8) (Fin 8) ℝ :=
  Matrix.of fun i j => ((unitSamples img matte u).load (8 * i + j) + 128 : ℤ)

/-- The level shift. -/
theorem unitLevels_eq : unitLevels img matte u =
    Matrix.of (fun _ _ => (128 : ℝ)) + samples (unitSamples img matte u) := by
  ext i j
  rw [unitLevels, Matrix.add_apply, samples, Matrix.of_apply, Matrix.of_apply, Matrix.of_apply]
  push_cast
  ring

/-- **A decoded block** is as close to the encoded one as their coefficients are. -/
theorem sq_norm_blockSamples_sub_le :
    ‖Jfif.blockSamples (fileQuantiser quality u) (unitBlock img quality matte u).toList -
      unitLevels img matte u‖ ^ 2 ≤ quantiserLoss (fileQuantiser quality u) := by
  rw [Jfif.blockSamples_eq, unitLevels_eq, add_sub_add_left_eq_sub, ← inverse_exactDct, ← smul_sub,
    ← inverse_sub, norm_smul, scales_eight.norm_inverse, Real.norm_of_nonneg (by norm_num),
    abs_of_pos (by norm_num), ← mul_assoc, one_div_mul_cancel (by norm_num), one_mul]
  refine sq_norm_le_of_entries (B := Matrix.of fun r s =>
    ((4 * ((fileQuantiser quality u).getD (Jfif.zigzagPlace r s) 0).toNat + 3 : ℕ) / 8 : ℝ))
    fun r s => (abs_coefficients_sub_le img quality matte u r s).trans (le_of_eq ?_)
  rw [Matrix.of_apply]
  push_cast
  ring

end Units

/-! ### The colours -/

/-- The level of a component for a colour, from 0 to 255. -/
def levelOf (p : Rgb) (c : Fin 3) : ℤ :=
  (colourNumerator c p.r.toNat p.g.toNat p.b.toNat).tdiv 65536

theorem levelOf_mul_mem (p : Rgb) (c : Fin 3) :
    colourNumerator c p.r.toNat p.g.toNat p.b.toNat - 65535 ≤ 65536 * levelOf p c ∧
      65536 * levelOf p c ≤ colourNumerator c p.r.toNat p.g.toNat p.b.toNat := by
  have h := colourNumerator_mem c p.r p.g p.b
  rw [levelOf, Int.tdiv_eq_ediv_of_nonneg h.1]
  constructor <;> omega

/-- **The colours of the levels.** The levels are rounded, which moves a channel by less than one
and a half. -/
theorem abs_colourOf_levelOf_sub_le (p : Rgb) (channel : Channel) :
    |Jfif.colourOf (levelOf p 0) (levelOf p 1) (levelOf p 2) channel - (p.get channel).toNat| ≤
      7 / 5 := by
  have hbyte (b : UInt8) : (0 : ℝ) ≤ b.toNat ∧ (b.toNat : ℝ) ≤ 255 :=
    ⟨Nat.cast_nonneg _, by exact_mod_cast Nat.le_of_lt_succ b.toNat_lt⟩
  have hr := hbyte p.r
  have hg := hbyte p.g
  have hb := hbyte p.b
  obtain ⟨hy, hy'⟩ := levelOf_mul_mem p 0
  obtain ⟨hcb, hcb'⟩ := levelOf_mul_mem p 1
  obtain ⟨hcr, hcr'⟩ := levelOf_mul_mem p 2
  simp only [colourNumerator, yNumerator, cbNumerator, crNumerator] at hy hy' hcb hcb' hcr hcr'
  rify at hy hy' hcb hcb' hcr hcr'
  rw [Jfif.colourOf, abs_le]
  cases channel with
  | r =>
    simp only [Jfif.cbWeight, Jfif.crWeight, Rgb.get]
    constructor <;> linarith
  | g =>
    simp only [Jfif.cbWeight, Jfif.crWeight, Rgb.get]
    constructor <;> linarith
  | b =>
    simp only [Jfif.cbWeight, Jfif.crWeight, Rgb.get]
    constructor <;> linarith

/-- A value that is less than one and a half off a byte is at most one off it when rounded. -/
theorem abs_toByte_sub_le {v : ℝ} {b : UInt8} (h : |v - b.toNat| ≤ 7 / 5) :
    |Jfif.toByte v - b.toNat| ≤ 1 := by
  have hb := b.toNat_lt
  have hlow := Int.floor_le (v + 1 / 2)
  have hhigh := Int.lt_floor_add_one (v + 1 / 2)
  rw [abs_le] at h
  have hle : ⌊v + 1 / 2⌋ ≤ b.toNat + 1 := by
    have hreal : (⌊v + 1 / 2⌋ : ℝ) < (b.toNat + 2 : ℤ) := by
      push_cast
      linarith
    have hint : ⌊v + 1 / 2⌋ < (b.toNat + 2 : ℤ) := by exact_mod_cast hreal
    omega
  have hge : (b.toNat : ℤ) - 1 ≤ ⌊v + 1 / 2⌋ := by
    have hreal : ((b.toNat - 2 : ℤ) : ℝ) < (⌊v + 1 / 2⌋ : ℝ) := by
      push_cast
      linarith
    have hint : (b.toNat - 2 : ℤ) < ⌊v + 1 / 2⌋ := by exact_mod_cast hreal
    omega
  rw [Jfif.toByte, round_eq, abs_le]
  omega

/-! ### The picture -/

section Picture

variable (img : Image) (quality : ℤ) (matte : Rgb)

/-- The flattened colour that is coded for element `(i, j)` of a block position. Beyond the image
the last column and the last row are repeated. -/
def codedColour (row column : ℕ) (i j : Fin 8) : Rgb :=
  (img.pixel (min (8 * column + j) (img.width.toNat - 1))
    (min (8 * row + i) (img.height.toNat - 1))).flatten matte

/-- The levels of a component in a block position. -/
def levelsAt (row column : ℕ) (c : Fin 3) : Matrix (Fin 8) (Fin 8) ℝ :=
  Matrix.of fun i j => (levelOf (codedColour img matte row column i j) c : ℝ)

/-- The exact coefficients of a component in a block position: the transform of the levels, which
are shifted by 128. -/
noncomputable def exactCoefficientsAt (row column : ℕ) (c : Fin 3) : Matrix (Fin 8) (Fin 8) ℝ :=
  (1 / 8 : ℝ) • forward (cosineMatrix 8)
    (levelsAt img matte row column c - Matrix.of fun _ _ => ((128 : ℤ) : ℝ))

/-- A channel of the picture in a block position. -/
def channelAt (row column : ℕ) (channel : Channel) : Matrix (Fin 8) (Fin 8) ℝ :=
  Matrix.of fun i j => (((codedColour img matte row column i j).get channel).toNat : ℝ)

theorem load_sampleBlock (left top : ℕ) (c : Fin 3) (i j : Fin 8) :
    (sampleBlock (viewOfImage img) matte left top c).load (8 * i + j) =
      levelOf ((img.pixel (min (left + j) (img.width.toNat - 1))
        (min (top + i) (img.height.toNat - 1))).flatten matte) c - 128 := by
  have hrow : (8 * (i : ℕ) + j) / 8 = i := by omega
  have hcolumn : (8 * (i : ℕ) + j) % 8 = j := by omega
  have hlt : 8 * (i : ℕ) + j < 64 := by omega
  rw [Block.load, sampleBlock, Vector.getElem?_eq_getElem hlt, Vector.getElem_ofFn,
    Option.getD_some]
  simp only [hrow, hcolumn]
  rfl

theorem unitLevels_eq_levelsAt (row column : ℕ) (c : Fin 3) :
    unitLevels (viewOfImage img) matte ⟨8 * column, 8 * row, c⟩ =
      levelsAt img matte row column c := by
  ext i j
  rw [unitLevels, levelsAt, Matrix.of_apply, Matrix.of_apply, unitSamples, load_sampleBlock,
    codedColour, sub_add_cancel]

theorem exactDct_unitSamples (row column : ℕ) (c : Fin 3) :
    exactDct (unitSamples (viewOfImage img) matte ⟨8 * column, 8 * row, c⟩) =
      exactCoefficientsAt img matte row column c := by
  rw [exactDct, exactCoefficientsAt, ← unitLevels_eq_levelsAt, unitLevels_eq, Int.cast_ofNat,
    add_sub_cancel_left]

/-- A block of the file, by its place. -/
theorem getD_blocks {row column : ℕ} (hrow : row < blockCount img.height)
    (hcolumn : column < blockCount img.width) (c : Fin 3) :
    (jpegContents img quality matte).blocks.getD
        ((row * blockCount img.width + column) * 3 + c) [] =
      (unitBlock (viewOfImage img) quality matte ⟨8 * column, 8 * row, c⟩).toList := by
  have hposition (row column : ℕ) : ((List.finRange 3).map fun c =>
      (unitBlock (viewOfImage img) quality matte ⟨8 * column, 8 * row, c⟩).toList).length = 3 := by
    rw [List.length_map, List.length_finRange]
  have hline (row : ℕ) := Tables.length_rows (hposition row) (blockCount img.width)
  have hrows : (jpegContents img quality matte).blocks =
      Tables.rows (blockCount img.height) fun row => Tables.rows (blockCount img.width) fun column =>
        (List.finRange 3).map fun c =>
          (unitBlock (viewOfImage img) quality matte ⟨8 * column, 8 * row, c⟩).toList := by
    rw [jpegContents, scanUnits]
    simp only [List.map_flatMap, List.map_map]
    rfl
  have hplace : column * 3 + (c : ℕ) < blockCount img.width * 3 := by omega
  rw [hrows, show (row * blockCount img.width + column) * 3 + (c : ℕ) =
      row * (blockCount img.width * 3) + (column * 3 + c) by ring,
    Tables.getD_rows hline hrow hplace, Tables.getD_rows (hposition row) hcolumn c.isLt,
    List.getD_eq_getElem _ _ (by rw [hposition]; exact c.isLt), List.getElem_map,
    List.getElem_finRange]
  rfl

theorem getD_quantisers (c : Fin 3) : (jpegContents img quality matte).quantisers.getD c [] =
    zigzagOf (quantisers quality (tableOf c)) := by
  fin_cases c <;> rfl

/-- A decoded block of the file. -/
theorem blockAt_jpegContents {row column : ℕ} (hrow : row < blockCount img.height)
    (hcolumn : column < blockCount img.width) (c : Fin 3) :
    (jpegContents img quality matte).blockAt c row column =
      Jfif.blockSamples (zigzagOf (quantisers quality (tableOf c)))
        (unitBlock (viewOfImage img) quality matte ⟨8 * column, 8 * row, c⟩).toList := by
  have hblock := getD_blocks img quality matte hrow hcolumn c
  have hquantiser := getD_quantisers img quality matte c
  have hcount : (jpegContents img quality matte).quantisers.length = 3 := rfl
  have hwidth : ((jpegContents img quality matte).width + 7) / 8 = blockCount img.width := rfl
  rw [Jfif.Decoded.blockAt]
  simp only [hcount, hwidth, hblock, hquantiser]

/-- The coefficients of the file. -/
theorem coefficientsAt_jpegContents {row column : ℕ} (hrow : row < blockCount img.height)
    (hcolumn : column < blockCount img.width) (c : Fin 3) :
    (jpegContents img quality matte).coefficientsAt c row column =
      Jfif.coefficients (zigzagOf (quantisers quality (tableOf c)))
        (unitBlock (viewOfImage img) quality matte ⟨8 * column, 8 * row, c⟩).toList := by
  have hblock := getD_blocks img quality matte hrow hcolumn c
  have hquantiser := getD_quantisers img quality matte c
  have hcount : (jpegContents img quality matte).quantisers.length = 3 := rfl
  have hwidth : ((jpegContents img quality matte).width + 7) / 8 = blockCount img.width := rfl
  funext u v
  rw [Jfif.Decoded.coefficientsAt]
  simp only [hcount, hwidth, hblock, hquantiser]

/-- A decoded coefficient and the exact one. -/
theorem abs_coefficientsAt_sub_le {row column : ℕ} (hrow : row < blockCount img.height)
    (hcolumn : column < blockCount img.width) (c : Fin 3) (u v : Fin 8) :
    |((jpegContents img quality matte).coefficientsAt c row column u v : ℝ) -
      exactCoefficientsAt img matte row column c u v| ≤
        ((zigzagOf (quantisers quality (tableOf c))).getD (Jfif.zigzagPlace u v) 0).toNat / 2 +
          3 / 8 := by
  have hclose :=
    abs_coefficients_sub_le (viewOfImage img) quality matte ⟨8 * column, 8 * row, c⟩ u v
  rwa [exactDct_unitSamples, fileQuantiser,
    ← coefficientsAt_jpegContents img quality matte hrow hcolumn] at hclose

/-- A decoded block and the levels that were coded. -/
theorem norm_blockAt_sub_le {row column : ℕ} (hrow : row < blockCount img.height)
    (hcolumn : column < blockCount img.width) (c : Fin 3) :
    ‖(jpegContents img quality matte).blockAt c row column - levelsAt img matte row column c‖ ≤
      √(quantiserLoss (zigzagOf (quantisers quality (tableOf c)))) := by
  have hclose := sq_norm_blockSamples_sub_le (viewOfImage img) quality matte
    ⟨8 * column, 8 * row, c⟩
  rw [unitLevels_eq_levelsAt, fileQuantiser, ← blockAt_jpegContents img quality matte hrow hcolumn]
    at hclose
  exact Real.le_sqrt_of_sq_le hclose

/-- The rounding of the levels in a block. -/
theorem norm_colourOf_levelsAt_sub_le (row column : ℕ) (channel : Channel) :
    ‖Matrix.of (fun i j => Jfif.colourOf (levelsAt img matte row column 0 i j)
        (levelsAt img matte row column 1 i j) (levelsAt img matte row column 2 i j) channel) -
      channelAt img matte row column channel‖ ≤ 56 / 5 := by
  have hentries := sq_norm_le_of_entries (B := Matrix.of fun _ _ => (7 / 5 : ℝ))
    fun i j => abs_colourOf_levelOf_sub_le (codedColour img matte row column i j) channel
  have hsum : ∑ _i : Fin 8, ∑ _j : Fin 8, (7 / 5 : ℝ) ^ 2 = (56 / 5) ^ 2 := by
    simp only [Finset.sum_const, Finset.card_univ, Fintype.card_fin]
    norm_num
  exact (abs_le_of_sq_le_sq' (hentries.trans_eq hsum) (by norm_num)).2

/-- A decoded channel and the picture. -/
theorem norm_colourAt_sub_le {row column : ℕ} (hrow : row < blockCount img.height)
    (hcolumn : column < blockCount img.width) (channel : Channel) :
    ‖(jpegContents img quality matte).colourAt row column channel -
        channelAt img matte row column channel‖ ≤
      √(quantiserLoss (zigzagOf (quantisers quality 0))) +
        (|Jfif.cbWeight channel| + |Jfif.crWeight channel|) *
          √(quantiserLoss (zigzagOf (quantisers quality 1))) + 56 / 5 := by
  have hclose (c : Fin 3) := norm_blockAt_sub_le img quality matte hrow hcolumn c
  have hrounding := norm_colourOf_levelsAt_sub_le img matte row column channel
  generalize hlevels : levelsAt img matte row column = L at hclose hrounding
  generalize hblocks : (jpegContents img quality matte).blockAt = A at hclose
  have hsplit : (jpegContents img quality matte).colourAt row column channel -
      channelAt img matte row column channel =
      (A 0 row column - L 0) + Jfif.cbWeight channel • (A 1 row column - L 1) +
        Jfif.crWeight channel • (A 2 row column - L 2) +
        (Matrix.of (fun i j => Jfif.colourOf (L 0 i j) (L 1 i j) (L 2 i j) channel) -
          channelAt img matte row column channel) := by
    rw [Jfif.Decoded.colourAt, hblocks]
    ext i j
    simp only [Matrix.sub_apply, Matrix.add_apply, Matrix.smul_apply, Matrix.of_apply, smul_eq_mul,
      Jfif.colourOf]
    ring
  have hy : ‖A 0 row column - L 0‖ ≤ √(quantiserLoss (zigzagOf (quantisers quality 0))) := hclose 0
  have hcb : ‖A 1 row column - L 1‖ ≤ √(quantiserLoss (zigzagOf (quantisers quality 1))) := hclose 1
  have hcr : ‖A 2 row column - L 2‖ ≤ √(quantiserLoss (zigzagOf (quantisers quality 1))) := hclose 2
  rw [hsplit]
  calc _ ≤ ‖A 0 row column - L 0‖ + |Jfif.cbWeight channel| * ‖A 1 row column - L 1‖ +
        |Jfif.crWeight channel| * ‖A 2 row column - L 2‖ + 56 / 5 := by
        refine (norm_add_le _ _).trans (add_le_add ?_ hrounding)
        refine (norm_add₃_le).trans ?_
        rw [norm_smul, norm_smul, Real.norm_eq_abs, Real.norm_eq_abs]
    _ ≤ _ := by
        rw [add_mul, ← add_assoc]
        gcongr

/-- The file is read back to what it holds. -/
theorem parse_encodeJpegBytes (hvalid : validImage img = true) :
    Jfif.parse (encodeJpegBytes (viewOfImage img) quality matte) =
      some (jpegContents img quality matte) := by
  obtain ⟨data, pad, hscan, hpad, hbits⟩ := exists_scanBytes_eq (viewOfImage img) quality matte
  have hdimensions := (validImage_iff.mp hvalid).1
  have hblocks := readBlocks_scanBits (viewOfImage img) quality matte
    (ScanState.sound_start []) (fun _ => 0) (fun _ => rfl) (scanUnits (viewOfImage img))
    (List.replicate pad true)
  rw [← hbits, ← blockOrder_eq (viewOfImage img) quality] at hblocks
  have hparse := Jfif.parse_eq (length_of_mem_jpegSegments (viewOfImage img) quality)
    (foldlM_define_jpegSegments (viewOfImage img) quality hdimensions) rfl
    (show jpegScanHeader.length + 2 < 256 ^ 2 by decide) rfl
    (resolveAll_jpegDefined (viewOfImage img) quality) hblocks hpad
  rw [encodeJpegBytes_eq, jpegHeader_eq_segments, hscan, List.append_assoc, List.append_assoc,
    List.append_assoc, hparse, List.map_map]
  rfl

variable {img quality matte}

/-- A file of the encoder is read back to nothing else. -/
theorem eq_jpegContents {file : List UInt8} {d : Jfif.Decoded} (hvalid : validImage img = true)
    (hquality : 50 ≤ quality ∧ quality ≤ 100) (hfile : encodeJpeg img quality matte = (.ok, file))
    (hparse : Jfif.parse file = some d) : d = jpegContents img quality matte := by
  rw [encodeJpeg_of_valid matte hvalid hquality] at hfile
  rw [← (Prod.mk.inj hfile).2, parse_encodeJpegBytes img quality matte hvalid] at hparse
  exact (Option.some.inj hparse).symm

end Picture

/-- **A JPEG file shows a picture that is close to the one that was encoded.** The file of a valid
image is read back. In every block position a coefficient is at most half a step of its quantiser
in the file, and three eighths, off the exact one, and the distance of a decoded component to the
levels that were coded is at most what the quantiser can lose. The distance of a channel to the
flattened picture is at most what the quantisers can lose in it, and the rounding of the levels. -/
theorem encodeJpeg_close (img : Image) (quality : ℤ) (matte : Rgb)
    (hvalid : validImage img = true) (hquality : 50 ≤ quality ∧ quality ≤ 100) :
    ∃ file d, encodeJpeg img quality matte = (.ok, file) ∧ Jfif.parse file = some d ∧
      d.width = img.width.toNat ∧ d.height = img.height.toNat ∧
      ∀ row column, 8 * row < d.height → 8 * column < d.width →
        (∀ (c : Fin 3) (u v : Fin 8),
          |(d.coefficientsAt c row column u v : ℝ) -
              exactCoefficientsAt img matte row column c u v| ≤
            ((d.quantisers.getD c []).getD (Jfif.zigzagPlace u v) 0).toNat / 2 + 3 / 8) ∧
        (∀ c : Fin 3, ‖d.blockAt c row column - levelsAt img matte row column c‖ ≤
          √(quantiserLoss (d.quantisers.getD c []))) ∧
        ∀ channel, ‖d.colourAt row column channel - channelAt img matte row column channel‖ ≤
          √(quantiserLoss (d.quantisers.getD 0 [])) +
            (|Jfif.cbWeight channel| + |Jfif.crWeight channel|) *
              √(quantiserLoss (d.quantisers.getD 1 [])) + 56 / 5 := by
  refine ⟨_, jpegContents img quality matte, encodeJpeg_of_valid matte hvalid hquality,
    parse_encodeJpegBytes img quality matte hvalid, rfl, rfl, fun row column hrow hcolumn => ?_⟩
  have hrow' : row < blockCount img.height := by
    have hlt : 8 * row < img.height.toNat := hrow
    rw [blockCount]
    omega
  have hcolumn' : column < blockCount img.width := by
    have hlt : 8 * column < img.width.toNat := hcolumn
    rw [blockCount]
    omega
  refine ⟨fun c u v => ?_, fun c => ?_, fun channel => ?_⟩
  · rw [getD_quantisers]
    exact abs_coefficientsAt_sub_le img quality matte hrow' hcolumn' c u v
  · rw [getD_quantisers]
    exact norm_blockAt_sub_le img quality matte hrow' hcolumn' c
  · exact norm_colourAt_sub_le img quality matte hrow' hcolumn' channel

/-- A pixel at the best quality: no coefficient is off by as much as one. -/
theorem encodeJpeg_close_pixel :
    ∃ file d, encodeJpeg ⟨1, 1, [12, 34, 56, 255]⟩ 100 ⟨0, 0, 0⟩ = (.ok, file) ∧
      Jfif.parse file = some d ∧ ∀ (c : Fin 3) (u v : Fin 8),
        |(d.coefficientsAt c 0 0 u v : ℝ) -
          exactCoefficientsAt ⟨1, 1, [12, 34, 56, 255]⟩ ⟨0, 0, 0⟩ 0 0 c u v| < 1 := by
  obtain ⟨file, d, hfile, hparse, hwidth, hheight, hclose⟩ :=
    encodeJpeg_close ⟨1, 1, [12, 34, 56, 255]⟩ 100 ⟨0, 0, 0⟩ (by decide) ⟨by decide, by decide⟩
  obtain ⟨hcoefficients, -, -⟩ := hclose 0 0 (by rw [hheight]; decide) (by rw [hwidth]; decide)
  obtain rfl := eq_jpegContents (by decide) ⟨by decide, by decide⟩ hfile hparse
  refine ⟨file, _, hfile, hparse, fun c u v => (hcoefficients c u v).trans_lt ?_⟩
  have hones : ∀ (c : Fin 3) (u v : Fin 8), ((zigzagOf (quantisers 100 (tableOf c))).getD
      (Jfif.zigzagPlace u v) 0).toNat ≤ 1 := by decide +kernel
  have hone : (((zigzagOf (quantisers 100 (tableOf c))).getD (Jfif.zigzagPlace u v) 0).toNat : ℝ) ≤
      1 := by exact_mod_cast hones c u v
  rw [getD_quantisers]
  linarith

/-! ### Plain blocks -/

/-- A pass over equal values has only the first one. -/
theorem passValue_const (first : Bool) (s : ℤ) {k : Fin 8} (hk : (k : ℕ) ≠ 0) :
    passValue first (fun _ => s) k = 0 := by
  have hrow : ∑ i, passMatrix k i * s = 0 := by
    have hcoefficients : ∀ k : Fin 8, (k : ℕ) ≠ 0 → ∑ i, passMatrix k i = 0 := by decide
    rw [← Finset.sum_mul, hcoefficients k hk, zero_mul]
  rw [passValue, hrow]
  cases first <;> split_ifs <;> rfl

/-- The transform of a block of equal samples. -/
theorem transform_const {block : Block} {s : ℤ} (h : ∀ a < 64, block.load a = s) (u v : Fin 8) :
    (transform block).load (8 * u + v) = if (u : ℕ) = 0 ∧ (v : ℕ) = 0 then 64 * s else 0 := by
  have hlane (i : Fin 8) : lane block (8 * i) 1 = fun _ => s := by
    funext k
    rw [lane_eq_load, h _ (by omega)]
  have hrow (v : Fin 8) : rowValue block v = fun _ => passValue true (fun _ => s) v := by
    funext i
    rw [rowValue, hlane]
  rw [load_transform, hrow]
  by_cases hu : (u : ℕ) = 0
  · by_cases hv : (v : ℕ) = 0
    · obtain rfl : u = 0 := Fin.ext hu
      obtain rfl : v = 0 := Fin.ext hv
      rw [if_pos ⟨rfl, rfl⟩, passValue_zero, passValue_zero, if_neg Bool.false_ne_true, if_pos rfl]
      simp only [Finset.sum_const, Finset.card_univ, Fintype.card_fin, nsmul_eq_mul, rounded]
      omega
    · rw [if_neg fun h => hv h.2, passValue_const true s hv]
      obtain rfl : u = 0 := Fin.ext hu
      rw [passValue_zero]
      rfl
  · rw [if_neg fun h => hu h.1, passValue_const _ _ hu]

section Plain

variable (img : PixelView) (quality : ℤ) (matte : Rgb) (u : ScanUnit) {s : ℤ}

/-- The coefficients of a block of equal samples. -/
theorem coefficients_const (h : ∀ a < 64, (unitSamples img matte u).load a = s) (r c : Fin 8) :
    Jfif.coefficients (fileQuantiser quality u) (unitBlock img quality matte u).toList r c =
      if (r : ℕ) = 0 ∧ (c : ℕ) = 0 then
        unitQuantiser quality u 0 * quantise (64 * s) (8 * unitQuantiser quality u 0)
      else 0 := by
  obtain ⟨hplace, -, -⟩ := jpegZigzag_zigzagIndex r c
  have htransform := transform_const h r c
  rw [← hplace, ← Block.get_eq_load] at htransform
  rw [Jfif.coefficients, getD_toList_unitBlock, getD_fileQuantiser, unitBlock_unclamped, htransform]
  split_ifs with hfirst
  · have hindex : jpegZigzag.get (zigzagIndex r c) = 0 := by
      refine Fin.ext (hplace.trans ?_)
      rw [hfirst.1, hfirst.2]
      rfl
    rw [hindex, mul_comm]
  · have hzero (d : ℤ) (hd : 0 < d) : quantise 0 (8 * d) = 0 := by
      have hround := abs_mul_quantise_sub_le 0 hd
      rw [sub_zero, abs_le] at hround
      generalize quantise 0 (8 * d) = w at hround ⊢
      by_contra hne
      rcases lt_or_gt_of_ne hne with hneg | hpos
      · have hprod : d * w ≤ d * -1 := mul_le_mul_of_nonneg_left (by omega) hd.le
        linarith
      · have hprod : d * 1 ≤ d * w := mul_le_mul_of_nonneg_left (by omega) hd.le
        linarith
    rw [hzero _ (unitQuantiser_pos quality u _), zero_mul]

/-- **A block of equal samples** is decoded to equal samples. -/
theorem blockSamples_const (h : ∀ a < 64, (unitSamples img matte u).load a = s) (i j : Fin 8) :
    Jfif.blockSamples (fileQuantiser quality u) (unitBlock img quality matte u).toList i j =
      128 + 1 / 8 * (unitQuantiser quality u 0 * quantise (64 * s) (8 * unitQuantiser quality u 0) : ℤ)
        := by
  have hcoefficients := coefficients_const img quality matte u h
  have hsingle := inverse_eq_of_single (z := (0 : Fin 8)) rfl
    (Y := Jfif.coefficientMatrix (fileQuantiser quality u) (unitBlock img quality matte u).toList)
    (fun k l hkl => by
      rw [Jfif.coefficientMatrix, Matrix.of_apply, hcoefficients, if_neg (by omega), Int.cast_zero])
    i j
  rw [Jfif.blockSamples_eq, Matrix.add_apply, Matrix.of_apply, Matrix.smul_apply, smul_eq_mul,
    hsingle, Jfif.coefficientMatrix, Matrix.of_apply, hcoefficients, if_pos ⟨rfl, rfl⟩]

/-- The samples are a sixteenth of a step of the first element of the quantiser off. -/
theorem abs_blockSamples_const_sub_le (h : ∀ a < 64, (unitSamples img matte u).load a = s)
    (i j : Fin 8) :
    |Jfif.blockSamples (fileQuantiser quality u) (unitBlock img quality matte u).toList i j -
      (s + 128)| ≤ unitQuantiser quality u 0 / 16 := by
  have hround := abs_mul_quantise_sub_le (64 * s) (unitQuantiser_pos quality u 0)
  rw [blockSamples_const img quality matte u h]
  generalize unitQuantiser quality u 0 = q at hround ⊢
  generalize quantise (64 * s) (8 * q) = w at hround
  have hreal : |8 * (q : ℝ) * w - 64 * s| ≤ 4 * q := by exact_mod_cast hround
  push_cast
  rw [abs_le] at hreal ⊢
  constructor <;> linarith

end Plain

/-- The first element of a scaled quantiser. -/
theorem scaleQuantiser_zero_le {base : Vector UInt8 64} (hbase : (base.get 0).toNat ≤ 17)
    {quality : ℤ} (hquality : 78 ≤ quality ∧ quality ≤ 100) :
    ((scaleQuantiser base quality).get 0).toNat ≤ 7 := by
  have hget : (scaleQuantiser base quality).get 0 = UInt8.ofInt
      (clamp ((((base.get 0).toNat : ℤ) * (200 - 2 * quality) + 50).tdiv 100) 1 255) :=
    Vector.getElem_map _ (by decide)
  have hscale : ((base.get 0).toNat : ℤ) * (200 - 2 * quality) ≤ 17 * 44 :=
    mul_le_mul (by exact_mod_cast hbase) (by omega) (by omega) (by decide)
  have hnonneg : 0 ≤ ((base.get 0).toNat : ℤ) * (200 - 2 * quality) :=
    mul_nonneg (Int.natCast_nonneg _) (by omega)
  rw [hget, UInt8.ofInt, UInt8.toNat_ofNat', clamp, Int.tdiv_eq_ediv_of_nonneg (by omega)]
  split_ifs <;> omega

theorem quantisers_zero_le (t : Fin 2) {quality : ℤ} (hquality : 78 ≤ quality ∧ quality ≤ 100) :
    ((quantisers quality t).get 0).toNat ≤ 7 := by
  fin_cases t
  · exact scaleQuantiser_zero_le (by decide) hquality
  · exact scaleQuantiser_zero_le (by decide) hquality

/-- The samples that are coded in a block position of one colour. -/
theorem load_unitSamples_of_plain {img : Image} {matte p : Rgb} {row column : ℕ}
    (hplain : ∀ i j, codedColour img matte row column i j = p) (c : Fin 3) (a : ℕ) (ha : a < 64) :
    (unitSamples (viewOfImage img) matte ⟨8 * column, 8 * row, c⟩).load a = levelOf p c - 128 := by
  have hload := load_sampleBlock img matte (8 * column) (8 * row) c ⟨a / 8, by omega⟩
    ⟨a % 8, Nat.mod_lt a (by decide)⟩
  have hcolour := hplain ⟨a / 8, by omega⟩ ⟨a % 8, Nat.mod_lt a (by decide)⟩
  have hplace : 8 * (a / 8) + a % 8 = a := Nat.div_add_mod a 8
  rw [codedColour] at hcolour
  rw [unitSamples, ← hcolour]
  rwa [hplace] at hload

/-- **A JPEG file keeps plain areas.** In a block position of one flattened colour all decoded
levels of a component are equal, and within a sixteenth of a step of the level that was coded. From
quality 78 on the levels are exact when they are rounded, and the decoded pixels are within one of
the colour in every channel. -/
theorem encodeJpeg_plain (img : Image) (quality : ℤ) (matte : Rgb)
    (hvalid : validImage img = true) (hquality : 50 ≤ quality ∧ quality ≤ 100) :
    ∃ file d, encodeJpeg img quality matte = (.ok, file) ∧ Jfif.parse file = some d ∧
      ∀ row column p, 8 * row < d.height → 8 * column < d.width →
        (∀ i j, codedColour img matte row column i j = p) → ∀ i j : Fin 8,
        (∀ (c : Fin 3) (i' j' : Fin 8), d.blockAt c row column i j = d.blockAt c row column i' j') ∧
        (∀ c : Fin 3, |d.blockAt c row column i j - levelOf p c| ≤
          ((d.quantisers.getD c []).getD 0 0).toNat / 16) ∧
        (78 ≤ quality →
          (∀ c : Fin 3, ⌊d.blockAt c row column i j + 1 / 2⌋ = levelOf p c) ∧
          ∀ channel, |Jfif.toByte (Jfif.colourOf ⌊d.blockAt 0 row column i j + 1 / 2⌋
            ⌊d.blockAt 1 row column i j + 1 / 2⌋ ⌊d.blockAt 2 row column i j + 1 / 2⌋ channel) -
              (p.get channel).toNat| ≤ 1) := by
  refine ⟨_, jpegContents img quality matte, encodeJpeg_of_valid matte hvalid hquality,
    parse_encodeJpegBytes img quality matte hvalid, fun row column p hrow hcolumn hplain i j => ?_⟩
  have hrow' : row < blockCount img.height := by
    have hlt : 8 * row < img.height.toNat := hrow
    rw [blockCount]
    omega
  have hcolumn' : column < blockCount img.width := by
    have hlt : 8 * column < img.width.toNat := hcolumn
    rw [blockCount]
    omega
  have hclose (c : Fin 3) : |(jpegContents img quality matte).blockAt c row column i j -
      levelOf p c| ≤ ((quantisers quality (tableOf c)).get 0).toNat / 16 := by
    have hblock := abs_blockSamples_const_sub_le (viewOfImage img) quality matte
      ⟨8 * column, 8 * row, c⟩ (load_unitSamples_of_plain hplain c) i j
    rw [fileQuantiser, ← blockAt_jpegContents img quality matte hrow' hcolumn', unitQuantiser]
      at hblock
    push_cast at hblock
    rwa [sub_add_cancel] at hblock
  refine ⟨fun c i' j' => ?_, fun c => ?_, fun hhigh => ?_⟩
  · have hplain' := load_unitSamples_of_plain hplain c
    rw [blockAt_jpegContents img quality matte hrow' hcolumn']
    exact (blockSamples_const (viewOfImage img) quality matte _ hplain' i j).trans
      (blockSamples_const (viewOfImage img) quality matte _ hplain' i' j').symm
  · rw [getD_quantisers]
    exact hclose c
  · have hround (c : Fin 3) :
        ⌊(jpegContents img quality matte).blockAt c row column i j + 1 / 2⌋ = levelOf p c := by
      have hstep : (((quantisers quality (tableOf c)).get 0).toNat : ℝ) ≤ 7 := by
        exact_mod_cast quantisers_zero_le (tableOf c) ⟨hhigh, hquality.2⟩
      have hc := hclose c
      rw [abs_le] at hc
      rw [Int.floor_eq_iff]
      constructor <;> linarith
    refine ⟨hround, fun channel => ?_⟩
    have hcolour := abs_colourOf_levelOf_sub_le p channel
    rw [← hround 0, ← hround 1, ← hround 2] at hcolour
    exact abs_toByte_sub_le hcolour

/-- A white pixel. -/
theorem encodeJpeg_plain_white :
    ∃ file d, encodeJpeg ⟨1, 1, [255, 255, 255, 255]⟩ 92 ⟨0, 0, 0⟩ = (.ok, file) ∧
      Jfif.parse file = some d ∧ ∀ c : Fin 3,
        ⌊d.blockAt c 0 0 0 0 + 1 / 2⌋ = levelOf ⟨255, 255, 255⟩ c := by
  obtain ⟨file, d, hfile, hparse, hplain⟩ := encodeJpeg_plain ⟨1, 1, [255, 255, 255, 255]⟩ 92
    ⟨0, 0, 0⟩ (by decide) ⟨by decide, by decide⟩
  obtain rfl := eq_jpegContents (by decide) ⟨by decide, by decide⟩ hfile hparse
  obtain ⟨-, -, hexact⟩ := hplain 0 0 ⟨255, 255, 255⟩ (by decide) (by decide) (by decide) 0 0
  exact ⟨file, _, hfile, hparse, (hexact (by decide)).1⟩

end HumanizedHash
