import HumanizedHash.Raster.Flattening
import Mathlib.Algebra.Order.Field.Rat
import Mathlib.Tactic.FieldSimp

/-!
# The exactness of a mix

`mix` of `src/raster.cpp` in unsigned 32-bit arithmetic: what the machine makes of a mathematical
value is a parameter `u32`, applied to every sum, difference and product, and the division by the
sum of the weights is a parameter `divide`. For at most 16 samples no value leaves the range, and
the only division by a weight is one by a weight that is not zero.

A channel is a weighted average of the channels that are mixed, rounded to the nearest number; alpha
is the weight in units of 4080, rounded as well. Both roundings together move a flattened channel by
one level at most, and flattening adds less than half of one.

## Main definitions

* `checkedU32`, `checkedDivide`: the readings of `u32` and `divide` without a result where the
  machine has none.
* `MixValues`, `mixValues`: `mix` in front of the casts to bytes.
* `foregroundWeight`, `backgroundWeight`, `composite`: the exact blend.

## Main results

* `mixValues_checked`: `mix` does not overflow.
* `mixColour_mem`, `abs_mixColour_sub_le`, `abs_mixAlpha_sub_le`, `abs_flatOver_sub_lt`.
* `mix_exact`: what a mix is.

## References

* `src/src/raster.cpp`, `src/src/encode_util.hpp`, `src/docs/SPEC.md` (sections 8.5 and 10).
-/

namespace HumanizedHash

/-! ### The code -/

/-- An unsigned 32-bit integer: a value that does not fit has no result. -/
def checkedU32 (x : ℤ) : Option ℤ := if 0 ≤ x ∧ x < 4294967296 then some x else none

/-- A division: by zero it has no result. -/
def checkedDivide (x d : ℤ) : Option ℤ := if d = 0 then none else some (x / d)

/-- What `mix` casts to bytes. -/
structure MixValues where
  r : ℤ
  g : ℤ
  b : ℤ
  alpha : ℤ

/-- The casts. -/
def MixValues.toPixel (v : MixValues) : Pixel :=
  ⟨UInt8.ofInt v.r, UInt8.ofInt v.g, UInt8.ofInt v.b, UInt8.ofInt v.alpha⟩

section Code

variable {m : Type → Type} [Monad m] (u32 : ℤ → m ℤ) (divide : ℤ → ℤ → m ℤ)

/-- `channel` in `mix`; `a` is the sum of the weights. -/
def mixChannel (fgAlpha nFg bgAlpha nBg a f b : ℤ) : m ℤ := do
  let x ← u32 (255 * fgAlpha)
  let x ← u32 (x * f)
  let y ← u32 (255 - fgAlpha)
  let y ← u32 (bgAlpha * y)
  let y ← u32 (y * b)
  let x ← u32 (x + y)
  let x ← u32 (nFg * x)
  let y ← u32 (nBg * 255)
  let y ← u32 (y * bgAlpha)
  let y ← u32 (y * b)
  let p ← u32 (x + y)
  let p ← u32 (p + a / 2)
  divide p a

/-- `mix`, in front of the casts to bytes. -/
def mixValues (fg : Rgb) (fgAlpha nFg : ℤ) (bg : Rgb) (bgAlpha nBg : ℤ) : m MixValues := do
  let x ← u32 (255 * fgAlpha)
  let y ← u32 (255 - fgAlpha)
  let y ← u32 (bgAlpha * y)
  let x ← u32 (x + y)
  let x ← u32 (nFg * x)
  let y ← u32 (nBg * 255)
  let y ← u32 (y * bgAlpha)
  let a ← u32 (x + y)
  let sum ← u32 (a + 2040)
  let alpha := sum / 4080
  if alpha = 0 then
    return ⟨0, 0, 0, 0⟩
  else
    let channel (f b : UInt8) : m ℤ :=
      mixChannel u32 divide fgAlpha nFg bgAlpha nBg a f.toNat b.toNat
    let r ← channel fg.r bg.r
    let g ← channel fg.g bg.g
    let b ← channel fg.b bg.b
    return ⟨r, g, b, alpha⟩

end Code

/-! ### No overflow -/

section Overflow

variable {f b fa ba nF nB : ℕ}

theorem u32_bind_eq {α : Type} {x : ℤ} (n : ℕ) {k : ℤ → Option α} {r : Option α} (hx : x = n)
    (hn : n < 4294967296) (h : k n = r) : (checkedU32 x >>= k) = r := by
  rw [checkedU32, if_pos ⟨by omega, by omega⟩, hx]
  exact h

/-- The values that the sum of the weights is made of. -/
theorem weight_terms_le (hfa : fa ≤ 255) (hba : ba ≤ 255) (hn : nF + nB ≤ 16) :
    ba * (255 - fa) ≤ 65025 ∧ nF * (255 * fa + ba * (255 - fa)) ≤ 16 * 130050 ∧
      nB * 255 * ba ≤ 16 * 65025 := by
  have hbg : ba * (255 - fa) ≤ 255 * 255 := Nat.mul_le_mul hba (Nat.sub_le 255 fa)
  have hpair : nF * (255 * fa + ba * (255 - fa)) ≤ 16 * 130050 :=
    Nat.mul_le_mul (by omega) (by omega)
  have hrest : nB * 255 * ba ≤ 16 * 255 * 255 := Nat.mul_le_mul (by omega) hba
  exact ⟨hbg, hpair, hrest⟩

/-- **A channel does not overflow.** -/
theorem mixChannel_checked (divide : ℤ → ℤ → Option ℤ) (hf : f ≤ 255) (hb : b ≤ 255)
    (hfa : fa ≤ 255) (hba : ba ≤ 255) (hn : nF + nB ≤ 16) {a : ℕ} (ha : a ≤ 16 * 195075) :
    mixChannel checkedU32 divide fa nF ba nB a f b =
      divide ((mixSum f fa nF b ba nB + a / 2 : ℕ) : ℤ) a := by
  obtain ⟨hbg, -, hrest⟩ := weight_terms_le hfa hba hn
  have hfirst : 255 * fa * f ≤ 65025 * 255 := Nat.mul_le_mul (by omega) hf
  have hsecond : ba * (255 - fa) * b ≤ 65025 * 255 := Nat.mul_le_mul hbg hb
  have hpair : nF * (255 * fa * f + ba * (255 - fa) * b) ≤ 16 * (2 * (65025 * 255)) :=
    Nat.mul_le_mul (by omega) (by omega)
  have hlast : nB * 255 * ba * b ≤ 16 * 65025 * 255 := Nat.mul_le_mul hrest hb
  rw [mixChannel]
  refine u32_bind_eq (255 * fa) (by push_cast; rfl) (by omega) ?_
  refine u32_bind_eq (255 * fa * f) (by push_cast; rfl) (by omega) ?_
  refine u32_bind_eq (255 - fa) (by push_cast [Nat.cast_sub hfa]; rfl) (by omega) ?_
  refine u32_bind_eq (ba * (255 - fa)) (by push_cast; rfl) (by omega) ?_
  refine u32_bind_eq (ba * (255 - fa) * b) (by push_cast; rfl) (by omega) ?_
  refine u32_bind_eq (255 * fa * f + ba * (255 - fa) * b) (by push_cast; rfl) (by omega) ?_
  refine u32_bind_eq (nF * (255 * fa * f + ba * (255 - fa) * b)) (by push_cast; rfl) (by omega) ?_
  refine u32_bind_eq (nB * 255) (by push_cast; rfl) (by omega) ?_
  refine u32_bind_eq (nB * 255 * ba) (by push_cast; rfl) (by omega) ?_
  refine u32_bind_eq (nB * 255 * ba * b) (by push_cast; rfl) (by omega) ?_
  refine u32_bind_eq (mixSum f fa nF b ba nB) (by rw [mixSum]; push_cast; rfl)
    (by rw [mixSum]; omega) ?_
  exact u32_bind_eq (mixSum f fa nF b ba nB + a / 2) (by push_cast; rfl) (by rw [mixSum]; omega) rfl

/-- **`mix` does not overflow**, and divides only if alpha is not zero. -/
theorem mixValues_checked (divide : ℤ → ℤ → Option ℤ) (fg bg : Rgb) (hfa : fa ≤ 255)
    (hba : ba ≤ 255) (hn : nF + nB ≤ 16) :
    mixValues checkedU32 divide fg fa nF bg ba nB =
      if mixAlpha fa nF ba nB = 0 then
        some ⟨0, 0, 0, 0⟩
      else do
        let a := mixWeight fa nF ba nB
        let channel (f b : UInt8) : Option ℤ :=
          divide ((mixSum f.toNat fa nF b.toNat ba nB + a / 2 : ℕ) : ℤ) a
        let r ← channel fg.r bg.r
        let g ← channel fg.g bg.g
        let b ← channel fg.b bg.b
        return ⟨r, g, b, mixAlpha fa nF ba nB⟩ := by
  obtain ⟨hbg, hpair, hrest⟩ := weight_terms_le hfa hba hn
  have hweight : mixWeight fa nF ba nB ≤ 16 * 195075 := by
    rw [mixWeight]
    omega
  rw [mixValues]
  refine u32_bind_eq (255 * fa) (by push_cast; rfl) (by omega) ?_
  refine u32_bind_eq (255 - fa) (by push_cast [Nat.cast_sub hfa]; rfl) (by omega) ?_
  refine u32_bind_eq (ba * (255 - fa)) (by push_cast; rfl) (by omega) ?_
  refine u32_bind_eq (255 * fa + ba * (255 - fa)) (by push_cast; rfl) (by omega) ?_
  refine u32_bind_eq (nF * (255 * fa + ba * (255 - fa))) (by push_cast; rfl) (by omega) ?_
  refine u32_bind_eq (nB * 255) (by push_cast; rfl) (by omega) ?_
  refine u32_bind_eq (nB * 255 * ba) (by push_cast; rfl) (by omega) ?_
  refine u32_bind_eq (mixWeight fa nF ba nB) (by rw [mixWeight]; push_cast; rfl) (by omega) ?_
  refine u32_bind_eq (mixWeight fa nF ba nB + 2040) (by push_cast; rfl) (by omega) ?_
  have halpha : ((mixWeight fa nF ba nB + 2040 : ℕ) : ℤ) / 4080 = mixAlpha fa nF ba nB := rfl
  have hchannel (f b : UInt8) := mixChannel_checked divide (Nat.le_of_lt_succ f.toNat_lt)
    (Nat.le_of_lt_succ b.toNat_lt) hfa hba hn hweight
  dsimp only
  simp only [halpha, hchannel, Int.natCast_eq_zero]
  rfl

end Overflow

/-! ### The exact blend -/

/-- The weight of the foreground. -/
def foregroundWeight (fgAlpha nFg : ℕ) : ℕ := nFg * (255 * fgAlpha)

/-- The weight of the background, under the foreground and alone. -/
def backgroundWeight (fgAlpha nFg bgAlpha nBg : ℕ) : ℕ :=
  nFg * (bgAlpha * (255 - fgAlpha)) + nBg * 255 * bgAlpha

/-- The exact composite over a matte of the colour `p / a` with the coverage `a / 1040400`, which is
the share of the weight of 16 opaque samples. -/
def composite (p a matte : ℚ) : ℚ := a / 1040400 * (p / a) + (1 - a / 1040400) * matte

section Exact

variable {f b fa ba nF nB : ℕ}

theorem mixWeight_eq_add :
    mixWeight fa nF ba nB = foregroundWeight fa nF + backgroundWeight fa nF ba nB := by
  rw [mixWeight, foregroundWeight, backgroundWeight]
  ring

theorem mixSum_eq_add : mixSum f fa nF b ba nB =
    foregroundWeight fa nF * f + backgroundWeight fa nF ba nB * b := by
  rw [mixSum, foregroundWeight, backgroundWeight]
  ring

/-- A quotient rounded to the nearest number, as a fraction. -/
theorem abs_div_round_sub_le (n : ℕ) {d : ℕ} (hd : 0 < d) :
    |(((n + d / 2) / d : ℕ) : ℚ) - n / d| ≤ 1 / 2 := by
  have hround := abs_round_sub_le n hd
  have hcast : (0 : ℚ) < d := by exact_mod_cast hd
  rw [abs_le] at hround
  obtain ⟨hlow, hhigh⟩ := hround
  generalize (n + d / 2) / d = q at hlow hhigh ⊢
  have hlow' : (-d : ℚ) ≤ 2 * (d * q) - 2 * n := by exact_mod_cast hlow
  have hhigh' : (2 * (d * q) - 2 * n : ℚ) ≤ d := by exact_mod_cast hhigh
  have hdiff : (q : ℚ) - n / d = (d * q - n) / d := by
    field_simp
  rw [hdiff, abs_le, le_div_iff₀ hcast, div_le_iff₀ hcast]
  constructor <;> linarith

/-- **Alpha is the weight, rounded.** -/
theorem abs_mixAlpha_sub_le (fa nF ba nB : ℕ) :
    |(mixAlpha fa nF ba nB : ℚ) - mixWeight fa nF ba nB / 4080| ≤ 1 / 2 := by
  have hround := abs_div_round_sub_le (mixWeight fa nF ba nB) (show 0 < 4080 by decide)
  have hhalf : (mixWeight fa nF ba nB + 4080 / 2) / 4080 = mixAlpha fa nF ba nB := rfl
  rwa [hhalf, Nat.cast_ofNat] at hround

/-- **A channel is the weighted average, rounded.** -/
theorem abs_mixColour_sub_le (hpos : 0 < mixWeight fa nF ba nB) :
    |(mixColour f fa nF b ba nB : ℚ) - mixSum f fa nF b ba nB / mixWeight fa nF ba nB| ≤ 1 / 2 :=
  abs_div_round_sub_le (mixSum f fa nF b ba nB) hpos

/-- The weighted sum lies between the smaller channel and the larger one. -/
theorem mixSum_mem (f fa nF b ba nB : ℕ) :
    min f b * mixWeight fa nF ba nB ≤ mixSum f fa nF b ba nB ∧
      mixSum f fa nF b ba nB ≤ max f b * mixWeight fa nF ba nB := by
  rw [mixSum_eq_add, mixWeight_eq_add, Nat.mul_add, Nat.mul_add, Nat.mul_comm (min f b),
    Nat.mul_comm (min f b), Nat.mul_comm (max f b), Nat.mul_comm (max f b)]
  exact ⟨Nat.add_le_add (Nat.mul_le_mul_left _ (min_le_left f b))
      (Nat.mul_le_mul_left _ (min_le_right f b)),
    Nat.add_le_add (Nat.mul_le_mul_left _ (le_max_left f b))
      (Nat.mul_le_mul_left _ (le_max_right f b))⟩

/-- **A mix does not leave the colours that are mixed.** -/
theorem mixColour_mem (hpos : 0 < mixWeight fa nF ba nB) :
    min f b ≤ mixColour f fa nF b ba nB ∧ mixColour f fa nF b ba nB ≤ max f b := by
  obtain ⟨hlow, hhigh⟩ := mixSum_mem f fa nF b ba nB
  rw [mixColour]
  constructor
  · rw [Nat.le_div_iff_mul_le hpos]
    omega
  · rw [← Nat.lt_succ_iff, Nat.div_lt_iff_lt_mul hpos, Nat.succ_mul]
    omega

/-- Without weight of the background the foreground is kept. -/
theorem mixColour_of_backgroundWeight (hpos : 0 < mixWeight fa nF ba nB)
    (h : backgroundWeight fa nF ba nB = 0) : mixColour f fa nF b ba nB = f := by
  have hsum : mixSum f fa nF b ba nB = mixSum f fa nF f ba nB := by
    rw [mixSum_eq_add, mixSum_eq_add, h, Nat.zero_mul, Nat.zero_mul]
  have hmem := mixColour_mem (f := f) (b := f) hpos
  rw [min_self, max_self, mixColour, ← hsum, ← mixColour] at hmem
  exact le_antisymm hmem.2 hmem.1

/-- Without weight of the foreground the background is kept. -/
theorem mixColour_of_foregroundWeight (hpos : 0 < mixWeight fa nF ba nB)
    (h : foregroundWeight fa nF = 0) : mixColour f fa nF b ba nB = b := by
  have hsum : mixSum f fa nF b ba nB = mixSum b fa nF b ba nB := by
    rw [mixSum_eq_add, mixSum_eq_add, h, Nat.zero_mul, Nat.zero_mul]
  have hmem := mixColour_mem (f := b) (b := b) hpos
  rw [min_self, max_self, mixColour, ← hsum, ← mixColour] at hmem
  exact le_antisymm hmem.2 hmem.1

/-- The exact colour is a byte. -/
theorem div_mixWeight_mem (fa nF ba nB : ℕ) (hf : f ≤ 255) (hb : b ≤ 255) :
    0 ≤ (mixSum f fa nF b ba nB : ℚ) / mixWeight fa nF ba nB ∧
      (mixSum f fa nF b ba nB : ℚ) / mixWeight fa nF ba nB ≤ 255 := by
  refine ⟨div_nonneg (Nat.cast_nonneg _) (Nat.cast_nonneg _),
    div_le_of_le_mul₀ (Nat.cast_nonneg _) (by norm_num) ?_⟩
  exact_mod_cast mixSum_le fa nF ba nB hf hb

/-- **A mix flattened over a matte** is less than one and a half levels off the exact composite. -/
theorem abs_flatOver_sub_lt {matte : ℕ} (hf : f ≤ 255) (hb : b ≤ 255) (hm : matte ≤ 255)
    (hfa : fa ≤ 255) (hba : ba ≤ 255) (hn : nF + nB ≤ 16) :
    |(flatOver matte f fa nF b ba nB : ℚ) -
      composite (mixSum f fa nF b ba nB) (mixWeight fa nF ba nB) matte| < 3 / 2 := by
  have halpha := abs_mixAlpha_sub_le fa nF ba nB
  have hle : mixAlpha fa nF ba nB ≤ 255 := mixAlpha_le hfa hba hn
  obtain ⟨hlow, hhigh⟩ := div_mixWeight_mem fa nF ba nB hf hb
  have hcolour : mixAlpha fa nF ba nB = 0 ∨
      |(mixColour f fa nF b ba nB : ℚ) - mixSum f fa nF b ba nB / mixWeight fa nF ba nB| ≤
        1 / 2 := by
    rcases Nat.eq_zero_or_pos (mixWeight fa nF ba nB) with hzero | hpos
    · exact Or.inl (by rw [mixAlpha, hzero])
    · exact Or.inr (abs_mixColour_sub_le hpos)
  rw [flatOver, composite]
  generalize (mixSum f fa nF b ba nB : ℚ) / mixWeight fa nF ba nB = c at *
  generalize (mixWeight fa nF ba nB : ℚ) = a at *
  generalize mixAlpha fa nF ba nB = s at *
  generalize mixColour f fa nF b ba nB = v at *
  -- the last rounding is off by 127 parts of 255
  obtain ⟨q, hq⟩ : ∃ q, q = (s * v + (255 - s) * matte + 127) / 255 := ⟨_, rfl⟩
  have hlast : s * v + (255 - s) * matte ≤ 255 * q + 127 ∧
      255 * q ≤ s * v + (255 - s) * matte + 127 := by omega
  rw [← hq]
  have hlast₁ : (s * v + (255 - s) * matte : ℚ) ≤ 255 * q + 127 := by
    have h : ((s * v + (255 - s) * matte : ℕ) : ℚ) ≤ (255 * q + 127 : ℕ) := by
      exact_mod_cast hlast.1
    push_cast [Nat.cast_sub hle] at h
    exact h
  have hlast₂ : (255 * q : ℚ) ≤ s * v + (255 - s) * matte + 127 := by
    have h : ((255 * q : ℕ) : ℚ) ≤ (s * v + (255 - s) * matte + 127 : ℕ) := by
      exact_mod_cast hlast.2
    push_cast [Nat.cast_sub hle] at h
    exact h
  have hsv : |(s : ℚ) * (v - c)| ≤ 255 / 2 := by
    rcases hcolour with rfl | hcolour
    · norm_num
    · have hs : (s : ℚ) ≤ 255 := by exact_mod_cast hle
      rw [abs_mul, abs_of_nonneg (Nat.cast_nonneg s)]
      calc (s : ℚ) * |(v : ℚ) - c| ≤ 255 * (1 / 2) :=
            mul_le_mul hs hcolour (abs_nonneg _) (by norm_num)
        _ = 255 / 2 := by norm_num
  have hsc : |((s : ℚ) - a / 4080) * (c - matte)| ≤ 255 / 2 := by
    have hmatte : (0 : ℚ) ≤ matte ∧ (matte : ℚ) ≤ 255 := ⟨Nat.cast_nonneg _, by exact_mod_cast hm⟩
    have hdistance : |c - matte| ≤ 255 := by
      rw [abs_le]
      constructor <;> linarith
    rw [abs_mul]
    calc |(s : ℚ) - a / 4080| * |c - matte| ≤ 1 / 2 * 255 :=
          mul_le_mul halpha hdistance (abs_nonneg _) (by norm_num)
      _ = 255 / 2 := by norm_num
  have hidentity : 255 * ((q : ℚ) - (a / 1040400 * c + (1 - a / 1040400) * matte)) =
      255 * q - (s * v + (255 - s) * matte) + s * (v - c) + (s - a / 4080) * (c - matte) := by
    ring
  rw [abs_le] at hsv hsc
  rw [abs_lt]
  constructor <;> linarith

end Exact

/-! ### The pixel -/

/-- The channels of a colour. -/
inductive Channel where
  | r
  | g
  | b

def Rgb.get (c : Rgb) : Channel → UInt8
  | .r => c.r
  | .g => c.g
  | .b => c.b

def MixValues.get (v : MixValues) : Channel → ℤ
  | .r => v.r
  | .g => v.g
  | .b => v.b

section Pixel

variable {fa ba nF nB : ℕ}

/-- The values of a mix that is not transparent. -/
def exactValues (fg : Rgb) (fa nF : ℕ) (bg : Rgb) (ba nB : ℕ) : MixValues :=
  let channel (f b : UInt8) : ℤ := mixColour f.toNat fa nF b.toNat ba nB
  ⟨channel fg.r bg.r, channel fg.g bg.g, channel fg.b bg.b, mixAlpha fa nF ba nB⟩

theorem get_exactValues (fg bg : Rgb) (c : Channel) : (exactValues fg fa nF bg ba nB).get c =
    mixColour (fg.get c).toNat fa nF (bg.get c).toNat ba nB := by
  cases c <;> rfl

/-- A weight that gives an alpha is not zero. -/
theorem mixWeight_pos (h : mixAlpha fa nF ba nB ≠ 0) : 0 < mixWeight fa nF ba nB := by
  rw [mixAlpha] at h
  omega

theorem ofInt_natCast (n : ℕ) : UInt8.ofInt n = UInt8.ofNat n := by
  have hmod : ((n : ℤ) % 2 ^ 8).toNat = n % 2 ^ 8 := rfl
  refine UInt8.toNat_inj.mp ?_
  rw [UInt8.ofInt, hmod, UInt8.toNat_ofNat', UInt8.toNat_ofNat', Nat.mod_mod]

theorem mixValues_eq_exactValues (fg bg : Rgb) (hfa : fa ≤ 255) (hba : ba ≤ 255)
    (hn : nF + nB ≤ 16) (h : mixAlpha fa nF ba nB ≠ 0) :
    mixValues checkedU32 checkedDivide fg fa nF bg ba nB =
        some (exactValues fg fa nF bg ba nB) ∧
      mix fg fa nF bg ba nB = (exactValues fg fa nF bg ba nB).toPixel := by
  have hweight : (mixWeight fa nF ba nB : ℤ) ≠ 0 := by exact_mod_cast (mixWeight_pos h).ne'
  have hdivide (n : ℕ) : checkedDivide n (mixWeight fa nF ba nB) =
      some ((n / mixWeight fa nF ba nB : ℕ) : ℤ) := by
    rw [checkedDivide, if_neg hweight, Int.natCast_div]
  rw [mixValues_checked checkedDivide fg bg hfa hba hn, if_neg h]
  simp only [hdivide, MixValues.toPixel, exactValues, ofInt_natCast]
  exact ⟨rfl, if_neg h⟩

theorem flatten_mix_get (fg bg matte : Rgb) (hfa : fa ≤ 255) (hba : ba ≤ 255) (hn : nF + nB ≤ 16)
    (c : Channel) : (((mix fg fa nF bg ba nB).flatten matte).get c).toNat =
      flatOver (matte.get c).toNat (fg.get c).toNat fa nF (bg.get c).toNat ba nB := by
  obtain ⟨hr, hg, hb⟩ := toNat_flatten_mix fg bg matte hfa hba hn
  cases c with
  | r => exact hr
  | g => exact hg
  | b => exact hb

/-- **What a mix is.** No value overflows and no division is by zero. Alpha is at most 255 and the
weight in units of 4080, rounded. If it is zero, the pixel is zero and nothing is divided by the
weight, whatever such a division would do. Otherwise the weight is not zero, and every channel is
between those that are mixed, is the exact average rounded, and is one of the two if the other has
no weight. Over any matte the flattened pixel is less than one and a half levels off the exact
composite. -/
theorem mix_exact (fg bg : Rgb) (fa nF ba nB : ℕ) (hfa : fa ≤ 255) (hba : ba ≤ 255)
    (hn : nF + nB ≤ 16) :
    let pixel := mix fg fa nF bg ba nB
    let a := mixWeight fa nF ba nB
    let p (c : Channel) := mixSum (fg.get c).toNat fa nF (bg.get c).toNat ba nB
    ∃ v, mixValues checkedU32 checkedDivide fg fa nF bg ba nB = some v ∧ pixel = v.toPixel ∧
      (v.alpha ≤ 255 ∧ |(v.alpha : ℚ) - a / 4080| ≤ 1 / 2) ∧
      (v.alpha = 0 → pixel = ⟨0, 0, 0, 0⟩ ∧
        ∀ divide, mixValues checkedU32 divide fg fa nF bg ba nB = some ⟨0, 0, 0, 0⟩) ∧
      (v.alpha ≠ 0 → a ≠ 0 ∧ ∀ c,
        ((min (fg.get c).toNat (bg.get c).toNat : ℕ) ≤ v.get c ∧
          v.get c ≤ (max (fg.get c).toNat (bg.get c).toNat : ℕ)) ∧
        |(v.get c : ℚ) - p c / a| ≤ 1 / 2 ∧
        (backgroundWeight fa nF ba nB = 0 → v.get c = (fg.get c).toNat) ∧
        (foregroundWeight fa nF = 0 → v.get c = (bg.get c).toNat)) ∧
      ∀ (matte : Rgb) c, |(((pixel.flatten matte).get c).toNat : ℚ) -
        composite (p c) a (matte.get c).toNat| < 3 / 2 := by
  intro pixel a p
  have hbyte (x : UInt8) : x.toNat ≤ 255 := Nat.le_of_lt_succ x.toNat_lt
  have hflat (matte : Rgb) (c : Channel) : |(((pixel.flatten matte).get c).toNat : ℚ) -
      composite (p c) a (matte.get c).toNat| < 3 / 2 := by
    rw [flatten_mix_get fg bg matte hfa hba hn c]
    exact abs_flatOver_sub_lt (hbyte _) (hbyte _) (hbyte _) hfa hba hn
  have halpha := abs_mixAlpha_sub_le fa nF ba nB
  by_cases hzero : mixAlpha fa nF ba nB = 0
  · have hvalues (divide : ℤ → ℤ → Option ℤ) :
        mixValues checkedU32 divide fg fa nF bg ba nB = some ⟨0, 0, 0, 0⟩ := by
      rw [mixValues_checked divide fg bg hfa hba hn, if_pos hzero]
    have hpixel : pixel = ⟨0, 0, 0, 0⟩ := if_pos hzero
    rw [hzero] at halpha
    exact ⟨⟨0, 0, 0, 0⟩, hvalues checkedDivide, hpixel, ⟨by decide, halpha⟩,
      fun _ => ⟨hpixel, hvalues⟩, fun h => absurd rfl h, hflat⟩
  · obtain ⟨hvalues, hpixel⟩ := mixValues_eq_exactValues fg bg hfa hba hn hzero
    have hpos := mixWeight_pos hzero
    have hle := mixAlpha_le hfa hba hn
    refine ⟨exactValues fg fa nF bg ba nB, hvalues, hpixel, ⟨?_, halpha⟩, fun h => ?_,
      fun _ => ⟨hpos.ne', fun c => ?_⟩, hflat⟩
    · exact Int.ofNat_le.mpr hle
    · exact absurd (Int.ofNat_eq_zero.mp h) hzero
    · obtain ⟨hlow, hhigh⟩ := mixColour_mem (f := (fg.get c).toNat) (b := (bg.get c).toNat) hpos
      rw [get_exactValues]
      exact ⟨⟨Int.ofNat_le.mpr hlow, Int.ofNat_le.mpr hhigh⟩, abs_mixColour_sub_le hpos,
        fun h => congrArg Nat.cast (mixColour_of_backgroundWeight hpos h),
        fun h => congrArg Nat.cast (mixColour_of_foregroundWeight hpos h)⟩

/-- Half of a pixel of the frame over white. -/
theorem mix_exact_half :
    |(((mix frameColour 255 8 ⟨255, 255, 255⟩ 255 8).flatten ⟨0, 0, 0⟩).r.toNat : ℚ) -
      composite (mixSum 128 255 8 255 255 8) (mixWeight 255 8 255 8) 0| < 3 / 2 := by
  obtain ⟨-, -, -, -, -, -, hflat⟩ :=
    mix_exact frameColour ⟨255, 255, 255⟩ 255 8 255 8 le_rfl le_rfl le_rfl
  have h := hflat ⟨0, 0, 0⟩ .r
  rwa [show ((Rgb.get ⟨0, 0, 0⟩ .r).toNat : ℚ) = 0 from Nat.cast_zero] at h

end Pixel

end HumanizedHash
