import HumanizedHash.Encoding.Pixels
import HumanizedHash.Raster.Render
import Mathlib.Algebra.Order.Ring.Abs

/-!
# Transparent and opaque pictures

A picture may be rendered over an opaque background, or over none and be flattened over the same
colour later. The first route rounds the mix of the colours and the coverage of the outline, the
second keeps the colours pure and rounds the coverage into alpha. Both are flattened over the
background here, and they differ by at most one in each channel. For the frame this rests on its
colour being the middle grey: a frame colour at least 235 away from the background in a channel
would lead to differences of two.

## Main definitions

* `Rgb.Close`: two colours that differ by at most one in each channel.

## Main results

* `flatMix_close`: the two routes for one channel.
* `render_flatten_close`: the two pictures.

## References

* `src/src/raster.cpp`, `src/src/encode_util.hpp`, `src/docs/SPEC.md` sections 8.5 and 10.
-/

namespace HumanizedHash

/-! ### Close colours -/

/-- Two bytes that differ by at most one. -/
def CloseBytes (v w : UInt8) : Prop := v.toNat ≤ w.toNat + 1 ∧ w.toNat ≤ v.toNat + 1

/-- Two colours that differ by at most one in each channel. -/
structure Rgb.Close (c d : Rgb) : Prop where
  r : CloseBytes c.r d.r
  g : CloseBytes c.g d.g
  b : CloseBytes c.b d.b

/-! ### One channel -/

/-- A quotient rounded to the nearest number is off by half the divisor at most. -/
theorem abs_round_sub_le (n : ℕ) {d : ℕ} (hd : 0 < d) :
    |2 * ((d : ℤ) * ((n + d / 2) / d : ℕ)) - 2 * n| ≤ d := by
  have hdiv := Nat.div_add_mod (n + d / 2) d
  have hmod := Nat.mod_lt (n + d / 2) hd
  rw [← Nat.cast_mul, abs_le]
  generalize d * ((n + d / 2) / d) = p at hdiv ⊢
  omega

/-- The alpha of a mix, before it is a byte. -/
def mixAlpha (fgAlpha nFg bgAlpha nBg : ℕ) : ℕ :=
  (mixWeight fgAlpha nFg bgAlpha nBg + 2040) / 4080

/-- One channel of a mix, before it is a byte. -/
def mixColour (f fgAlpha nFg b bgAlpha nBg : ℕ) : ℕ :=
  (mixSum f fgAlpha nFg b bgAlpha nBg + mixWeight fgAlpha nFg bgAlpha nBg / 2) /
    mixWeight fgAlpha nFg bgAlpha nBg

/-- One channel of a mix, flattened over the background it was mixed with. -/
def flatMix (f fgAlpha nFg b bgAlpha nBg : ℕ) : ℕ :=
  (mixAlpha fgAlpha nFg bgAlpha nBg * mixColour f fgAlpha nFg b bgAlpha nBg +
    (255 - mixAlpha fgAlpha nFg bgAlpha nBg) * b + 127) / 255

/-- One channel of a mix, flattened over a matte. -/
def flatOver (matte f fgAlpha nFg b bgAlpha nBg : ℕ) : ℕ :=
  (mixAlpha fgAlpha nFg bgAlpha nBg * mixColour f fgAlpha nFg b bgAlpha nBg +
    (255 - mixAlpha fgAlpha nFg bgAlpha nBg) * matte + 127) / 255

section Mix

variable {f b fa nF nB : ℕ}

theorem mixAlpha_le {ba : ℕ} (hfa : fa ≤ 255) (hba : ba ≤ 255) (hn : nF + nB ≤ 16) :
    mixAlpha fa nF ba nB ≤ 255 := by
  have hweight := mixWeight_le hfa hba nF nB
  rw [mixAlpha]
  omega

theorem mixColour_le {ba : ℕ} (hf : f ≤ 255) (hb : b ≤ 255) : mixColour f fa nF b ba nB ≤ 255 := by
  have hsum := mixSum_le fa nF ba nB hf hb
  rw [mixColour]
  rcases Nat.eq_zero_or_pos (mixWeight fa nF ba nB) with hzero | hpos
  · rw [hzero, Nat.div_zero]
    exact Nat.zero_le 255
  · rw [← Nat.lt_succ_iff, Nat.div_lt_iff_lt_mul hpos]
    omega

/-- Over an opaque background every sample has the same weight. -/
theorem mixWeight_solid (hfa : fa ≤ 255) : mixWeight fa nF 255 nB = 65025 * (nF + nB) := by
  have hsum : 255 * fa + 255 * (255 - fa) = 65025 := by omega
  rw [mixWeight, hsum]
  ring

theorem mixSum_solid (hfa : fa ≤ 255) : (mixSum f fa nF b 255 nB : ℤ) =
    65025 * (nF + nB : ℕ) * b + 255 * (nF * fa : ℕ) * (f - b) := by
  rw [mixSum]
  push_cast [Nat.cast_sub hfa]
  ring

/-- Without a background only the foreground has weight. -/
theorem mixWeight_clear : mixWeight fa nF 0 nB = 255 * (nF * fa) := by
  rw [mixWeight]
  ring

theorem mixSum_clear : mixSum f fa nF b 0 nB = 255 * (nF * fa) * f := by
  rw [mixSum]
  ring

/-- The opaque route: the mix of the colours is rounded. -/
theorem abs_mixColour_solid (hfa : fa ≤ 255) (hpos : 0 < nF + nB) :
    |2 * (255 * (nF + nB : ℕ) * ((mixColour f fa nF b 255 nB : ℤ) - b) -
      (nF * fa : ℕ) * ((f : ℤ) - b))| ≤ 255 * (nF + nB : ℕ) := by
  have hround := abs_round_sub_le (mixSum f fa nF b 255 nB)
    (show 0 < mixWeight fa nF 255 nB by rw [mixWeight_solid hfa]; omega)
  rw [← mixColour, mixSum_solid hfa, mixWeight_solid hfa, abs_le] at hround
  push_cast at hround ⊢
  rw [abs_le]
  constructor <;> linarith [hround.1, hround.2]

/-- The transparent route: the colour of the foreground is kept. -/
theorem mixAlpha_mul_mixColour_clear :
    mixAlpha fa nF 0 nB * mixColour f fa nF b 0 nB = mixAlpha fa nF 0 nB * f := by
  rcases Nat.eq_zero_or_pos (nF * fa) with hzero | hpos
  · have halpha : mixAlpha fa nF 0 nB = 0 := by
      rw [mixAlpha, mixWeight_clear, hzero]
    rw [halpha, Nat.zero_mul, Nat.zero_mul]
  · have hcolour : mixColour f fa nF b 0 nB = f := by
      rw [mixColour, mixSum_clear, mixWeight_clear, Nat.mul_add_div (by omega),
        Nat.div_eq_of_lt (by omega), Nat.add_zero]
    rw [hcolour]

/-- How far a rounded colour times its alpha is from a colour times another alpha, from what the
colour is off by and what the alphas are off by crosswise. -/
theorem abs_mul_sub_mul_le {n s c m : ℕ} {d v B : ℤ} (hpos : 0 < n)
    (hround : |2 * (255 * (n : ℤ) * v - m * d)| ≤ 255 * n)
    (hcross : |(s : ℤ) * m - 255 * n * c| ≤ B)
    (hle : s * (255 * n) + 2 * |d| * B ≤ 510 * n * 255) : |(s : ℤ) * v - c * d| ≤ 255 := by
  set e : ℤ := 2 * (255 * (n : ℤ) * v - m * d) with he
  have hidentity : 510 * (n : ℤ) * (s * v - c * d) = s * e + 2 * d * (s * m - 255 * n * c) := by
    rw [he]
    ring
  have hse : |(s : ℤ) * e| ≤ s * (255 * n) := by
    rw [abs_mul, Nat.abs_cast]
    exact mul_le_mul_of_nonneg_left hround (Int.natCast_nonneg s)
  have hdB : |2 * d * (s * m - 255 * n * c)| ≤ 2 * |d| * B := by
    rw [abs_mul, abs_mul, abs_two]
    exact mul_le_mul_of_nonneg_left hcross (by positivity)
  have htotal : 510 * (n : ℤ) * |(s : ℤ) * v - c * d| ≤ 510 * n * 255 := by
    calc 510 * (n : ℤ) * |(s : ℤ) * v - c * d|
        = |s * e + 2 * d * (s * m - 255 * n * c)| := by
          rw [← hidentity, abs_mul, abs_of_nonneg (show (0 : ℤ) ≤ 510 * n by positivity)]
      _ ≤ |(s : ℤ) * e| + |2 * d * (s * m - 255 * n * c)| := abs_add_le _ _
      _ ≤ s * (255 * n) + 2 * |d| * B := add_le_add hse hdB
      _ ≤ 510 * n * 255 := hle
  exact le_of_mul_le_mul_left htotal (by positivity)

/-- What two alphas are off by crosswise, from what each of them is off by in sixteenths. -/
theorem abs_alpha_cross_le {n s c m : ℕ} {a : ℤ} (hs : |16 * (s : ℤ) - 255 * n| ≤ a)
    (hc : |16 * (c : ℤ) - m| ≤ 8) :
    16 * |(s : ℤ) * m - 255 * n * c| ≤ m * a + 255 * n * 8 := by
  have hidentity : 16 * ((s : ℤ) * m - 255 * n * c) =
      m * (16 * (s : ℤ) - 255 * n) - 255 * n * (16 * (c : ℤ) - m) := by
    ring
  have hms : |(m : ℤ) * (16 * (s : ℤ) - 255 * n)| ≤ m * a := by
    rw [abs_mul, Nat.abs_cast]
    exact mul_le_mul_of_nonneg_left hs (Int.natCast_nonneg m)
  have hnc : |255 * (n : ℤ) * (16 * (c : ℤ) - m)| ≤ 255 * n * 8 := by
    rw [abs_mul, abs_of_nonneg (by positivity)]
    exact mul_le_mul_of_nonneg_left hc (by positivity)
  calc 16 * |(s : ℤ) * m - 255 * n * c|
      = |m * (16 * (s : ℤ) - 255 * n) - 255 * n * (16 * (c : ℤ) - m)| := by
        rw [← hidentity, abs_mul, abs_of_nonneg (show (0 : ℤ) ≤ 16 by decide)]
    _ ≤ |(m : ℤ) * (16 * (s : ℤ) - 255 * n)| + |255 * (n : ℤ) * (16 * (c : ℤ) - m)| := abs_sub _ _
    _ ≤ m * a + 255 * n * 8 := add_le_add hms hnc

/-- **The two routes before flattening.** The alphas times the distances from the background
differ by one unit of alpha times one level at most. For the whole pixel it holds for all
colours, at the outline for colours up to 128 apart. -/
theorem abs_alpha_mul_sub_le (hf : f ≤ 255) (hb : b ≤ 255) (hfa : fa ≤ 255) (hn : nF + nB ≤ 16)
    (hpos : 0 < nF + nB) (hnear : nF + nB = 16 ∨ f ≤ b + 128 ∧ b ≤ f + 128) :
    |(mixAlpha fa nF 255 nB : ℤ) * ((mixColour f fa nF b 255 nB : ℤ) - b) -
      mixAlpha fa nF 0 nB * ((f : ℤ) - b)| ≤ 255 := by
  have hround := abs_mixColour_solid (f := f) (b := b) hfa hpos
  have hmle : nF * fa ≤ (nF + nB) * 255 := Nat.mul_le_mul (Nat.le_add_right ..) hfa
  have hsolid : mixAlpha fa nF 255 nB = (65025 * (nF + nB) + 2040) / 4080 := by
    rw [mixAlpha, mixWeight_solid hfa]
  have hclear : mixAlpha fa nF 0 nB = (255 * (nF * fa) + 2040) / 4080 := by
    rw [mixAlpha, mixWeight_clear]
  generalize nF * fa = m at *
  generalize nF + nB = n at *
  generalize mixAlpha fa nF 255 nB = s at *
  generalize mixAlpha fa nF 0 nB = c at *
  generalize mixColour f fa nF b 255 nB = p at *
  have hc : |16 * (c : ℤ) - m| ≤ 8 := by
    rw [abs_le]
    omega
  by_cases hfull : n = 16
  · -- the alpha of the opaque route is exact
    subst hfull
    have hs : |16 * (s : ℤ) - 255 * (16 : ℕ)| ≤ 0 := by
      rw [abs_le]
      omega
    have hdabs : |(f : ℤ) - b| ≤ 255 := by
      rw [abs_le]
      omega
    have hcross := abs_alpha_cross_le hs hc
    exact abs_mul_sub_mul_le (B := 2040) hpos hround (by omega) (by omega)
  · have hs : |16 * (s : ℤ) - 255 * n| ≤ 8 := by
      rw [abs_le]
      omega
    have hdabs : |(f : ℤ) - b| ≤ 128 := by
      rw [abs_le]
      omega
    have hcross := abs_alpha_cross_le hs hc
    have hs239 : (s : ℤ) ≤ 239 := by omega
    have hn0 : (0 : ℤ) ≤ 255 * n := by positivity
    refine abs_mul_sub_mul_le (B := 255 * n) hpos hround (by omega) ?_
    nlinarith [mul_le_mul_of_nonneg_right hs239 hn0, mul_le_mul_of_nonneg_right hdabs hn0]

/-- **The two routes for one channel.** -/
theorem flatMix_close (hf : f ≤ 255) (hb : b ≤ 255) (hfa : fa ≤ 255) (hn : nF + nB ≤ 16)
    (hnear : nF + nB = 16 ∨ f ≤ b + 128 ∧ b ≤ f + 128) :
    flatMix f fa nF b 255 nB ≤ flatMix f fa nF b 0 nB + 1 ∧
      flatMix f fa nF b 0 nB ≤ flatMix f fa nF b 255 nB + 1 := by
  have hs : mixAlpha fa nF 255 nB ≤ 255 := mixAlpha_le hfa (le_refl 255) hn
  have hc : mixAlpha fa nF 0 nB ≤ 255 := mixAlpha_le hfa (Nat.zero_le 255) hn
  rw [flatMix, flatMix, mixAlpha_mul_mixColour_clear]
  rcases Nat.eq_zero_or_pos (nF + nB) with hzero | hpos
  · -- nothing of the pixel is inside the outline
    obtain ⟨rfl, rfl⟩ := Nat.add_eq_zero_iff.mp hzero
    have halpha (ba : ℕ) : mixAlpha fa 0 ba 0 = 0 := by
      rw [mixAlpha, mixWeight]
      norm_num
    rw [halpha, halpha]
    omega
  · have hclose := abs_alpha_mul_sub_le hf hb hfa hn hpos hnear
    generalize mixAlpha fa nF 255 nB = s at *
    generalize mixAlpha fa nF 0 nB = c at *
    generalize mixColour f fa nF b 255 nB = p at *
    have hflat (a v : ℕ) (ha : a ≤ 255) : ((a * v + (255 - a) * b : ℕ) : ℤ) =
        255 * b + a * ((v : ℤ) - b) := by
      push_cast [Nat.cast_sub ha]
      ring
    have hp := hflat s p hs
    have hq := hflat c f hc
    rw [abs_le] at hclose
    omega

end Mix

/-! ### One pixel -/

/-- A mix is flattened channel by channel as its numbers are. -/
theorem toNat_flatten_mix (fg bg matte : Rgb) {fa ba nF nB : ℕ} (hfa : fa ≤ 255)
    (hba : ba ≤ 255) (hn : nF + nB ≤ 16) :
    let c := (mix fg fa nF bg ba nB).flatten matte
    c.r.toNat = flatOver matte.r.toNat fg.r.toNat fa nF bg.r.toNat ba nB ∧
      c.g.toNat = flatOver matte.g.toNat fg.g.toNat fa nF bg.g.toNat ba nB ∧
      c.b.toNat = flatOver matte.b.toNat fg.b.toNat fa nF bg.b.toNat ba nB := by
  have halpha : mixAlpha fa nF ba nB ≤ 255 := mixAlpha_le hfa hba hn
  have hchannel (f b m : UInt8) : (HumanizedHash.flatten
      (UInt8.ofNat (mixColour f.toNat fa nF b.toNat ba nB)) (UInt8.ofNat (mixAlpha fa nF ba nB))
      m).toNat = flatOver m.toNat f.toNat fa nF b.toNat ba nB := by
    have hcolour : mixColour f.toNat fa nF b.toNat ba nB ≤ 255 :=
      mixColour_le (Nat.le_of_lt_succ f.toNat_lt) (Nat.le_of_lt_succ b.toNat_lt)
    rw [toNat_flatten, UInt8.toNat_ofNat_of_lt' (Nat.lt_succ_of_le hcolour),
      UInt8.toNat_ofNat_of_lt' (Nat.lt_succ_of_le halpha), flatOver]
  intro c
  by_cases hzero : mixAlpha fa nF ba nB = 0
  · have hc : mix fg fa nF bg ba nB = ⟨0, 0, 0, 0⟩ := if_pos hzero
    have hnone (f b m : UInt8) : (HumanizedHash.flatten 0 0 m).toNat =
        flatOver m.toNat f.toNat fa nF b.toNat ba nB := by
      rw [toNat_flatten, flatOver, hzero]
      simp
    simp only [c, hc, Pixel.flatten]
    exact ⟨hnone fg.r bg.r matte.r, hnone fg.g bg.g matte.g, hnone fg.b bg.b matte.b⟩
  · have hc : mix fg fa nF bg ba nB =
        ⟨UInt8.ofNat (mixColour fg.r.toNat fa nF bg.r.toNat ba nB),
          UInt8.ofNat (mixColour fg.g.toNat fa nF bg.g.toNat ba nB),
          UInt8.ofNat (mixColour fg.b.toNat fa nF bg.b.toNat ba nB),
          UInt8.ofNat (mixAlpha fa nF ba nB)⟩ := if_neg hzero
    simp only [c, hc, Pixel.flatten]
    exact ⟨hchannel fg.r bg.r matte.r, hchannel fg.g bg.g matte.g, hchannel fg.b bg.b matte.b⟩

/-- Whether the samples of a mix are all of the pixel, or its colour is at most 128 away from every
background. -/
def NearMix (fg : Rgb) (n : ℕ) : Prop := n = 16 ∨ fg = frameColour

/-- **The two routes for one pixel.** -/
theorem flatten_mix_close (fg bg : Rgb) {fa nF nB : ℕ} (hfa : fa ≤ 255) (hn : nF + nB ≤ 16)
    (hnear : NearMix fg (nF + nB)) :
    ((mix fg fa nF bg 255 nB).flatten bg).Close ((mix fg fa nF bg 0 nB).flatten bg) := by
  obtain ⟨hr, hg, hb⟩ := toNat_flatten_mix fg bg bg hfa (le_refl 255) hn
  obtain ⟨hr', hg', hb'⟩ := toNat_flatten_mix fg bg bg hfa (Nat.zero_le 255) hn
  have hchannel (f b : UInt8) (hf : fg = frameColour → f.toNat = 128) :
      flatMix f.toNat fa nF b.toNat 255 nB ≤ flatMix f.toNat fa nF b.toNat 0 nB + 1 ∧
        flatMix f.toNat fa nF b.toNat 0 nB ≤ flatMix f.toNat fa nF b.toNat 255 nB + 1 := by
    have hflt := f.toNat_lt
    have hblt := b.toNat_lt
    refine flatMix_close (by omega) (by omega) hfa hn (hnear.imp_right fun hgrey => ?_)
    have hgrey := hf hgrey
    omega
  constructor
  · rw [CloseBytes, hr, hr']
    exact hchannel fg.r bg.r fun h => by rw [h]; rfl
  · rw [CloseBytes, hg, hg']
    exact hchannel fg.g bg.g fun h => by rw [h]; rfl
  · rw [CloseBytes, hb, hb']
    exact hchannel fg.b bg.b fun h => by rw [h]; rfl

/-! ### The two pictures -/

/-- The pixels of an image that was read from a buffer. -/
theorem pixel_read (size : UInt32) (mem : Memory UInt8) {x y : ℕ} (hx : x < size.toNat)
    (hy : y < size.toNat) :
    (⟨size, size, mem.read 0 (imageBytes size)⟩ : Image).pixel x y =
      pixelAt 0 size.toNat mem (x, y) := by
  have hrow : (y + 1) * size.toNat ≤ size.toNat * size.toNat := Nat.mul_le_mul_right _ hy
  have hget (c : ℕ) (hc : c < 4) :
      (mem.read 0 (imageBytes size)).getD ((y * size.toNat + x) * 4 + c) 0 =
        mem ((y * size.toNat + x) * 4 + c) := by
    have hlt : (y * size.toNat + x) * 4 + c < imageBytes size := by
      rw [imageBytes]
      rw [Nat.add_mul, Nat.one_mul] at hrow
      omega
    rw [List.getD_eq_getElem?_getD, List.getElem?_eq_getElem (by rwa [Memory.length_read]),
      Option.getD_some, Memory.getElem_read, Nat.zero_add]
  simp only [Image.pixel, pixelAt, pixelAddress, Int.toNat_natCast, Nat.zero_add]
  rw [hget 1 (by omega), hget 2 (by omega), hget 3 (by omega)]
  exact congrArg (fun r => Pixel.mk r _ _ _) (hget 0 (by omega))

/-- The checks of an opaque background include those of a transparent one. -/
theorem prepare_clear {fp : Fingerprint} {size : UInt32} {options : RenderOptions}
    {job : RasterJob} (h : prepare fp size { options with backgroundAlpha := 255 } = .ok job) :
    prepare fp size { options with backgroundAlpha := 0 } =
      .ok (jobOf fp { options with backgroundAlpha := 0 }) := by
  rw [prepare] at h ⊢
  dsimp only at h ⊢
  split_ifs at h with hempty hargs hsize hframe hcontrast hcells
  rw [if_neg hempty, if_neg hargs, if_neg hsize, if_neg hframe, if_neg (by simp), if_neg hcells]

/-- **Transparent and opaque renders show the same picture.** Where the opaque render is accepted,
so is the transparent one, and every pixel of the two, flattened over the background, agrees up to
one in each channel. -/
theorem render_flatten_close (fp : Fingerprint) (size : UInt32) (options : RenderOptions)
    (out : Image)
    (hok : (render fp size { options with backgroundAlpha := 255 } out).1 = .ok) :
    (render fp size { options with backgroundAlpha := 0 } out).1 = .ok ∧
      ∀ x y, x < size.toNat → y < size.toNat →
        (((render fp size { options with backgroundAlpha := 255 } out).2.pixel x y).flatten
            options.background).Close
          (((render fp size { options with backgroundAlpha := 0 } out).2.pixel x y).flatten
            options.background) := by
  cases hsolid : prepare fp size { options with backgroundAlpha := 255 } with
  | error ec =>
    rw [render_of_error hsolid] at hok
    exact absurd hok (ne_ok_of_prepare hsolid)
  | ok job =>
    have hclear := prepare_clear hsolid
    have hP := (prepared_of_prepare hsolid).isPicture 0 fun _ => 0
    have hQ := (prepared_of_prepare hclear).isPicture 0 fun _ => 0
    rw [render_of_ok hsolid, render_of_ok hclear]
    refine ⟨rfl, fun x y hx hy => ?_⟩
    rw [pixel_read size _ hx hy, pixel_read size _ hx hy]
    by_cases hcell : ∃ i : Fin 16, ((cellsOf fp.bytes).get i).figure ≠ .none ∧
        ((jobOf fp options).geometry size).InCell i (x, y)
    · -- a figure: its samples and those of the background are the whole pixel
      obtain ⟨i, hfigure, hin⟩ := hcell
      rw [hP.cell i hfigure x y hin, hQ.cell i hfigure x y hin]
      have hcount : (samplesOf (x - ((jobOf fp options).geometry size).cellX i)
          (y - ((jobOf fp options).geometry size).cellY i)).countP (fun s =>
            inFigure ((cellsOf fp.bytes).get i).figure s.1 s.2
              (4 * ((jobOf fp options).geometry size).cell)) ≤ 16 :=
        List.countP_le_length.trans (length_samplesOf _ _).le
      have hall := Nat.add_sub_cancel' hcount
      exact flatten_mix_close _ _ (le_refl 255) hall.le (Or.inl hall)
    · -- the surface and the frame, whose colour is grey
      have hout : ∀ i : Fin 16, ((cellsOf fp.bytes).get i).figure ≠ .none →
          ¬ ((jobOf fp options).geometry size).InCell i (x, y) :=
        fun i hfigure hin => hcell ⟨i, hfigure, hin⟩
      have hcanvas : InCanvas size.toNat ((x : ℤ), (y : ℤ)) := by
        rw [InCanvas]
        omega
      rw [hP.other x y hcanvas hout, hQ.other x y hcanvas hout]
      set tester := FrameTester.new ((jobOf fp options).geometry size) options.shape
        (resolveFrame options.frame fp.mode options.shape) with htester
      have hframe : (samplesOf x y).countP (fun s =>
          tester.inOutline s.1 s.2 && tester.onFrame s.1 s.2) ≤
            (samplesOf x y).countP fun s => tester.inOutline s.1 s.2 :=
        List.countP_mono_left fun s _ hs => (Bool.and_eq_true_iff.mp hs).1
      have hin : (samplesOf x y).countP (fun s => tester.inOutline s.1 s.2) ≤ 16 :=
        List.countP_le_length.trans (length_samplesOf _ _).le
      exact flatten_mix_close _ _ (Nat.le_of_lt_succ options.frameAlpha.toNat_lt)
        ((Nat.add_sub_cancel' hframe).le.trans hin) (Or.inr rfl)

/-- Figures in a frame that is partly transparent, on white and on none: a pixel of the frame where
the two pictures differ, and one of a figure. -/
theorem render_flatten_close_frame :
    let fp : Fingerprint := ⟨Vector.replicate 32 0x5A, .universal, true⟩
    let options : RenderOptions := { frame := .rounded, frameAlpha := 100 }
    let P := (render fp 16 options .empty).2
    let Q := (render fp 16 { options with backgroundAlpha := 0 } .empty).2
    (P.pixel 2 2).flatten options.background = ⟨214, 214, 214⟩ ∧
      (Q.pixel 2 2).flatten options.background = ⟨215, 215, 215⟩ ∧
      ((P.pixel 2 2).flatten options.background).Close ((Q.pixel 2 2).flatten options.background) ∧
      (Q.pixel 4 4).flatten options.background = ⟨212, 130, 0⟩ ∧
      ((P.pixel 4 4).flatten options.background).Close
        ((Q.pixel 4 4).flatten options.background) := by
  intro fp options P Q
  have hprepare : prepare fp 16 { options with backgroundAlpha := 255 } = .ok (jobOf _ _) :=
    (prepare_eq frameColour ..).trans (if_pos (by decide +kernel))
  obtain ⟨-, hclose⟩ := render_flatten_close fp 16 options .empty
    (congrArg Prod.fst (render_of_ok hprepare .empty))
  exact ⟨by decide +kernel, by decide +kernel, hclose 2 2 (by decide) (by decide),
    by decide +kernel, hclose 4 4 (by decide) (by decide)⟩

end HumanizedHash
