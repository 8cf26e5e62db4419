import HumanizedHash.Raster.Coverage
import HumanizedHash.Raster.Render

/-!
# Pictures are faithful to layouts

Two pictures of the same mode, size and options are equal exactly if the 16 pairs of a figure and
a colour are. What tells the pairs apart is collected in `Legible`, a property of the shades of a
colour over the background: a count of 0 shows the background, counts three or more apart show,
and the few coincidences that different figures could hide behind do not happen. With it, three
corners and the middle of a cell give the figure and then the colour (`Legible.figure_eq`).
An opaque background is legible because of its contrast, a transparent one because the alpha of a
pixel is its count.

## Main definitions

* `Legible`: the shades tell figures and colours apart.
* `shade`: the shades of a palette colour.

## Main results

* `Legible.figure_eq`, `Legible.colour_eq`: a cell can be read off its pixels.
* `legible_solid`, `legible_transparent`: the shades of the two kinds of background.
* `render_eq_iff_cellsOf_eq`: the pictures are equal if and only if the layouts are.

## References

* `src/src/raster.cpp`, `src/src/contrast.cpp`, `src/src/features.cpp`.
-/

namespace HumanizedHash

open Loop

/-! ### Shades that can be told apart -/

/-- The shades `V i n` of colours `i` at counts `n` tell figures and colours apart. -/
structure Legible {ι π : Type*} (V : ι → ℕ → π) : Prop where
  /-- Without samples of the figure only the background shows. -/
  zero_eq : ∀ i j, V i 0 = V j 0
  /-- Counts three apart show. -/
  ne_of_add_three_le : ∀ i n m, n + 3 ≤ m → m ≤ 16 → V i n ≠ V i m
  /-- The base and the tip of a triangle do not pass for the tip and the base of another. -/
  cross : ∀ i j l, l = 0 ∨ l = 4 → V i l = V j 12 → V i 12 ≠ V j l
  /-- A circle in a cell of side 2 does not pass for a square. -/
  thirteen_ne : ∀ i j, V i 13 ≠ V j 16
  /-- Different colours show where most of a pixel is covered. -/
  injective : ∀ i j n, 12 ≤ n → n ≤ 16 → V i n = V j n → i = j

theorem tipCoverage_eq (t : Int) : tipCoverage t = 0 ∨ tipCoverage t = 4 := by
  rw [tipCoverage]
  split_ifs
  · exact Or.inr rfl
  · exact Or.inl rfl

/-- Some pixel of a circle is covered by 13 samples or more. -/
theorem exists_coverage_circle {t : Int} (ht : 2 ≤ t) :
    ∃ x, (0 ≤ x ∧ x < t) ∧ 13 ≤ coverage t .circle x x := by
  rcases Int.lt_or_eq_of_le ht with hlarge | rfl
  · exact ⟨t / 2, by omega, by rw [coverage_circle_centre (by omega)]; omega⟩
  · exact ⟨0, by omega, by rw [coverage_circle_two]⟩

/-- Some pixel of every figure is covered by 12 samples or more. -/
theorem exists_coverage {t : Int} (ht : 2 ≤ t) {f : Figure} (hf : f.Named) (hnone : f ≠ .none) :
    ∃ x y, (0 ≤ x ∧ x < t) ∧ (0 ≤ y ∧ y < t) ∧ 12 ≤ coverage t f x y := by
  have hcorners := coverage_corners ht f
  simp only [Prod.ext_iff] at hcorners
  obtain ⟨hul, hur, hll⟩ := hcorners
  cases f with
  | none => exact absurd rfl hnone
  | unknown b h => exact absurd hf id
  | square => exact ⟨0, 0, by omega, by omega, le_trans (show 12 ≤ 16 by decide) hul.ge⟩
  | circle =>
    obtain ⟨x, hx, hlow⟩ := exists_coverage_circle ht
    exact ⟨x, x, hx, hx, by omega⟩
  | triangleRight | triangleDown => exact ⟨0, 0, by omega, by omega, hul.ge⟩
  | triangleUp => exact ⟨0, t - 1, by omega, by omega, hll.ge⟩
  | triangleLeft => exact ⟨t - 1, 0, by omega, by omega, hur.ge⟩

namespace Legible

variable {ι π : Type*} {V : ι → ℕ → π} (hV : Legible V) {t : Int} (ht : 2 ≤ t) {f f' : Figure}
  {i j : ι}
include hV ht

/-- A circle and a square do not look the same. -/
theorem circle_ne_square : ¬ ∀ x y, (0 ≤ x ∧ x < t) → (0 ≤ y ∧ y < t) →
    V i (coverage t .circle x y) = V j (coverage t .square x y) := by
  intro h
  have hcorner := h 0 0 ⟨le_rfl, by omega⟩ ⟨le_rfl, by omega⟩
  rw [coverage_square] at hcorner
  rcases Int.lt_or_eq_of_le ht with hlarge | rfl
  · have hcentre := h (t / 2) (t / 2) (by omega) (by omega)
    rw [coverage_square, coverage_circle_centre (by omega)] at hcentre
    have hle := coverage_circle_corner_le ht
    exact hV.ne_of_add_three_le i _ 16 (by omega) le_rfl (hcorner.trans hcentre.symm)
  · rw [coverage_circle_two] at hcorner
    exact hV.thirteen_ne i j hcorner

/-- A circle leaves no cell empty. -/
theorem circle_ne_none : ¬ ∀ x y, (0 ≤ x ∧ x < t) → (0 ≤ y ∧ y < t) →
    V i (coverage t .circle x y) = V j (coverage t .none x y) := by
  intro h
  obtain ⟨x, hx, hlow⟩ := exists_coverage_circle ht
  have hnone : coverage t .none x x = 0 := List.countP_eq_zero.mpr fun _ _ => Bool.false_ne_true
  have hpixel := h x x hx hx
  rw [hnone, hV.zero_eq j i] at hpixel
  exact hV.ne_of_add_three_le i 0 _ (by omega) (coverage_le t .circle x x) hpixel.symm

omit ht in
/-- Shades at three corners tell the figures apart, but for the circle, which covers all corners
alike, from the square and from the empty cell. -/
theorem figure_eq_of_corners (hf : f.Named) (hf' : f'.Named)
    (hul : V i (cornerTable t f).1 = V j (cornerTable t f').1)
    (hur : V i (cornerTable t f).2.1 = V j (cornerTable t f').2.1)
    (hll : V i (cornerTable t f).2.2 = V j (cornerTable t f').2.2)
    (hcircle : f = .circle → f' ≠ .square ∧ f' ≠ .none)
    (hcircle' : f' = .circle → f ≠ .square ∧ f ≠ .none) : f = f' := by
  have htip := tipCoverage_eq t
  have hzero := hV.zero_eq i j
  have hi := hV.ne_of_add_three_le i (tipCoverage t) 12 (by omega) (by omega)
  have hj := hV.ne_of_add_three_le j (tipCoverage t) 12 (by omega) (by omega)
  have hi₀ := hV.ne_of_add_three_le i 0 12 (by omega) (by omega)
  have hj₀ := hV.ne_of_add_three_le j 0 12 (by omega) (by omega)
  have hi₁ := hV.ne_of_add_three_le i 0 16 (by omega) (by omega)
  have hj₁ := hV.ne_of_add_three_le j 0 16 (by omega) (by omega)
  have hcross := hV.cross i j (tipCoverage t) htip
  have hcross' := hV.cross j i (tipCoverage t) htip
  cases f <;> cases f' <;> simp only [cornerTable] at hul hur hll <;> grind [Figure.Named]

/-- **The figure of a cell** can be read off its pixels. -/
theorem figure_eq (hf : f.Named) (hf' : f'.Named)
    (h : ∀ x y, (0 ≤ x ∧ x < t) → (0 ≤ y ∧ y < t) →
      V i (coverage t f x y) = V j (coverage t f' x y)) : f = f' := by
  have hul := h 0 0 (by omega) (by omega)
  have hur := h (t - 1) 0 (by omega) (by omega)
  have hll := h 0 (t - 1) (by omega) (by omega)
  have hcorners := coverage_corners ht f
  have hcorners' := coverage_corners ht f'
  simp only [Prod.ext_iff] at hcorners hcorners'
  rw [hcorners.1, hcorners'.1] at hul
  rw [hcorners.2.1, hcorners'.2.1] at hur
  rw [hcorners.2.2, hcorners'.2.2] at hll
  refine hV.figure_eq_of_corners hf hf' hul hur hll ?_ ?_
  · rintro rfl
    constructor
    · rintro rfl
      exact hV.circle_ne_square ht h
    · rintro rfl
      exact hV.circle_ne_none ht h
  · rintro rfl
    constructor
    · rintro rfl
      exact hV.circle_ne_square ht fun x y hx hy => (h x y hx hy).symm
    · rintro rfl
      exact hV.circle_ne_none ht fun x y hx hy => (h x y hx hy).symm

/-- **The colour of a cell** can be read off its pixels. -/
theorem colour_eq (hf : f.Named) (hnone : f ≠ .none)
    (h : ∀ x y, (0 ≤ x ∧ x < t) → (0 ≤ y ∧ y < t) →
      V i (coverage t f x y) = V j (coverage t f x y)) : i = j := by
  obtain ⟨x, y, hx, hy, hlow⟩ := exists_coverage ht hf hnone
  exact hV.injective i j _ hlow (coverage_le t f x y) (h x y hx hy)

end Legible

/-! ### The shades of the palette -/

/-- The shades of a palette colour over a background. -/
def shade (background : Rgb) (backgroundAlpha : ℕ) (i : Fin 4) (n : ℕ) : Pixel :=
  mix (palette.get i) 255 n background backgroundAlpha (16 - n)

/-- A channel of a shade over an opaque background. -/
def blend (n : ℕ) (c b : UInt8) : ℕ := (n * c.toNat + (16 - n) * b.toNat + 8) / 16

theorem blend_lt {n : ℕ} (hn : n ≤ 16) (c b : UInt8) : blend n c b < 256 := by
  have hc := Nat.mul_le_mul_left n (Nat.le_of_lt_succ c.toNat_lt)
  have hb := Nat.mul_le_mul_left (16 - n) (Nat.le_of_lt_succ b.toNat_lt)
  rw [blend]
  omega

/-- A shade over an opaque background. -/
theorem shade_solid (b : Rgb) (i : Fin 4) {n : ℕ} (hn : n ≤ 16) :
    shade b 255 i n = ⟨UInt8.ofNat (blend n (palette.get i).r b.r),
      UInt8.ofNat (blend n (palette.get i).g b.g),
      UInt8.ofNat (blend n (palette.get i).b b.b), 255⟩ := by
  have hweight : mixWeight 255 n 255 (16 - n) = 65025 * 16 := by
    rw [mixWeight]
    omega
  have hchannel (c b : UInt8) : (mixSum c.toNat 255 n b.toNat 255 (16 - n) + 65025 * 16 / 2) /
      (65025 * 16) = blend n c b := by
    have hsum : mixSum c.toNat 255 n b.toNat 255 (16 - n) + 65025 * 16 / 2 =
        65025 * (n * c.toNat + (16 - n) * b.toNat + 8) := by
      rw [mixSum]
      ring
    rw [hsum, Nat.mul_div_mul_left _ _ (by decide), blend]
  rw [shade, mix, hweight]
  simp only [hchannel]
  rfl

/-- A shade over a transparent background: the alpha is the count. -/
theorem shade_transparent_a (b : Rgb) (i : Fin 4) (n : ℕ) :
    (shade b 0 i n).a = UInt8.ofNat ((255 * n + 8) / 16) := by
  have hweight : mixWeight 255 n 0 (16 - n) = 65025 * n := by
    rw [mixWeight]
    ring
  have halpha : (65025 * n + 2040) / 4080 = (255 * n + 8) / 16 := by omega
  rw [shade, mix, hweight, halpha]
  split_ifs with hzero
  · rw [hzero]
    rfl
  · rfl

/-- Where a sample is covered, a shade over a transparent background has the colour itself. -/
theorem shade_transparent (b : Rgb) (i : Fin 4) {n : ℕ} (hn : 0 < n) :
    shade b 0 i n = ⟨(palette.get i).r, (palette.get i).g, (palette.get i).b,
      UInt8.ofNat ((255 * n + 8) / 16)⟩ := by
  have hweight : mixWeight 255 n 0 (16 - n) = 65025 * n := by
    rw [mixWeight]
    ring
  have halpha : (65025 * n + 2040) / 4080 = (255 * n + 8) / 16 := by omega
  have hchannel (c b : UInt8) : (mixSum c.toNat 255 n b.toNat 0 (16 - n) + 65025 * n / 2) /
      (65025 * n) = c.toNat := by
    have hsum : mixSum c.toNat 255 n b.toNat 0 (16 - n) = 65025 * n * c.toNat := by
      rw [mixSum]
      ring
    rw [hsum, Nat.mul_add_div (by omega), Nat.div_eq_of_lt (by omega), Nat.add_zero]
  rw [shade, mix, hweight, halpha, if_neg (by omega)]
  simp only [hchannel, UInt8.ofNat_toNat]

/-! ### An opaque background -/

/-- Equal shades over an opaque background have equal channels. -/
theorem blend_eq_of_shade_eq {b : Rgb} {i j : Fin 4} {n m : ℕ} (hn : n ≤ 16) (hm : m ≤ 16)
    (h : shade b 255 i n = shade b 255 j m) :
    blend n (palette.get i).r b.r = blend m (palette.get j).r b.r ∧
      blend n (palette.get i).g b.g = blend m (palette.get j).g b.g ∧
      blend n (palette.get i).b b.b = blend m (palette.get j).b b.b := by
  have hinj (c c' b : UInt8) (heq : UInt8.ofNat (blend n c b) = UInt8.ofNat (blend m c' b)) :
      blend n c b = blend m c' b := by
    have hval := congrArg UInt8.toNat heq
    rwa [UInt8.toNat_ofNat_of_lt' (blend_lt hn c b),
      UInt8.toNat_ofNat_of_lt' (blend_lt hm c' b)] at hval
  rw [shade_solid b i hn, shade_solid b j hm, Pixel.mk.injEq] at h
  exact ⟨hinj _ _ _ h.1, hinj _ _ _ h.2.1, hinj _ _ _ h.2.2.1⟩

section Channel

variable {c c' b : UInt8} {n m : ℕ}

/-- The sum that a blend rounds, from the background and the difference to it. -/
theorem blend_sum_eq (hn : n ≤ 16) (c b : UInt8) :
    ((n * c.toNat + (16 - n) * b.toNat : ℕ) : Int) =
      16 * b.toNat + n * ((c.toNat : Int) - b.toNat) := by
  push_cast [hn]
  ring

/-- Equal blends come from sums less than 16 apart. -/
theorem abs_lt_of_blend_eq (hn : n ≤ 16) (hm : m ≤ 16) (h : blend n c b = blend m c' b) :
    -16 < (n : Int) * ((c.toNat : Int) - b.toNat) - m * ((c'.toNat : Int) - b.toNat) ∧
      (n : Int) * ((c.toNat : Int) - b.toNat) - m * ((c'.toNat : Int) - b.toNat) < 16 := by
  have hsum := blend_sum_eq hn c b
  have hsum' := blend_sum_eq hm c' b
  rw [blend, blend] at h
  omega

/-- Counts three apart show in a channel that is 6 apart from the background. -/
theorem blend_ne_of_add_three_le (hnm : n + 3 ≤ m) (hm : m ≤ 16) (hc : Apart 6 c b) :
    blend n c b ≠ blend m c b := by
  intro h
  obtain ⟨hlow, hhigh⟩ := abs_lt_of_blend_eq (by omega) hm h
  have hcount : (3 : Int) ≤ m - n := by omega
  rcases hc with hc | hc
  · have hdist : 6 ≤ (b.toNat : Int) - c.toNat := by omega
    nlinarith
  · have hdist : 6 ≤ (c.toNat : Int) - b.toNat := by omega
    nlinarith

/-- The base and the tip of two triangles show in a channel that is 6 apart from the background. -/
theorem blend_cross (hl : m = 0 ∨ m = 4) (hc : Apart 6 c' b) (h : blend m c b = blend 12 c' b) :
    blend 12 c b ≠ blend m c' b := by
  intro h'
  have hdist := abs_lt_of_blend_eq (by omega) (by omega) h
  have hdist' := abs_lt_of_blend_eq (by omega) (by omega) h'
  rw [Apart] at hc
  rcases hl with rfl | rfl
  · omega
  · omega

/-- Thirteen samples of a colour are not sixteen of it. -/
theorem blend_thirteen_ne (hc : Apart 6 c b) : blend 13 c b ≠ blend 16 c b :=
  blend_ne_of_add_three_le le_rfl le_rfl hc

/-- Thirteen samples of a colour are not sixteen of a colour far from it. -/
theorem blend_thirteen_ne_of_apart (hc : Apart 126 c c') : blend 13 c b ≠ blend 16 c' b := by
  intro h
  have hdist := abs_lt_of_blend_eq (by omega) (by omega) h
  have hc' := c'.toNat_lt
  have hb := b.toNat_lt
  rw [Apart] at hc
  omega

/-- Where most of a pixel is covered, colours far from each other show. -/
theorem blend_ne_of_apart (hn : 12 ≤ n) (hn' : n ≤ 16) (hc : Apart 126 c c') :
    blend n c b ≠ blend n c' b := by
  intro h
  obtain ⟨hlow, hhigh⟩ := abs_lt_of_blend_eq hn' hn' h
  have hcount : (12 : Int) ≤ n := by omega
  rcases hc with hc | hc
  · have hdist : 126 ≤ (c'.toNat : Int) - c.toNat := by omega
    nlinarith
  · have hdist : 126 ≤ (c.toNat : Int) - c'.toNat := by omega
    nlinarith

end Channel

/-- **An opaque background** that contrasts with every palette colour is legible. -/
theorem legible_solid {b : Rgb} (hb : 200 ≤ figuresContrastX100 b) : Legible (shade b 255) := by
  have hfar (i : Fin 4) : (palette.get i).Apart 6 b :=
    apart_of_contrastX100 i ((le_figuresContrastX100_iff 200 b).mp hb i)
  constructor
  · intro i j
    rw [shade_solid b i (Nat.zero_le 16), shade_solid b j (Nat.zero_le 16)]
    simp only [blend, Nat.zero_mul]
  · intro i n m hnm hm h
    obtain ⟨hr, hg, hb⟩ := blend_eq_of_shade_eq (by omega) hm h
    rcases hfar i with hc | hc | hc
    · exact blend_ne_of_add_three_le hnm hm hc hr
    · exact blend_ne_of_add_three_le hnm hm hc hg
    · exact blend_ne_of_add_three_le hnm hm hc hb
  · intro i j l hl h h'
    obtain ⟨hr, hg, hb⟩ := blend_eq_of_shade_eq (by omega) (by omega) h
    obtain ⟨hr', hg', hb'⟩ := blend_eq_of_shade_eq (by omega) (by omega) h'
    rcases hfar j with hc | hc | hc
    · exact blend_cross hl hc hr hr'
    · exact blend_cross hl hc hg hg'
    · exact blend_cross hl hc hb hb'
  · intro i j h
    obtain ⟨hr, hg, hb⟩ := blend_eq_of_shade_eq (by omega) le_rfl h
    by_cases hij : i = j
    · subst hij
      rcases hfar i with hc | hc | hc
      · exact blend_thirteen_ne hc hr
      · exact blend_thirteen_ne hc hg
      · exact blend_thirteen_ne hc hb
    · rcases palette_apart i j hij with hc | hc | hc
      · exact blend_thirteen_ne_of_apart hc hr
      · exact blend_thirteen_ne_of_apart hc hg
      · exact blend_thirteen_ne_of_apart hc hb
  · intro i j n hn hn' h
    obtain ⟨hr, hg, hb⟩ := blend_eq_of_shade_eq hn' hn' h
    by_contra hij
    rcases palette_apart i j hij with hc | hc | hc
    · exact blend_ne_of_apart hn hn' hc hr
    · exact blend_ne_of_apart hn hn' hc hg
    · exact blend_ne_of_apart hn hn' hc hb

/-! ### A transparent background -/

/-- The alpha of a shade over a transparent background gives the count. -/
theorem eq_of_shade_transparent {b : Rgb} {i j : Fin 4} {n m : ℕ} (hn : n ≤ 16) (hm : m ≤ 16)
    (h : shade b 0 i n = shade b 0 j m) : n = m := by
  have halpha := congrArg (fun p : Pixel => p.a.toNat) h
  simp only [shade_transparent_a] at halpha
  rw [UInt8.toNat_ofNat_of_lt' (by simp only [UInt8.size]; omega),
    UInt8.toNat_ofNat_of_lt' (by simp only [UInt8.size]; omega)] at halpha
  omega

/-- **A transparent background** is legible. -/
theorem legible_transparent (b : Rgb) : Legible (shade b 0) := by
  constructor
  · intro i j
    rfl
  · intro i n m hnm hm h
    have heq := eq_of_shade_transparent (by omega) hm h
    omega
  · intro i j l hl h _
    have heq := eq_of_shade_transparent (by omega) (by omega) h
    omega
  · intro i j h
    exact absurd (eq_of_shade_transparent (by omega) (by omega) h) (by omega)
  · intro i j n hn hn' h
    rw [shade_transparent b i (by omega), shade_transparent b j (by omega), Pixel.mk.injEq] at h
    by_contra hij
    have hapart := palette_apart i j hij
    rw [Rgb.Apart, Apart, Apart, Apart, h.1, h.2.1, h.2.2.1] at hapart
    omega

/-! ### The pixels of a cell -/

/-- `colour & 3`. -/
def paletteIndex (colour : UInt8) : Fin 4 := ⟨(colour &&& 3).toNat, and_three_lt colour⟩

/-- The index of a palette colour is the colour. -/
theorem toNat_paletteIndex {colour : UInt8} (h : colour.toNat < 4) :
    (paletteIndex colour : ℕ) = colour.toNat := by
  have hand : (colour &&& 3).toNat = colour.toNat % 4 := by
    rw [UInt8.toNat_and]
    exact Nat.and_two_pow_sub_one_eq_mod colour.toNat 2
  exact hand.trans (Nat.mod_eq_of_lt h)

/-- The plain surface is the shade without samples of the figure. -/
theorem frameMix_zero (job : RasterJob) (i : Fin 4) :
    job.frameMix 0 16 = shade job.background job.backgroundAlpha.toNat i 0 := by
  simp only [RasterJob.frameMix, shade, mix, mixWeight, mixSum, Nat.zero_mul, Nat.zero_add,
    Nat.sub_zero]

section CellPixels

variable {fp : Fingerprint} {size : UInt32} {options : RenderOptions}

/-- **The pixels of a cell** are the shades of its colour for the coverage of its figure. -/
theorem pixelAt_of_inCell (hg : ((jobOf fp options).geometry size).Consistent size
      (jobOf fp options).shape (jobOf fp options).frame) {p : ℕ} {mem : Memory UInt8}
    (h : (jobOf fp options).Shows ((jobOf fp options).geometry size) p mem) (i : Fin 16) {x y : Int}
    (hx : 0 ≤ x ∧ x < ((jobOf fp options).geometry size).cell)
    (hy : 0 ≤ y ∧ y < ((jobOf fp options).geometry size).cell) :
    pixelAt p ((jobOf fp options).geometry size).size mem
        (((jobOf fp options).geometry size).cellX i + x,
          ((jobOf fp options).geometry size).cellY i + y) =
      shade options.background options.backgroundAlpha.toNat
        (paletteIndex ((cellsOf fp.bytes).get i).colour)
        (coverage ((jobOf fp options).geometry size).cell
          ((cellsOf fp.bytes).get i).figure x y) := by
  generalize hgeo : (jobOf fp options).geometry size = g at *
  have hin : g.InCell i (g.cellX i + x, g.cellY i + y) := by
    rw [Geometry.InCell]
    dsimp only
    omega
  by_cases hnone : ((cellsOf fp.bytes).get i).figure = .none
  · have hempty : ∀ j : Fin 16, ((jobOf fp options).cells.get j).figure ≠ .none →
        ¬ g.InCell j (g.cellX i + x, g.cellY i + y) := by
      intro j hj
      refine hg.not_inCell_of_ne (fun hij => hj ?_) hin
      rw [← Fin.ext hij]
      exact hnone
    have hgrid := hg.inGrid_of_inCell i.isLt hin
    have hcount : coverage g.cell .none x y = 0 :=
      List.countP_eq_zero.mpr fun _ _ => Bool.false_ne_true
    rw [h.surface _ (hg.inCanvas_of_inCell i.isLt hin) hempty,
      RasterJob.framePixel_of_grid hg hgrid.1 hgrid.2, hnone, hcount]
    exact frameMix_zero _ _
  · have hcell := h.cell i hnone _ hin
    dsimp only at hcell
    rw [hcell, add_sub_cancel_left, add_sub_cancel_left]
    rfl

/-- A named figure and a palette colour make the cell. -/
theorem Cell.eq_of_wellFormed {c c' : Cell} (hc : c.WellFormed) (hc' : c'.WellFormed)
    (hfigure : c.figure = c'.figure)
    (hcolour : c.figure ≠ .none → paletteIndex c.colour = paletteIndex c'.colour) : c = c' := by
  have hcolours : c.colour = c'.colour := by
    by_cases hnone : c.figure = .none
    · rw [hc.colour_eq_zero hnone, hc'.colour_eq_zero (hfigure ▸ hnone)]
    · have hindex := congrArg Fin.val (hcolour hnone)
      rw [toNat_paletteIndex hc.colour_lt, toNat_paletteIndex hc'.colour_lt] at hindex
      exact UInt8.toNat_inj.mp hindex
  cases c
  cases c'
  exact congrArg₂ Cell.mk hfigure hcolours

/-- **A cell** can be read off its pixels. -/
theorem Legible.cell_eq {π : Type*} {V : Fin 4 → ℕ → π} (hV : Legible V) {t : Int} (ht : 2 ≤ t)
    {c c' : Cell} (hc : c.WellFormed) (hc' : c'.WellFormed)
    (h : ∀ x y, (0 ≤ x ∧ x < t) → (0 ≤ y ∧ y < t) →
      V (paletteIndex c.colour) (coverage t c.figure x y) =
        V (paletteIndex c'.colour) (coverage t c'.figure x y)) : c = c' := by
  have hfigure := hV.figure_eq ht hc.named hc'.named h
  refine Cell.eq_of_wellFormed hc hc' hfigure fun hnone => ?_
  refine hV.colour_eq ht hc.named hnone fun x y hx hy => ?_
  rw [h x y hx hy, hfigure]

end CellPixels

/-- The verdict depends on the fingerprint through its mode only. -/
theorem prepare_of_mode_eq {a b : Fingerprint} {size : UInt32} {options : RenderOptions}
    (ha : a.set = true) (hb : b.set = true) (hmode : a.mode = b.mode) {job : RasterJob}
    (h : prepare a size options = .ok job) :
    prepare b size options = .ok (jobOf b options) := by
  have hverdict : verdict frameColour a size options = verdict frameColour b size options := by
    simp only [verdict, ha, hb, hmode]
  rw [prepare_eq frameColour, hverdict] at h
  rw [prepare_eq frameColour]
  split_ifs at h ⊢
  rfl

/-- What an accepted background makes of the shades. -/
theorem Prepared.legible {fp : Fingerprint} {size : UInt32} {options : RenderOptions}
    {job : RasterJob} (h : Prepared fp size options job)
    (halpha : options.backgroundAlpha = 255 ∨ options.backgroundAlpha = 0) :
    Legible (shade options.background options.backgroundAlpha.toNat) := by
  rcases halpha with hsolid | htransparent
  · have hcontrast := h.contrast hsolid
    rw [hsolid]
    exact legible_solid hcontrast
  · rw [htransparent]
    exact legible_transparent options.background

section Faithful

variable {a b : Fingerprint} {size : UInt32} {options : RenderOptions}
  (ha : Prepared a size options (jobOf a options)) (hb : Prepared b size options (jobOf b options))
  (hgeo : (jobOf b options).geometry size = (jobOf a options).geometry size)
  {mem mem' : Memory UInt8} (hmem : (jobOf a options).Shows ((jobOf a options).geometry size) 0 mem)
  (hmem' : (jobOf b options).Shows ((jobOf b options).geometry size) 0 mem')
  (hpixels : ∀ k, InCanvas size.toNat k →
    pixelAt 0 size.toNat mem k = pixelAt 0 size.toNat mem' k)
include ha hb hgeo hmem hmem' hpixels

/-- Equal pictures have equal shades at every place of every cell. -/
theorem shade_eq_of_pixelAt_eq (i : Fin 16) (x y : Int)
    (hx : 0 ≤ x ∧ x < ((jobOf a options).geometry size).cell)
    (hy : 0 ≤ y ∧ y < ((jobOf a options).geometry size).cell) :
    shade options.background options.backgroundAlpha.toNat
        (paletteIndex ((cellsOf a.bytes).get i).colour)
        (coverage ((jobOf a options).geometry size).cell ((cellsOf a.bytes).get i).figure x y) =
      shade options.background options.backgroundAlpha.toNat
        (paletteIndex ((cellsOf b.bytes).get i).colour)
        (coverage ((jobOf a options).geometry size).cell ((cellsOf b.bytes).get i).figure x y) := by
  have hsize := ha.consistent.size_eq
  have hin : ((jobOf a options).geometry size).InCell i
      (((jobOf a options).geometry size).cellX i + x,
        ((jobOf a options).geometry size).cellY i + y) := by
    rw [Geometry.InCell]
    dsimp only
    omega
  have hcanvas := ha.consistent.inCanvas_of_inCell i.isLt hin
  have hlook := pixelAt_of_inCell ha.consistent hmem i hx hy
  have hlook' := pixelAt_of_inCell hb.consistent hmem' i (x := x) (y := y)
  rw [hgeo] at hlook'
  rw [← hsize] at hpixels
  exact hlook.symm.trans ((hpixels _ hcanvas).trans (hlook' hx hy))

/-- Equal pictures have equal cells. -/
theorem cell_eq_of_pixelAt_eq (hcell : 2 ≤ ((jobOf a options).geometry size).cell)
    (halpha : options.backgroundAlpha = 255 ∨ options.backgroundAlpha = 0) (i : Fin 16) :
    ((cellsOf a.bytes).get i) = ((cellsOf b.bytes).get i) := by
  exact (ha.legible halpha).cell_eq hcell (cellsOf_wellFormed a.bytes i)
    (cellsOf_wellFormed b.bytes i) (shade_eq_of_pixelAt_eq ha hb hgeo hmem hmem' hpixels i)

end Faithful

/-- **Pictures are faithful to layouts.** For two set fingerprints of the same mode and options
that are accepted, with a cell side of at least two pixels and an opaque or a transparent
background, the pictures are equal if and only if the cells are. -/
theorem render_eq_iff_cellsOf_eq (a b : Fingerprint) (size : UInt32) (options : RenderOptions)
    (out : Image) (ha : a.set = true) (hb : b.set = true) (hmode : a.mode = b.mode)
    (hok : (render a size options out).1 = .ok)
    (hcell : 2 ≤ ((jobOf a options).geometry size).cell)
    (halpha : options.backgroundAlpha = 255 ∨ options.backgroundAlpha = 0) :
    (render a size options out).2.rgba = (render b size options out).2.rgba ↔
      cellsOf a.bytes = cellsOf b.bytes := by
  cases hprepare : prepare a size options with
  | error ec =>
    rw [render_of_error hprepare] at hok
    exact absurd hok (ne_ok_of_prepare hprepare)
  | ok job =>
    have hprepare' := prepare_of_mode_eq ha hb hmode hprepare
    have hjob := prepared_of_prepare hprepare
    have hjob' := prepared_of_prepare hprepare'
    obtain rfl := hjob.job_eq
    have hgeo : (jobOf b options).geometry size = (jobOf a options).geometry size := by
      simp only [RasterJob.geometry, jobOf, hmode]
    rw [render_of_ok hprepare, render_of_ok hprepare', imageBytes, read_eq_iff_pixelAt_eq]
    constructor
    · intro hpixels
      have hcells := cell_eq_of_pixelAt_eq hjob hjob' hgeo (hjob.shows 0 fun _ => 0)
        (hjob'.shows 0 fun _ => 0) hpixels hcell halpha
      exact Vector.ext fun i hi => hcells ⟨i, hi⟩
    · intro hcells k _
      have hsame : jobOf a options = jobOf b options := by
        simp only [jobOf, hcells, hmode]
      rw [hsame]

/-- An empty layout and one with a circle do not give the same picture at 32 pixels. -/
theorem render_ne_of_circle :
    (render ⟨Vector.replicate 32 0, .universal, true⟩ 32 {} .empty).2.rgba ≠
      (render ⟨(Vector.replicate 32 0).set 0 0x60, .universal, true⟩ 32 {} .empty).2.rgba := by
  have hprepare : prepare ⟨Vector.replicate 32 0, .universal, true⟩ 32 {} = .ok (jobOf _ _) :=
    (prepare_eq frameColour ..).trans (if_pos (by decide +kernel))
  have hok := congrArg Prod.fst (render_of_ok hprepare .empty)
  have hiff := render_eq_iff_cellsOf_eq ⟨Vector.replicate 32 0, .universal, true⟩
    ⟨(Vector.replicate 32 0).set 0 0x60, .universal, true⟩ 32 {} .empty rfl rfl rfl hok
    (by decide) (Or.inl rfl)
  intro heq
  exact absurd (hiff.mp heq) (by decide)

end HumanizedHash
