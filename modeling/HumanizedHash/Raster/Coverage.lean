import HumanizedHash.Raster.Picture

/-!
# How much of a pixel a figure covers

The number of the samples of a pixel of a cell that are in a figure, at the corners and in the
middle of the cell. The four triangles are mirror images and transposes of one, so the counts are
computed for the triangle that points up and carried over. At the corners of its base a triangle
covers 12 samples whatever the side of the cell; at the other corners it covers none, or 4 in a
cell of side 2.

## Main definitions

* `coverage`: the number of samples of a pixel in a figure.
* `tipCoverage`: the count at the corners next to the tip of a triangle.

## Main results

* `countP_samplesOf_mirrorX`, `countP_samplesOf_mirrorY`, `countP_samplesOf_transpose`: the
  samples of mirrored and transposed pixels.
* `coverage_corners_triangleUp` and its images, `coverage_circle_corner_le`,
  `coverage_circle_centre`: the counts.

## References

* `src/src/raster.cpp`, `src/docs/SPEC.md` section 8.4.
-/

namespace HumanizedHash

open Loop

/-- The number of samples of the pixel at `(px, py)` of a cell of side `t` that are in a figure. -/
def coverage (t : Int) (f : Figure) (px py : Int) : ℕ :=
  (samplesOf px py).countP fun s => inFigure f s.1 s.2 (4 * t)

theorem coverage_le (t : Int) (f : Figure) (x y : Int) : coverage t f x y ≤ 16 := by
  rw [← length_samplesOf x y]
  exact List.countP_le_length

/-! ### Mirror images -/

/-- The samples of a pixel and of its mirror image. -/
theorem sampleAt_mirror (t x i : Int) : sampleAt (t - 1 - x) i = 8 * t - sampleAt x (3 - i) := by
  rw [sampleAt, sampleAt]
  ring

theorem countP_samplesOf_mirrorX (t x y : Int) (p : Int × Int → Bool) :
    (samplesOf (t - 1 - x) y).countP p =
      (samplesOf x y).countP fun s => p (8 * t - s.1, s.2) := by
  have hperm : ((places 4 4).map fun k => (3 - k.1, k.2)).Perm (places 4 4) := by decide
  have hcount := hperm.countP_eq fun k => p (8 * t - sampleAt x k.1, sampleAt y k.2)
  simp only [List.countP_map, Function.comp_def] at hcount
  simpa only [samplesOf, List.countP_map, Function.comp_def, sampleAt_mirror] using hcount

theorem countP_samplesOf_mirrorY (t x y : Int) (p : Int × Int → Bool) :
    (samplesOf x (t - 1 - y)).countP p =
      (samplesOf x y).countP fun s => p (s.1, 8 * t - s.2) := by
  have hperm : ((places 4 4).map fun k => (k.1, 3 - k.2)).Perm (places 4 4) := by decide
  have hcount := hperm.countP_eq fun k => p (sampleAt x k.1, 8 * t - sampleAt y k.2)
  simp only [List.countP_map, Function.comp_def] at hcount
  simpa only [samplesOf, List.countP_map, Function.comp_def, sampleAt_mirror] using hcount

theorem countP_samplesOf_transpose (x y : Int) (p : Int × Int → Bool) :
    (samplesOf y x).countP p = (samplesOf x y).countP fun s => p (s.2, s.1) := by
  have hperm : ((places 4 4).map fun k => (k.2, k.1)).Perm (places 4 4) := by decide
  have hcount := hperm.countP_eq fun k => p (sampleAt y k.1, sampleAt x k.2)
  simp only [List.countP_map, Function.comp_def] at hcount
  simpa only [samplesOf, List.countP_map, Function.comp_def] using hcount.symm

theorem iabs_neg (v : Int) : iabs (-v) = iabs v := by
  rw [iabs, iabs]
  split <;> split <;> omega

variable (t x y : Int)

/-- A triangle that points down is the mirror image of one that points up. -/
theorem coverage_triangleDown :
    coverage t .triangleDown x (t - 1 - y) = coverage t .triangleUp x y := by
  rw [coverage, coverage, countP_samplesOf_mirrorY]
  refine List.countP_congr fun s _ => ?_
  simp only [inFigure, decide_eq_true_eq]
  omega

/-- A triangle that points left is the transpose of one that points up. -/
theorem coverage_triangleLeft :
    coverage t .triangleLeft y x = coverage t .triangleUp x y := by
  rw [coverage, coverage, countP_samplesOf_transpose]
  rfl

/-- A triangle that points right is the transpose of one that points down. -/
theorem coverage_triangleRight :
    coverage t .triangleRight y x = coverage t .triangleDown x y := by
  rw [coverage, coverage, countP_samplesOf_transpose]
  rfl

/-- A triangle that points up is its own mirror image. -/
theorem coverage_triangleUp_mirror :
    coverage t .triangleUp (t - 1 - x) y = coverage t .triangleUp x y := by
  rw [coverage, coverage, countP_samplesOf_mirrorX]
  refine List.countP_congr fun s _ => ?_
  have hneg : 8 * t - s.1 - 4 * t = -(s.1 - 4 * t) := by ring
  simp only [inFigure, decide_eq_true_eq, hneg, iabs_neg]

/-- A circle is its own mirror image. -/
theorem coverage_circle_mirrorX :
    coverage t .circle (t - 1 - x) y = coverage t .circle x y := by
  rw [coverage, coverage, countP_samplesOf_mirrorX]
  refine List.countP_congr fun s _ => ?_
  have hneg : 8 * t - s.1 - 4 * t = -(s.1 - 4 * t) := by ring
  simp only [inFigure, decide_eq_true_eq, hneg, neg_mul_neg]

theorem coverage_circle_mirrorY :
    coverage t .circle x (t - 1 - y) = coverage t .circle x y := by
  rw [coverage, coverage, countP_samplesOf_mirrorY]
  refine List.countP_congr fun s _ => ?_
  have hneg : 8 * t - s.2 - 4 * t = -(s.2 - 4 * t) := by ring
  simp only [inFigure, decide_eq_true_eq, hneg, neg_mul_neg]

/-! ### The counts -/

/-- The count at the corners next to the tip of a triangle. -/
def tipCoverage (t : Int) : ℕ := if t = 2 then 4 else 0

/-- A count over the samples of a pixel from a count over their indices. -/
theorem coverage_eq_countP (f : Figure) (q : Int × Int → Prop) [DecidablePred q]
    (h : ∀ i j, (0 ≤ i ∧ i < 4) → (0 ≤ j ∧ j < 4) →
      (inFigure f (sampleAt x i) (sampleAt y j) (4 * t) = true ↔ q (i, j))) :
    coverage t f x y = (places 4 4).countP fun k => q k := by
  rw [coverage, samplesOf, List.countP_map]
  refine List.countP_congr fun k hk => ?_
  obtain ⟨hi, hj⟩ := mem_places.mp hk
  simpa only [Function.comp_apply, decide_eq_true_eq] using h k.1 k.2 hi hj

variable {t}

/-- In a cell of side 2 every pixel is a corner, and a circle leaves three samples exactly. -/
theorem coverage_circle_two : coverage 2 .circle 0 0 = 13 := by
  decide

/-- In a larger cell a circle covers the pixel in the middle. -/
theorem coverage_circle_centre (ht : 3 ≤ t) : coverage t .circle (t / 2) (t / 2) = 16 := by
  rw [coverage, ← length_samplesOf (t / 2) (t / 2), List.countP_eq_length]
  intro s hs
  obtain ⟨i, j, hi, hj, rfl⟩ := mem_samplesOf hs
  have hu : -(2 * t) ≤ sampleAt (t / 2) i - 4 * t ∧ sampleAt (t / 2) i - 4 * t ≤ 2 * t := by
    rw [sampleAt]
    omega
  have hv : -(2 * t) ≤ sampleAt (t / 2) j - 4 * t ∧ sampleAt (t / 2) j - 4 * t ≤ 2 * t := by
    rw [sampleAt]
    omega
  have hdu := mul_self_le_of_abs_le hu.1 hu.2
  have hdv := mul_self_le_of_abs_le hv.1 hv.2
  rw [inFigure, decide_eq_true_iff]
  nlinarith

/-- A square covers every pixel. -/
theorem coverage_square : coverage t .square x y = 16 := by
  rw [coverage, ← length_samplesOf x y, List.countP_eq_length]
  exact fun _ _ => rfl

variable (ht : 2 ≤ t)
include ht

theorem coverage_triangleUp_base : coverage t .triangleUp 0 (t - 1) = 12 := by
  have hcount := coverage_eq_countP t 0 (t - 1) .triangleUp
    (fun k => 5 ≤ 4 * k.1 + 2 * k.2) fun i j hi hj => by
      rw [inFigure, decide_eq_true_iff, sampleAt, sampleAt, iabs]
      split <;> omega
  exact hcount.trans rfl

theorem coverage_triangleUp_tip : coverage t .triangleUp 0 0 = tipCoverage t := by
  have hcount := coverage_eq_countP t 0 0 .triangleUp
    (fun k => t = 2 ∧ 13 ≤ 4 * k.1 + 2 * k.2) fun i j hi hj => by
      rw [inFigure, decide_eq_true_iff, sampleAt, sampleAt, iabs]
      split <;> omega
  rw [hcount, tipCoverage]
  split_ifs with htwo
  · simp only [htwo, true_and]
    rfl
  · simp only [htwo, false_and]
    rfl

/-- A circle leaves three samples or more at each corner. -/
theorem coverage_circle_corner_le : coverage t .circle 0 0 ≤ 13 := by
  have hsub : ∀ k ∈ places 4 4, inFigure .circle (sampleAt 0 k.1) (sampleAt 0 k.2) (4 * t) = true →
      decide (2 ≤ k.1 + k.2) = true := by
    intro k hk hin
    obtain ⟨hi, hj⟩ := mem_places.mp hk
    rw [inFigure, decide_eq_true_iff, sampleAt, sampleAt] at hin
    rw [decide_eq_true_iff]
    by_contra hlt
    have hcases : (k.1 = 0 ∨ k.1 = 1) ∧ (k.2 = 0 ∨ k.2 = 1) ∧ k.1 + k.2 ≤ 1 := by omega
    obtain ⟨hi' | hi', hj' | hj', hsum⟩ := hcases <;> rw [hi', hj'] at hin <;> nlinarith
  rw [coverage, samplesOf, List.countP_map]
  exact (List.countP_mono_left hsub).trans (by decide)

/-- The counts at the upper left, the upper right and the lower left corner of a cell. -/
def cornerTable (t : Int) : Figure → ℕ × ℕ × ℕ
  | .square => (16, 16, 16)
  | .circle => (coverage t .circle 0 0, coverage t .circle 0 0, coverage t .circle 0 0)
  | .triangleUp => (tipCoverage t, tipCoverage t, 12)
  | .triangleRight => (12, tipCoverage t, 12)
  | .triangleDown => (12, 12, tipCoverage t)
  | .triangleLeft => (tipCoverage t, 12, tipCoverage t)
  | .none | .unknown _ _ => (0, 0, 0)

/-- **The corners.** Two figures that are not the same differ at one of three corners, but for the
circle and the square, which cover all corners alike. -/
theorem coverage_corners (f : Figure) :
    (coverage t f 0 0, coverage t f (t - 1) 0, coverage t f 0 (t - 1)) = cornerTable t f := by
  have htip := coverage_triangleUp_tip ht
  have hbase := coverage_triangleUp_base ht
  have htip' := coverage_triangleUp_mirror t 0 0
  have hdown := coverage_triangleDown t 0 0
  have hdown' := coverage_triangleDown t 0 (t - 1)
  have hdown'' := coverage_triangleDown t (t - 1) (t - 1)
  have hbase' := coverage_triangleUp_mirror t 0 (t - 1)
  simp only [sub_zero, sub_self] at htip' hdown hdown' hdown'' hbase'
  cases f with
  | none => simp [coverage, inFigure, cornerTable]
  | unknown b h => simp [coverage, inFigure, cornerTable]
  | square => simp only [coverage_square, cornerTable]
  | circle =>
    have hx := coverage_circle_mirrorX t 0 0
    have hy := coverage_circle_mirrorY t 0 0
    simp only [sub_zero] at hx hy
    simp only [hx, hy, cornerTable]
  | triangleUp => simp only [htip, htip', hbase, cornerTable]
  | triangleDown => simp only [hdown, hdown', hdown'', htip, hbase, hbase', cornerTable]
  | triangleLeft =>
    simp only [coverage_triangleLeft, htip, htip', hbase, cornerTable]
  | triangleRight =>
    simp only [coverage_triangleRight, hdown, hdown', hdown'', htip, hbase, hbase', cornerTable]

end HumanizedHash
