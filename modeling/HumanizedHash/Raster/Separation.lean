import HumanizedHash.Raster.Rasterise

/-!
# The grid and the frame are apart

`rasterise` fills the area of the grid with the plain surface without a look at its samples. This
is right because every sample of the grid is inside the outline and off the frame, for either
shape and for every style. The grid is not quite centred: its left and upper gaps are the smaller
ones, and every sample of the grid is at least `8 * offset + 1` away from each side of the canvas
(`Geometry.Inner`). In the square the offset is at least four lines, which clears the frames, the
rounded corners and the chamfers; in the circle the diagonal of the grid fits into the circle
inside the margin.

## Main definitions

* `Geometry.Inner`: a coordinate that a sample of the grid can have.

## Main results

* `Geometry.Consistent.inOutline_round`, `Geometry.Consistent.onFrame_round`: the circle.
* `Geometry.Consistent.inOutline_square`, `Geometry.Consistent.onFrame_square`: the square.
* `Geometry.Consistent.grid_samples`: the samples of the grid.

## References

* `src/src/raster.cpp`, `src/tests/test_raster.cpp`.
-/

namespace HumanizedHash

variable {g : Geometry} {size : UInt32} {shape : ImageShape} {style : FrameStyle}

/-! ### The samples of the grid -/

/-- A coordinate at least as far from both sides as the samples of the grid are. -/
structure Geometry.Inner (g : Geometry) (u : Int) : Prop where
  left : 8 * g.offset + 1 ≤ u
  right : u ≤ 8 * g.size - 8 * g.offset - 1

/-- The samples of the pixels of the grid. -/
theorem Geometry.Consistent.inner_sampleAt (hg : g.Consistent size shape style) {x i : Int}
    (hx : g.offset ≤ x ∧ x < g.offset + g.grid) (hi : 0 ≤ i ∧ i < 4) :
    g.Inner (sampleAt x i) := by
  have hoff := hg.offset_eq
  constructor <;> rw [sampleAt] <;> omega

/-- The distance of a sample of the grid from the centre lines, off which the grid lies by up to
half a pixel. -/
theorem Geometry.Inner.abs_le (hg : g.Consistent size shape style) {u : Int} (hu : g.Inner u) :
    -(4 * g.grid + 3) ≤ u - 4 * g.size ∧ u - 4 * g.size ≤ 4 * g.grid + 3 := by
  have hoff := hg.offset_eq
  have hleft := hu.left
  have hright := hu.right
  omega

/-! ### The circle -/

theorem mul_self_le_of_abs_le {a b : Int} (h₁ : -b ≤ a) (h₂ : a ≤ b) : a * a ≤ b * b := by
  nlinarith

section Round

variable (hg : g.Consistent size .round style)
include hg

/-- What the margin leaves of the side. -/
theorem Geometry.Consistent.round_side : ∃ l : Int, g.grid < l ∧ 2 * g.grid * g.grid ≤ l * l ∧
    4 * g.size - 8 * frameLines style * g.line = 4 * l + 8 * g.line := by
  have hfit := hg.round_le rfl
  have hle := hg.grid_le
  have hline := hg.one_le_line
  have hcell := hg.cell_nonneg
  have hgrid := hg.grid_eq
  have hgutter := hg.gutter_eq
  have hmargin : g.margin .round style = frameLines style * g.line + g.line := by
    rw [Geometry.margin, marginOf, if_pos rfl, hgutter]
  rw [hmargin] at hfit hle
  refine ⟨g.size - 2 * (frameLines style * g.line + g.line), ?_, hfit, by ring⟩
  by_contra hge
  nlinarith

/-- A sample of the grid is inside every circle that up to as many lines as the frame has leave. -/
theorem Geometry.Consistent.round_dist_le {u v : Int} (hu : g.Inner u) (hv : g.Inner v) {n : Int}
    (hn : n ≤ frameLines style) :
    (u - 4 * g.size) * (u - 4 * g.size) + (v - 4 * g.size) * (v - 4 * g.size) ≤
      (4 * g.size - n * (8 * g.line)) * (4 * g.size - n * (8 * g.line)) := by
  obtain ⟨l, hlt, hfit, hside⟩ := hg.round_side
  have hline := hg.one_le_line
  have hcell := hg.cell_nonneg
  have hgrid := hg.grid_eq
  have hgutter := hg.gutter_eq
  obtain ⟨hu₁, hu₂⟩ := hu.abs_le hg
  obtain ⟨hv₁, hv₂⟩ := hv.abs_le hg
  have hdu := mul_self_le_of_abs_le hu₁ hu₂
  have hdv := mul_self_le_of_abs_le hv₁ hv₂
  have hreach : 2 * ((4 * g.grid + 3) * (4 * g.grid + 3)) ≤ (4 * l + 8) * (4 * l + 8) := by
    nlinarith
  have hlines : n * g.line ≤ frameLines style * g.line :=
    mul_le_mul_of_nonneg_right hn (by omega)
  have hwide : (4 * l + 8) * (4 * l + 8) ≤
      (4 * g.size - n * (8 * g.line)) * (4 * g.size - n * (8 * g.line)) :=
    mul_self_le_mul_self (by omega) (by linarith)
  omega

/-- A sample of the grid is inside the outline. -/
theorem Geometry.Consistent.inOutline_round {u v : Int} (hu : g.Inner u) (hv : g.Inner v) :
    (FrameTester.new g .round style).inOutline u v = true := by
  have hdist := hg.round_dist_le hu hv (n := 0)
    (by have h := frameLines_eq style; omega)
  rw [zero_mul, sub_zero] at hdist
  simpa only [FrameTester.inOutline, FrameTester.new, decide_true, if_true,
    decide_eq_true_eq] using hdist

/-- The ticks end before the grid. -/
theorem Geometry.Consistent.abs_lt_tickEnd (hlines : frameLines style = 1) {u : Int}
    (hu : g.Inner u) :
    iabs (u - 4 * g.size) < (FrameTester.new g .round style).tickEnd := by
  obtain ⟨l, hlt, -, hside⟩ := hg.round_side
  have hline := hg.one_le_line
  obtain ⟨hu₁, hu₂⟩ := hu.abs_le hg
  rw [hlines] at hside
  have hdiv := Int.tdiv_eq_ediv_of_nonneg
    (a := (4 * g.size - 8 * g.line - 4 * g.grid) * 6) (b := 10) (by omega)
  simp only [FrameTester.new, iabs, hdiv]
  split
  · omega
  · omega

/-- A sample of the grid is off the frame. -/
theorem Geometry.Consistent.onFrame_round {u v : Int} (hu : g.Inner u) (hv : g.Inner v) :
    (FrameTester.new g .round style).onFrame u v = false := by
  have hring := hg.round_dist_le hu hv (n := 1)
    (by have h := frameLines_eq style; omega)
  rw [one_mul] at hring
  have hthick (h : frameLines style = 3) := hg.round_dist_le hu hv (n := 3) (by rw [h])
  have hticks (h : frameLines style = 1) := hg.abs_lt_tickEnd h hu
  have hticks' (h : frameLines style = 1) := hg.abs_lt_tickEnd h hv
  cases style with
  | automatic | none | rounded | chamfered | brackets | unknown b h => rfl
  | plain => simp [FrameTester.onFrame, FrameTester.new, hring]
  | doubleLine =>
    simp [FrameTester.onFrame, FrameTester.new, hring, not_lt.mpr (hthick rfl)]
  | thick => simp [FrameTester.onFrame, FrameTester.new, hthick rfl]
  | gaps => simp [FrameTester.onFrame, FrameTester.new, hring]
  | ticks =>
    have hu' := not_le.mpr (hticks rfl)
    have hv' := not_le.mpr (hticks' rfl)
    rw [FrameTester.new] at hu' hv'
    simp [FrameTester.onFrame, FrameTester.new, hring, hu', hv']

end Round

/-! ### The square -/

/-- The distance of a sample of the grid from the nearer of two sides. -/
theorem Geometry.Inner.lt_min {u : Int} (hu : g.Inner u) :
    8 * g.offset < min u (8 * g.size - u) := by
  have hleft := hu.left
  have hright := hu.right
  omega

/-- A sample at more than half of the corner square from both sides is inside the rounded corner
by more than a line. -/
theorem corner_sq_le {c w ex ey : Int} (hw : 0 ≤ w) (hc : 8 * w ≤ c) (hx : 0 < ex ∧ 2 * ex < c)
    (hy : 0 < ey ∧ 2 * ey < c) : ex * ex + ey * ey ≤ (c - w) * (c - w) := by
  have hx₂ : 2 * ex * (2 * ex) ≤ c * c := mul_self_le_mul_self (by omega) (by omega)
  have hy₂ : 2 * ey * (2 * ey) ≤ c * c := mul_self_le_mul_self (by omega) (by omega)
  nlinarith

section Square

variable (hg : g.Consistent size shape style) (hshape : shape ≠ .round)
include hg hshape

/-- In the square the grid starts behind four lines. -/
theorem Geometry.Consistent.four_mul_line_le : 4 * g.line ≤ g.offset := by
  have hle := hg.grid_le
  have hoff := hg.offset_eq
  have hmargin : g.margin shape style = max (4 * g.line) (g.size / 12) := if_neg hshape
  omega

/-- The chamfers and their lines end before the grid. -/
theorem Geometry.Consistent.chamfer_add_diagonal_le :
    (FrameTester.new g shape style).chamfer + (FrameTester.new g shape style).diagonal ≤
      16 * g.offset := by
  have hoff := hg.four_mul_line_le hshape
  have hline := hg.one_le_line
  have hdiag := Int.tdiv_eq_ediv_of_nonneg (a := 8 * g.line * 1414 + 500) (b := 1000) (by omega)
  simp only [FrameTester.new, hdiag]
  rw [Int.tdiv_eq_ediv_of_nonneg (by omega)]
  omega

/-- A sample of the grid that is in a corner square is inside the rounded corner, off its line. -/
theorem Geometry.Consistent.corner_le {u v : Int} (hu : g.Inner u) (hv : g.Inner v)
    (hcorner : min u (8 * g.size - u) < (FrameTester.new g shape style).corner ∧
      min v (8 * g.size - v) < (FrameTester.new g shape style).corner) {n : Int}
    (hn : 0 ≤ n ∧ n ≤ g.line) :
    let corner := (FrameTester.new g shape style).corner
    (corner - min u (8 * g.size - u)) * (corner - min u (8 * g.size - u)) +
        (corner - min v (8 * g.size - v)) * (corner - min v (8 * g.size - v)) ≤
      (corner - 8 * n) * (corner - 8 * n) := by
  have hoff := hg.four_mul_line_le hshape
  have hside := hg.line_le
  have hdu := hu.lt_min
  have hdv := hv.lt_min
  have hc : (FrameTester.new g shape style).corner = min (16 * g.offset) (4 * g.size) := rfl
  exact corner_sq_le (by omega) (by omega) (by omega) (by omega)

/-- A sample of the grid is inside the outline. -/
theorem Geometry.Consistent.inOutline_square {u v : Int} (hu : g.Inner u) (hv : g.Inner v) :
    (FrameTester.new g shape style).inOutline u v = true := by
  have hdu := hu.lt_min
  have hdv := hv.lt_min
  have hdiag : 0 ≤ (FrameTester.new g shape style).diagonal :=
    Int.tdiv_nonneg (by have hline := hg.one_le_line; omega) (by omega)
  have hchamfer := hg.chamfer_add_diagonal_le hshape
  have hround : (FrameTester.new g shape style).round = false := decide_eq_false hshape
  have hs8 : (FrameTester.new g shape style).s8 = 8 * g.size := rfl
  simp only [FrameTester.inOutline, hround, hs8, Bool.false_eq_true, if_false]
  split_ifs with hrounded hcorner hchamfered
  · have hle := hg.corner_le hshape hu hv hcorner (n := 0)
      ⟨le_rfl, by have hline := hg.one_le_line; omega⟩
    rw [mul_zero] at hle
    exact decide_eq_true (by simpa only [sub_zero] using hle)
  · rfl
  · exact decide_eq_true (by omega)
  · rfl

/-- A sample of the grid is off the frame. -/
theorem Geometry.Consistent.onFrame_square {u v : Int} (hu : g.Inner u) (hv : g.Inner v) :
    (FrameTester.new g shape style).onFrame u v = false := by
  have hoff := hg.four_mul_line_le hshape
  have hline := hg.one_le_line
  have hdu := hu.lt_min
  have hdv := hv.lt_min
  have hchamfer := hg.chamfer_add_diagonal_le hshape
  have hcorner := hg.corner_le hshape hu hv (n := g.line)
  have hround : (FrameTester.new g shape style).round = false := decide_eq_false hshape
  have hs8 : (FrameTester.new g shape style).s8 = 8 * g.size := rfl
  have hw8 : (FrameTester.new g shape style).w8 = 8 * g.line := rfl
  have hstyle : (FrameTester.new g shape style).style = style := rfl
  simp only [FrameTester.onFrame, hround, hs8, hw8, hstyle, Bool.false_eq_true, if_false]
  have hline₁ : decide (min (min u (8 * g.size - u)) (min v (8 * g.size - v)) < 8 * g.line) =
      false := decide_eq_false (by omega)
  have hline₃ : decide (min (min u (8 * g.size - u)) (min v (8 * g.size - v)) <
      3 * (8 * g.line)) = false := decide_eq_false (by omega)
  cases style with
  | automatic | none | ticks | gaps | unknown b h => simp only [ite_self]
  | plain => simp only [hline₁, ite_self]
  | doubleLine => simp only [hline₁, hline₃, Bool.and_false, Bool.or_false, ite_self]
  | thick => simp only [hline₃, ite_self]
  | brackets => simp only [hline₁, Bool.false_and, ite_self]
  | chamfered =>
    have hcut : decide (min u (8 * g.size - u) + min v (8 * g.size - v) -
        (FrameTester.new g shape .chamfered).chamfer <
          (FrameTester.new g shape .chamfered).diagonal) = false := decide_eq_false (by omega)
    simp only [hline₁, hcut, Bool.or_false, ite_self]
  | rounded =>
    simp only [hline₁, reduceCtorEq, if_false]
    split_ifs with hin
    · exact decide_eq_false (not_lt.mpr (hcorner hin ⟨by omega, le_rfl⟩))
    · rfl

end Square

/-! ### Both shapes -/

/-- **The samples of the grid.** Every sample of a pixel of the grid is inside the outline and off
the frame. -/
theorem Geometry.Consistent.grid_samples (hg : g.Consistent size shape style) {x y i j : Int}
    (hx : g.offset ≤ x ∧ x < g.offset + g.grid) (hy : g.offset ≤ y ∧ y < g.offset + g.grid)
    (hi : 0 ≤ i ∧ i < 4) (hj : 0 ≤ j ∧ j < 4) :
    (FrameTester.new g shape style).inOutline (sampleAt x i) (sampleAt y j) = true ∧
      (FrameTester.new g shape style).onFrame (sampleAt x i) (sampleAt y j) = false := by
  have hu := hg.inner_sampleAt hx hi
  have hv := hg.inner_sampleAt hy hj
  by_cases hshape : shape = .round
  · subst hshape
    exact ⟨hg.inOutline_round hu hv, hg.onFrame_round hu hv⟩
  · exact ⟨hg.inOutline_square hshape hu hv, hg.onFrame_square hshape hu hv⟩

end HumanizedHash
