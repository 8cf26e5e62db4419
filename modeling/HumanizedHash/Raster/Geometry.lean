import HumanizedHash.Types
import Mathlib.Algebra.Order.Ring.Int
import Mathlib.Tactic.Linarith
import Mathlib.Tactic.IntervalCases

/-!
# Geometry

The places of the frame, of the grid and of the cells for a size, a shape and a resolved frame
style. The 32-bit signed integers of the source are integers here: for the sizes 16..1024, the
only ones that `makeGeometry` is asked for, every intermediate value stays far inside the range.
Division is that of the language, towards zero.

## Main definitions

* `Geometry`, `makeGeometry`, `inscribedCell`.
* `resolveFrame`, `frameAllowed`.
* `Geometry.Consistent`: what `makeGeometry` guarantees for every size in the range.

## Main results

* `inscribedCell_spec`: the loop finds the largest side that fits the circle.
* `makeGeometry_consistent`.
* `makeGeometry_fst_eq_false_iff`: the sizes that leave no room for the cells.

## References

* `src/src/raster.hpp`, `src/src/raster.cpp`.
-/

namespace HumanizedHash

/-- `struct geometry`. -/
structure Geometry where
  size : Int
  line : Int
  gutter : Int
  cell : Int
  grid : Int
  offset : Int
  deriving DecidableEq

def minImageSize : UInt32 := 16

def maxImageSize : UInt32 := 1024

/-- `resolve_frame`. -/
def resolveFrame (style : FrameStyle) (m : Mode) (shape : ImageShape) : FrameStyle :=
  if style ≠ .automatic then style
  else if m = .keyed ∧ shape = .square then .rounded
  else .none

/-- `frame_allowed`. -/
def frameAllowed (resolved : FrameStyle) (shape : ImageShape) : Bool :=
  match resolved with
  | .none | .plain | .doubleLine | .thick => true
  | .rounded | .chamfered | .brackets => shape = .square
  | .ticks | .gaps => shape = .round
  | .automatic => false
  | .unknown _ _ => false

/-- The loop of `make_geometry` that looks for the side of a cell inside the circle. -/
def inscribedCell (gutter limit t : Int) : Int :=
  if 2 * (4 * (t + 1) + 3 * gutter) * (4 * (t + 1) + 3 * gutter) ≤ limit then
    inscribedCell gutter limit (t + 1)
  else
    t
termination_by (limit - 3 * gutter - 4 * t).toNat
decreasing_by
  have hsq := Int.le_self_sq (4 * (t + 1) + 3 * gutter)
  have hle : 4 * (t + 1) + 3 * gutter ≤ limit := by nlinarith [sq_nonneg (4 * (t + 1) + 3 * gutter)]
  omega

/-- How many lines a frame style is wide in the circle. -/
def frameLines (resolved : FrameStyle) : Int :=
  if resolved = .doubleLine ∨ resolved = .thick then 3 else 1

/-- The side of a cell, as `make_geometry` finds it for either shape. -/
def cellSide (s line gutter : Int) (shape : ImageShape) (resolved : FrameStyle) : Int :=
  if shape = .round then
    let margin := frameLines resolved * line + gutter
    let limit := (s - 2 * margin) * (s - 2 * margin)
    inscribedCell gutter limit 0
  else
    let margin := max (4 * line) (s.tdiv 12)
    (s - 2 * margin - 3 * gutter).tdiv 4

/-- `make_geometry`: whether the cells have room, and the geometry. -/
def makeGeometry (size : UInt32) (shape : ImageShape) (resolved : FrameStyle) : Bool × Geometry :=
  let s := size.toInt32.toInt
  let line := max 1 (s.tdiv 48)
  let gutter := max 1 (s.tdiv 48)
  let cell := cellSide s line gutter shape resolved
  let grid := 4 * cell + 3 * gutter
  let offset := (s - grid).tdiv 2
  (1 ≤ cell, ⟨s, line, gutter, cell, grid, offset⟩)

/-! ### The search for the side of a cell -/

/-- The loop stops at the largest side that fits: either it never moved or the side it stops at
fits, and the next one does not. -/
theorem inscribedCell_spec (gutter limit t : Int) :
    t ≤ inscribedCell gutter limit t ∧
      (inscribedCell gutter limit t = t ∨
        2 * (4 * inscribedCell gutter limit t + 3 * gutter) *
          (4 * inscribedCell gutter limit t + 3 * gutter) ≤ limit) ∧
      limit < 2 * (4 * (inscribedCell gutter limit t + 1) + 3 * gutter) *
        (4 * (inscribedCell gutter limit t + 1) + 3 * gutter) := by
  induction t using inscribedCell.induct gutter limit with
  | case1 t hfits ih =>
    obtain ⟨hle, hlast, hnext⟩ := ih
    rw [inscribedCell, if_pos hfits]
    refine ⟨by omega, Or.inr ?_, hnext⟩
    rcases hlast with heq | hlast
    · rw [heq]
      exact hfits
    · exact hlast
  | case2 t hfits =>
    rw [inscribedCell, if_neg hfits]
    exact ⟨le_rfl, Or.inl rfl, not_le.mp hfits⟩

/-- The loop moves if the first side that it tries fits. -/
theorem lt_inscribedCell_iff (gutter limit t : Int) :
    t < inscribedCell gutter limit t ↔
      2 * (4 * (t + 1) + 3 * gutter) * (4 * (t + 1) + 3 * gutter) ≤ limit := by
  rw [inscribedCell]
  split_ifs with h
  · exact iff_of_true (inscribedCell_spec gutter limit (t + 1)).1 h
  · exact iff_of_false (lt_irrefl t) h

/-! ### What a geometry satisfies -/

/-- The margin of the grid: the frame and a gutter in the circle, a twelfth of the side but at
least four lines in the square. -/
def marginOf (s line gutter : Int) (shape : ImageShape) (resolved : FrameStyle) : Int :=
  if shape = .round then frameLines resolved * line + gutter else max (4 * line) (s / 12)

/-- The margin of a geometry. -/
def Geometry.margin (g : Geometry) (shape : ImageShape) (resolved : FrameStyle) : Int :=
  marginOf g.size g.line g.gutter shape resolved

/-- A geometry as `makeGeometry` builds it for a size in the range, whether the cells have room or
not. -/
structure Geometry.Consistent (g : Geometry) (size : UInt32) (shape : ImageShape)
    (resolved : FrameStyle) : Prop where
  size_eq : g.size = size.toNat
  size_mem : 16 ≤ g.size ∧ g.size ≤ 1024
  line_eq : g.line = max 1 (g.size / 48)
  gutter_eq : g.gutter = g.line
  cell_nonneg : 0 ≤ g.cell
  grid_eq : g.grid = 4 * g.cell + 3 * g.gutter
  offset_eq : g.offset = (g.size - g.grid) / 2
  /-- The grid and its margins fit into the side. -/
  grid_le : g.grid + 2 * g.margin shape resolved ≤ g.size
  /-- In the circle the diagonal of the grid fits too. -/
  round_le : shape = .round → 2 * g.grid * g.grid ≤
    (g.size - 2 * g.margin shape resolved) * (g.size - 2 * g.margin shape resolved)

/-- A size in the range keeps its value as a signed integer. -/
theorem toInt_toInt32 {size : UInt32} (h : size ≤ maxImageSize) :
    size.toInt32.toInt = size.toNat := by
  have hle : size.toNat ≤ 1024 := UInt32.le_iff_toNat_le.mp h
  have hlt : 2 * size.toBitVec.toNat < 2 ^ 32 := by
    rw [UInt32.toNat_toBitVec]
    omega
  exact BitVec.toInt_eq_toNat_of_lt hlt

theorem frameLines_eq (resolved : FrameStyle) :
    frameLines resolved = 1 ∨ frameLines resolved = 3 := by
  rw [frameLines]
  split_ifs
  · exact Or.inr rfl
  · exact Or.inl rfl

/-- A square whose diagonal fits has a side that fits. -/
theorem le_of_two_mul_sq_le {a b : Int} (hb : 0 ≤ b) (h : 2 * a * a ≤ b * b) : a ≤ b := by
  by_contra hlt
  nlinarith

section CellSide

variable {s w : Int} (hw : 1 ≤ w) (hs : 16 * w ≤ s)
include hw hs

/-- In the circle the grid fits, whether or not a cell does. -/
theorem two_mul_grid_sq_le (resolved : FrameStyle) :
    2 * (4 * cellSide s w w .round resolved + 3 * w) *
        (4 * cellSide s w w .round resolved + 3 * w) ≤
      (s - 2 * marginOf s w w .round resolved) * (s - 2 * marginOf s w w .round resolved) := by
  simp only [cellSide, marginOf, if_true]
  generalize hm : frameLines resolved * w + w = m
  have hm' : m ≤ 4 * w := by
    rcases frameLines_eq resolved with h | h <;> rw [h] at hm <;> omega
  obtain ⟨-, hlast, -⟩ := inscribedCell_spec w ((s - 2 * m) * (s - 2 * m)) 0
  rcases hlast with heq | hlast
  · rw [heq]
    nlinarith
  · exact hlast

theorem cellSide_nonneg (shape : ImageShape) (resolved : FrameStyle) :
    0 ≤ cellSide s w w shape resolved := by
  rw [cellSide]
  split_ifs
  · exact (inscribedCell_spec ..).1
  · have hdiv := Int.tdiv_eq_ediv_of_nonneg (a := s) (b := 12) (by omega)
    exact Int.tdiv_nonneg (by omega) (by omega)

/-- The grid and its margins fit into the side. -/
theorem grid_add_margin_le (shape : ImageShape) (resolved : FrameStyle) :
    4 * cellSide s w w shape resolved + 3 * w + 2 * marginOf s w w shape resolved ≤ s := by
  by_cases hshape : shape = .round
  · subst hshape
    have hsq := two_mul_grid_sq_le hw hs resolved
    have hm : marginOf s w w .round resolved ≤ 4 * w := by
      rw [marginOf, if_pos rfl]
      rcases frameLines_eq resolved with h | h <;> rw [h] <;> omega
    have hle := le_of_two_mul_sq_le (by omega) hsq
    omega
  · have hdiv := Int.tdiv_eq_ediv_of_nonneg (a := s) (b := 12) (by omega)
    rw [cellSide, marginOf, if_neg hshape, if_neg hshape]
    dsimp only
    rw [Int.tdiv_eq_ediv_of_nonneg (by omega)]
    omega

theorem two_mul_le_marginOf (shape : ImageShape) (resolved : FrameStyle) :
    2 * w ≤ marginOf s w w shape resolved := by
  rw [marginOf]
  split_ifs
  · rcases frameLines_eq resolved with h | h <;> rw [h] <;> omega
  · omega

end CellSide

/-- **The geometry of every size in the range.** -/
theorem makeGeometry_consistent {size : UInt32} (hmin : minImageSize ≤ size)
    (hmax : size ≤ maxImageSize) (shape : ImageShape) (resolved : FrameStyle) :
    (makeGeometry size shape resolved).2.Consistent size shape resolved := by
  have hlow : 16 ≤ size.toNat := UInt32.le_iff_toNat_le.mp hmin
  have hhigh : size.toNat ≤ 1024 := UInt32.le_iff_toNat_le.mp hmax
  have hline : max 1 ((size.toNat : Int).tdiv 48) = max 1 ((size.toNat : Int) / 48) := by
    rw [Int.tdiv_eq_ediv_of_nonneg (by omega)]
  have hw : 1 ≤ max 1 ((size.toNat : Int) / 48) := le_max_left ..
  have hs : 16 * max 1 ((size.toNat : Int) / 48) ≤ size.toNat := by omega
  have hgrid := grid_add_margin_le hw hs shape resolved
  have hmargin := two_mul_le_marginOf hw hs shape resolved
  rw [makeGeometry]
  dsimp only
  rw [toInt_toInt32 hmax, hline]
  exact
    { size_eq := rfl
      size_mem := ⟨Int.ofNat_le.mpr hlow, Int.ofNat_le.mpr hhigh⟩
      line_eq := rfl
      gutter_eq := rfl
      cell_nonneg := cellSide_nonneg hw hs shape resolved
      grid_eq := rfl
      offset_eq := Int.tdiv_eq_ediv_of_nonneg (by omega)
      grid_le := hgrid
      round_le := fun h => h ▸ two_mul_grid_sq_le hw hs resolved }

namespace Geometry.Consistent

variable {g : Geometry} {size : UInt32} {shape : ImageShape} {resolved : FrameStyle}

theorem one_le_line (hg : g.Consistent size shape resolved) : 1 ≤ g.line := by
  rw [hg.line_eq]
  exact le_max_left ..

/-- A side is at least sixteen lines. -/
theorem line_le (hg : g.Consistent size shape resolved) : 16 * g.line ≤ g.size := by
  have hmem := hg.size_mem
  rw [hg.line_eq]
  omega

/-- The grid lies on the canvas. -/
theorem grid_mem (hg : g.Consistent size shape resolved) :
    0 ≤ g.offset ∧ g.offset + g.grid ≤ g.size := by
  have hmargin := two_mul_le_marginOf hg.one_le_line hg.line_le shape resolved
  have hline := hg.one_le_line
  have hle := hg.grid_le
  have hoff := hg.offset_eq
  rw [Geometry.margin, hg.gutter_eq] at hle
  omega

end Geometry.Consistent

theorem two_mul_sq_le {a b w : Int} (ha : 0 ≤ a) (haw : a ≤ 7 * w) (hwb : 10 * w ≤ b) :
    2 * a * a ≤ b * b := by
  have ha' : a * a ≤ 7 * w * (7 * w) := mul_self_le_mul_self ha haw
  have hb' : 10 * w * (10 * w) ≤ b * b := mul_self_le_mul_self (by omega) hwb
  nlinarith

/-- In the circle the first side that the loop tries fits unless the margin is that of three lines
and the size is the smallest or the next one. -/
theorem one_le_cellSide_round_iff {s : Int} (hs : 16 ≤ s) (resolved : FrameStyle) :
    1 ≤ cellSide s (max 1 (s / 48)) (max 1 (s / 48)) .round resolved ↔
      ¬ ((resolved = .doubleLine ∨ resolved = .thick) ∧ s < 18) := by
  rw [cellSide, if_pos rfl, show (1 : Int) = 0 + 1 from rfl, ← Int.lt_iff_add_one_le,
    lt_inscribedCell_iff]
  by_cases hlines : resolved = .doubleLine ∨ resolved = .thick
  · rw [frameLines, if_pos hlines]
    by_cases hsmall : s < 18
    · refine iff_of_false ?_ (not_not.mpr ⟨hlines, hsmall⟩)
      interval_cases s <;> decide
    · exact iff_of_true (two_mul_sq_le (w := max 1 (s / 48)) (by omega) (by omega) (by omega))
        fun h => hsmall h.2
  · rw [frameLines, if_neg hlines]
    exact iff_of_true (two_mul_sq_le (w := max 1 (s / 48)) (by omega) (by omega) (by omega))
      fun h => hlines h.1

/-- **The sizes without room for the cells.** -/
theorem makeGeometry_fst_eq_false_iff {size : UInt32} (hmin : minImageSize ≤ size)
    (hmax : size ≤ maxImageSize) (shape : ImageShape) (resolved : FrameStyle) :
    (makeGeometry size shape resolved).1 = false ↔
      shape = .round ∧ (resolved = .doubleLine ∨ resolved = .thick) ∧ size < 18 := by
  have hlow : 16 ≤ size.toNat := UInt32.le_iff_toNat_le.mp hmin
  have hline : max 1 ((size.toNat : Int).tdiv 48) = max 1 ((size.toNat : Int) / 48) := by
    rw [Int.tdiv_eq_ediv_of_nonneg (by omega)]
  have hlt : size < 18 ↔ (size.toNat : Int) < 18 := by
    rw [UInt32.lt_iff_toNat_lt]
    exact Int.ofNat_lt.symm
  rw [makeGeometry]
  dsimp only
  rw [toInt_toInt32 hmax, hline, decide_eq_false_iff_not]
  by_cases hshape : shape = .round
  · subst hshape
    rw [one_le_cellSide_round_iff (by omega), not_not, hlt]
    exact ⟨fun h => ⟨rfl, h⟩, fun h => h.2⟩
  · refine iff_of_false (not_not.mpr ?_) fun h => hshape h.1
    have hdiv := Int.tdiv_eq_ediv_of_nonneg (a := (size.toNat : Int)) (b := 12) (by omega)
    rw [cellSide, if_neg hshape]
    dsimp only
    rw [hdiv, Int.tdiv_eq_ediv_of_nonneg (by omega)]
    omega

end HumanizedHash
