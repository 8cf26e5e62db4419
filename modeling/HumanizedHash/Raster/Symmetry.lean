import HumanizedHash.Raster.Coverage
import HumanizedHash.Raster.Render

/-!
# The symmetries of the square

Mirroring or transposing the matrix of cells, with the triangles turned accordingly, mirrors or
transposes the picture. The outline and the frame treat `u` and `8S - u` alike, and `u` and `v`;
the figures are images of each other; and the cells are placed symmetrically, for the mirror
images only if the margins on both sides of the grid are equal, which they are when `size - grid`
is even. A picture without figures has all symmetries for every size.

## Main definitions

* `Figure.transpose`, `Figure.mirrorX`, `Figure.mirrorY`: the figures turned.
* `RasterJob.rearrange`, with `RasterJob.transpose`, `RasterJob.mirrorX`, `RasterJob.mirrorY`.
* `RasterJob.Maps`: a map of the canvas that carries the picture of one job to that of another.

## Main results

* `FrameTester.inOutline_mirrorX`, `FrameTester.onFrame_mirrorX` and their siblings.
* `RasterJob.Maps.pixelAt_eq`: the two pictures.
* `rasterise_symmetric`: the rasteriser commutes with the symmetries of the square.

## References

* `src/src/raster.cpp`, `src/tests/test_raster.cpp`.
-/

namespace HumanizedHash

open Loop

/-! ### The outline and the frame -/

namespace FrameTester

variable {f : FrameTester} (u v : Int)

/-- The tester of a geometry is centred. -/
theorem s8_new (g : Geometry) (shape : ImageShape) (style : FrameStyle) :
    (new g shape style).s8 = 2 * (new g shape style).r := by
  rw [new]
  ring

/-- The distance from the two sides does not tell them apart. -/
theorem min_mirror (a b : Int) : min (b - a) (b - (b - a)) = min a (b - a) := by
  rw [sub_sub_cancel, min_comm]

theorem sub_centre (hf : f.s8 = 2 * f.r) : f.s8 - u - f.r = -(u - f.r) := by
  rw [hf]
  ring

theorem inOutline_mirrorX (hf : f.s8 = 2 * f.r) :
    f.inOutline (f.s8 - u) v = f.inOutline u v := by
  simp only [inOutline, sub_centre u hf, neg_mul_neg, min_mirror]

theorem onFrame_mirrorX (hf : f.s8 = 2 * f.r) : f.onFrame (f.s8 - u) v = f.onFrame u v := by
  simp only [onFrame, sub_centre u hf, neg_mul_neg, iabs_neg, min_mirror]

/-- The outline has the same rule for both coordinates. -/
theorem inOutline_swap : f.inOutline v u = f.inOutline u v := by
  simp only [inOutline, add_comm ((v - f.r) * (v - f.r)), add_comm (min v (f.s8 - v)),
    and_comm (a := min v (f.s8 - v) < f.corner),
    add_comm ((f.corner - min v (f.s8 - v)) * (f.corner - min v (f.s8 - v)))]

/-- The difference of two distances does not depend on their order. -/
theorem iabs_sub_comm (a b : Int) : iabs (a - b) = iabs (b - a) := by
  rw [← iabs_neg, neg_sub]

theorem onFrame_swap : f.onFrame v u = f.onFrame u v := by
  have hring := add_comm ((v - f.r) * (v - f.r)) ((u - f.r) * (u - f.r))
  have hgaps := iabs_sub_comm (iabs (v - f.r)) (iabs (u - f.r))
  have hmin := min_comm (min v (f.s8 - v)) (min u (f.s8 - u))
  have hmax := max_comm (min v (f.s8 - v)) (min u (f.s8 - u))
  have hsum := add_comm (min v (f.s8 - v)) (min u (f.s8 - u))
  unfold onFrame
  simp only [hring, hgaps, hmin, hmax, hsum]
  cases hstyle : f.style with
  | ticks => exact if_congr Iff.rfl rfl (if_congr Iff.rfl (Bool.or_right_comm ..) rfl)
  | rounded =>
    simp only [and_comm (a := min v (f.s8 - v) < f.corner),
      add_comm ((f.corner - min v (f.s8 - v)) * (f.corner - min v (f.s8 - v)))]
  | _ => rfl

/-- The vertical mirror image is the horizontal one, transposed. -/
theorem inOutline_mirrorY (hf : f.s8 = 2 * f.r) :
    f.inOutline u (f.s8 - v) = f.inOutline u v := by
  rw [inOutline_swap, inOutline_mirrorX v u hf, inOutline_swap]

theorem onFrame_mirrorY (hf : f.s8 = 2 * f.r) : f.onFrame u (f.s8 - v) = f.onFrame u v := by
  rw [onFrame_swap, onFrame_mirrorX v u hf, onFrame_swap]

end FrameTester

section Frame

variable (job : RasterJob) (g : Geometry) (x y : Int)

/-- A pixel of the frame and its mirror images have the same mix. -/
theorem RasterJob.framePixel_mirrorX :
    job.framePixel g (g.size - 1 - x, y) = job.framePixel g (x, y) := by
  have hs := FrameTester.s8_new g job.shape job.frame
  have hin (s : Int × Int) := FrameTester.inOutline_mirrorX s.1 s.2 hs
  have hon (s : Int × Int) := FrameTester.onFrame_mirrorX s.1 s.2 hs
  simp only [framePixel, countP_samplesOf_mirrorX]
  simp only [FrameTester.new] at hin hon ⊢
  simp only [hin, hon]

theorem RasterJob.framePixel_mirrorY :
    job.framePixel g (x, g.size - 1 - y) = job.framePixel g (x, y) := by
  have hs := FrameTester.s8_new g job.shape job.frame
  have hin (s : Int × Int) := FrameTester.inOutline_mirrorY s.1 s.2 hs
  have hon (s : Int × Int) := FrameTester.onFrame_mirrorY s.1 s.2 hs
  simp only [framePixel, countP_samplesOf_mirrorY]
  simp only [FrameTester.new] at hin hon ⊢
  simp only [hin, hon]

theorem RasterJob.framePixel_transpose : job.framePixel g (y, x) = job.framePixel g (x, y) := by
  simp only [framePixel, countP_samplesOf_transpose x y, FrameTester.inOutline_swap,
    FrameTester.onFrame_swap]

end Frame

/-! ### The figures -/

/-- The figure with the coordinates exchanged: up with left, down with right. -/
def Figure.transpose : Figure → Figure
  | triangleUp => triangleLeft
  | triangleLeft => triangleUp
  | triangleDown => triangleRight
  | triangleRight => triangleDown
  | f => f

/-- The figure with left and right exchanged. -/
def Figure.mirrorX : Figure → Figure
  | triangleLeft => triangleRight
  | triangleRight => triangleLeft
  | f => f

/-- The figure with up and down exchanged. -/
def Figure.mirrorY : Figure → Figure
  | triangleUp => triangleDown
  | triangleDown => triangleUp
  | f => f

section Figures

variable (f : Figure) (u v h : Int)

theorem inFigure_transpose : inFigure f.transpose v u h = inFigure f u v h := by
  cases f with
  | circle => simp only [Figure.transpose, inFigure, add_comm ((v - h) * (v - h))]
  | _ => rfl

theorem inFigure_mirrorX : inFigure f.mirrorX (2 * h - u) v h = inFigure f u v h := by
  have hneg : 2 * h - u - h = -(u - h) := by ring
  cases f with
  | triangleRight | triangleLeft => simp only [Figure.mirrorX, inFigure, sub_sub_cancel]
  | _ => simp only [Figure.mirrorX, inFigure, hneg, neg_mul_neg, iabs_neg]

theorem inFigure_mirrorY : inFigure f.mirrorY u (2 * h - v) h = inFigure f u v h := by
  have hneg : 2 * h - v - h = -(v - h) := by ring
  cases f with
  | triangleUp | triangleDown => simp only [Figure.mirrorY, inFigure, sub_sub_cancel]
  | _ => simp only [Figure.mirrorY, inFigure, hneg, neg_mul_neg, iabs_neg]

/-- A figure stays empty, and no other becomes empty. -/
theorem Figure.transpose_eq_none : f.transpose = none ↔ f = none := by
  cases f <;> simp [transpose]

theorem Figure.mirrorX_eq_none : f.mirrorX = none ↔ f = none := by
  cases f <;> simp [mirrorX]

theorem Figure.mirrorY_eq_none : f.mirrorY = none ↔ f = none := by
  cases f <;> simp [mirrorY]

variable (job : RasterJob) (g : Geometry) (c : Cell) (px py : Int)

/-- A pixel of a cell and its images have the same mix. -/
theorem RasterJob.cellPixel_transpose :
    job.cellPixel g ⟨c.figure.transpose, c.colour⟩ py px = job.cellPixel g c px py := by
  simp only [cellPixel, countP_samplesOf_transpose px py, inFigure_transpose]

theorem RasterJob.cellPixel_mirrorX :
    job.cellPixel g ⟨c.figure.mirrorX, c.colour⟩ (g.cell - 1 - px) py =
      job.cellPixel g c px py := by
  have hsample (u v : Int) := inFigure_mirrorX c.figure u v (4 * g.cell)
  simp only [← mul_assoc] at hsample
  simp only [cellPixel, countP_samplesOf_mirrorX]
  exact congrArg _ (List.countP_congr fun s _ => by rw [← hsample s.1 s.2]; rfl)

theorem RasterJob.cellPixel_mirrorY :
    job.cellPixel g ⟨c.figure.mirrorY, c.colour⟩ px (g.cell - 1 - py) =
      job.cellPixel g c px py := by
  have hsample (u v : Int) := inFigure_mirrorY c.figure u v (4 * g.cell)
  simp only [← mul_assoc] at hsample
  simp only [cellPixel, countP_samplesOf_mirrorY]
  exact congrArg _ (List.countP_congr fun s _ => by rw [← hsample s.1 s.2]; rfl)

end Figures

/-! ### The matrix of cells -/

/-- The job with the cell `τ i` in the place of the cell `i`, and its figure turned by `φ`. -/
def RasterJob.rearrange (job : RasterJob) (τ : Fin 16 → Fin 16) (φ : Figure → Figure) :
    RasterJob :=
  { job with
    cells := Vector.ofFn fun i =>
      let c := job.cells.get (τ i)
      ⟨φ c.figure, c.colour⟩ }

/-- The place of a cell with rows and columns exchanged. -/
def transposeIndex (i : Fin 16) : Fin 16 := ⟨4 * (i.val % 4) + i.val / 4, by omega⟩

/-- The place of a cell with the columns in reverse order. -/
def mirrorXIndex (i : Fin 16) : Fin 16 := ⟨4 * (i.val / 4) + (3 - i.val % 4), by omega⟩

/-- The place of a cell with the rows in reverse order. -/
def mirrorYIndex (i : Fin 16) : Fin 16 := ⟨4 * (3 - i.val / 4) + i.val % 4, by omega⟩

def RasterJob.transpose (job : RasterJob) : RasterJob :=
  job.rearrange transposeIndex Figure.transpose

def RasterJob.mirrorX (job : RasterJob) : RasterJob :=
  job.rearrange mirrorXIndex Figure.mirrorX

def RasterJob.mirrorY (job : RasterJob) : RasterJob :=
  job.rearrange mirrorYIndex Figure.mirrorY

theorem RasterJob.get_rearrange (job : RasterJob) (τ : Fin 16 → Fin 16) (φ : Figure → Figure)
    (i : Fin 16) : (job.rearrange τ φ).cells.get i =
      ⟨φ (job.cells.get (τ i)).figure, (job.cells.get (τ i)).colour⟩ := by
  exact Vector.getElem_ofFn ..

/-- What else a job holds stays as it is. -/
theorem RasterJob.shape_rearrange (job : RasterJob) (τ : Fin 16 → Fin 16) (φ : Figure → Figure) :
    (job.rearrange τ φ).shape = job.shape := by
  rw [rearrange]

theorem RasterJob.frame_rearrange (job : RasterJob) (τ : Fin 16 → Fin 16) (φ : Figure → Figure) :
    (job.rearrange τ φ).frame = job.frame := by
  rw [rearrange]

theorem RasterJob.framePixel_rearrange (job : RasterJob) (τ : Fin 16 → Fin 16)
    (φ : Figure → Figure) (g : Geometry) (k : Int × Int) :
    (job.rearrange τ φ).framePixel g k = job.framePixel g k := by
  simp only [framePixel, frameMix, rearrange]

theorem RasterJob.cellPixel_rearrange (job : RasterJob) (τ : Fin 16 → Fin 16)
    (φ : Figure → Figure) (g : Geometry) (c : Cell) (px py : Int) :
    (job.rearrange τ φ).cellPixel g c px py = job.cellPixel g c px py := by
  simp only [cellPixel, figureMix, rearrange]

theorem transposeIndex_involutive : Function.Involutive transposeIndex := by
  intro i
  ext
  simp only [transposeIndex]
  omega

theorem mirrorXIndex_involutive : Function.Involutive mirrorXIndex := by
  intro i
  ext
  simp only [mirrorXIndex]
  omega

theorem mirrorYIndex_involutive : Function.Involutive mirrorYIndex := by
  intro i
  ext
  simp only [mirrorYIndex]
  omega

/-! ### Maps of the canvas -/

/-- The map `σ` of the canvas carries the picture of `job` to that of `job'`: the frames agree,
and every pixel of a figure goes to an equal pixel of a figure, and conversely. -/
structure RasterJob.Maps (job job' : RasterJob) (g : Geometry) (σ : Int × Int → Int × Int) :
    Prop where
  canvas : ∀ k, InCanvas g.size k → InCanvas g.size (σ k)
  frame : ∀ k, job'.framePixel g (σ k) = job.framePixel g k
  cell : ∀ i : Fin 16, (job.cells.get i).figure ≠ .none → ∀ k, g.InCell i k →
    ∃ j : Fin 16, (job'.cells.get j).figure ≠ .none ∧ g.InCell j (σ k) ∧
      job'.cellPixel g (job'.cells.get j) ((σ k).1 - g.cellX j) ((σ k).2 - g.cellY j) =
        job.cellPixel g (job.cells.get i) (k.1 - g.cellX i) (k.2 - g.cellY i)
  outside : ∀ j : Fin 16, (job'.cells.get j).figure ≠ .none → ∀ k, g.InCell j (σ k) →
    ∃ i : Fin 16, (job.cells.get i).figure ≠ .none ∧ g.InCell i k

/-- **The two pictures.** -/
theorem RasterJob.Maps.pixelAt_eq {job job' : RasterJob} {g : Geometry}
    {σ : Int × Int → Int × Int} (h : job.Maps job' g σ) {p q : ℕ} {mem mem' : Memory UInt8}
    (hs : job.Shows g p mem) (hs' : job'.Shows g q mem') {k : Int × Int}
    (hk : InCanvas g.size k) : pixelAt q g.size mem' (σ k) = pixelAt p g.size mem k := by
  by_cases hcell : ∃ i : Fin 16, (job.cells.get i).figure ≠ .none ∧ g.InCell i k
  · obtain ⟨i, hfigure, hin⟩ := hcell
    obtain ⟨j, hfigure', hin', hpixel⟩ := h.cell i hfigure k hin
    rw [hs.cell i hfigure k hin, hs'.cell j hfigure' (σ k) hin', hpixel]
  · have hout : ∀ i : Fin 16, (job.cells.get i).figure ≠ .none → ¬ g.InCell i k :=
      fun i hfigure hin => hcell ⟨i, hfigure, hin⟩
    have hout' : ∀ j : Fin 16, (job'.cells.get j).figure ≠ .none → ¬ g.InCell j (σ k) :=
      fun j hfigure hin => hcell (h.outside j hfigure k hin)
    rw [hs.surface k hk hout, hs'.surface (σ k) (h.canvas k hk) hout', h.frame]

/-- The two pictures, for a map that is given in terms of the side of the canvas. -/
theorem RasterJob.Maps.pixelAt_of_size {job job' : RasterJob} {g : Geometry}
    {σ : Int → Int × Int → Int × Int} (h : job.Maps job' g (σ g.size)) {n : Int}
    (hn : g.size = n) {p q : ℕ} {mem mem' : Memory UInt8} (hs : job.Shows g p mem)
    (hs' : job'.Shows g q mem') {k : Int × Int} (hk : InCanvas n k) :
    pixelAt q n mem' (σ n k) = pixelAt p n mem k := by
  subst hn
  exact h.pixelAt_eq hs hs' hk

/-- A job without figures is carried to itself by every map that keeps the frame. -/
theorem RasterJob.maps_of_empty {job : RasterJob} {g : Geometry} {σ : Int × Int → Int × Int}
    (hempty : ∀ i, (job.cells.get i).figure = .none)
    (hcanvas : ∀ k, InCanvas g.size k → InCanvas g.size (σ k))
    (hframe : ∀ k, job.framePixel g (σ k) = job.framePixel g k) : job.Maps job g σ where
  canvas := hcanvas
  frame := hframe
  cell i hfigure := absurd (hempty i) hfigure
  outside j hfigure := absurd (hempty j) hfigure

/-- A job is carried to its rearrangement by a map that moves the cells alike. -/
theorem RasterJob.maps_rearrange {job : RasterJob} {g : Geometry} {σ : Int × Int → Int × Int}
    {τ : Fin 16 → Fin 16} {φ : Figure → Figure} (hτ : Function.Involutive τ)
    (hφ : ∀ f, φ f = .none ↔ f = .none)
    (hcanvas : ∀ k, InCanvas g.size k → InCanvas g.size (σ k))
    (hframe : ∀ k, job.framePixel g (σ k) = job.framePixel g k)
    (hcell : ∀ (i : Fin 16) k, g.InCell (τ i) (σ k) ↔ g.InCell i k)
    (hpixel : ∀ (i : Fin 16) c (k : Int × Int), job.cellPixel g ⟨φ c.figure, c.colour⟩
      ((σ k).1 - g.cellX (τ i)) ((σ k).2 - g.cellY (τ i)) =
        job.cellPixel g c (k.1 - g.cellX i) (k.2 - g.cellY i)) :
    job.Maps (job.rearrange τ φ) g σ where
  canvas := hcanvas
  frame k := (job.framePixel_rearrange τ φ g (σ k)).trans (hframe k)
  cell := by
    intro i hfigure k hk
    refine ⟨τ i, ?_, (hcell i k).mpr hk, ?_⟩
    · rw [get_rearrange, hτ i]
      exact fun h => hfigure ((hφ _).mp h)
    · rw [get_rearrange, hτ i, cellPixel_rearrange]
      exact hpixel i _ k
  outside := by
    intro j hfigure k hk
    rw [get_rearrange] at hfigure
    refine ⟨τ j, fun h => hfigure ((hφ _).mpr h), (hcell (τ j) k).mp ?_⟩
    rwa [hτ j]

section Maps

variable {job : RasterJob} {g : Geometry} {size : UInt32}

theorem inCanvas_transpose {n : Int} (k : Int × Int) (hk : InCanvas n k) :
    InCanvas n (k.2, k.1) := ⟨hk.2, hk.1⟩

theorem inCanvas_mirrorX {n : Int} (k : Int × Int) (hk : InCanvas n k) :
    InCanvas n (n - 1 - k.1, k.2) := by
  rw [InCanvas] at hk ⊢
  omega

theorem inCanvas_mirrorY {n : Int} (k : Int × Int) (hk : InCanvas n k) :
    InCanvas n (k.1, n - 1 - k.2) := by
  rw [InCanvas] at hk ⊢
  omega

/-- A job without figures has all symmetries. -/
theorem RasterJob.maps_mirrorX_of_empty (hempty : ∀ i, (job.cells.get i).figure = .none) :
    job.Maps job g fun k => (g.size - 1 - k.1, k.2) :=
  maps_of_empty hempty inCanvas_mirrorX fun k => framePixel_mirrorX job g k.1 k.2

theorem RasterJob.maps_mirrorY_of_empty (hempty : ∀ i, (job.cells.get i).figure = .none) :
    job.Maps job g fun k => (k.1, g.size - 1 - k.2) :=
  maps_of_empty hempty inCanvas_mirrorY fun k => framePixel_mirrorY job g k.1 k.2

theorem RasterJob.maps_transpose_of_empty (hempty : ∀ i, (job.cells.get i).figure = .none) :
    job.Maps job g fun k => (k.2, k.1) :=
  maps_of_empty hempty inCanvas_transpose fun k => framePixel_transpose job g k.1 k.2

theorem RasterJob.maps_transpose :
    job.Maps job.transpose g fun k => (k.2, k.1) := by
  have hx (i : Fin 16) : g.cellX (transposeIndex i) = g.cellY i := by
    simp only [Geometry.cellX, Geometry.cellY, transposeIndex, Nat.mul_add_mod]
    rw [Nat.mod_eq_of_lt (by omega)]
  have hy (i : Fin 16) : g.cellY (transposeIndex i) = g.cellX i := by
    rw [← hx, transposeIndex_involutive i]
  refine maps_rearrange transposeIndex_involutive Figure.transpose_eq_none inCanvas_transpose
    (fun k => framePixel_transpose job g k.1 k.2) (fun i k => ?_) fun i c k => ?_
  · rw [Geometry.InCell, Geometry.InCell, hx, hy]
    exact and_comm
  · rw [hx, hy]
    exact cellPixel_transpose job g c _ _

variable (hg : g.Consistent size job.shape job.frame) (heven : (g.size - g.grid) % 2 = 0)
include hg heven

/-- With equal margins the columns of cells are placed symmetrically. -/
theorem Geometry.Consistent.cellX_mirrorX (i : Fin 16) :
    g.cellX (mirrorXIndex i) = g.size - g.cellX i - g.cell := by
  have hgrid := hg.grid_eq
  have hoffset := hg.offset_eq
  have hcol : ((mirrorXIndex i).val % 4 : ℕ) = (3 - (i.val % 4 : ℕ) : Int) := by
    simp only [mirrorXIndex]
    omega
  rw [Geometry.cellX, Geometry.cellX, hcol, sub_mul]
  omega

theorem Geometry.Consistent.cellY_mirrorY (i : Fin 16) :
    g.cellY (mirrorYIndex i) = g.size - g.cellY i - g.cell := by
  have hgrid := hg.grid_eq
  have hoffset := hg.offset_eq
  have hrow : ((mirrorYIndex i).val / 4 : ℕ) = (3 - (i.val / 4 : ℕ) : Int) := by
    simp only [mirrorYIndex]
    omega
  rw [Geometry.cellY, Geometry.cellY, hrow, sub_mul]
  omega

theorem RasterJob.maps_mirrorX : job.Maps job.mirrorX g fun k => (g.size - 1 - k.1, k.2) := by
  have hx (i : Fin 16) := hg.cellX_mirrorX heven i
  have hy (i : Fin 16) : g.cellY (mirrorXIndex i) = g.cellY i := by
    have hrow : (mirrorXIndex i).val / 4 = i.val / 4 := by
      simp only [mirrorXIndex]
      omega
    rw [Geometry.cellY, Geometry.cellY, hrow]
  refine maps_rearrange mirrorXIndex_involutive Figure.mirrorX_eq_none inCanvas_mirrorX
    (fun k => framePixel_mirrorX job g k.1 k.2) (fun i k => ?_) fun i c k => ?_
  · rw [Geometry.InCell, Geometry.InCell, hx, hy]
    dsimp only
    omega
  · rw [hx, hy, ← cellPixel_mirrorX job g c]
    congr 1
    dsimp only
    omega

theorem RasterJob.maps_mirrorY : job.Maps job.mirrorY g fun k => (k.1, g.size - 1 - k.2) := by
  have hy (i : Fin 16) := hg.cellY_mirrorY heven i
  have hx (i : Fin 16) : g.cellX (mirrorYIndex i) = g.cellX i := by
    have hcol : (mirrorYIndex i).val % 4 = i.val % 4 := by
      simp only [mirrorYIndex]
      omega
    rw [Geometry.cellX, Geometry.cellX, hcol]
  refine maps_rearrange mirrorYIndex_involutive Figure.mirrorY_eq_none inCanvas_mirrorY
    (fun k => framePixel_mirrorY job g k.1 k.2) (fun i k => ?_) fun i c k => ?_
  · rw [Geometry.InCell, Geometry.InCell, hx, hy]
    dsimp only
    omega
  · rw [hx, hy, ← cellPixel_mirrorY job g c]
    congr 1
    dsimp only
    omega

end Maps

/-! ### The rasteriser -/

/-- A job that is accepted has the picture of its geometry, and so has every job with other cells;
whether a job is accepted does not depend on its cells. -/
theorem shows_of_accepted {job : RasterJob} (job' : RasterJob) {size : UInt32} {p : ℕ}
    {mem : Memory UInt8} {reference : Bool}
    (hok : (rasterise job size (some p) mem reference).1 = .ok)
    (hshape : job'.shape = job.shape) (hframe : job'.frame = job.frame) (q : ℕ)
    (mem' : Memory UInt8) (reference' : Bool) :
    (job.geometry size).Consistent size job.shape job.frame ∧
      (rasterise job' size (some q) mem' reference').1 = .ok ∧
        job'.Shows (job.geometry size) q (rasterise job' size (some q) mem' reference').2 := by
  rw [rasterise] at hok
  split_ifs at hok with hargs hsize
  have hmem := not_or.mp hsize
  have hcells : (makeGeometry size job.shape job.frame).1 = true := by
    generalize makeGeometry size job.shape job.frame = result at hok
    obtain ⟨fits, g⟩ := result
    cases fits with
    | false => exact absurd hok ErrorCode.noConfusion
    | true => rfl
  have hg : (job.geometry size).Consistent size job.shape job.frame :=
    makeGeometry_consistent (UInt32.not_lt.mp hmem.1) (UInt32.not_lt.mp hmem.2) _ _
  have hresult : rasterise job' size (some q) mem' reference' =
      (.ok, paintFigures job' (job.geometry size) q
        (paintFrame job' (job.geometry size) q reference' mem')) := by
    rw [rasterise, hshape, hframe, if_neg hargs, if_neg hsize, RasterJob.geometry]
    generalize makeGeometry size job.shape job.frame = result at hcells
    obtain ⟨fits, g⟩ := result
    subst hcells
    rfl
  have hg' : (job.geometry size).Consistent size job'.shape job'.frame := by
    rwa [hshape, hframe]
  rw [hresult]
  exact ⟨hg, rfl, RasterJob.shows_paint hg' q reference' mem'⟩

/-- **The rasteriser commutes with the symmetries of the square.** For a job that is accepted: a
picture without figures is invariant under both mirror images and under transposition; the job
with its cells transposed has the transposed picture; and if `size - grid` is even, the jobs with
mirrored cells have the mirrored pictures. -/
theorem rasterise_symmetric (job : RasterJob) (size : UInt32) (p q : ℕ) (mem mem' : Memory UInt8)
    (reference reference' : Bool)
    (hok : (rasterise job size (some p) mem reference).1 = .ok) :
    let n : Int := size.toNat
    let picture := pixelAt p n (rasterise job size (some p) mem reference).2
    let result (job' : RasterJob) := rasterise job' size (some q) mem' reference'
    let picture' (job' : RasterJob) := pixelAt q n (result job').2
    ((∀ i, (job.cells.get i).figure = .none) → ∀ x y, InCanvas n (x, y) →
      picture (n - 1 - x, y) = picture (x, y) ∧ picture (x, n - 1 - y) = picture (x, y) ∧
        picture (y, x) = picture (x, y)) ∧
      ((result job.transpose).1 = .ok ∧
        ∀ x y, InCanvas n (x, y) → picture' job.transpose (y, x) = picture (x, y)) ∧
      ((n - (job.geometry size).grid) % 2 = 0 →
        ((result job.mirrorX).1 = .ok ∧
          ∀ x y, InCanvas n (x, y) → picture' job.mirrorX (n - 1 - x, y) = picture (x, y)) ∧
        (result job.mirrorY).1 = .ok ∧
          ∀ x y, InCanvas n (x, y) → picture' job.mirrorY (x, n - 1 - y) = picture (x, y)) := by
  intro n picture result picture'
  have hrearrange (τ : Fin 16 → Fin 16) (φ : Figure → Figure) :=
    shows_of_accepted (job.rearrange τ φ) hok (job.shape_rearrange τ φ) (job.frame_rearrange τ φ) q
      mem' reference'
  obtain ⟨hg, -, hshows⟩ := shows_of_accepted job hok rfl rfl p mem reference
  obtain ⟨-, hokT, hshowsT⟩ := hrearrange transposeIndex Figure.transpose
  obtain ⟨-, hokX, hshowsX⟩ := hrearrange mirrorXIndex Figure.mirrorX
  obtain ⟨-, hokY, hshowsY⟩ := hrearrange mirrorYIndex Figure.mirrorY
  have hn : (job.geometry size).size = size.toNat := hg.size_eq
  have hmargin (h : (n - (job.geometry size).grid) % 2 = 0) :
      ((job.geometry size).size - (job.geometry size).grid) % 2 = 0 := by rwa [hn]
  refine ⟨fun hempty x y hk => ⟨?_, ?_, ?_⟩, ⟨hokT, fun x y hk => ?_⟩,
    fun heven => ⟨⟨hokX, fun x y hk => ?_⟩, hokY, fun x y hk => ?_⟩⟩
  · have h := (RasterJob.maps_mirrorX_of_empty hempty).pixelAt_of_size
      (σ := fun n k => (n - 1 - k.1, k.2)) hn hshows hshows hk
    exact h
  · have h := (RasterJob.maps_mirrorY_of_empty hempty).pixelAt_of_size
      (σ := fun n k => (k.1, n - 1 - k.2)) hn hshows hshows hk
    exact h
  · have h := (RasterJob.maps_transpose_of_empty hempty).pixelAt_of_size
      (σ := fun _ k => (k.2, k.1)) hn hshows hshows hk
    exact h
  · have h := RasterJob.maps_transpose.pixelAt_of_size (σ := fun _ k => (k.2, k.1)) hn hshows
      hshowsT hk
    exact h
  · have h := (RasterJob.maps_mirrorX hg (hmargin heven)).pixelAt_of_size
      (σ := fun n k => (n - 1 - k.1, k.2)) hn hshows hshowsX hk
    exact h
  · have h := (RasterJob.maps_mirrorY hg (hmargin heven)).pixelAt_of_size
      (σ := fun n k => (k.1, n - 1 - k.2)) hn hshows hshowsY hk
    exact h

/-- A square picture with one triangle up, and its transposed job. -/
theorem rasterise_symmetric_triangle :
    let cells := (Vector.replicate 16 (⟨.none, 0⟩ : Cell)).set 1 ⟨.triangleUp, 0⟩
    let job : RasterJob :=
      ⟨cells, palette, frameColour, .square, .plain, ⟨255, 255, 255⟩, 255, 255⟩
    (rasterise job.transpose 32 (some 0) (fun _ => 0) false).1 = .ok := by
  intro cells job
  have hok : (rasterise job 32 (some 0) (fun _ => 0) false).1 = .ok := by decide +kernel
  exact (rasterise_symmetric job 32 0 0 (fun _ => 0) (fun _ => 0) false false hok).2.1.1

end HumanizedHash
