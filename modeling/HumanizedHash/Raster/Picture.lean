import HumanizedHash.Raster.Separation

/-!
# The picture that is painted

What the two passes of `rasterise` leave in the buffer, pixel by pixel, without passes, tables and
order: a pixel of a cell with a figure is the mix for the number of its samples in the figure,
every other pixel is the mix for its numbers of samples inside the outline and on the frame. The
shortcut of the first pass makes no difference, since the samples of the grid are inside the
outline and off the frame.

## Main definitions

* `samplesOf`: the 16 samples of a pixel.
* `RasterJob.framePixel`, `RasterJob.cellPixel`: the two formulas for a pixel.
* `Geometry.InCell`, `InCanvas`.
* `pixelSurface`: the buffer as a surface of pixels.
* `RasterJob.Shows`: the buffer holds the picture of a job.

## Main results

* `Geometry.Consistent.inCanvas_of_inCell`, `Geometry.Consistent.not_inCell_of_ne`: the cells.
* `paintFrame_eq_paint`, `paintFigures_eq_paintLayers`: the two passes.
* `rasterise_fast_eq_reference`: the shortcut makes no difference.
* `renderInto_picture`: what the entry points give.

## References

* `src/src/raster.cpp`.
-/

namespace HumanizedHash

open Loop

/-! ### The declared picture -/

/-- The samples of a pixel. -/
def samplesOf (x y : Int) : List (Int × Int) :=
  (places 4 4).map fun k => (sampleAt x k.1, sampleAt y k.2)

/-- A pixel of the canvas without a figure. -/
def RasterJob.framePixel (job : RasterJob) (g : Geometry) (k : Int × Int) : Pixel :=
  let tester := FrameTester.new g job.shape job.frame
  let nIn := (samplesOf k.1 k.2).countP fun s => tester.inOutline s.1 s.2
  let nFrame := (samplesOf k.1 k.2).countP fun s =>
    tester.inOutline s.1 s.2 && tester.onFrame s.1 s.2
  job.frameMix nFrame (nIn - nFrame)

/-- A pixel of a cell, from its place in the cell. -/
def RasterJob.cellPixel (job : RasterJob) (g : Geometry) (c : Cell) (px py : Int) : Pixel :=
  let nc := (samplesOf px py).countP fun s => inFigure c.figure s.1 s.2 (4 * g.cell)
  job.figureMix c.colour nc

/-- A place on the canvas. -/
def InCanvas (size : Int) (k : Int × Int) : Prop :=
  (0 ≤ k.1 ∧ k.1 < size) ∧ 0 ≤ k.2 ∧ k.2 < size

/-- A place in the rectangle of a cell. -/
def Geometry.InCell (g : Geometry) (index : ℕ) (k : Int × Int) : Prop :=
  (g.cellX index ≤ k.1 ∧ k.1 < g.cellX index + g.cell) ∧
    g.cellY index ≤ k.2 ∧ k.2 < g.cellY index + g.cell

/-! ### The buffer as a surface -/

/-- The pixel that the buffer holds at a place. -/
def pixelAt (rgba : ℕ) (size : Int) (mem : Memory UInt8) (k : Int × Int) : Pixel :=
  let q := pixelAddress rgba size k.1 k.2
  ⟨mem q, mem (q + 1), mem (q + 2), mem (q + 3)⟩

/-- Different places of the canvas have addresses at least four apart. -/
theorem pixelAddress_apart (rgba : ℕ) {size : Int} {k k' : Int × Int} (hk : InCanvas size k)
    (hk' : InCanvas size k') (hne : k' ≠ k) :
    pixelAddress rgba size k'.1 k'.2 + 4 ≤ pixelAddress rgba size k.1 k.2 ∨
      pixelAddress rgba size k.1 k.2 + 4 ≤ pixelAddress rgba size k'.1 k'.2 := by
  obtain ⟨x, y⟩ := k
  obtain ⟨x', y'⟩ := k'
  obtain ⟨⟨hx, hxs⟩, hy, hys⟩ := hk
  obtain ⟨⟨hx', hxs'⟩, hy', hys'⟩ := hk'
  simp only [pixelAddress] at *
  have hindex : y'.toNat * size.toNat + x'.toNat ≠ y.toNat * size.toNat + x.toNat := by
    intro heq
    have hrow := congrArg (· / size.toNat) heq
    have hcol := congrArg (· % size.toNat) heq
    have hpos : 0 < size.toNat := by omega
    simp only [Nat.mul_comm _ size.toNat, Nat.mul_add_div hpos, Nat.mul_add_mod,
      Nat.div_eq_of_lt (show x'.toNat < size.toNat by omega),
      Nat.div_eq_of_lt (show x.toNat < size.toNat by omega),
      Nat.mod_eq_of_lt (show x'.toNat < size.toNat by omega),
      Nat.mod_eq_of_lt (show x.toNat < size.toNat by omega)] at hrow hcol
    exact hne (Prod.ext (by omega) (by omega))
  omega

/-- A pixel of the canvas lies inside the buffer. -/
theorem pixelAddress_add_le (rgba : ℕ) {size : Int} {k : Int × Int} (hk : InCanvas size k) :
    rgba ≤ pixelAddress rgba size k.1 k.2 ∧
      pixelAddress rgba size k.1 k.2 + 4 ≤ rgba + size.toNat * size.toNat * 4 := by
  obtain ⟨⟨hx, hxs⟩, hy, hys⟩ := hk
  have hrow : (k.2.toNat + 1) * size.toNat ≤ size.toNat * size.toNat :=
    Nat.mul_le_mul_right _ (by omega)
  rw [pixelAddress]
  constructor
  · exact Nat.le_add_right ..
  · rw [Nat.add_mul, Nat.one_mul] at hrow
    omega

theorem pixelAt_put (rgba : ℕ) (size : Int) (p : Pixel) (mem : Memory UInt8) (k : Int × Int) :
    pixelAt rgba size (put rgba size k.1 k.2 p mem) k = p := by
  have hlen : p.bytes.length = 4 := rfl
  have h (i : ℕ) (hi : i < p.bytes.length) :
      put rgba size k.1 k.2 p mem (pixelAddress rgba size k.1 k.2 + i) = p.bytes[i] :=
    Memory.write_apply_of_mem mem _ p.bytes hi
  simp only [pixelAt, h 1 (by omega), h 2 (by omega), h 3 (by omega)]
  exact congrArg (fun r => Pixel.mk r p.g p.b p.a) (h 0 (by omega))

/-- A write to one pixel leaves every other address as it is. -/
theorem put_apply_of_notMem (rgba : ℕ) (size : Int) (p : Pixel) (mem : Memory UInt8)
    (k : Int × Int) {a : ℕ} (h : a < pixelAddress rgba size k.1 k.2 ∨
      pixelAddress rgba size k.1 k.2 + 4 ≤ a) : put rgba size k.1 k.2 p mem a = mem a :=
  Memory.write_apply_of_notMem mem _ _ h

/-- The buffer as a surface of pixels. -/
def pixelSurface (rgba : ℕ) (size : Int) : Surface (Memory UInt8) (Int × Int) Pixel where
  get := pixelAt rgba size
  set k p mem := put rgba size k.1 k.2 p mem
  Valid := InCanvas size
  get_set_self k p mem _ := pixelAt_put rgba size p mem k
  get_set_of_ne k k' p mem hk hk' hne := by
    have hapart := pixelAddress_apart rgba hk hk' hne
    simp only [pixelAt]
    rw [put_apply_of_notMem _ _ _ _ _ (by omega), put_apply_of_notMem _ _ _ _ _ (by omega),
      put_apply_of_notMem _ _ _ _ _ (by omega), put_apply_of_notMem _ _ _ _ _ (by omega)]

/-! ### The counts -/

theorem countFrame_eq (tester : FrameTester) (x y : Int) :
    countFrame tester x y =
      ((samplesOf x y).countP fun s => tester.inOutline s.1 s.2,
        (samplesOf x y).countP fun s => tester.inOutline s.1 s.2 && tester.onFrame s.1 s.2) := by
  rw [samplesOf, List.countP_map, List.countP_map]
  exact upTo_count₂ 4 4 (fun k => tester.inOutline (sampleAt x k.1) (sampleAt y k.2))
    fun k => tester.onFrame (sampleAt x k.1) (sampleAt y k.2)

theorem countFigure_eq (f : Figure) (h px py : Int) :
    countFigure f h px py = (samplesOf px py).countP fun s => inFigure f s.1 s.2 h := by
  rw [samplesOf, List.countP_map]
  exact upTo_count 4 4 fun k => inFigure f (sampleAt px k.1) (sampleAt py k.2) h

theorem length_samplesOf (x y : Int) : (samplesOf x y).length = 16 := by
  rw [samplesOf, List.length_map]
  rfl

theorem mem_samplesOf {x y : Int} {s : Int × Int} (h : s ∈ samplesOf x y) :
    ∃ i j, (0 ≤ i ∧ i < 4) ∧ (0 ≤ j ∧ j < 4) ∧ s = (sampleAt x i, sampleAt y j) := by
  obtain ⟨k, hk, rfl⟩ := List.mem_map.mp h
  obtain ⟨hi, hj⟩ := mem_places.mp hk
  exact ⟨k.1, k.2, hi, hj, rfl⟩

/-! ### The first pass -/

section FirstPass

variable {g : Geometry} {size : UInt32} {job : RasterJob}

/-- A pixel of the grid is the plain surface. -/
theorem RasterJob.framePixel_of_grid (hg : g.Consistent size job.shape job.frame) {x y : Int}
    (hx : g.offset ≤ x ∧ x < g.offset + g.grid) (hy : g.offset ≤ y ∧ y < g.offset + g.grid) :
    job.framePixel g (x, y) = job.frameMix 0 16 := by
  have hin : ((samplesOf x y).countP fun s =>
      (FrameTester.new g job.shape job.frame).inOutline s.1 s.2) = 16 := by
    rw [← length_samplesOf x y, List.countP_eq_length]
    intro s hs
    obtain ⟨i, j, hi, hj, rfl⟩ := mem_samplesOf hs
    exact (hg.grid_samples hx hy hi hj).1
  have hoff : ((samplesOf x y).countP fun s =>
      (FrameTester.new g job.shape job.frame).inOutline s.1 s.2 &&
        (FrameTester.new g job.shape job.frame).onFrame s.1 s.2) = 0 := by
    rw [List.countP_eq_zero]
    intro s hs
    obtain ⟨i, j, hi, hj, rfl⟩ := mem_samplesOf hs
    simp only [(hg.grid_samples hx hy hi hj).2, Bool.and_false, Bool.false_eq_true,
      not_false_eq_true]
  simp only [framePixel, hin, hoff]

/-- A table holds nothing but the colours of the pairs of counts. -/
def FrameTable.Sound (job : RasterJob) (known : FrameTable) : Prop :=
  ∀ nIn nFrame p, known nIn nFrame = some p → p = job.frameMix nFrame (nIn - nFrame)

/-- A look-up gives the colour of the counts and keeps the table sound. -/
theorem FrameTable.Sound.lookup {known : FrameTable} (h : known.Sound job) (nIn nFrame : ℕ) :
    (known.lookup nIn nFrame (job.frameMix nFrame (nIn - nFrame))).1 =
        job.frameMix nFrame (nIn - nFrame) ∧
      (known.lookup nIn nFrame (job.frameMix nFrame (nIn - nFrame))).2.Sound job := by
  rw [FrameTable.lookup]
  cases hknown : known nIn nFrame with
  | some p => exact ⟨h nIn nFrame p hknown, h⟩
  | none =>
    refine ⟨rfl, fun i j p hp => ?_⟩
    dsimp only at hp
    split_ifs at hp with hij
    · rw [hij.1, hij.2]
      exact (Option.some.inj hp).symm
    · exact h i j p hp

/-- One pixel of the first pass. With or without the shortcut it is set to its mix of the frame. -/
theorem paintFramePixel_spec (hg : g.Consistent size job.shape job.frame) (rgba : ℕ)
    (reference : Bool) (k : Int × Int) {s : Memory UInt8 × FrameTable} (hs : s.2.Sound job) :
    (paintFramePixel job g rgba reference k.1 k.2 s).1 =
        put rgba g.size k.1 k.2 (job.framePixel g k) s.1 ∧
      (paintFramePixel job g rgba reference k.1 k.2 s).2.Sound job := by
  rw [paintFramePixel, countFrame_eq]
  dsimp only
  split_ifs with hgrid
  · simp only [Bool.and_eq_true, decide_eq_true_eq] at hgrid
    obtain ⟨⟨⟨-, hy⟩, hx₁⟩, hx₂⟩ := hgrid
    rw [← job.framePixel_of_grid hg ⟨hx₁, hx₂⟩ hy]
    exact ⟨rfl, hs⟩
  · obtain ⟨hpixel, hsound⟩ := hs.lookup
      ((samplesOf k.1 k.2).countP fun s =>
        (FrameTester.new g job.shape job.frame).inOutline s.1 s.2)
      ((samplesOf k.1 k.2).countP fun s =>
        (FrameTester.new g job.shape job.frame).inOutline s.1 s.2 &&
          (FrameTester.new g job.shape job.frame).onFrame s.1 s.2)
    rw [hpixel]
    exact ⟨rfl, hsound⟩

/-- **The first pass.** With or without the shortcut, every pixel of the canvas is painted with
its mix of the frame. -/
theorem paintFrame_eq_paint (hg : g.Consistent size job.shape job.frame) (rgba : ℕ)
    (reference : Bool) (mem : Memory UInt8) :
    paintFrame job g rgba reference mem =
      (pixelSurface rgba g.size).paint (job.framePixel g) (places g.size g.size) mem := by
  rw [paintFrame, upTo_upTo g.size g.size fun k s => paintFramePixel job g rgba reference k.1 k.2 s]
  have hrun := foldl_rel
    (fun (s : Memory UInt8 × FrameTable) (t : Memory UInt8) => s.1 = t ∧ s.2.Sound job)
    (f := fun s k => paintFramePixel job g rgba reference k.1 k.2 s)
    (g := fun t k => put rgba g.size k.1 k.2 (job.framePixel g k) t)
    (l := places g.size g.size) (s := (mem, fun _ _ => none)) (t := mem)
    ⟨rfl, fun _ _ _ h => absurd h (by simp)⟩
    fun k _ s t ⟨hst, hsound⟩ =>
      hst ▸ paintFramePixel_spec hg rgba reference k hsound
  exact hrun.1

end FirstPass

/-! ### The second pass -/

section SecondPass

variable {g : Geometry} {size : UInt32} {shape : ImageShape} {style : FrameStyle}

/-- Earlier columns of cells end before later ones begin. -/
theorem cell_edge_le {t w : Int} (ht : 0 ≤ t) (hw : 0 ≤ w) {a b : ℕ} (h : a < b) :
    (a : Int) * (t + w) + t ≤ (b : Int) * (t + w) := by
  have hstep : ((a : Int) + 1) * (t + w) ≤ (b : Int) * (t + w) :=
    mul_le_mul_of_nonneg_right (by omega) (by omega)
  linarith

/-- The columns of cells lie inside the grid. -/
theorem cell_edge_mem {t w : Int} (ht : 0 ≤ t) (hw : 0 ≤ w) {a : ℕ} (ha : a < 4) :
    0 ≤ (a : Int) * (t + w) ∧ (a : Int) * (t + w) + t ≤ 4 * t + 3 * w := by
  have hlast : (a : Int) * (t + w) ≤ 3 * (t + w) :=
    mul_le_mul_of_nonneg_right (by omega) (by omega)
  exact ⟨mul_nonneg (by omega) (by omega), by linarith⟩

variable (hg : g.Consistent size shape style)
include hg

/-- A place in a cell is a place in the grid. -/
theorem Geometry.Consistent.inGrid_of_inCell {i : ℕ} (hi : i < 16) {k : Int × Int}
    (hk : g.InCell i k) : (g.offset ≤ k.1 ∧ k.1 < g.offset + g.grid) ∧
      g.offset ≤ k.2 ∧ k.2 < g.offset + g.grid := by
  have hline := hg.one_le_line
  have hgutter := hg.gutter_eq
  have hgrid := hg.grid_eq
  obtain ⟨hx₁, hx₂⟩ := cell_edge_mem hg.cell_nonneg (w := g.gutter) (by omega)
    (show i % 4 < 4 by omega)
  obtain ⟨hy₁, hy₂⟩ := cell_edge_mem hg.cell_nonneg (w := g.gutter) (by omega)
    (show i / 4 < 4 by omega)
  simp only [Geometry.InCell, Geometry.cellX, Geometry.cellY] at hk
  omega

/-- The cells lie inside the canvas. -/
theorem Geometry.Consistent.inCanvas_of_inCell {i : ℕ} (hi : i < 16) {k : Int × Int}
    (hk : g.InCell i k) : InCanvas g.size k := by
  have hgrid := hg.inGrid_of_inCell hi hk
  have hmem := hg.grid_mem
  rw [InCanvas]
  omega

/-- Different cells are disjoint. -/
theorem Geometry.Consistent.not_inCell_of_ne {i j : ℕ} (hij : i ≠ j) {k : Int × Int}
    (hk : g.InCell i k) : ¬ g.InCell j k := by
  intro hk'
  have hgutter : 0 ≤ g.gutter := by
    have hline := hg.one_le_line
    rw [hg.gutter_eq]
    omega
  simp only [Geometry.InCell, Geometry.cellX, Geometry.cellY] at hk hk'
  have hcol : i % 4 = j % 4 := by
    rcases Nat.lt_trichotomy (i % 4) (j % 4) with h | h | h
    · have hedge := cell_edge_le hg.cell_nonneg hgutter h
      omega
    · exact h
    · have hedge := cell_edge_le hg.cell_nonneg hgutter h
      omega
  have hrow : i / 4 = j / 4 := by
    rcases Nat.lt_trichotomy (i / 4) (j / 4) with h | h | h
    · have hedge := cell_edge_le hg.cell_nonneg hgutter h
      omega
    · exact h
    · have hedge := cell_edge_le hg.cell_nonneg hgutter h
      omega
  omega

omit hg

/-- The places of a cell, row by row. -/
def Geometry.cellPlaces (g : Geometry) (index : ℕ) : List (Int × Int) :=
  (places g.cell g.cell).map fun k => (g.cellX index + k.1, g.cellY index + k.2)

theorem Geometry.mem_cellPlaces {index : ℕ} {k : Int × Int} :
    k ∈ g.cellPlaces index ↔ g.InCell index k := by
  rw [Geometry.cellPlaces, List.mem_map, Geometry.InCell]
  constructor
  · rintro ⟨k', hk', rfl⟩
    have hmem := mem_places.mp hk'
    dsimp only
    omega
  · intro hk
    exact ⟨(k.1 - g.cellX index, k.2 - g.cellY index), mem_places.mpr (by dsimp only; omega),
      Prod.ext (by dsimp only; omega) (by dsimp only; omega)⟩

/-- The layer of a cell: its places, none if it is empty, and the pixels of its figure. -/
def RasterJob.layer (job : RasterJob) (g : Geometry) (index : ℕ) (c : Cell) :
    List (Int × Int) × (Int × Int → Pixel) :=
  (if c.figure = .none then [] else g.cellPlaces index,
    fun k => job.cellPixel g c (k.1 - g.cellX index) (k.2 - g.cellY index))

/-- One pixel of the second pass. The samples of a square are not counted: all are in it. -/
theorem paintCellPixel_eq (job : RasterJob) (rgba index : ℕ) (c : Cell) (px py : Int)
    (mem : Memory UInt8) :
    paintCellPixel job g rgba index c px py mem =
      put rgba g.size (g.cellX index + px) (g.cellY index + py) (job.cellPixel g c px py) mem := by
  have hcount : (if c.figure = .square then 16 else countFigure c.figure (4 * g.cell) px py) =
      (samplesOf px py).countP fun s => inFigure c.figure s.1 s.2 (4 * g.cell) := by
    split_ifs with hsquare
    · rw [hsquare, ← length_samplesOf px py, eq_comm, List.countP_eq_length]
      exact fun _ _ => rfl
    · exact countFigure_eq ..
  rw [paintCellPixel, hcount, RasterJob.cellPixel]

/-- One cell of the second pass. -/
theorem paintCell_eq_paint (job : RasterJob) (rgba index : ℕ) (c : Cell) (mem : Memory UInt8) :
    paintCell job g rgba index c mem =
      (pixelSurface rgba g.size).paint (job.layer g index c).2 (job.layer g index c).1 mem := by
  by_cases hnone : c.figure = .none
  · simp only [paintCell, RasterJob.layer, if_pos hnone, Surface.paint, List.foldl_nil]
  · rw [paintCell, RasterJob.layer, if_neg hnone, if_neg hnone,
      upTo_upTo g.cell g.cell fun k mem => paintCellPixel job g rgba index c k.1 k.2 mem]
    simp only [paintCellPixel_eq, Geometry.cellPlaces, Surface.paint, List.foldl_map, pixelSurface,
      add_sub_cancel_left]

/-- The layers of the second pass. -/
def RasterJob.layers (job : RasterJob) (g : Geometry) :
    List (List (Int × Int) × (Int × Int → Pixel)) :=
  job.cells.toList.zipIdx.map fun c => job.layer g c.2 c.1

/-- **The second pass.** -/
theorem paintFigures_eq_paintLayers (job : RasterJob) (rgba : ℕ) (mem : Memory UInt8) :
    paintFigures job g rgba mem =
      (pixelSurface rgba g.size).paintLayers (job.layers g) mem := by
  rw [paintFigures, Surface.paintLayers, RasterJob.layers, List.foldl_map]
  simp only [paintCell_eq_paint]

end SecondPass

/-! ### The picture of a job -/

/-- The buffer holds the picture of a job. -/
structure RasterJob.Shows (job : RasterJob) (g : Geometry) (rgba : ℕ) (mem : Memory UInt8) :
    Prop where
  /-- The pixels of the cells with a figure. -/
  cell : ∀ i : Fin 16, (job.cells.get i).figure ≠ .none → ∀ k, g.InCell i k →
    pixelAt rgba g.size mem k =
      job.cellPixel g (job.cells.get i) (k.1 - g.cellX i) (k.2 - g.cellY i)
  /-- All other pixels. -/
  surface : ∀ k, InCanvas g.size k →
    (∀ i : Fin 16, (job.cells.get i).figure ≠ .none → ¬ g.InCell i k) →
      pixelAt rgba g.size mem k = job.framePixel g k

section Shows

variable {g : Geometry} {size : UInt32} {job : RasterJob}

theorem RasterJob.mem_layers {layer : List (Int × Int) × (Int × Int → Pixel)} :
    layer ∈ job.layers g ↔ ∃ i : Fin 16, job.layer g i (job.cells.get i) = layer := by
  rw [RasterJob.layers, List.mem_map]
  constructor
  · rintro ⟨⟨c, i⟩, hmem, rfl⟩
    obtain ⟨hi, hc⟩ := List.mem_zipIdx' hmem
    rw [Vector.length_toList] at hi
    exact ⟨⟨i, hi⟩, by rw [hc]; rfl⟩
  · rintro ⟨i, rfl⟩
    refine ⟨(job.cells.get i, i), ?_, rfl⟩
    rw [List.mem_zipIdx_iff_getElem?]
    exact List.getElem?_eq_getElem (by simp)

/-- The places of a layer are those of its cell, if the cell is not empty. -/
theorem RasterJob.mem_layer {i : ℕ} {c : Cell} {k : Int × Int} :
    k ∈ (job.layer g i c).1 ↔ c.figure ≠ .none ∧ g.InCell i k := by
  rw [RasterJob.layer]
  split_ifs with hnone
  · exact iff_of_false List.not_mem_nil fun h => h.1 hnone
  · rw [Geometry.mem_cellPlaces]
    exact ⟨fun h => ⟨hnone, h⟩, fun h => h.2⟩

variable (hg : g.Consistent size job.shape job.frame)
include hg

theorem RasterJob.valid_of_mem_layers (rgba : ℕ) :
    ∀ layer ∈ job.layers g, ∀ k ∈ layer.1, (pixelSurface rgba g.size).Valid k := by
  intro layer hlayer k hk
  obtain ⟨i, rfl⟩ := RasterJob.mem_layers.mp hlayer
  exact hg.inCanvas_of_inCell i.isLt (RasterJob.mem_layer.mp hk).2

theorem RasterJob.layers_disjoint :
    (job.layers g).Pairwise fun a b => ∀ k ∈ a.1, k ∉ b.1 := by
  rw [RasterJob.layers, List.pairwise_map, List.pairwise_iff_getElem]
  intro i j hi hj hij k hk hk'
  simp only [List.getElem_zipIdx, RasterJob.mem_layer] at hk hk'
  exact hg.not_inCell_of_ne (by omega) hk.2 hk'.2

/-- **The picture of a job.** Whatever the buffer held before, with or without the shortcut. -/
theorem RasterJob.shows_paint (rgba : ℕ) (reference : Bool) (mem : Memory UInt8) :
    job.Shows g rgba (paintFigures job g rgba (paintFrame job g rgba reference mem)) := by
  rw [paintFigures_eq_paintLayers, paintFrame_eq_paint hg]
  have hvalid := RasterJob.valid_of_mem_layers hg rgba
  constructor
  · intro i hfigure k hk
    exact Surface.get_paintLayers_of_mem hvalid (RasterJob.layers_disjoint hg)
      (RasterJob.mem_layers.mpr ⟨i, rfl⟩) (RasterJob.mem_layer.mpr ⟨hfigure, hk⟩) _
  · intro k hk hout
    have hnot : ∀ layer ∈ job.layers g, k ∉ layer.1 := by
      intro layer hlayer hmem
      obtain ⟨i, rfl⟩ := RasterJob.mem_layers.mp hlayer
      obtain ⟨hfigure, hcell⟩ := RasterJob.mem_layer.mp hmem
      exact hout i hfigure hcell
    have hall : ∀ k ∈ places g.size g.size, (pixelSurface rgba g.size).Valid k :=
      fun k hk => mem_places.mp hk
    exact (Surface.get_paintLayers_of_notMem hvalid hk hnot _).trans
      ((Surface.get_paint hall hk mem).trans (if_pos (mem_places.mpr hk)))

/-- Painting writes into the buffer only. -/
theorem paint_apply_of_notMem (rgba : ℕ) (reference : Bool) (mem : Memory UInt8) {a : ℕ}
    (ha : a < rgba ∨ rgba + g.size.toNat * g.size.toNat * 4 ≤ a) :
    paintFigures job g rgba (paintFrame job g rgba reference mem) a = mem a := by
  rw [paintFigures_eq_paintLayers, paintFrame_eq_paint hg]
  have hset : ∀ k v (s : Memory UInt8), (pixelSurface rgba g.size).Valid k → s a = mem a →
      (pixelSurface rgba g.size).set k v s a = mem a := by
    intro k v s hk hs
    have hin := pixelAddress_add_le rgba hk
    exact (put_apply_of_notMem rgba g.size v s k (by omega)).trans hs
  exact Surface.paintLayers_induction (RasterJob.valid_of_mem_layers hg rgba) hset
    (Surface.paint_induction (fun k hk => mem_places.mp hk) hset rfl)

omit hg in
/-- Two buffers with the picture of a job hold the same pixels. -/
theorem RasterJob.Shows.pixelAt_eq {p q : ℕ} {mem mem' : Memory UInt8} (h : job.Shows g p mem)
    (h' : job.Shows g q mem') {k : Int × Int} (hk : InCanvas g.size k) :
    pixelAt p g.size mem k = pixelAt q g.size mem' k := by
  by_cases hcell : ∃ i : Fin 16, (job.cells.get i).figure ≠ .none ∧ g.InCell i k
  · obtain ⟨i, hfigure, hin⟩ := hcell
    rw [h.cell i hfigure k hin, h'.cell i hfigure k hin]
  · have hout : ∀ i : Fin 16, (job.cells.get i).figure ≠ .none → ¬ g.InCell i k :=
      fun i hfigure hin => hcell ⟨i, hfigure, hin⟩
    rw [h.surface k hk hout, h'.surface k hk hout]

end Shows

/-- Buffers with the same pixels hold the same bytes, and conversely. -/
theorem read_eq_iff_pixelAt_eq {p q n : ℕ} {mem mem' : Memory UInt8} :
    mem.read p (n * n * 4) = mem'.read q (n * n * 4) ↔
      ∀ k, InCanvas n k → pixelAt p n mem k = pixelAt q n mem' k := by
  rw [Memory.read_eq_iff]
  constructor
  · intro h k hk
    obtain ⟨-, hend⟩ := pixelAddress_add_le 0 hk
    simp only [pixelAddress, Int.toNat_natCast, Nat.zero_add] at hend
    have h₀ := h ((k.2.toNat * n + k.1.toNat) * 4) (by omega)
    have h₁ := h ((k.2.toNat * n + k.1.toNat) * 4 + 1) (by omega)
    have h₂ := h ((k.2.toNat * n + k.1.toNat) * 4 + 2) (by omega)
    have h₃ := h ((k.2.toNat * n + k.1.toNat) * 4 + 3) (by omega)
    simp only [pixelAt, pixelAddress, Int.toNat_natCast, Nat.add_assoc, h₀, h₁, h₂, h₃]
  · intro h i hi
    have hn : 0 < n := Nat.pos_of_ne_zero fun hzero => by subst hzero; omega
    have hrow : i / 4 / n < n := Nat.div_lt_of_lt_mul (by omega)
    have hcol : i / 4 % n < n := Nat.mod_lt _ hn
    have hpixel := h (((i / 4 % n : ℕ) : Int), ((i / 4 / n : ℕ) : Int))
      ⟨⟨Int.natCast_nonneg _, Int.ofNat_lt.mpr hcol⟩, Int.natCast_nonneg _, Int.ofNat_lt.mpr hrow⟩
    simp only [pixelAt, pixelAddress, Int.toNat_natCast, Nat.div_add_mod', Pixel.mk.injEq,
      Nat.add_assoc] at hpixel
    obtain ⟨h₀, h₁, h₂, h₃⟩ := hpixel
    have hbyte : i % 4 = 0 ∨ i % 4 = 1 ∨ i % 4 = 2 ∨ i % 4 = 3 := by omega
    have hsplit : i = i / 4 * 4 + i % 4 := by omega
    rw [hsplit]
    rcases hbyte with hb | hb | hb | hb <;> rw [hb]
    · exact h₀
    · exact h₁
    · exact h₂
    · exact h₃

/-! ### The verdicts and the picture of the entry points -/

/-- **The fast path.** `rasterise` gives the same code and the same memory with and without the
shortcut for the grid, because every sample of every pixel of the grid is inside the outline and
off the frame. -/
theorem rasterise_fast_eq_reference (job : RasterJob) (size : UInt32) (rgba : Option ℕ)
    (mem : Memory UInt8) :
    rasterise job size rgba mem false = rasterise job size rgba mem true ∧
      (minImageSize ≤ size → size ≤ maxImageSize →
        let g := (makeGeometry size job.shape job.frame).2
        let tester := FrameTester.new g job.shape job.frame
        ∀ x y, (g.offset ≤ x ∧ x < g.offset + g.grid) → (g.offset ≤ y ∧ y < g.offset + g.grid) →
          ∀ s ∈ samplesOf x y,
            tester.inOutline s.1 s.2 = true ∧ tester.onFrame s.1 s.2 = false) := by
  constructor
  · cases rgba with
    | none => rfl
    | some p =>
      rw [rasterise, rasterise]
      split_ifs with hargs hsize
      · rfl
      · rfl
      · simp only [not_or, UInt32.not_lt] at hsize
        have hg := makeGeometry_consistent hsize.1 hsize.2 job.shape job.frame
        generalize makeGeometry size job.shape job.frame = result at hg
        obtain ⟨fits, g⟩ := result
        cases fits with
        | false => rfl
        | true =>
          dsimp only at hg ⊢
          rw [paintFrame_eq_paint hg, paintFrame_eq_paint hg]
  · intro hmin hmax g tester x y hx hy s hs
    obtain ⟨i, j, hi, hj, rfl⟩ := mem_samplesOf hs
    exact (makeGeometry_consistent hmin hmax job.shape job.frame).grid_samples hx hy hi hj

end HumanizedHash
