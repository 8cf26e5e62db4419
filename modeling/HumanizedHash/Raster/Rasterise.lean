import HumanizedHash.Foundations.Painting
import HumanizedHash.Foundations.Storage
import HumanizedHash.Raster.Features
import HumanizedHash.Raster.Geometry
import Mathlib.Tactic.Ring

/-!
# Rasterisation and rendering

`rasterise` of `src/raster.cpp` and the two entry points over it. A buffer of the caller is flat
memory with an address, null being no address; `rasterise` returns the memory it leaves. The
samples of a pixel are visited in the nested loops of the source, with a table that remembers
the colour of every pair of counts. No value of a mix of at most 16 samples of byte colours leaves
the range of 32 bits (`mixValues_checked`), so natural numbers stand for the 32-bit ones.

## Main definitions

* `FrameTester`, `FrameTester.inOutline`, `FrameTester.onFrame`, `inFigure`.
* `Pixel`, `mix`, `put`.
* `RasterJob`, `rasterise`.
* `prepare`, `renderInto`, `render`.

## References

* `src/src/raster.cpp`, `src/include/hh/image.hpp`.
-/

namespace HumanizedHash

open Loop

/-! ### Samples -/

def iabs (v : Int) : Int := if v < 0 then -v else v

/-- `class frame_tester`. -/
structure FrameTester where
  round : Bool
  style : FrameStyle
  s8 : Int
  w8 : Int
  r : Int
  corner : Int
  diagonal : Int
  chamfer : Int
  bracket : Int
  gap : Int
  tickEnd : Int

namespace FrameTester

/-- The constructor of `frame_tester`. -/
def new (g : Geometry) (shape : ImageShape) (style : FrameStyle) : FrameTester :=
  let w8 := 8 * g.line
  let r := 4 * g.size
  let diagonal := (8 * g.line * 1414 + 500).tdiv 1000
  let inner := r - w8
  { round := shape = .round
    style := style
    s8 := 8 * g.size
    w8 := w8
    r := r
    corner := min (16 * g.offset) (4 * g.size)
    diagonal := diagonal
    chamfer := max 8 ((16 * g.offset - diagonal - w8).tdiv 8 * 8)
    bracket := 8 * g.size.tdiv 4
    gap := 8 * max 1 (g.size.tdiv 24)
    tickEnd := inner - max 8 (((inner - 4 * g.grid) * 6).tdiv 10) }

variable (f : FrameTester)

/-- `in_outline`. -/
def inOutline (u v : Int) : Bool :=
  if f.round then
    let dx := u - f.r
    let dy := v - f.r
    dx * dx + dy * dy ≤ f.r * f.r
  else
    let du := min u (f.s8 - u)
    let dv := min v (f.s8 - v)
    if f.style = .rounded then
      if du < f.corner ∧ dv < f.corner then
        let ex := f.corner - du
        let ey := f.corner - dv
        ex * ex + ey * ey ≤ f.corner * f.corner
      else
        true
    else if f.style = .chamfered then
      f.chamfer ≤ du + dv
    else
      true

/-- `on_frame`. -/
def onFrame (u v : Int) : Bool :=
  if f.style = .none then
    false
  else if f.round then
    let dx := u - f.r
    let dy := v - f.r
    let d2 := dx * dx + dy * dy
    let ring : Bool := (f.r - f.w8) * (f.r - f.w8) < d2
    match f.style with
    | .plain => ring
    | .doubleLine =>
      ring || ((f.r - 3 * f.w8) * (f.r - 3 * f.w8) < d2 &&
        d2 ≤ (f.r - 2 * f.w8) * (f.r - 2 * f.w8))
    | .thick => (f.r - 3 * f.w8) * (f.r - 3 * f.w8) < d2
    | .gaps => ring && f.gap ≤ iabs (iabs dx - iabs dy)
    | .ticks =>
      ring || (iabs dx < f.w8 && f.tickEnd ≤ iabs dy) || (iabs dy < f.w8 && f.tickEnd ≤ iabs dx)
    | _ => false
  else
    let du := min u (f.s8 - u)
    let dv := min v (f.s8 - v)
    let e := min du dv
    match f.style with
    | .plain => e < f.w8
    | .doubleLine => e < f.w8 || (2 * f.w8 ≤ e && e < 3 * f.w8)
    | .thick => e < 3 * f.w8
    | .brackets => e < f.w8 && max du dv < f.bracket
    | .chamfered => e < f.w8 || du + dv - f.chamfer < f.diagonal
    | .rounded =>
      if du < f.corner ∧ dv < f.corner then
        let ex := f.corner - du
        let ey := f.corner - dv
        (f.corner - f.w8) * (f.corner - f.w8) < ex * ex + ey * ey
      else
        e < f.w8
    | _ => false

end FrameTester

/-- `in_figure`; `h` is half the side of the cell in sample units. -/
def inFigure (f : Figure) (u v h : Int) : Bool :=
  match f with
  | .none => false
  | .square => true
  | .circle => (u - h) * (u - h) + (v - h) * (v - h) ≤ h * h
  | .triangleUp => 2 * iabs (u - h) ≤ v
  | .triangleDown => 2 * iabs (u - h) ≤ 2 * h - v
  | .triangleRight => 2 * iabs (v - h) ≤ 2 * h - u
  | .triangleLeft => 2 * iabs (v - h) ≤ u
  | .unknown _ _ => false

/-- The coordinate of a sample: `i` of the four in the pixel `x`. -/
def sampleAt (x i : Int) : Int := 2 * (4 * x + i) + 1

/-! ### Pixels -/

/-- `struct pixel`. -/
structure Pixel where
  r : UInt8
  g : UInt8
  b : UInt8
  a : UInt8
  deriving DecidableEq

def Pixel.bytes (p : Pixel) : List UInt8 := [p.r, p.g, p.b, p.a]

/-- The weight of all samples of a mix, `a` in `mix`. -/
def mixWeight (fgAlpha nFg bgAlpha nBg : ℕ) : ℕ :=
  nFg * (255 * fgAlpha + bgAlpha * (255 - fgAlpha)) + nBg * 255 * bgAlpha

/-- The weighted sum of one channel of a mix, `p` in `mix`. -/
def mixSum (f fgAlpha nFg b bgAlpha nBg : ℕ) : ℕ :=
  nFg * (255 * fgAlpha * f + bgAlpha * (255 - fgAlpha) * b) + nBg * 255 * bgAlpha * b

/-- `mix`. -/
def mix (fg : Rgb) (fgAlpha nFg : ℕ) (bg : Rgb) (bgAlpha nBg : ℕ) : Pixel :=
  let a := mixWeight fgAlpha nFg bgAlpha nBg
  let alpha := (a + 2040) / 4080
  if alpha = 0 then
    ⟨0, 0, 0, 0⟩
  else
    let channel (f b : UInt8) : UInt8 :=
      UInt8.ofNat ((mixSum f.toNat fgAlpha nFg b.toNat bgAlpha nBg + a / 2) / a)
    ⟨channel fg.r bg.r, channel fg.g bg.g, channel fg.b bg.b, UInt8.ofNat alpha⟩

/-- The address of a pixel. -/
def pixelAddress (rgba : ℕ) (size x y : Int) : ℕ :=
  rgba + (y.toNat * size.toNat + x.toNat) * 4

/-- `put`. -/
def put (rgba : ℕ) (size x y : Int) (p : Pixel) (mem : Memory UInt8) : Memory UInt8 :=
  mem.write (pixelAddress rgba size x y) p.bytes

/-! ### The rasteriser -/

/-- `struct raster_job`. -/
structure RasterJob where
  cells : Vector Cell 16
  palette : Vector Rgb 4
  frameRgb : Rgb
  shape : ImageShape
  frame : FrameStyle
  background : Rgb
  backgroundAlpha : UInt8
  frameAlpha : UInt8

def validShape (s : ImageShape) : Bool := s = .square || s = .round

def validStyle (s : FrameStyle) : Bool := s.toByte ≤ FrameStyle.gaps.toByte

/-- The samples of a pixel that are inside the outline, and those of them on the frame. -/
def countFrame (tester : FrameTester) (x y : Int) : ℕ × ℕ :=
  upTo 4 (fun j n =>
    let v := sampleAt y j
    upTo 4 (fun i n =>
      let u := sampleAt x i
      if tester.inOutline u v then
        (n.1 + 1, if tester.onFrame u v then n.2 + 1 else n.2)
      else
        n) n) (0, 0)

/-- The samples of a pixel of a cell that are in the figure. -/
def countFigure (f : Figure) (h px py : Int) : ℕ :=
  upTo 4 (fun j n =>
    let v := sampleAt py j
    upTo 4 (fun i n => if inFigure f (sampleAt px i) v h then n + 1 else n) n) 0

/-- `frame_pixels` and `frame_known`: the colours of the pairs of counts met so far. -/
abbrev FrameTable := ℕ → ℕ → Option Pixel

/-- The colour of a pair of counts, computed and entered where the table does not have it. -/
def FrameTable.lookup (known : FrameTable) (nIn nFrame : ℕ) (value : Pixel) :
    Pixel × FrameTable :=
  match known nIn nFrame with
  | some p => (p, known)
  | none =>
    (value, fun i j => if i = nIn ∧ j = nFrame then some value else known i j)

/-- A mix of the frame over the background. -/
def RasterJob.frameMix (job : RasterJob) (nFrame nBackground : ℕ) : Pixel :=
  mix job.frameRgb job.frameAlpha.toNat nFrame job.background job.backgroundAlpha.toNat nBackground

/-- A mix of a palette colour over the background. -/
def RasterJob.figureMix (job : RasterJob) (colour : UInt8) (n : ℕ) : Pixel :=
  mix (job.palette.get ⟨(colour &&& 3).toNat, and_three_lt colour⟩) 255 n job.background
    job.backgroundAlpha.toNat (16 - n)

/-- The body of the first step of `rasterise`: one pixel. Unless `reference` is set, a pixel of the
grid is the plain surface without a look at its samples. -/
def paintFramePixel (job : RasterJob) (g : Geometry) (rgba : ℕ) (reference : Bool) (x y : Int)
    (s : Memory UInt8 × FrameTable) : Memory UInt8 × FrameTable :=
  let tester := FrameTester.new g job.shape job.frame
  let surface := job.frameMix 0 16
  let gridRow : Bool := g.offset ≤ y ∧ y < g.offset + g.grid
  if !reference && gridRow && g.offset ≤ x && x < g.offset + g.grid then
    (put rgba g.size x y surface s.1, s.2)
  else
    let (nIn, nFrame) := countFrame tester x y
    let (p, known) := s.2.lookup nIn nFrame (job.frameMix nFrame (nIn - nFrame))
    (put rgba g.size x y p s.1, known)

/-- The first step of `rasterise`: the surface and the frame. -/
def paintFrame (job : RasterJob) (g : Geometry) (rgba : ℕ) (reference : Bool)
    (mem : Memory UInt8) : Memory UInt8 :=
  (upTo g.size (fun y s =>
    upTo g.size (fun x s => paintFramePixel job g rgba reference x y s) s) (mem, fun _ _ => none)).1

/-- `x0`, the left edge of a cell. -/
def Geometry.cellX (g : Geometry) (index : ℕ) : Int :=
  g.offset + (index % 4 : ℕ) * (g.cell + g.gutter)

/-- `y0`, the upper edge of a cell. -/
def Geometry.cellY (g : Geometry) (index : ℕ) : Int :=
  g.offset + (index / 4 : ℕ) * (g.cell + g.gutter)

/-- The innermost body of the second step of `rasterise`: one pixel of a cell. -/
def paintCellPixel (job : RasterJob) (g : Geometry) (rgba : ℕ) (index : ℕ) (c : Cell)
    (px py : Int) (mem : Memory UInt8) : Memory UInt8 :=
  let h := 4 * g.cell
  let shades (n : ℕ) : Pixel := job.figureMix c.colour n
  let n := if c.figure = .square then 16 else countFigure c.figure h px py
  put rgba g.size (g.cellX index + px) (g.cellY index + py) (shades n) mem

/-- The body of the second step of `rasterise`: one cell. -/
def paintCell (job : RasterJob) (g : Geometry) (rgba : ℕ) (index : ℕ) (c : Cell)
    (mem : Memory UInt8) : Memory UInt8 :=
  if c.figure = .none then
    mem
  else
    upTo g.cell (fun py mem =>
      upTo g.cell (fun px mem => paintCellPixel job g rgba index c px py mem) mem) mem

/-- The second step of `rasterise`: the figures. -/
def paintFigures (job : RasterJob) (g : Geometry) (rgba : ℕ) (mem : Memory UInt8) :
    Memory UInt8 :=
  job.cells.toList.zipIdx.foldl (fun mem (c, index) => paintCell job g rgba index c mem) mem

/-- `rasterise`: the code, and the memory that is left. -/
def rasterise (job : RasterJob) (size : UInt32) (rgba : Option ℕ) (mem : Memory UInt8)
    (reference : Bool := false) : ErrorCode × Memory UInt8 :=
  match rgba with
  | none => (.invalidArgument, mem)
  | some rgba =>
    if !validShape job.shape || !validStyle job.frame || job.frame = .automatic then
      (.invalidArgument, mem)
    else if size < minImageSize ∨ maxImageSize < size then
      (.invalidSize, mem)
    else
      match makeGeometry size job.shape job.frame with
      | (false, _) => (.invalidSize, mem)
      | (true, g) => (.ok, paintFigures job g rgba (paintFrame job g rgba reference mem))

/-! ### The entry points -/

/-- The job that `prepare` fills in. -/
def jobOf (fp : Fingerprint) (options : RenderOptions) : RasterJob :=
  { cells := cellsOf fp.bytes
    palette := palette
    frameRgb := frameColour
    shape := options.shape
    frame := resolveFrame options.frame fp.mode options.shape
    background := options.background
    backgroundAlpha := options.backgroundAlpha
    frameAlpha := options.frameAlpha }

/-- `prepare`: the error, or the job. -/
def prepare (fp : Fingerprint) (size : UInt32) (options : RenderOptions) :
    Except ErrorCode RasterJob :=
  if fp.empty then
    .error .invalidFingerprint
  else if !validShape options.shape || !validStyle options.frame then
    .error .invalidArgument
  else if size < minImageSize ∨ maxImageSize < size then
    .error .invalidSize
  else
    let resolved := resolveFrame options.frame fp.mode options.shape
    if !frameAllowed resolved options.shape then
      .error .invalidFrame
    else if options.backgroundAlpha = 255 ∧ figuresContrastX100 options.background < 200 then
      .error .lowContrast
    else if !(makeGeometry size options.shape resolved).1 then
      .error .invalidSize
    else
      .ok (jobOf fp options)

/-- `size * size * 4`, in the width of `size_t`. -/
def imageBytes (size : UInt32) : ℕ := size.toNat * size.toNat * 4

/-- `render_into`: the code, and the memory that is left. -/
def renderInto (fp : Fingerprint) (size : UInt32) (options : RenderOptions) (rgba : Option ℕ)
    (capacity : ℕ) (mem : Memory UInt8) : ErrorCode × Memory UInt8 :=
  if rgba = none then
    (.invalidArgument, mem)
  else
    match prepare fp size options with
    | .error ec => (ec, mem)
    | .ok job =>
      if capacity < imageBytes size then
        (.bufferTooSmall, mem)
      else
        rasterise job size rgba mem

/-- `struct image`. -/
structure Image where
  width : UInt32
  height : UInt32
  rgba : List UInt8
  deriving DecidableEq

def Image.empty : Image := ⟨0, 0, []⟩

/-- `render`: the code, and the image that is left. The pixels of the image are a range of memory
of their own, zero after `resize`; `allocated` tells whether there is room for them. -/
def render (fp : Fingerprint) (size : UInt32) (options : RenderOptions) (_ : Image)
    (allocated : Bool := true) : ErrorCode × Image :=
  match prepare fp size options with
  | .error ec => (ec, .empty)
  | .ok job =>
    if !allocated then
      (.outOfMemory, .empty)
    else
      match rasterise job size (some 0) fun _ => 0 with
      | (.ok, mem) => (.ok, ⟨size, size, mem.read 0 (imageBytes size)⟩)
      | (ec, _) => (ec, .empty)

/-! ### The bounds of a mix -/

theorem mixWeight_le {fgAlpha bgAlpha : ℕ} (hf : fgAlpha ≤ 255) (hb : bgAlpha ≤ 255)
    (nFg nBg : ℕ) : mixWeight fgAlpha nFg bgAlpha nBg ≤ 65025 * (nFg + nBg) := by
  have hfg : 255 * fgAlpha + bgAlpha * (255 - fgAlpha) ≤ 65025 := by
    have h := Nat.mul_le_mul_right (255 - fgAlpha) hb
    omega
  have hbg := Nat.mul_le_mul_left (nBg * 255) hb
  have hn := Nat.mul_le_mul_left nFg hfg
  rw [mixWeight]
  omega

theorem mixSum_le {f b : ℕ} (fgAlpha nFg bgAlpha nBg : ℕ) (hf : f ≤ 255) (hb : b ≤ 255) :
    mixSum f fgAlpha nFg b bgAlpha nBg ≤ 255 * mixWeight fgAlpha nFg bgAlpha nBg := by
  have h₁ := Nat.mul_le_mul_left (255 * fgAlpha) hf
  have h₂ := Nat.mul_le_mul_left (bgAlpha * (255 - fgAlpha)) hb
  have h₃ := Nat.mul_le_mul_left (nBg * 255 * bgAlpha) hb
  have h₄ := Nat.mul_le_mul_left nFg (Nat.add_le_add h₁ h₂)
  rw [mixSum, mixWeight]
  calc nFg * (255 * fgAlpha * f + bgAlpha * (255 - fgAlpha) * b) + nBg * 255 * bgAlpha * b
      ≤ nFg * (255 * fgAlpha * 255 + bgAlpha * (255 - fgAlpha) * 255) +
          nBg * 255 * bgAlpha * 255 := Nat.add_le_add h₄ h₃
    _ = 255 * (nFg * (255 * fgAlpha + bgAlpha * (255 - fgAlpha)) + nBg * 255 * bgAlpha) := by
        ring

end HumanizedHash
