import HumanizedHash.Encoding.Dct
import HumanizedHash.Lab.Canvas
import Mathlib.Algebra.Order.Ring.Int
import Mathlib.Tactic.Positivity
import Mathlib.Tactic.Ring

/-!
# The arithmetic of a sheet

A sheet is a page with a title and a grid of pictures with a label under each of them. The widths of
the texts, the size of the page and the places on it are computed in `int`. As in the transform of
the JPEG encoder what becomes of such a value is a parameter `i32`, and a page that fits an `int` is
drawn as on exact integers.

## Main definitions

* `Lab.Canvas.text`: the built-in font.
* `Lab.gridSheet`: the page.
* `Lab.placesOf`, `Lab.paintSheet`: the same on exact integers.
* `Lab.Fits`, `Lab.PageFits`: what a caller of `grid_sheet` sees to.

## Main results

* `Lab.tile_mem`: the places of the pictures are on the page.
* `Lab.gridSheet_checked`: no value of type `int` overflows.

## References

* `src/tools/lab/canvas.cpp`, `src/tools/lab/sheet.cpp`.
-/

namespace HumanizedHash

namespace Lab

/-! ### The code -/

/-- `font`: a character and its rows. -/
def font : List (UInt8 × List UInt8) :=
  [(0x20, [0x00, 0x00, 0x00, 0x00, 0x00, 0x00, 0x00]),
    (0x30, [0x0E, 0x11, 0x13, 0x15, 0x19, 0x11, 0x0E]),
    (0x31, [0x04, 0x0C, 0x04, 0x04, 0x04, 0x04, 0x0E]),
    (0x32, [0x0E, 0x11, 0x01, 0x02, 0x04, 0x08, 0x1F]),
    (0x33, [0x1F, 0x02, 0x04, 0x02, 0x01, 0x11, 0x0E]),
    (0x34, [0x02, 0x06, 0x0A, 0x12, 0x1F, 0x02, 0x02]),
    (0x35, [0x1F, 0x10, 0x1E, 0x01, 0x01, 0x11, 0x0E]),
    (0x36, [0x06, 0x08, 0x10, 0x1E, 0x11, 0x11, 0x0E]),
    (0x37, [0x1F, 0x01, 0x02, 0x04, 0x08, 0x08, 0x08]),
    (0x38, [0x0E, 0x11, 0x11, 0x0E, 0x11, 0x11, 0x0E]),
    (0x39, [0x0E, 0x11, 0x11, 0x0F, 0x01, 0x02, 0x0C]),
    (0x41, [0x0E, 0x11, 0x11, 0x11, 0x1F, 0x11, 0x11]),
    (0x42, [0x1E, 0x11, 0x11, 0x1E, 0x11, 0x11, 0x1E]),
    (0x43, [0x0E, 0x11, 0x10, 0x10, 0x10, 0x11, 0x0E]),
    (0x44, [0x1C, 0x12, 0x11, 0x11, 0x11, 0x12, 0x1C]),
    (0x45, [0x1F, 0x10, 0x10, 0x1E, 0x10, 0x10, 0x1F]),
    (0x46, [0x1F, 0x10, 0x10, 0x1E, 0x10, 0x10, 0x10]),
    (0x47, [0x0E, 0x11, 0x10, 0x17, 0x11, 0x11, 0x0F]),
    (0x48, [0x11, 0x11, 0x11, 0x1F, 0x11, 0x11, 0x11]),
    (0x49, [0x0E, 0x04, 0x04, 0x04, 0x04, 0x04, 0x0E]),
    (0x4A, [0x07, 0x02, 0x02, 0x02, 0x02, 0x12, 0x0C]),
    (0x4B, [0x11, 0x12, 0x14, 0x18, 0x14, 0x12, 0x11]),
    (0x4C, [0x10, 0x10, 0x10, 0x10, 0x10, 0x10, 0x1F]),
    (0x4D, [0x11, 0x1B, 0x15, 0x15, 0x11, 0x11, 0x11]),
    (0x4E, [0x11, 0x11, 0x19, 0x15, 0x13, 0x11, 0x11]),
    (0x4F, [0x0E, 0x11, 0x11, 0x11, 0x11, 0x11, 0x0E]),
    (0x50, [0x1E, 0x11, 0x11, 0x1E, 0x10, 0x10, 0x10]),
    (0x51, [0x0E, 0x11, 0x11, 0x11, 0x15, 0x12, 0x0D]),
    (0x52, [0x1E, 0x11, 0x11, 0x1E, 0x14, 0x12, 0x11]),
    (0x53, [0x0F, 0x10, 0x10, 0x0E, 0x01, 0x01, 0x1E]),
    (0x54, [0x1F, 0x04, 0x04, 0x04, 0x04, 0x04, 0x04]),
    (0x55, [0x11, 0x11, 0x11, 0x11, 0x11, 0x11, 0x0E]),
    (0x56, [0x11, 0x11, 0x11, 0x11, 0x11, 0x0A, 0x04]),
    (0x57, [0x11, 0x11, 0x11, 0x15, 0x15, 0x15, 0x0A]),
    (0x58, [0x11, 0x11, 0x0A, 0x04, 0x0A, 0x11, 0x11]),
    (0x59, [0x11, 0x11, 0x11, 0x0A, 0x04, 0x04, 0x04]),
    (0x5A, [0x1F, 0x01, 0x02, 0x04, 0x08, 0x10, 0x1F]),
    (0x2E, [0x00, 0x00, 0x00, 0x00, 0x00, 0x0C, 0x0C]),
    (0x2C, [0x00, 0x00, 0x00, 0x00, 0x0C, 0x04, 0x08]),
    (0x3A, [0x00, 0x0C, 0x0C, 0x00, 0x0C, 0x0C, 0x00]),
    (0x3B, [0x00, 0x0C, 0x0C, 0x00, 0x0C, 0x04, 0x08]),
    (0x2D, [0x00, 0x00, 0x00, 0x1F, 0x00, 0x00, 0x00]),
    (0x2F, [0x00, 0x01, 0x02, 0x04, 0x08, 0x10, 0x00]),
    (0x28, [0x02, 0x04, 0x08, 0x08, 0x08, 0x04, 0x02]),
    (0x29, [0x08, 0x04, 0x02, 0x02, 0x02, 0x04, 0x08]),
    (0x5B, [0x0E, 0x08, 0x08, 0x08, 0x08, 0x08, 0x0E]),
    (0x5D, [0x0E, 0x02, 0x02, 0x02, 0x02, 0x02, 0x0E]),
    (0x3D, [0x00, 0x00, 0x1F, 0x00, 0x1F, 0x00, 0x00]),
    (0x2B, [0x00, 0x04, 0x04, 0x1F, 0x04, 0x04, 0x00]),
    (0x23, [0x0A, 0x0A, 0x1F, 0x0A, 0x1F, 0x0A, 0x0A]),
    (0x25, [0x18, 0x19, 0x02, 0x04, 0x08, 0x13, 0x03]),
    (0x3C, [0x02, 0x04, 0x08, 0x10, 0x08, 0x04, 0x02]),
    (0x3E, [0x08, 0x04, 0x02, 0x01, 0x02, 0x04, 0x08]),
    (0x5F, [0x00, 0x00, 0x00, 0x00, 0x00, 0x00, 0x1F]),
    (0x27, [0x0C, 0x04, 0x08, 0x00, 0x00, 0x00, 0x00]),
    (0x3F, [0x0E, 0x11, 0x01, 0x02, 0x04, 0x00, 0x04]),
    (0x21, [0x04, 0x04, 0x04, 0x04, 0x04, 0x00, 0x04]),
    (0x2A, [0x00, 0x04, 0x15, 0x0E, 0x15, 0x04, 0x00]),
    (0x5E, [0x04, 0x0A, 0x11, 0x00, 0x00, 0x00, 0x00]),
    (0x7C, [0x04, 0x04, 0x04, 0x04, 0x04, 0x04, 0x04]),
    (0x7E, [0x00, 0x00, 0x08, 0x15, 0x02, 0x00, 0x00])]

/-- `find_glyph`: the rows of a character. -/
def findGlyph (c : UInt8) : List UInt8 :=
  let c := if 0x61 ≤ c ∧ c ≤ 0x7A then c - 0x61 + 0x41 else c
  match font.find? fun g => g.1 = c with
  | some g => g.2
  | none => (font.getD 0 (0, [])).2

section Code

variable {m : Type → Type} [Monad m] (i32 : ℤ → m ℤ)

namespace Canvas

/-- The body of the loop over the columns of a glyph. The last two values are the ends of the loops
of `fill_rect`. -/
def dot (rows : List UInt8) (cx y scale : ℤ) (colour : Pixel) (row : ℕ) (c : Canvas) (col : ℕ) :
    m Canvas :=
  if (rows.getD row 0).toNat >>> (4 - col) &&& 1 ≠ 0 then do
    let dx ← i32 (col * scale)
    let left ← i32 (cx + dx)
    let dy ← i32 (row * scale)
    let top ← i32 (y + dy)
    let _ ← i32 (left + scale)
    let _ ← i32 (top + scale)
    pure (c.fillRect left top scale scale colour)
  else
    pure c

/-- One character of `text`. -/
def glyph (cx y : ℤ) (ch : UInt8) (scale : ℤ) (colour : Pixel) (c : Canvas) : m Canvas :=
  (List.range 7).foldlM (fun c row =>
    (List.range 5).foldlM (dot i32 (findGlyph ch) cx y scale colour row) c) c

/-- The loop of `text` over the characters. -/
def textFrom (y scale : ℤ) (colour : Pixel) : List UInt8 → ℤ → Canvas → m Canvas
  | [], _, c => pure c
  | ch :: s, cx, c => do
    let c ← glyph i32 cx y ch scale colour c
    let step ← i32 (6 * scale)
    let cx ← i32 (cx + step)
    textFrom y scale colour s cx c

/-- `text`. -/
def text (x y : ℤ) (s : List UInt8) (scale : ℤ) (colour : Pixel) (c : Canvas) : m Canvas :=
  textFrom i32 y scale colour s x c

/-- `text_width`. -/
def textWidth (s : List UInt8) (scale : ℤ) : m ℤ :=
  if s = [] then
    pure 0
  else do
    let n ← i32 s.length
    let n ← i32 (n * 6)
    let w ← i32 (n * scale)
    i32 (w - scale)

/-- `text_height`. -/
def textHeight (scale : ℤ) : m ℤ := i32 (7 * scale)

end Canvas

open Canvas

/-- `struct page_style`. -/
structure PageStyle where
  page : Pixel
  ink : Pixel
  textScale : ℤ

/-- `light_page`. -/
def lightPage : PageStyle := ⟨⟨255, 255, 255, 255⟩, ⟨0x33, 0x33, 0x33, 255⟩, 2⟩

/-- `struct tile`. -/
structure Tile where
  image : Canvas
  label : List UInt8

/-- The height of a line of a title. -/
def lineHeight (style : PageStyle) : m ℤ := do
  let height ← textHeight i32 style.textScale
  let gap ← i32 (4 * style.textScale)
  i32 (height + gap)

/-- `title_height`. -/
def titleHeight (title : List (List UInt8)) (style : PageStyle) (pad : ℤ) : m ℤ :=
  if title = [] then
    pure 0
  else do
    let lines ← i32 title.length
    let line ← lineHeight i32 style
    let all ← i32 (lines * line)
    i32 (all + pad)

/-- `title_width`. -/
def titleWidth (title : List (List UInt8)) (style : PageStyle) : m ℤ :=
  title.foldlM (fun w line => do
    let v ← textWidth i32 line style.textScale
    pure (max w v)) 0

/-- The loop of `draw_title` over the lines. -/
def drawLines (style : PageStyle) (pad : ℤ) : List (List UInt8) → ℤ → Canvas → m Canvas
  | [], _, c => pure c
  | line :: title, y, c => do
    let c ← text i32 pad y line style.textScale style.ink c
    let height ← lineHeight i32 style
    let y ← i32 (y + height)
    drawLines style pad title y c

/-- `draw_title`. -/
def drawTitle (title : List (List UInt8)) (style : PageStyle) (pad : ℤ) (c : Canvas) : m Canvas :=
  drawLines i32 style pad title pad c

/-- `max_label` of `grid_sheet`. -/
def maxLabel (tiles : List Tile) : m ℤ :=
  tiles.foldlM (fun w t => do
    let v ← textWidth i32 t.label 1
    pure (max w v)) 0

/-- The places of `grid_sheet`: where the grid starts and how far its cells are apart. -/
structure Grid where
  top : ℤ
  pitchW : ℤ
  pitchH : ℤ
  width : ℤ
  height : ℤ
  deriving DecidableEq

/-- The first lines of `grid_sheet`. -/
def gridOf (title : List (List UInt8)) (tiles : List Tile) (columns cellW cellH pad : ℤ)
    (style : PageStyle) : m Grid := do
  let labelHeight ← textHeight i32 1
  let labelH ← i32 (labelHeight + 4)
  let label ← maxLabel i32 tiles
  let pitchW ← i32 (max cellW label + pad)
  let pitchH ← i32 (cellH + if 0 < label then labelH else 0)
  let pitchH ← i32 (pitchH + pad)
  let count ← i32 tiles.length
  let count ← i32 (count + columns)
  let count ← i32 (count - 1)
  let rows ← i32 (count.tdiv columns)
  let titleH ← titleHeight i32 title style pad
  let top ← i32 (pad + titleH)
  let grid ← i32 (columns * pitchW)
  let gridWidth ← i32 (pad + grid)
  let pads ← i32 (2 * pad)
  let titleW ← titleWidth i32 title style
  let headWidth ← i32 (pads + titleW)
  let below ← i32 (rows * pitchH)
  let height ← i32 (top + below)
  pure ⟨top, pitchW, pitchH, max gridWidth headWidth, height⟩

/-- The body of the loop of `grid_sheet`. The places behind the upper left corner are the last ones
of the loops of `draw`. -/
def drawTile (g : Grid) (columns cellH pad : ℤ) (style : PageStyle) (c : Canvas) (t : Tile × ℕ) :
    m Canvas := do
  let i ← i32 t.2
  let right ← i32 (i.tmod columns * g.pitchW)
  let x ← i32 (pad + right)
  let down ← i32 (i.tdiv columns * g.pitchH)
  let y ← i32 (g.top + down)
  let _ ← i32 (x + (t.1.image.width - 1))
  let _ ← i32 (y + (t.1.image.height - 1))
  let c := c.draw t.1.image x y
  if t.1.label ≠ [] then do
    let below ← i32 (y + cellH)
    let below ← i32 (below + 3)
    text i32 x below t.1.label 1 style.ink c
  else
    pure c

/-- `grid_sheet`. -/
def gridSheet (title : List (List UInt8)) (tiles : List Tile) (columns cellW cellH pad : ℤ)
    (style : PageStyle) : m Canvas := do
  let g ← gridOf i32 title tiles columns cellW cellH pad style
  let c ← drawTitle i32 title style pad (Canvas.new g.width.toNat g.height.toNat style.page)
  tiles.zipIdx.foldlM (drawTile i32 g columns cellH pad style) c

end Code

/-! ### Exact integers -/

namespace Canvas

/-- `dot` on exact integers. -/
def paintDot (rows : List UInt8) (cx y scale : ℤ) (colour : Pixel) (row : ℕ) (c : Canvas)
    (col : ℕ) : Canvas :=
  if (rows.getD row 0).toNat >>> (4 - col) &&& 1 ≠ 0 then
    c.fillRect (cx + col * scale) (y + row * scale) scale scale colour
  else c

/-- `glyph` on exact integers. -/
def paintGlyph (cx y : ℤ) (ch : UInt8) (scale : ℤ) (colour : Pixel) (c : Canvas) : Canvas :=
  (List.range 7).foldl (fun c row =>
    (List.range 5).foldl (paintDot (findGlyph ch) cx y scale colour row) c) c

/-- `text` on exact integers. -/
def paintText (y scale : ℤ) (colour : Pixel) : List UInt8 → ℤ → Canvas → Canvas
  | [], _, c => c
  | ch :: s, cx, c =>
    paintText y scale colour s (cx + 6 * scale) (paintGlyph cx y ch scale colour c)

/-- The width of a text. -/
def widthOf (s : List UInt8) (scale : ℤ) : ℤ :=
  if s = [] then 0 else s.length * 6 * scale - scale

end Canvas

open Canvas

/-- The height of a line. -/
def PageStyle.line (style : PageStyle) : ℤ := 7 * style.textScale + 4 * style.textScale

/-- The height of a title. -/
def heightOfTitle (title : List (List UInt8)) (style : PageStyle) (pad : ℤ) : ℤ :=
  if title = [] then 0 else title.length * style.line + pad

/-- The width of the widest text. -/
def widest (texts : List (List UInt8)) (scale : ℤ) : ℤ :=
  texts.foldl (fun w s => max w (widthOf s scale)) 0

/-- `draw_title` on exact integers. -/
def paintLines (style : PageStyle) (pad : ℤ) : List (List UInt8) → ℤ → Canvas → Canvas
  | [], _, c => c
  | line :: title, y, c =>
    paintLines style pad title (y + style.line)
      (paintText y style.textScale style.ink line pad c)

/-- `gridOf` on exact integers. -/
def placesOf (title : List (List UInt8)) (tiles : List Tile) (columns cellW cellH pad : ℤ)
    (style : PageStyle) : Grid :=
  let label := widest (tiles.map Tile.label) 1
  let pitchW := max cellW label + pad
  let pitchH := cellH + (if 0 < label then 11 else 0) + pad
  let top := pad + heightOfTitle title style pad
  { top := top
    pitchW := pitchW
    pitchH := pitchH
    width := max (pad + columns * pitchW) (2 * pad + widest title style.textScale)
    height := top + (tiles.length + columns - 1) / columns * pitchH }

/-- The left edge of a picture. -/
def Grid.tileX (g : Grid) (columns pad : ℤ) (i : ℕ) : ℤ := pad + (i : ℤ) % columns * g.pitchW

/-- The upper edge of a picture. -/
def Grid.tileY (g : Grid) (columns : ℤ) (i : ℕ) : ℤ := g.top + (i : ℤ) / columns * g.pitchH

/-- `drawTile` on exact integers. -/
def paintTile (g : Grid) (columns cellH pad : ℤ) (style : PageStyle) (c : Canvas) (t : Tile × ℕ) :
    Canvas :=
  let x := g.tileX columns pad t.2
  let y := g.tileY columns t.2
  let c := c.draw t.1.image x y
  if t.1.label ≠ [] then paintText (y + cellH + 3) 1 style.ink t.1.label x c else c

/-- `grid_sheet` on exact integers. -/
def paintSheet (title : List (List UInt8)) (tiles : List Tile) (columns cellW cellH pad : ℤ)
    (style : PageStyle) : Canvas :=
  let g := placesOf title tiles columns cellW cellH pad style
  tiles.zipIdx.foldl (paintTile g columns cellH pad style)
    (paintLines style pad title pad (Canvas.new g.width.toNat g.height.toNat style.page))

/-! ### The places on the page -/

/-- The part `k` of `n` parts of one scale. -/
theorem part_mem {scale : ℤ} (hscale : 0 ≤ scale) {k n : ℕ} (hk : k < n) :
    0 ≤ (k : ℤ) * scale ∧ (k : ℤ) * scale + scale ≤ n * scale := by
  have hstep : ((k : ℤ) + 1) * scale ≤ n * scale :=
    mul_le_mul_of_nonneg_right (by omega) hscale
  exact ⟨by positivity, by rwa [add_mul, one_mul] at hstep⟩

/-- No text is wider than the widest, which is not negative. -/
theorem widthOf_le_widest (texts : List (List UInt8)) (scale : ℤ) :
    0 ≤ widest texts scale ∧ ∀ s ∈ texts, widthOf s scale ≤ widest texts scale := by
  have hfold (ts : List (List UInt8)) (w : ℤ) :
      w ≤ ts.foldl (fun w s => max w (widthOf s scale)) w ∧
        ∀ s ∈ ts, widthOf s scale ≤ ts.foldl (fun w s => max w (widthOf s scale)) w := by
    induction ts generalizing w with
    | nil => exact ⟨le_rfl, fun s hs => absurd hs List.not_mem_nil⟩
    | cons s' ts ih =>
      obtain ⟨hfirst, hrest⟩ := ih (max w (widthOf s' scale))
      refine ⟨(le_max_left ..).trans hfirst, fun s hs => ?_⟩
      obtain rfl | hs := List.mem_cons.mp hs
      · exact (le_max_right ..).trans hfirst
      · exact hrest s hs
  exact hfold texts 0

theorem widthOf_label_le {tiles : List Tile} {t : Tile} (ht : t ∈ tiles) :
    widthOf t.label 1 ≤ widest (tiles.map Tile.label) 1 :=
  (widthOf_le_widest _ 1).2 _ (List.mem_map_of_mem ht)

/-- The length of a text, by its width. -/
theorem length_mul_eq {s : List UInt8} (hs : s ≠ []) (scale : ℤ) :
    (s.length : ℤ) * 6 * scale = widthOf s scale + scale := by
  rw [widthOf, if_neg hs]
  ring

/-- What a caller of `grid_sheet` sees to: there are columns, and the pictures fit in the cells. -/
structure Fits (tiles : List Tile) (columns cellW cellH pad : ℤ) (style : PageStyle) : Prop where
  columns_pos : 0 < columns
  pad_nonneg : 0 ≤ pad
  scale_nonneg : 0 ≤ style.textScale
  width_le : ∀ t ∈ tiles, t.image.width ≤ cellW
  height_le : ∀ t ∈ tiles, t.image.height ≤ cellH

section Places

variable (title : List (List UInt8)) {tiles : List Tile} {columns cellW cellH pad : ℤ}
  {style : PageStyle}

theorem heightOfTitle_nonneg (h : Fits tiles columns cellW cellH pad style) :
    0 ≤ heightOfTitle title style pad := by
  have hline : 0 ≤ style.line := by
    have hscale := h.scale_nonneg
    rw [PageStyle.line]
    omega
  have hpad := h.pad_nonneg
  rw [heightOfTitle]
  split_ifs
  · exact le_rfl
  · positivity

theorem Fits.cell_nonneg (h : Fits tiles columns cellW cellH pad style) {t : Tile}
    (ht : t ∈ tiles) : 0 ≤ cellW ∧ 0 ≤ cellH :=
  ⟨(Int.natCast_nonneg _).trans (h.width_le t ht), (Int.natCast_nonneg _).trans (h.height_le t ht)⟩

/-- The pitches of a grid with a picture in it. -/
theorem pitch_mem (h : Fits tiles columns cellW cellH pad style) {t : Tile} (ht : t ∈ tiles) :
    let g := placesOf title tiles columns cellW cellH pad style
    (cellW + pad ≤ g.pitchW ∧ widthOf t.label 1 + pad ≤ g.pitchW ∧ 0 ≤ g.pitchW) ∧
      cellH + pad ≤ g.pitchH ∧ (t.label ≠ [] → cellH + 11 + pad ≤ g.pitchH) ∧ 0 ≤ g.pitchH := by
  intro g
  obtain ⟨hW, hH⟩ := h.cell_nonneg ht
  have hpad := h.pad_nonneg
  have hlabel := widthOf_label_le ht
  have hpitchW : g.pitchW = max cellW (widest (tiles.map Tile.label) 1) + pad := rfl
  have hpitchH : g.pitchH =
      cellH + (if 0 < widest (tiles.map Tile.label) 1 then 11 else 0) + pad := rfl
  refine ⟨⟨by omega, by omega, by omega⟩, ?_, fun hne => ?_, ?_⟩
  · split_ifs at hpitchH <;> omega
  · have hlength := List.length_pos_of_ne_nil hne
    have hwidth := length_mul_eq hne 1
    rw [if_pos (show 0 < widest (tiles.map Tile.label) 1 by omega)] at hpitchH
    omega
  · split_ifs at hpitchH <;> omega

/-- **The places of the pictures are on the page.** -/
theorem tile_mem (h : Fits tiles columns cellW cellH pad style) {i : ℕ} (hi : i < tiles.length) :
    let g := placesOf title tiles columns cellW cellH pad style
    (0 ≤ (i : ℤ) % columns * g.pitchW ∧ g.tileX columns pad i + g.pitchW ≤ g.width) ∧
      0 ≤ (i : ℤ) / columns * g.pitchH ∧ g.tileY columns i + g.pitchH ≤ g.height := by
  intro g
  obtain ⟨⟨-, -, hpitchW⟩, -, -, hpitchH⟩ :
      (cellW + pad ≤ g.pitchW ∧ widthOf tiles[i].label 1 + pad ≤ g.pitchW ∧ 0 ≤ g.pitchW) ∧
        cellH + pad ≤ g.pitchH ∧ (tiles[i].label ≠ [] → cellH + 11 + pad ≤ g.pitchH) ∧
        0 ≤ g.pitchH :=
    pitch_mem title h (List.getElem_mem hi)
  have hcolumns := h.columns_pos
  have hcolumn : 0 ≤ (i : ℤ) % columns ∧ (i : ℤ) % columns + 1 ≤ columns :=
    ⟨Int.emod_nonneg _ hcolumns.ne', Int.emod_lt_of_pos _ hcolumns⟩
  have hrow : 0 ≤ (i : ℤ) / columns ∧
      (i : ℤ) / columns + 1 ≤ (tiles.length + columns - 1) / columns := by
    refine ⟨Int.ediv_nonneg (Int.natCast_nonneg i) hcolumns.le, ?_⟩
    rw [Int.le_ediv_iff_mul_le hcolumns, add_mul, one_mul]
    have hle := Int.ediv_mul_le (i : ℤ) hcolumns.ne'
    omega
  have hX' : ((i : ℤ) % columns + 1) * g.pitchW ≤ columns * g.pitchW :=
    mul_le_mul_of_nonneg_right hcolumn.2 hpitchW
  have hY' : ((i : ℤ) / columns + 1) * g.pitchH ≤
      (tiles.length + columns - 1) / columns * g.pitchH :=
    mul_le_mul_of_nonneg_right hrow.2 hpitchH
  have hwidth : pad + columns * g.pitchW ≤ g.width := le_max_left ..
  have hheight : g.height = g.top + (tiles.length + columns - 1) / columns * g.pitchH := rfl
  rw [add_mul, one_mul] at hX' hY'
  rw [Grid.tileX, Grid.tileY]
  exact ⟨⟨mul_nonneg hcolumn.1 hpitchW, by omega⟩, mul_nonneg hrow.1 hpitchH, by omega⟩

end Places

/-! ### No value overflows -/

/-- The page fits an `int`, and so do the numbers of pictures and of characters. The text scale is
room for the step behind the last character of a line. -/
structure PageFits (title : List (List UInt8)) (tiles : List Tile) (columns cellW cellH pad : ℤ)
    (style : PageStyle) : Prop where
  count_le : tiles.length + columns ≤ 2147483647
  lines_le : title.length ≤ 2147483647
  line_le : ∀ line ∈ title, line.length * 6 ≤ 2147483647
  width_lt :
    (placesOf title tiles columns cellW cellH pad style).width + style.textScale < 2147483647
  height_le : (placesOf title tiles columns cellW cellH pad style).height ≤ 2147483647

theorem foldlM_some {α β : Type*} {step : β → α → Option β} {step' : β → α → β} {l : List α}
    (h : ∀ a ∈ l, ∀ b, step b a = some (step' b a)) (b : β) :
    l.foldlM step b = some (l.foldl step' b) := by
  induction l generalizing b with
  | nil => rfl
  | cons a l ih =>
    obtain ⟨ha, hl⟩ := List.forall_mem_cons.mp h
    rw [List.foldlM_cons, ha, Option.bind_eq_bind, Option.bind_some, ih hl, List.foldl_cons]

section Checked

variable {scale cx y : ℤ} (hscale : 0 ≤ scale)
include hscale

namespace Canvas

theorem dot_checked (hx : 0 ≤ cx ∧ cx + 5 * scale ≤ 2147483647)
    (hy : 0 ≤ y ∧ y + 7 * scale ≤ 2147483647) (rows : List UInt8) (colour : Pixel) {row col : ℕ}
    (hrow : row < 7) (hcol : col < 5) (c : Canvas) :
    dot checked rows cx y scale colour row c col =
      some (paintDot rows cx y scale colour row c col) := by
  obtain ⟨hrow0, hrow7⟩ := part_mem hscale hrow
  obtain ⟨hcol0, hcol5⟩ := part_mem hscale hcol
  rw [Nat.cast_ofNat] at hrow7 hcol5
  rw [dot, paintDot]
  split_ifs
  · refine checked_bind_eq (by omega) (by omega) ?_
    refine checked_bind_eq (by omega) (by omega) ?_
    refine checked_bind_eq (by omega) (by omega) ?_
    refine checked_bind_eq (by omega) (by omega) ?_
    refine checked_bind_eq (by omega) (by omega) ?_
    exact checked_bind_eq (by omega) (by omega) rfl
  · rfl

theorem glyph_checked (hx : 0 ≤ cx ∧ cx + 5 * scale ≤ 2147483647)
    (hy : 0 ≤ y ∧ y + 7 * scale ≤ 2147483647) (ch : UInt8) (colour : Pixel) (c : Canvas) :
    glyph checked cx y ch scale colour c = some (paintGlyph cx y ch scale colour c) :=
  foldlM_some (fun _ hrow c => foldlM_some (fun _ hcol c => dot_checked hscale hx hy _ colour
    (List.mem_range.mp hrow) (List.mem_range.mp hcol) c) c) c

/-- **A text** between the edges of the page. -/
theorem text_checked (s : List UInt8) (hx : 0 ≤ cx ∧ cx + s.length * 6 * scale ≤ 2147483647)
    (hy : 0 ≤ y ∧ y + 7 * scale ≤ 2147483647) (colour : Pixel) (c : Canvas) :
    text checked cx y s scale colour c = some (paintText y scale colour s cx c) := by
  rw [text]
  induction s generalizing cx c with
  | nil => rfl
  | cons ch s ih =>
    have hrest : 0 ≤ (s.length : ℤ) * 6 * scale := by positivity
    have hlength : ((ch :: s).length : ℤ) * 6 * scale = 6 * scale + s.length * 6 * scale := by
      rw [List.length_cons]
      push_cast
      ring
    rw [textFrom, glyph_checked hscale (by omega) hy]
    refine checked_bind_eq (by omega) (by omega) ?_
    refine checked_bind_eq (by omega) (by omega) ?_
    exact ih (by omega) _

theorem textWidth_checked {s : List UInt8} (hlength : s.length * 6 ≤ 2147483647)
    (hwidth : widthOf s scale + scale ≤ 2147483647) :
    textWidth checked s scale = some (widthOf s scale) := by
  by_cases hnil : s = []
  · rw [textWidth, widthOf, if_pos hnil, if_pos hnil]
    rfl
  · have hall := length_mul_eq hnil scale
    have hpos := List.length_pos_of_ne_nil hnil
    obtain ⟨-, hone⟩ := part_mem hscale (show 0 < s.length * 6 by omega)
    push_cast at hone
    rw [textWidth, widthOf, if_neg hnil, if_neg hnil]
    refine checked_bind_eq (by omega) (by omega) ?_
    refine checked_bind_eq (by omega) (by omega) ?_
    refine checked_bind_eq (by omega) (by omega) ?_
    exact if_pos ⟨by omega, by omega⟩

end Canvas

end Checked

section Title

variable {style : PageStyle} (hscale : 0 ≤ style.textScale)
include hscale

theorem lineHeight_checked (hline : style.line ≤ 2147483647) :
    lineHeight checked style = some style.line := by
  rw [PageStyle.line] at hline
  refine checked_bind_eq (by omega) (by omega) ?_
  refine checked_bind_eq (by omega) (by omega) ?_
  exact if_pos ⟨by omega, by omega⟩

theorem line_nonneg : 0 ≤ style.line := by
  rw [PageStyle.line]
  omega

theorem titleHeight_checked {title : List (List UInt8)} {pad : ℤ} (hpad : 0 ≤ pad)
    (hlines : title.length ≤ 2147483647)
    (hheight : heightOfTitle title style pad ≤ 2147483647) :
    titleHeight checked title style pad = some (heightOfTitle title style pad) := by
  by_cases hnil : title = []
  · rw [titleHeight, heightOfTitle, if_pos hnil, if_pos hnil]
    rfl
  · have hpos := List.length_pos_of_ne_nil hnil
    obtain ⟨-, hone⟩ := part_mem (line_nonneg hscale) hpos
    have hline := line_nonneg hscale
    rw [heightOfTitle, if_neg hnil] at hheight
    rw [titleHeight, heightOfTitle, if_neg hnil, if_neg hnil, lineHeight_checked hscale (by omega)]
    refine checked_bind_eq (by omega) (by omega) ?_
    refine checked_bind_eq (by omega) (by omega) ?_
    exact if_pos ⟨by omega, by omega⟩

theorem titleWidth_checked {title : List (List UInt8)}
    (hlength : ∀ line ∈ title, line.length * 6 ≤ 2147483647)
    (hwidth : widest title style.textScale + style.textScale ≤ 2147483647) :
    titleWidth checked title style = some (widest title style.textScale) := by
  refine foldlM_some (fun line hline w => ?_) 0
  have hle := (widthOf_le_widest title style.textScale).2 line hline
  rw [textWidth_checked hscale (hlength line hline) (by omega)]
  rfl

theorem drawLines_checked {title : List (List UInt8)} {pad y : ℤ} (hpad : 0 ≤ pad)
    (hwidth : ∀ line ∈ title, pad + line.length * 6 * style.textScale ≤ 2147483647) (hy : 0 ≤ y)
    (hheight : y + title.length * style.line ≤ 2147483647) (c : Canvas) :
    drawLines checked style pad title y c = some (paintLines style pad title y c) := by
  have hline := line_nonneg hscale
  have hdef : style.line = 7 * style.textScale + 4 * style.textScale := rfl
  induction title generalizing y c with
  | nil => rfl
  | cons line title ih =>
    obtain ⟨hfirst, hrest⟩ := List.forall_mem_cons.mp hwidth
    have hlength : ((line :: title).length : ℤ) * style.line =
        style.line + title.length * style.line := by
      rw [List.length_cons]
      push_cast
      ring
    have hbelow : 0 ≤ (title.length : ℤ) * style.line := by positivity
    rw [drawLines, text_checked hscale line ⟨hpad, hfirst⟩ (by omega),
      lineHeight_checked hscale (by omega)]
    refine checked_bind_eq (by omega) (by omega) ?_
    exact ih hrest (by omega) (by omega) _

end Title

section Sheet

variable {title : List (List UInt8)} {tiles : List Tile} {columns cellW cellH pad : ℤ}
  {style : PageStyle}

theorem maxLabel_checked (hlabel : widest (tiles.map Tile.label) 1 < 2147483647) :
    maxLabel checked tiles = some (widest (tiles.map Tile.label) 1) := by
  rw [widest, List.foldl_map]
  refine foldlM_some (fun t ht w => ?_) 0
  have hle := widthOf_label_le ht
  have hlength : t.label.length * 6 ≤ 2147483647 := by
    by_cases hnil : t.label = []
    · rw [hnil]
      decide
    · have hwidth := length_mul_eq hnil 1
      omega
  rw [textWidth_checked zero_le_one hlength (by omega)]
  rfl

variable (h : Fits tiles columns cellW cellH pad style)
  (hpage : PageFits title tiles columns cellW cellH pad style)
include h hpage

/-- **The places of a sheet**, if there is a picture. -/
theorem gridOf_checked {t : Tile} (ht : t ∈ tiles) :
    gridOf checked title tiles columns cellW cellH pad style =
      some (placesOf title tiles columns cellW cellH pad style) := by
  obtain ⟨⟨hpitchW, hpitchW', hpitchW0⟩, hpitchH, -, hpitchH0⟩ := pitch_mem title h ht
  obtain ⟨hcellW, hcellH⟩ := h.cell_nonneg ht
  have htop := heightOfTitle_nonneg title h
  obtain ⟨hcolumns, hpad, hscale, -, -⟩ := h
  obtain ⟨hcount, hlines, hline, hwidth, hheight⟩ := hpage
  have hlabel := (widthOf_le_widest (tiles.map Tile.label) 1).1
  have htitle := (widthOf_le_widest title style.textScale).1
  have hlength := List.length_pos_of_mem ht
  have hrows : 1 ≤ ((tiles.length : ℤ) + columns - 1) / columns ∧
      ((tiles.length : ℤ) + columns - 1) / columns ≤ tiles.length + columns - 1 :=
    ⟨(Int.le_ediv_iff_mul_le hcolumns).mpr (by omega), Int.ediv_le_self _ (by omega)⟩
  have hall := le_mul_of_one_le_left hpitchW0 (show 1 ≤ columns by omega)
  have hall' := le_mul_of_one_le_left hpitchH0 hrows.1
  simp only [placesOf] at *
  generalize hl : widest (tiles.map Tile.label) 1 = label at *
  have hseven : textHeight checked 1 = some 7 := by decide
  have heleven : (checked (7 + 4) : Option ℤ) = some 11 := by decide
  rw [gridOf, hseven, Option.bind_eq_bind, Option.bind_some, heleven, Option.bind_some,
    maxLabel_checked (by omega), hl, Option.bind_some]
  have hextra :
      0 ≤ (if 0 < label then (11 : ℤ) else 0) ∧ (if 0 < label then (11 : ℤ) else 0) ≤ 11 := by
    split_ifs <;> decide
  generalize (if 0 < label then (11 : ℤ) else 0) = extra at *
  refine checked_bind_eq (by omega) (by omega) ?_
  refine checked_bind_eq (by omega) (by omega) ?_
  refine checked_bind_eq (by omega) (by omega) ?_
  refine checked_bind_eq (by omega) (by omega) ?_
  refine checked_bind_eq (by omega) (by omega) ?_
  refine checked_bind_eq (by omega) (by omega) ?_
  rw [Int.tdiv_eq_ediv_of_nonneg (by omega)]
  refine checked_bind_eq (by omega) (by omega) ?_
  rw [titleHeight_checked hscale hpad hlines (by omega), titleWidth_checked hscale hline (by omega)]
  refine checked_bind_eq (by omega) (by omega) ?_
  refine checked_bind_eq (by omega) (by omega) ?_
  refine checked_bind_eq (by omega) (by omega) ?_
  refine checked_bind_eq (by omega) (by omega) ?_
  refine checked_bind_eq (by omega) (by omega) ?_
  refine checked_bind_eq (by omega) (by omega) ?_
  exact checked_bind_eq (by omega) (by omega) rfl

theorem drawTile_checked {t : Tile} {i : ℕ} (ht : tiles[i]? = some t) (c : Canvas) :
    drawTile checked (placesOf title tiles columns cellW cellH pad style) columns cellH pad style c
        (t, i) =
      some (paintTile (placesOf title tiles columns cellW cellH pad style) columns cellH pad style c
        (t, i)) := by
  obtain ⟨hi, rfl⟩ := List.getElem?_eq_some_iff.mp ht
  have hmem := List.getElem_mem hi
  obtain ⟨⟨hpitchW, hlabelW, -⟩, hpitchH, hlabelH, -⟩ := pitch_mem title h hmem
  obtain ⟨⟨hx, hx'⟩, hy, hy'⟩ := tile_mem title h hi
  have hwidth := h.width_le _ hmem
  have hheight := h.height_le _ hmem
  have htop : (placesOf title tiles columns cellW cellH pad style).top =
      pad + heightOfTitle title style pad := rfl
  have htitle := heightOfTitle_nonneg title h
  obtain ⟨hcolumns, hpad, hscale, -, -⟩ := h
  obtain ⟨hcount, -, -, hpageW, hpageH⟩ := hpage
  generalize placesOf title tiles columns cellW cellH pad style = g at *
  rw [Grid.tileX] at hx'
  rw [Grid.tileY] at hy'
  have hi0 : 0 ≤ (i : ℤ) := Int.natCast_nonneg i
  rw [drawTile, paintTile, Grid.tileX, Grid.tileY]
  dsimp only
  refine checked_bind_eq (by omega) (by omega) ?_
  rw [Int.tmod_eq_emod_of_nonneg hi0, Int.tdiv_eq_ediv_of_nonneg hi0]
  refine checked_bind_eq (by omega) (by omega) ?_
  refine checked_bind_eq (by omega) (by omega) ?_
  refine checked_bind_eq (by omega) (by omega) ?_
  refine checked_bind_eq (by omega) (by omega) ?_
  refine checked_bind_eq (by omega) (by omega) ?_
  refine checked_bind_eq (by omega) (by omega) ?_
  by_cases hlabel : tiles[i].label ≠ []
  · have hlength := length_mul_eq hlabel 1
    have hbelow := hlabelH hlabel
    simp only [if_pos hlabel]
    refine checked_bind_eq (by omega) (by omega) ?_
    refine checked_bind_eq (by omega) (by omega) ?_
    exact text_checked zero_le_one _ ⟨by omega, by omega⟩ ⟨by omega, by omega⟩ _ _
  · simp only [if_neg hlabel]
    rfl

/-- **A sheet is drawn without overflow**, and as on exact integers. -/
theorem gridSheet_checked {t : Tile} (ht : t ∈ tiles) :
    gridSheet checked title tiles columns cellW cellH pad style =
      some (paintSheet title tiles columns cellW cellH pad style) := by
  have hpad := h.pad_nonneg
  have hscale := h.scale_nonneg
  have hright : 2 * pad + widest title style.textScale ≤
      (placesOf title tiles columns cellW cellH pad style).width := le_max_right ..
  have hwidest := widthOf_le_widest title style.textScale
  have hwidth := hpage.width_lt
  have hlines (line : List UInt8) (hline : line ∈ title) :
      pad + line.length * 6 * style.textScale ≤ 2147483647 := by
    by_cases hnil : line = []
    · rw [hnil, List.length_nil, Nat.cast_zero, zero_mul, zero_mul]
      omega
    · have hle := hwidest.2 line hline
      have hlength := length_mul_eq hnil style.textScale
      omega
  have htop : pad + title.length * style.line ≤ 2147483647 := by
    obtain ⟨i, hi, rfl⟩ := List.getElem_of_mem ht
    obtain ⟨-, -, -, hpitchH⟩ := pitch_mem title h ht
    obtain ⟨-, hy, hy'⟩ := tile_mem title h hi
    have htop : (placesOf title tiles columns cellW cellH pad style).top =
        pad + heightOfTitle title style pad := rfl
    have hheight := hpage.height_le
    rw [Grid.tileY] at hy'
    rw [heightOfTitle] at htop
    split_ifs at htop with hnil
    · rw [hnil, List.length_nil, Nat.cast_zero, zero_mul]
      omega
    · omega
  rw [gridSheet, gridOf_checked h hpage ht]
  change (drawTitle checked title style pad _ >>= _) = _
  rw [drawTitle, drawLines_checked hscale hpad hlines hpad htop]
  refine foldlM_some (fun p hp c => ?_) _
  obtain ⟨t, i⟩ := p
  exact drawTile_checked h hpage (List.mem_zipIdx_iff_getElem?.mp hp) c

end Sheet

end Lab

end HumanizedHash
