import HumanizedHash.Encoding.Dct
import HumanizedHash.Encoding.Pixels
import HumanizedHash.Encoding.ScanWriter

/-!
# The JPEG encoder

`encode` of `src/jpeg.cpp`: the header, then for each block position the three components, each
sampled, transformed, quantised and coded. The 32-bit arithmetic of the transform is that of exact
integers, which agrees with it on every block that is sampled (`forwardDct_checked`).

## Main definitions

* `yNumerator`, `cbNumerator`, `crNumerator`, `sampleBlock`: the samples of a block.
* `quantise`, `quantisedBlock`: the values of a block in the order of the file.
* `jpegHeader`, `encodeComponent`, `encodeScan`, `encode`, `encodeJpeg`.
* `scanUnits`: the components of all positions in the order of the file.

## Main results

* `encodeScan_eq`: the scan as one loop over the units.

## References

* `src/src/jpeg.cpp`, `src/docs/SPEC.md` (section 13).
-/

namespace HumanizedHash

/-! ### Samples -/

def yNumerator (r g b : ℤ) : ℤ := 19595 * r + 38470 * g + 7471 * b + 32768

def cbNumerator (r g b : ℤ) : ℤ := -11059 * r - 21709 * g + 32768 * b + 8421375

def crNumerator (r g b : ℤ) : ℤ := 32768 * r - 27439 * g - 5329 * b + 8421375

/-- The numerator of the component `c`. -/
def colourNumerator (c : Fin 3) (r g b : ℤ) : ℤ :=
  match c with
  | 0 => yNumerator r g b
  | 1 => cbNumerator r g b
  | 2 => crNumerator r g b

/-- `block[c]` at the position `(left, top)`, after the loops over `j` and `i` have set each of the
elements `8 * j + i`. -/
def sampleBlock (img : PixelView) (matte : Rgb) (left top : ℕ) (c : Fin 3) : Block :=
  Vector.ofFn fun k : Fin 64 =>
    let y := min (top + k / 8) (img.height.toNat - 1)
    let x := min (left + k % 8) (img.width.toNat - 1)
    let p := flattenedAt img matte x y
    (colourNumerator c p.r.toNat p.g.toNat p.b.toNat).tdiv 65536 - 128

/-! ### Quantisation -/

/-- The rounded quotient of a coefficient. -/
def quantise (coefficient divisor : ℤ) : ℤ :=
  if 0 ≤ coefficient then (coefficient + divisor.tdiv 2).tdiv divisor
  else -(-coefficient + divisor.tdiv 2).tdiv divisor

/-- `zz`: the quantised values in zigzag order. The first one is not clamped. -/
def quantisedBlock (block : Block) (q : Vector UInt8 64) : Vector ℤ 64 :=
  Vector.ofFn fun i =>
    let k := jpegZigzag.get i
    let value := quantise (block.get k) (8 * (q.get k).toNat)
    if i.val ≠ 0 then clamp value (-1023) 1023 else value

/-! ### The scan -/

/-- Which of the two tables of each kind a component uses. -/
def tableOf (c : Fin 3) : Fin 2 := if c = 0 then 0 else 1

/-- `quantiser`. -/
def quantisers (quality : ℤ) : Fin 2 → Vector UInt8 64
  | 0 => scaleQuantiser jpegLuminanceQuantiser quality
  | 1 => scaleQuantiser jpegChrominanceQuantiser quality

def dcSpecs : Fin 2 → JpegHuffmanSpec
  | 0 => jpegDcLuminance
  | 1 => jpegDcChrominance

def acSpecs : Fin 2 → JpegHuffmanSpec
  | 0 => jpegAcLuminance
  | 1 => jpegAcChrominance

/-- `dc`. -/
def dcTables (t : Fin 2) : HuffmanEncoder := build (dcSpecs t)

/-- `ac`. -/
def acTables (t : Fin 2) : HuffmanEncoder := build (acSpecs t)

/-- The variables that live across the block loops. -/
structure ScanState where
  writer : ScanWriter
  previousDc : Fin 3 → ℤ

/-- A component of a position: its left and top, and the component. -/
structure ScanUnit where
  left : ℕ
  top : ℕ
  component : Fin 3

section Scan

variable (img : PixelView) (quality : ℤ) (matte : Rgb)

/-- The quantised values of a component of a position. -/
def unitBlock (u : ScanUnit) : Vector ℤ 64 :=
  let block := Id.run (forwardDct unbounded (sampleBlock img matte u.left u.top u.component))
  quantisedBlock block (quantisers quality (tableOf u.component))

/-- The loop over the components, for one of them. -/
def encodeComponent (left top : ℕ) (st : ScanState) (c : Fin 3) : ScanState :=
  let zz := unitBlock img quality matte ⟨left, top, c⟩
  let (w, previous) := encodeBlock st.writer zz (st.previousDc c) (dcTables (tableOf c))
    (acTables (tableOf c))
  ⟨w, Function.update st.previousDc c previous⟩

/-- The number of blocks along a side. -/
def blockCount (side : UInt32) : ℕ := (side.toNat + 7) / 8

/-- The block loops. -/
def encodeScan (st : ScanState) : ScanState :=
  (List.range (blockCount img.height)).foldl (fun st row =>
    (List.range (blockCount img.width)).foldl (fun st column =>
      (List.finRange 3).foldl (encodeComponent img quality matte (8 * column) (8 * row)) st) st) st

end Scan

/-! ### The file -/

/-- `put_be16`. -/
def putBe16 (v : UInt32) : List UInt8 := [(v >>> 8).toUInt8, v.toUInt8]

/-- `put_quantiser`. -/
def putQuantiser (id : UInt8) (table : Vector UInt8 64) : List UInt8 :=
  [0xFF, 0xDB] ++ putBe16 67 ++ [id] ++ jpegZigzag.toList.map fun k => table.get k

/-- `put_huffman`. -/
def putHuffman (id : UInt8) (spec : JpegHuffmanSpec) : List UInt8 :=
  [0xFF, 0xC4] ++ putBe16 (2 + 1 + 16 + UInt32.ofNat spec.symbols.length) ++ [id] ++
    spec.counts.toList ++ spec.symbols

/-- The bytes in front of the entropy-coded data. -/
def jpegHeader (img : PixelView) (quality : ℤ) : List UInt8 :=
  [0xFF, 0xD8, 0xFF, 0xE0, 0x00, 0x10, 0x4A, 0x46, 0x49, 0x46, 0x00, 0x01, 0x02, 0x00, 0x00, 0x01,
    0x00, 0x01, 0x00, 0x00] ++
  putQuantiser 0 (quantisers quality 0) ++ putQuantiser 1 (quantisers quality 1) ++
  [0xFF, 0xC0] ++ putBe16 17 ++ [8] ++ putBe16 img.height ++ putBe16 img.width ++
  [3, 1, 0x11, 0, 2, 0x11, 1, 3, 0x11, 1] ++
  putHuffman 0x00 jpegDcLuminance ++ putHuffman 0x10 jpegAcLuminance ++
  putHuffman 0x01 jpegDcChrominance ++ putHuffman 0x11 jpegAcChrominance ++
  [0xFF, 0xDA, 0x00, 0x0C, 3, 1, 0x00, 2, 0x11, 3, 0x11, 0, 63, 0]

/-- The variables in front of the block loops. -/
def ScanState.start (header : List UInt8) : ScanState := ⟨.new header, fun _ => 0⟩

/-- `encode`. -/
def encodeJpegBytes (img : PixelView) (quality : ℤ) (matte : Rgb) : List UInt8 :=
  let st := encodeScan img quality matte (.start (jpegHeader img quality))
  st.writer.finish.out ++ [0xFF, 0xD9]

/-- `encode_jpeg_view`: the code, and the bytes that are left; `allocated` tells whether there is
room for them. -/
def encodeJpegView (img : PixelView) (quality : ℤ) (matte : Rgb) (allocated : Bool := true) :
    ErrorCode × List UInt8 :=
  if quality < 50 ∨ 100 < quality then
    (.invalidQuality, [])
  else if !allocated then
    (.outOfMemory, [])
  else
    (.ok, encodeJpegBytes img quality matte)

/-- `encode_jpeg`. -/
def encodeJpeg (img : Image) (quality : ℤ) (matte : Rgb) (allocated : Bool := true) :
    ErrorCode × List UInt8 :=
  if !validImage img then
    (.invalidImage, [])
  else
    encodeJpegView (viewOfImage img) quality matte allocated

/-! ### The units of the scan -/

/-- The components of all positions, in the order of the file. -/
def scanUnits (img : PixelView) : List ScanUnit :=
  (List.range (blockCount img.height)).flatMap fun row =>
    (List.range (blockCount img.width)).flatMap fun column =>
      (List.finRange 3).map fun c => ⟨8 * column, 8 * row, c⟩

/-- The step of the scan for one unit. -/
def encodeUnit (img : PixelView) (quality : ℤ) (matte : Rgb) (st : ScanState) (u : ScanUnit) :
    ScanState :=
  encodeComponent img quality matte u.left u.top st u.component

/-- The scan is one loop over the units. -/
theorem encodeScan_eq (img : PixelView) (quality : ℤ) (matte : Rgb) (st : ScanState) :
    encodeScan img quality matte st =
      (scanUnits img).foldl (encodeUnit img quality matte) st := by
  simp only [encodeScan, scanUnits, List.foldl_flatMap, List.foldl_map]
  rfl

end HumanizedHash
