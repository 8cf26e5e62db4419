import HumanizedHash.Foundations.Reader

/-!
# Uncompressed bitmap files

A reader of the bitmap files with 24 bits a pixel and no compression: a `BITMAPFILEHEADER` and a
`BITMAPINFOHEADER`, then the rows from the bottom up, each with its pixels in the order blue,
green, red and zeros up to a multiple of four bytes. The redundant fields are checked: the size of
the file, the place and the size of the pixel data, the number of planes, the compression, and
that nothing follows the rows.

## Main definitions

* `Bitmap.Header`, `Bitmap.readHeader`, `Bitmap.Header.Valid`.
* `Bitmap.Picture`, `Bitmap.parse`.

## Main results

* `Bitmap.readHeader_append`: a header is read back.
* `Bitmap.parse_eq`: a file with a valid header and rows from the bottom up.
-/

open ByteOrder

namespace Bitmap

/-! ### The headers -/

/-- The fields of the two headers, in the order of the file. -/
structure Header where
  fileType : ℕ
  fileSize : ℕ
  reserved₁ : ℕ
  reserved₂ : ℕ
  dataOffset : ℕ
  headerSize : ℕ
  width : ℕ
  height : ℕ
  planes : ℕ
  bitCount : ℕ
  compression : ℕ
  imageSize : ℕ
  xPixelsPerMetre : ℕ
  yPixelsPerMetre : ℕ
  coloursUsed : ℕ
  coloursImportant : ℕ

namespace Header

/-- The bytes of a header. -/
def encode (h : Header) : List UInt8 :=
  littleEndian 2 h.fileType ++ (littleEndian 4 h.fileSize ++ (littleEndian 2 h.reserved₁ ++
    (littleEndian 2 h.reserved₂ ++ (littleEndian 4 h.dataOffset ++ (littleEndian 4 h.headerSize ++
    (littleEndian 4 h.width ++ (littleEndian 4 h.height ++ (littleEndian 2 h.planes ++
    (littleEndian 2 h.bitCount ++ (littleEndian 4 h.compression ++ (littleEndian 4 h.imageSize ++
    (littleEndian 4 h.xPixelsPerMetre ++ (littleEndian 4 h.yPixelsPerMetre ++
    (littleEndian 4 h.coloursUsed ++ littleEndian 4 h.coloursImportant))))))))))))))

/-- The fields fit their widths. -/
structure Fits (h : Header) : Prop where
  words : h.fileType < 256 ^ 2 ∧ h.reserved₁ < 256 ^ 2 ∧ h.reserved₂ < 256 ^ 2 ∧
    h.planes < 256 ^ 2 ∧ h.bitCount < 256 ^ 2
  doubleWords : h.fileSize < 256 ^ 4 ∧ h.dataOffset < 256 ^ 4 ∧ h.headerSize < 256 ^ 4 ∧
    h.width < 256 ^ 4 ∧ h.height < 256 ^ 4 ∧ h.compression < 256 ^ 4 ∧ h.imageSize < 256 ^ 4 ∧
    h.xPixelsPerMetre < 256 ^ 4 ∧ h.yPixelsPerMetre < 256 ^ 4 ∧ h.coloursUsed < 256 ^ 4 ∧
    h.coloursImportant < 256 ^ 4

/-- The length of a row of pixels and padding: a multiple of four bytes. -/
def stride (h : Header) : ℕ := 4 * ((3 * h.width + 3) / 4)

/-- What the fields of a file of `fileSize` bytes with `dataSize` bytes of pixel data must be. -/
def Valid (h : Header) (fileSize dataSize : ℕ) : Prop :=
  h.fileType = 0x4D42 ∧ h.fileSize = fileSize ∧ h.reserved₁ = 0 ∧ h.reserved₂ = 0 ∧
    h.dataOffset = 54 ∧ h.headerSize = 40 ∧ h.planes = 1 ∧ h.bitCount = 24 ∧ h.compression = 0 ∧
    h.imageSize = dataSize ∧ h.coloursUsed = 0 ∧ h.coloursImportant = 0

instance (h : Header) (fileSize dataSize : ℕ) : Decidable (h.Valid fileSize dataSize) :=
  inferInstanceAs (Decidable (_ ∧ _))

end Header

/-- The headers at the front of a file. -/
def readHeader : Reader Header := fun l => do
  let (fileType, l) ← Reader.le 2 l
  let (fileSize, l) ← Reader.le 4 l
  let (reserved₁, l) ← Reader.le 2 l
  let (reserved₂, l) ← Reader.le 2 l
  let (dataOffset, l) ← Reader.le 4 l
  let (headerSize, l) ← Reader.le 4 l
  let (width, l) ← Reader.le 4 l
  let (height, l) ← Reader.le 4 l
  let (planes, l) ← Reader.le 2 l
  let (bitCount, l) ← Reader.le 2 l
  let (compression, l) ← Reader.le 4 l
  let (imageSize, l) ← Reader.le 4 l
  let (xPixelsPerMetre, l) ← Reader.le 4 l
  let (yPixelsPerMetre, l) ← Reader.le 4 l
  let (coloursUsed, l) ← Reader.le 4 l
  let (coloursImportant, l) ← Reader.le 4 l
  return (⟨fileType, fileSize, reserved₁, reserved₂, dataOffset, headerSize, width, height, planes,
    bitCount, compression, imageSize, xPixelsPerMetre, yPixelsPerMetre, coloursUsed,
    coloursImportant⟩, l)

/-- **A header is read back.** -/
theorem readHeader_append {h : Header} (hfits : h.Fits) (rest : List UInt8) :
    readHeader (h.encode ++ rest) = some (h, rest) := by
  obtain ⟨⟨h₁, h₂, h₃, h₄, h₅⟩, k₁, k₂, k₃, k₄, k₅, k₆, k₇, k₈, k₉, k₁₀, k₁₁⟩ := hfits
  simp only [Header.encode, List.append_assoc]
  rw [readHeader]
  simp only [↓Reader.le_bind h₁, ↓Reader.le_bind h₂, ↓Reader.le_bind h₃, ↓Reader.le_bind h₄,
    ↓Reader.le_bind h₅, ↓Reader.le_bind k₁, ↓Reader.le_bind k₂, ↓Reader.le_bind k₃,
    ↓Reader.le_bind k₄, ↓Reader.le_bind k₅, ↓Reader.le_bind k₆, ↓Reader.le_bind k₇,
    ↓Reader.le_bind k₈, ↓Reader.le_bind k₉, ↓Reader.le_bind k₁₀, ↓Reader.le_bind k₁₁,
    Option.pure_def]

theorem length_encode (h : Header) : h.encode.length = 54 := by
  simp only [Header.encode, List.length_append, length_littleEndian]

/-! ### The rows -/

/-- A pixel, as red, green and blue. -/
abbrev Colour := UInt8 × UInt8 × UInt8

/-- The bytes of a pixel. -/
def pixelBytes (c : Colour) : List UInt8 := [c.2.2, c.2.1, c.1]

/-- The bytes of a row: its pixels and zeros. -/
def rowBytes (stride : ℕ) (row : List Colour) : List UInt8 :=
  row.flatMap pixelBytes ++ List.replicate (stride - 3 * row.length) 0

theorem length_pixels : (row : List Colour) → (row.flatMap pixelBytes).length = 3 * row.length
  | [] => rfl
  | c :: row => by
    rw [List.flatMap_cons, List.length_append, length_pixels row, List.length_cons, Nat.mul_succ,
      Nat.add_comm]
    rfl

theorem length_rowBytes {stride : ℕ} {row : List Colour} (h : 3 * row.length ≤ stride) :
    (rowBytes stride row).length = stride := by
  rw [rowBytes, List.length_append, length_pixels, List.length_replicate]
  omega

theorem length_flatMap_rowBytes {stride : ℕ} (rows : List (List Colour))
    (h : ∀ row ∈ rows, 3 * row.length ≤ stride) :
    (rows.flatMap (rowBytes stride)).length = stride * rows.length := by
  induction rows with
  | nil => rfl
  | cons row rows ih =>
    rw [List.flatMap_cons, List.length_append, length_rowBytes (h row List.mem_cons_self),
      ih fun r hr => h r (List.mem_cons_of_mem row hr), List.length_cons, Nat.mul_succ,
      Nat.add_comm]

/-- A pixel in the order of the file. -/
def readPixel : Reader Colour := fun l => do
  let (b, l) ← Reader.byte l
  let (g, l) ← Reader.byte l
  let (r, l) ← Reader.byte l
  return ((r, g, b), l)

/-- A row of `width` pixels and the zeros behind it. -/
def readRow (width stride : ℕ) : Reader (List Colour) := fun l => do
  let (row, l) ← Reader.many readPixel width l
  let (_, l) ← Reader.expect (List.replicate (stride - 3 * width) 0) l
  return (row, l)

/-- What a file shows: the rows from the top, each from the left. -/
structure Picture where
  width : ℕ
  height : ℕ
  rows : List (List Colour)
  deriving DecidableEq

/-- The picture of a file. -/
def parse (file : List UInt8) : Option Picture := do
  let (h, data) ← readHeader file
  if h.Valid file.length data.length then
    let (rows, rest) ← Reader.many (readRow h.width h.stride) h.height data
    if rest = [] then
      return ⟨h.width, h.height, rows.reverse⟩
    else
      none
  else
    none

theorem inverts_readPixel (c : Colour) : Reader.Inverts readPixel pixelBytes id c := by
  intro rest
  rfl

theorem inverts_readRow {width stride : ℕ} {row : List Colour} (h : row.length = width) :
    Reader.Inverts (readRow width stride) (rowBytes stride) id row := by
  intro rest
  subst h
  have hpixels := Reader.inverts_many row (fun c _ => inverts_readPixel c)
    (List.replicate (stride - 3 * row.length) 0 ++ rest)
  simp only [readRow, rowBytes, List.append_assoc, hpixels, Option.bind_eq_bind, Option.bind_some,
    Reader.expect_append, Option.pure_def, List.map_id, id]

/-- **A file is read back.** Its header is valid and its rows follow from the bottom up. -/
theorem parse_eq {h : Header} {rows : List (List Colour)} (hfits : h.Fits)
    (hheight : rows.length = h.height) (hwidth : ∀ row ∈ rows, row.length = h.width)
    (hvalid : h.Valid (h.encode ++ rows.reverse.flatMap (rowBytes h.stride)).length
      (rows.reverse.flatMap (rowBytes h.stride)).length) :
    parse (h.encode ++ rows.reverse.flatMap (rowBytes h.stride)) =
      some ⟨h.width, h.height, rows⟩ := by
  have hread (row : List Colour) (hrow : row ∈ rows.reverse) :
      Reader.Inverts (readRow h.width h.stride) (rowBytes h.stride) id row :=
    inverts_readRow (hwidth row (List.mem_reverse.mp hrow))
  have hrows := Reader.inverts_many rows.reverse hread []
  rw [List.length_reverse, hheight, List.append_nil, List.map_id] at hrows
  simp only [parse, readHeader_append hfits, Option.bind_eq_bind, Option.bind_some, if_pos hvalid,
    hrows, if_true, List.reverse_reverse, Option.pure_def]

end Bitmap
