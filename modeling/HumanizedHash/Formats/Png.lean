import HumanizedHash.Formats.Checksum
import HumanizedHash.Formats.Inflate
import HumanizedHash.Foundations.Reader

/-!
# Portable network graphics

A reader of the files with one image data chunk, eight bits a sample, no interlacing and the filter
type 0 on every row: the signature, then the header, the colour space, the image data and the end,
each in a chunk whose length and check are right, and nothing behind. The image data is a zlib
stream of one block with the fixed codes; the block ends in the last byte before the trailer, and
the trailer is the checksum of what it holds.

## Main definitions

* `Png.chunk`, `Png.readChunk`: a chunk.
* `Png.Header`, `Png.readZlib`, `Png.readRow`.
* `Png.Picture`, `Png.parse`.

## Main results

* `Png.readChunk_append`: a chunk is read back.
* `Png.readZlib_append`: a zlib stream is read back.
* `Png.parse_eq`: a file of four chunks is read back.
-/

namespace HumanizedHash

open Bits ByteOrder

namespace Png

/-! ### Chunks -/

/-- The bytes of a chunk. -/
def chunk (type data : List UInt8) : List UInt8 :=
  bigEndian 4 data.length ++ (type ++ (data ++ bigEndian 4 (Checksum.crc32 (type ++ data))))

/-- The data of a chunk of a given type. The lengths and the dimensions of the format are below
`2 ^ 31`. -/
def readChunk (type : List UInt8) : Reader (List UInt8) := fun l => do
  let (n, l) ← Reader.be 4 l
  let (_, l) ← Reader.expect type l
  let (data, l) ← Reader.bytes n l
  let (crc, l) ← Reader.be 4 l
  if n < 2 ^ 31 ∧ crc = Checksum.crc32 (type ++ data) then return (data, l) else none

theorem crc32_lt (data : List UInt8) : Checksum.crc32 data < 256 ^ 4 := by
  have hpow : (256 : ℕ) ^ 4 = 2 ^ 32 := rfl
  rw [Checksum.crc32]
  omega

/-- **A chunk is read back.** -/
theorem readChunk_append (type : List UInt8) {data : List UInt8} (hlength : data.length < 2 ^ 31)
    (rest : List UInt8) : readChunk type (chunk type data ++ rest) = some (data, rest) := by
  have hfits : data.length < 256 ^ 4 := hlength.trans (by decide)
  simp only [chunk, List.append_assoc]
  rw [readChunk]
  simp only [↓Reader.be_bind hfits, Reader.expect_append, Option.bind_eq_bind, Option.bind_some,
    Reader.bytes_append, Reader.be_append (crc32_lt (type ++ data))]
  exact if_pos ⟨hlength, trivial⟩

/-! ### The header -/

/-- The dimensions and the colour type: 2 for three samples a pixel, 6 for four. -/
structure Header where
  width : ℕ
  height : ℕ
  colourType : UInt8
  deriving DecidableEq

/-- The data of the header chunk: the fields, and the bit depth, the methods and the interlacing
that are accepted. -/
def readHeader (data : List UInt8) : Option Header := do
  let (width, l) ← Reader.be 4 data
  let (height, l) ← Reader.be 4 l
  let (_, l) ← Reader.expect [8] l
  let (colourType, l) ← Reader.byte l
  let (_, l) ← Reader.expect [0, 0, 0] l
  if (0 < width ∧ width < 2 ^ 31) ∧ (0 < height ∧ height < 2 ^ 31) ∧
      (colourType = 2 ∨ colourType = 6) ∧ l = [] then
    return ⟨width, height, colourType⟩
  else
    none

theorem readHeader_append {width height : ℕ} {colourType : UInt8}
    (hwidth : 0 < width ∧ width < 2 ^ 31) (hheight : 0 < height ∧ height < 2 ^ 31)
    (htype : colourType = 2 ∨ colourType = 6) :
    readHeader (bigEndian 4 width ++ (bigEndian 4 height ++ [8, colourType, 0, 0, 0])) =
      some ⟨width, height, colourType⟩ := by
  have hdepth (l : List UInt8) : Reader.expect [8] (8 :: l) = some ((), l) :=
    Reader.expect_append [8] l
  have hmethods : Reader.expect [0, 0, 0] [0, 0, 0] = some ((), []) :=
    Reader.expect_append [0, 0, 0] []
  have hwidth4 : width < 256 ^ 4 := hwidth.2.trans (by decide)
  have hheight4 : height < 256 ^ 4 := hheight.2.trans (by decide)
  rw [readHeader]
  simp only [↓Reader.be_bind hwidth4, ↓Reader.be_bind hheight4, hdepth, Reader.byte_cons, hmethods,
    Option.bind_eq_bind, Option.bind_some]
  exact if_pos ⟨hwidth, hheight, htype, trivial⟩

/-! ### The image data -/

/-- The content of a zlib stream: the compression method, the size of the window, the check of the
first two bytes and the absence of a dictionary, then one block, then the checksum. -/
def readZlib (data : List UInt8) : Option (List UInt8) := do
  let (cmf, l) ← Reader.byte data
  let (flg, l) ← Reader.byte l
  let (body, l) ← Reader.bytes (l.length - 4) l
  let (adler, l) ← Reader.be 4 l
  let (raw, bits) ← Inflate.inflate (lsbOf body)
  if cmf.toNat % 16 = 8 ∧ cmf.toNat / 16 ≤ 7 ∧ (cmf.toNat * 256 + flg.toNat) % 31 = 0 ∧
      flg.toNat / 32 % 2 = 0 ∧ bits.length < 8 ∧ adler = Checksum.adler32 raw ∧ l = [] then
    return raw
  else
    none

theorem adler32_lt (data : List UInt8) : Checksum.adler32 data < 256 ^ 4 := by
  have hpow : (256 : ℕ) ^ 4 = 65536 * 65536 := rfl
  have hbound (s : ℕ × ℕ) (hs : s.1 < 65521 ∧ s.2 < 65521) :
      (data.foldl Checksum.adlerStep s).1 < 65521 ∧
        (data.foldl Checksum.adlerStep s).2 < 65521 := by
    induction data generalizing s with
    | nil => exact hs
    | cons b data ih => exact ih _ ⟨Nat.mod_lt _ (by decide), Nat.mod_lt _ (by decide)⟩
  have hsums := hbound (1, 0) (by decide)
  rw [Checksum.adler32]
  omega

/-- **A zlib stream is read back.** -/
theorem readZlib_append {body raw : List UInt8} {pad : ℕ} (hpad : pad < 8)
    (hbody : Inflate.inflate (lsbOf body) = some (raw, List.replicate pad false)) :
    readZlib ([0x78, 0x01] ++ (body ++ bigEndian 4 (Checksum.adler32 raw))) = some raw := by
  have hlength : (body ++ bigEndian 4 (Checksum.adler32 raw)).length - 4 = body.length := by
    rw [List.length_append, length_bigEndian, Nat.add_sub_cancel]
  have htrailer := Reader.be_append (adler32_lt raw) []
  rw [List.append_nil] at htrailer
  rw [readZlib]
  simp only [List.cons_append, List.nil_append, Reader.byte_cons, Option.bind_eq_bind,
    Option.bind_some, hlength, Reader.bytes_append, htrailer, hbody]
  exact if_pos ⟨rfl, by decide, rfl, rfl, by rwa [List.length_replicate], trivial, trivial⟩

/-! ### The pixels -/

/-- A pixel, as red, green, blue and alpha. -/
abbrev Colour := UInt8 × UInt8 × UInt8 × UInt8

/-- A pixel; without an alpha sample it is opaque. -/
def readPixel (colourType : UInt8) : Reader Colour := fun l => do
  let (r, l) ← Reader.byte l
  let (g, l) ← Reader.byte l
  let (b, l) ← Reader.byte l
  if colourType = 2 then
    return ((r, g, b, 255), l)
  else
    let (a, l) ← Reader.byte l
    return ((r, g, b, a), l)

/-- A row: the filter type 0 and the pixels. -/
def readRow (colourType : UInt8) (width : ℕ) : Reader (List Colour) := fun l => do
  let (_, l) ← Reader.expect [0] l
  Reader.many (readPixel colourType) width l

/-- The bytes of a pixel. -/
def pixelBytes (colourType : UInt8) (c : Colour) : List UInt8 :=
  if colourType = 2 then [c.1, c.2.1, c.2.2.1] else [c.1, c.2.1, c.2.2.1, c.2.2.2]

/-- The bytes of a row. -/
def rowBytes (colourType : UInt8) (row : List Colour) : List UInt8 :=
  0 :: row.flatMap (pixelBytes colourType)

/-- What a file shows: the header, and the rows from the top, each from the left. -/
structure Picture extends Header where
  rows : List (List Colour)
  deriving DecidableEq

/-- The picture of a file. -/
def parse (file : List UInt8) : Option Picture := do
  let (_, l) ← Reader.expect [0x89, 0x50, 0x4E, 0x47, 0x0D, 0x0A, 0x1A, 0x0A] file
  let (ihdr, l) ← readChunk [0x49, 0x48, 0x44, 0x52] l
  let (srgb, l) ← readChunk [0x73, 0x52, 0x47, 0x42] l
  let (idat, l) ← readChunk [0x49, 0x44, 0x41, 0x54] l
  let (iend, l) ← readChunk [0x49, 0x45, 0x4E, 0x44] l
  let header ← readHeader ihdr
  let raw ← readZlib idat
  let (rows, rest) ← Reader.many (readRow header.colourType header.width) header.height raw
  if srgb.length = 1 ∧ iend = [] ∧ l = [] ∧ rest = [] then return ⟨header, rows⟩ else none

/-- A pixel is read back, if the colour type shows its alpha. -/
theorem inverts_readPixel {colourType : UInt8} {c : Colour}
    (h : colourType = 2 → c.2.2.2 = 255) :
    Reader.Inverts (readPixel colourType) (pixelBytes colourType) id c := by
  intro rest
  obtain ⟨r, g, b, a⟩ := c
  rw [readPixel, pixelBytes]
  by_cases htype : colourType = 2
  · obtain rfl : a = 255 := h htype
    simp only [if_pos htype]
    rfl
  · simp only [if_neg htype]
    rfl

theorem inverts_readRow {colourType : UInt8} {row : List Colour}
    (h : colourType = 2 → ∀ c ∈ row, c.2.2.2 = 255) :
    Reader.Inverts (readRow colourType row.length) (rowBytes colourType) id row := by
  intro rest
  have hfilter (l : List UInt8) : Reader.expect [0] (0 :: l) = some ((), l) :=
    Reader.expect_append [0] l
  have hpixels := Reader.inverts_many row
    (fun c hc => inverts_readPixel fun htype => h htype c hc) rest
  rw [readRow, rowBytes, List.cons_append]
  simp only [hfilter, Option.bind_eq_bind, Option.bind_some, hpixels, List.map_id, id]

/-- **A file of four chunks is read back.** -/
theorem parse_eq {header : Header} {rows : List (List Colour)} {ihdr idat : List UInt8}
    (hihdr : ihdr.length < 2 ^ 31) (hheader : readHeader ihdr = some header)
    (hidat : idat.length < 2 ^ 31)
    (hzlib : readZlib idat = some (rows.flatMap (rowBytes header.colourType)))
    (hheight : rows.length = header.height) (hwidth : ∀ row ∈ rows, row.length = header.width)
    (halpha : header.colourType = 2 → ∀ row ∈ rows, ∀ c ∈ row, c.2.2.2 = 255) :
    parse ([0x89, 0x50, 0x4E, 0x47, 0x0D, 0x0A, 0x1A, 0x0A] ++
      (chunk [0x49, 0x48, 0x44, 0x52] ihdr ++ (chunk [0x73, 0x52, 0x47, 0x42] [0] ++
        (chunk [0x49, 0x44, 0x41, 0x54] idat ++ chunk [0x49, 0x45, 0x4E, 0x44] [])))) =
      some ⟨header, rows⟩ := by
  have hread (row : List Colour) (hrow : row ∈ rows) :
      Reader.Inverts (readRow header.colourType header.width) (rowBytes header.colourType) id
        row := by
    rw [← hwidth row hrow]
    exact inverts_readRow fun htype => halpha htype row hrow
  have hrows := Reader.inverts_many rows hread []
  rw [hheight, List.append_nil, List.map_id] at hrows
  have hend : readChunk [0x49, 0x45, 0x4E, 0x44] (chunk [0x49, 0x45, 0x4E, 0x44] []) =
      some ([], []) := by
    have happend := readChunk_append [0x49, 0x45, 0x4E, 0x44]
      (show ([] : List UInt8).length < 2 ^ 31 by decide) []
    rwa [List.append_nil] at happend
  rw [parse, Reader.expect_append]
  simp only [Option.bind_eq_bind, Option.bind_some, readChunk_append _ hihdr,
    readChunk_append _ (show [(0 : UInt8)].length < 2 ^ 31 by decide), readChunk_append _ hidat,
    hend, hheader, hzlib, hrows]
  rfl

end Png

end HumanizedHash
