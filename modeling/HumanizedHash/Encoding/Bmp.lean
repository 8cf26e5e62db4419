import HumanizedHash.Encoding.Pixels
import HumanizedHash.Formats.Bitmap

/-!
# The BMP encoder

`encode` of `src/bmp.cpp` and the entry points over it. The file is compared with the format: it
is read back by a reader that checks the redundant fields, and shows the flattened image.

## Main definitions

* `putLe16`, `putLe32`, `bmpRow`, `bmpRows`, `encodeBmpBytes`, `encodeBmp`.

## Main results

* `encodeBmpBytes_eq`: the bytes are those of a header and of rows from the bottom up.
* `toNat_fileSize`: no size wraps.
* `parse_encodeBmpBytes`: a file shows the flattened picture.
* `encodeBmp_decodes`: decoding undoes encoding up to flattening.

## References

* `src/src/bmp.cpp`, `src/docs/SPEC.md` section 12.
-/

namespace HumanizedHash

open ByteOrder

/-! ### The encoder -/

/-- `put_le16`. -/
def putLe16 (v : UInt32) : List UInt8 := [v.toUInt8, (v >>> 8).toUInt8]

/-- `put_le32`. -/
def putLe32 (v : UInt32) : List UInt8 := putLe16 (v &&& 0xFFFF) ++ putLe16 (v >>> 16)

section Encode

variable (img : PixelView) (matte : Rgb)

/-- `row`, the length of a row. -/
def bmpRowSize : UInt32 := 4 * ((3 * img.width + 3) / 4)

/-- `data_size`. -/
def bmpDataSize : UInt32 := bmpRowSize img * img.height

/-- The bytes in front of the rows. -/
def bmpHeader : List UInt8 :=
  [0x42, 0x4D] ++ putLe32 (54 + bmpDataSize img) ++ putLe16 0 ++ putLe16 0 ++ putLe32 54 ++
    putLe32 40 ++ putLe32 img.width ++ putLe32 img.height ++ putLe16 1 ++ putLe16 24 ++
    putLe32 0 ++ putLe32 (bmpDataSize img) ++ putLe32 2835 ++ putLe32 2835 ++ putLe32 0 ++
    putLe32 0

/-- The loop over `x`, for one pixel: blue, green, red. -/
def bmpPixel (x y : ℕ) : List UInt8 :=
  let p := (y * img.width.toNat + x) * 4
  [flatten (img.rgba (p + 2)) (img.rgba (p + 3)) matte.b,
    flatten (img.rgba (p + 1)) (img.rgba (p + 3)) matte.g,
    flatten (img.rgba p) (img.rgba (p + 3)) matte.r]

/-- The body of the loop over `y`: the pixels of a row and the padding. -/
def bmpRow (y : ℕ) : List UInt8 :=
  (List.range img.width.toNat).flatMap (fun x => bmpPixel img matte x y) ++
    List.replicate ((bmpRowSize img).toNat - (3 * img.width).toNat) 0

/-- The loop over `y`, which counts down to zero. -/
def bmpRows : ℕ → List UInt8
  | 0 => []
  | y + 1 => bmpRow img matte y ++ bmpRows y

/-- `encode`. -/
def encodeBmpBytes : List UInt8 := bmpHeader img ++ bmpRows img matte img.height.toNat

/-- `encode_bmp_view`: the code, and the bytes that are left; `allocated` tells whether there is
room for them. -/
def encodeBmpView (allocated : Bool := true) : ErrorCode × List UInt8 :=
  if !allocated then (.outOfMemory, []) else (.ok, encodeBmpBytes img matte)

end Encode

/-- `encode_bmp`. -/
def encodeBmp (img : Image) (matte : Rgb) (allocated : Bool := true) : ErrorCode × List UInt8 :=
  if !validImage img then
    (.invalidImage, [])
  else
    encodeBmpView (viewOfImage img) matte allocated

/-! ### The bytes are those of the format -/

theorem putLe16_eq (v : UInt32) : putLe16 v = littleEndian 2 v.toNat := by
  have hlow := toUInt8_shiftRight_uint32 v.toNat 0 (by decide)
  have hhigh := toUInt8_shiftRight_uint32 v.toNat 8 (by decide)
  rw [UInt32.ofNat_toNat] at hlow hhigh
  rw [UInt32.shiftRight_zero, UInt32.toNat_zero, pow_zero, Nat.div_one] at hlow
  rw [putLe16, hlow, hhigh]
  rfl

theorem putLe32_eq (v : UInt32) : putLe32 v = littleEndian 4 v.toNat := by
  have hlow : (v &&& 0xFFFF).toNat = v.toNat % 2 ^ 16 := by
    rw [UInt32.toNat_and]
    exact Nat.and_two_pow_sub_one_eq_mod v.toNat 16
  have hhigh : (v >>> 16).toNat = v.toNat / 2 ^ 16 := by
    rw [UInt32.toNat_shiftRight]
    exact Nat.shiftRight_eq_div_pow v.toNat 16
  have hmod := littleEndian_mod 2 v.toNat
  rw [putLe32, putLe16_eq, putLe16_eq, hlow, hhigh, littleEndian_add 2 2]
  exact congrArg (· ++ _) hmod

section Format

variable (img : PixelView) (matte : Rgb)

/-- The headers of a file in the terms of the format. -/
def bmpFormatHeader : Bitmap.Header where
  fileType := 0x4D42
  fileSize := (54 + bmpDataSize img).toNat
  reserved₁ := 0
  reserved₂ := 0
  dataOffset := 54
  headerSize := 40
  width := img.width.toNat
  height := img.height.toNat
  planes := 1
  bitCount := 24
  compression := 0
  imageSize := (bmpDataSize img).toNat
  xPixelsPerMetre := 2835
  yPixelsPerMetre := 2835
  coloursUsed := 0
  coloursImportant := 0

/-- A colour in the terms of the format. -/
def Rgb.toColour (c : Rgb) : Bitmap.Colour := (c.r, c.g, c.b)

/-- The colours of a row of the flattened picture. -/
def bmpColours (y : ℕ) : List Bitmap.Colour :=
  (List.range img.width.toNat).map fun x => (flattenedAt img matte x y).toColour

theorem bmpHeader_eq : bmpHeader img = (bmpFormatHeader img).encode := by
  have hmagic : ([0x42, 0x4D] : List UInt8) = littleEndian 2 0x4D42 := rfl
  simp only [bmpHeader, hmagic, putLe16_eq, putLe32_eq, List.append_assoc, UInt32.reduceToNat]
  rfl

theorem fits_bmpFormatHeader : (bmpFormatHeader img).Fits where
  words := by simp [bmpFormatHeader]
  doubleWords := by
    have hfile : (54 + bmpDataSize img).toNat < 256 ^ 4 := UInt32.toNat_lt _
    have hdata : (bmpDataSize img).toNat < 256 ^ 4 := UInt32.toNat_lt _
    have hwidth : img.width.toNat < 256 ^ 4 := UInt32.toNat_lt _
    have hheight : img.height.toNat < 256 ^ 4 := UInt32.toNat_lt _
    simp only [bmpFormatHeader]
    omega

/-! ### No size wraps -/

variable {img}

theorem toNat_three_mul (h : img.width.toNat ≤ 4096) :
    (3 * img.width).toNat = 3 * img.width.toNat := by
  simp only [UInt32.toNat_mul, UInt32.reduceToNat]
  omega

theorem toNat_bmpRowSize (h : img.width.toNat ≤ 4096) :
    (bmpRowSize img).toNat = (bmpFormatHeader img).stride := by
  have hpixels : (3 * img.width).toNat = 3 * img.width.toNat := toNat_three_mul h
  have hround : (3 * img.width + 3).toNat = 3 * img.width.toNat + 3 := by
    simp only [UInt32.toNat_add, hpixels, UInt32.reduceToNat]
    omega
  simp only [bmpRowSize, bmpFormatHeader, Bitmap.Header.stride, UInt32.toNat_mul,
    UInt32.toNat_div, hround, UInt32.reduceToNat]
  omega

theorem stride_le (h : img.width.toNat ≤ 4096) : (bmpFormatHeader img).stride ≤ 12288 := by
  simp only [bmpFormatHeader, Bitmap.Header.stride]
  omega

theorem toNat_bmpDataSize (hwidth : img.width.toNat ≤ 4096) (hheight : img.height.toNat ≤ 4096) :
    (bmpDataSize img).toNat = (bmpFormatHeader img).stride * img.height.toNat := by
  have hproduct := Nat.mul_le_mul (stride_le hwidth) hheight
  simp only [bmpDataSize, UInt32.toNat_mul, toNat_bmpRowSize hwidth]
  omega

/-- The size of the file does not wrap. -/
theorem toNat_fileSize (hwidth : img.width.toNat ≤ 4096) (hheight : img.height.toNat ≤ 4096) :
    (54 + bmpDataSize img).toNat = 54 + (bmpFormatHeader img).stride * img.height.toNat := by
  have hproduct := Nat.mul_le_mul (stride_le hwidth) hheight
  simp only [UInt32.toNat_add, toNat_bmpDataSize hwidth hheight, UInt32.reduceToNat]
  omega

/-! ### The rows -/

theorem bmpRow_eq (h : img.width.toNat ≤ 4096) (y : ℕ) : bmpRow img matte y =
    Bitmap.rowBytes (bmpFormatHeader img).stride (bmpColours img matte y) := by
  rw [bmpRow, Bitmap.rowBytes, bmpColours, List.length_map, List.length_range, List.flatMap_map,
    toNat_bmpRowSize h, toNat_three_mul h]
  rfl

/-- The rows are stored from the bottom up. -/
theorem bmpRows_eq (h : img.width.toNat ≤ 4096) (n : ℕ) : bmpRows img matte n =
    ((List.range n).map (bmpColours img matte)).reverse.flatMap
      (Bitmap.rowBytes (bmpFormatHeader img).stride) := by
  induction n with
  | zero => rfl
  | succ n ih =>
    rw [bmpRows, ih, bmpRow_eq matte h, List.range_succ, List.map_append, List.map_singleton,
      List.reverse_append, List.reverse_singleton, List.flatMap_append, List.flatMap_singleton]

/-- **The bytes of a file**: a header, and the rows from the bottom up. -/
theorem encodeBmpBytes_eq (h : img.width.toNat ≤ 4096) : encodeBmpBytes img matte =
    (bmpFormatHeader img).encode ++
      ((List.range img.height.toNat).map (bmpColours img matte)).reverse.flatMap
        (Bitmap.rowBytes (bmpFormatHeader img).stride) := by
  rw [encodeBmpBytes, bmpHeader_eq, bmpRows_eq matte h]

theorem length_bmpColours (y : ℕ) : (bmpColours img matte y).length = img.width.toNat := by
  rw [bmpColours, List.length_map, List.length_range]

theorem length_bmpRows (h : img.width.toNat ≤ 4096) (n : ℕ) :
    (bmpRows img matte n).length = (bmpFormatHeader img).stride * n := by
  have hwide (row : List Bitmap.Colour)
      (hrow : row ∈ ((List.range n).map (bmpColours img matte)).reverse) :
      3 * row.length ≤ (bmpFormatHeader img).stride := by
    obtain ⟨y, -, rfl⟩ := List.mem_map.mp (List.mem_reverse.mp hrow)
    rw [length_bmpColours]
    simp only [bmpFormatHeader, Bitmap.Header.stride]
    omega
  rw [bmpRows_eq matte h, Bitmap.length_flatMap_rowBytes _ hwide, List.length_reverse,
    List.length_map, List.length_range]

theorem length_encodeBmpBytes (h : img.width.toNat ≤ 4096) :
    (encodeBmpBytes img matte).length =
      54 + (bmpFormatHeader img).stride * img.height.toNat := by
  rw [encodeBmpBytes, List.length_append, bmpHeader_eq, Bitmap.length_encode,
    length_bmpRows matte h]

/-- **Decoding undoes encoding.** The file shows the flattened picture. -/
theorem parse_encodeBmpBytes (hwidth : img.width.toNat ≤ 4096) (hheight : img.height.toNat ≤ 4096) :
    Bitmap.parse (encodeBmpBytes img matte) = some ⟨img.width.toNat, img.height.toNat,
      (List.range img.height.toNat).map (bmpColours img matte)⟩ := by
  have hlength := length_encodeBmpBytes matte hwidth
  have hrows := length_bmpRows matte hwidth img.height.toNat
  rw [encodeBmpBytes_eq matte hwidth] at hlength ⊢
  rw [bmpRows_eq matte hwidth] at hrows
  refine Bitmap.parse_eq (fits_bmpFormatHeader img) ?_ ?_ ?_
  · rw [List.length_map, List.length_range]
    rfl
  · intro row hrow
    obtain ⟨y, -, rfl⟩ := List.mem_map.mp hrow
    exact length_bmpColours matte y
  · rw [hlength, hrows]
    exact ⟨rfl, toNat_fileSize hwidth hheight, rfl, rfl, rfl, rfl, rfl, rfl, rfl,
      toNat_bmpDataSize hwidth hheight, rfl, rfl⟩

end Format

/-! ### Decoding undoes encoding -/

/-- The image that a decoded picture is, with every pixel opaque. -/
def imageOfPicture (p : Bitmap.Picture) : Image :=
  ⟨UInt32.ofNat p.width, UInt32.ofNat p.height,
    p.rows.flatMap fun row => row.flatMap fun c => [c.1, c.2.1, c.2.2, 255]⟩

/-- What the file of an image over a matte shows. -/
def bmpPicture (img : Image) (matte : Rgb) : Bitmap.Picture :=
  ⟨img.width.toNat, img.height.toNat, (List.range img.height.toNat).map fun y =>
    (List.range img.width.toNat).map fun x => ((img.pixel x y).flatten matte).toColour⟩

/-- Every pixel is opaque. -/
def Image.Solid (img : Image) : Prop :=
  ∀ x < img.width.toNat, ∀ y < img.height.toNat, (img.pixel x y).a = 255

/-- An opaque image is what its file shows. -/
theorem imageOfPicture_bmpPicture {img : Image} (h : validImage img = true) (hsolid : img.Solid)
    (matte : Rgb) : imageOfPicture (bmpPicture img matte) = img := by
  have hbytes (x y : ℕ) (hx : x < img.width.toNat) (hy : y < img.height.toNat) :
      [((img.pixel x y).flatten matte).r, ((img.pixel x y).flatten matte).g,
        ((img.pixel x y).flatten matte).b, 255] = (img.pixel x y).bytes := by
    rw [Pixel.flatten_of_solid (hsolid x hx y hy), Pixel.bytes, hsolid x hx y hy]
  have hrow (y : ℕ) (hy : y < img.height.toNat) :
      (Tables.rows img.width.toNat fun x => [((img.pixel x y).flatten matte).r,
        ((img.pixel x y).flatten matte).g, ((img.pixel x y).flatten matte).b, 255]) =
      Tables.rows img.width.toNat fun x => (img.pixel x y).bytes :=
    Tables.rows_congr fun x hx => hbytes x y hx hy
  conv_rhs => rw [← Image.ofPixels_pixel h, Image.ofPixels, ← Tables.rows_congr hrow]
  simp only [imageOfPicture, bmpPicture, UInt32.ofNat_toNat, List.flatMap_map]
  rfl

/-- **Decoding undoes encoding up to flattening.** The file of a valid image is as long as its
headers say; it is read back to the flattened picture, and an opaque image is recovered from it. -/
theorem encodeBmp_decodes (img : Image) (matte : Rgb) (h : validImage img = true) :
    ∃ file, encodeBmp img matte = (.ok, file) ∧
      file.length = 54 + 4 * ((3 * img.width.toNat + 3) / 4) * img.height.toNat ∧
      file.length < 2 ^ 32 ∧ Bitmap.parse file = some (bmpPicture img matte) ∧
      (img.Solid → imageOfPicture (bmpPicture img matte) = img) := by
  obtain ⟨hdimensions, -⟩ := validImage_iff.mp h
  obtain ⟨⟨-, hwidth⟩, -, hheight⟩ := validDimensions_iff.mp hdimensions
  have hlength : (encodeBmpBytes (viewOfImage img) matte).length =
      54 + 4 * ((3 * img.width.toNat + 3) / 4) * img.height.toNat :=
    length_encodeBmpBytes matte hwidth
  refine ⟨encodeBmpBytes (viewOfImage img) matte, ?_, hlength, ?_,
    parse_encodeBmpBytes matte hwidth hheight, fun hsolid =>
      imageOfPicture_bmpPicture h hsolid matte⟩
  · rw [encodeBmp, h]
    rfl
  · have hstride : 4 * ((3 * img.width.toNat + 3) / 4) ≤ 12288 := by omega
    have hproduct := Nat.mul_le_mul hstride hheight
    rw [hlength]
    omega

/-- Two rows of one pixel, the upper one half transparent, over black: the lower row comes first. -/
theorem encodeBmp_decodes_rows :
    let img : Image := ⟨1, 2, [200, 100, 50, 128, 1, 2, 3, 255]⟩
    ∃ file, encodeBmp img ⟨0, 0, 0⟩ = (.ok, file) ∧ file.drop 54 = [3, 2, 1, 0, 25, 50, 100, 0] ∧
      file.length = 62 ∧ file.length < 2 ^ 32 ∧
      Bitmap.parse file = some ⟨1, 2, [[(100, 50, 25)], [(1, 2, 3)]]⟩ ∧
      (img.Solid → imageOfPicture (bmpPicture img ⟨0, 0, 0⟩) = img) := by
  obtain ⟨file, hfile, hdecodes⟩ :=
    encodeBmp_decodes ⟨1, 2, [200, 100, 50, 128, 1, 2, 3, 255]⟩ ⟨0, 0, 0⟩ (by decide)
  refine ⟨file, hfile, ?_, hdecodes⟩
  obtain rfl : encodeBmpBytes (viewOfImage ⟨1, 2, [200, 100, 50, 128, 1, 2, 3, 255]⟩) ⟨0, 0, 0⟩ =
    file := congrArg Prod.snd hfile
  decide

end HumanizedHash
