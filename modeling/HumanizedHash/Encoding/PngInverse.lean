import HumanizedHash.Encoding.DeflateInverse
import HumanizedHash.Encoding.Png
import HumanizedHash.Formats.Png

/-!
# Decoding undoes the PNG encoder

The file of a valid image is read back by a decoder that checks the chunks, the stream and the
checksums, and shows the pixels of the image.

## Main definitions

* `pngColours`: the pixels of a row in the terms of the format.
* `pngPicture`, `imageOfPng`: what a file shows, and the image that it is.

## Main results

* `encodePngBytes_eq`: a file is the signature and four chunks.
* `readZlib_pngZlib`: the stream is read back.
* `encodePng_decodes`: decoding undoes encoding.

## References

* `src/src/png.cpp`, `src/docs/SPEC.md` (section 11).
-/

namespace HumanizedHash

open Bits ByteOrder

theorem putBe32_eq (v : UInt32) : putBe32 v = bigEndian 4 v.toNat := by
  have hbytes := shiftRight_uint32_eq_bigEndian v.toNat
  rwa [UInt32.ofNat_toNat] at hbytes

/-- **A chunk is put behind the output.** -/
theorem putChunk_eq (out type data : List UInt8) (hlength : data.length < 2 ^ 32) :
    putChunk out type data = out ++ Png.chunk type data := by
  have hsize : (UInt32.ofNat data.length).toNat = data.length := by
    rw [UInt32.toNat_ofNat', Nat.mod_eq_of_lt hlength]
  have hdrop (front : List UInt8) : (front ++ type ++ data).drop front.length = type ++ data := by
    rw [List.append_assoc, List.drop_left]
  simp only [putChunk, hdrop]
  simp only [Png.chunk, putBe32_eq, hsize, toNat_crc32, List.append_assoc]

section Encode

variable (img : PixelView)

/-- The colour type. -/
def pngColourType : UInt8 := if allSolid img then 2 else 6

/-- The pixels of a row in the terms of the format. -/
def pngColours (y : ℕ) : List Png.Colour :=
  (List.range img.width.toNat).map fun x =>
    let p := (y * img.width.toNat + x) * 4
    (img.rgba p, img.rgba (p + 1), img.rgba (p + 2), img.rgba (p + 3))

theorem pngRow_eq (y : ℕ) :
    pngRow img y = Png.rowBytes (pngColourType img) (pngColours img y) := by
  rw [pngRow, Png.rowBytes, pngColours, List.flatMap_map]
  refine congrArg (0 :: ·) (List.flatMap_congr fun x _ => ?_)
  have hplace : y * img.width.toNat * 4 + 4 * x = (y * img.width.toNat + x) * 4 := by ring
  rw [pngBpp, pngColourType, Png.pixelBytes, hplace]
  cases allSolid img <;> rfl

theorem pngRaw_eq : pngRaw img = ((List.range img.height.toNat).map (pngColours img)).flatMap
    (Png.rowBytes (pngColourType img)) := by
  rw [pngRaw, List.flatMap_map]
  exact List.flatMap_congr fun y _ => pngRow_eq img y

theorem length_pngRow (y : ℕ) : (pngRow img y).length = pngStride img := by
  have hpixel (x : ℕ) : ((List.range (pngBpp img)).map fun i =>
      img.rgba (y * img.width.toNat * 4 + 4 * x + i)).length = pngBpp img := by
    rw [List.length_map, List.length_range]
  have hpixels := Tables.length_rows hpixel img.width.toNat
  rw [pngRow, List.length_cons, pngStride, Nat.add_comm 1]
  exact congrArg Nat.succ hpixels

theorem length_pngRaw : (pngRaw img).length = img.height.toNat * pngStride img :=
  Tables.length_rows (length_pngRow img) _

theorem pngStride_mem (hwidth : img.width.toNat ≤ 4096) :
    1 ≤ pngStride img ∧ pngStride img ≤ 16385 := by
  have hproduct := Nat.mul_le_mul hwidth (pngBpp_le img)
  rw [pngStride]
  omega

theorem pngBpp_mem : 1 ≤ pngBpp img ∧ pngBpp img ≤ 32768 := by
  rw [pngBpp]
  split_ifs <;> decide

/-- **The stream is read back**, and its length fits a chunk. -/
theorem readZlib_pngZlib (hwidth : img.width.toNat ≤ 4096) (hheight : img.height.toNat ≤ 4096) :
    Png.readZlib (pngZlib img) = some (pngRaw img) ∧ (pngZlib img).length < 2 ^ 31 := by
  have hstride := pngStride_mem img hwidth
  have hraw : (pngRaw img).length ≤ 4096 * 16385 := by
    rw [length_pngRaw]
    exact Nat.mul_le_mul hheight hstride.2
  obtain ⟨bytes, pad, hbytes, hpad, hinflate, hlength⟩ := inflate_deflateFixed (pngRaw img)
    [0x78, 0x01] (pngBpp_mem img) ⟨hstride.1, hstride.2.trans (by decide)⟩
  have hzlib : pngZlib img =
      [0x78, 0x01] ++ (bytes ++ bigEndian 4 (Checksum.adler32 (pngRaw img))) := by
    rw [pngZlib, hbytes, putBe32_eq, toNat_adler32, List.append_assoc]
  rw [hzlib]
  refine ⟨Png.readZlib_append hpad hinflate, ?_⟩
  simp only [List.length_append, length_bigEndian, List.length_cons, List.length_nil]
  omega

/-- **A file is the signature and four chunks.** -/
theorem encodePngBytes_eq (hzlib : (pngZlib img).length < 2 ^ 31) : encodePngBytes img =
    [0x89, 0x50, 0x4E, 0x47, 0x0D, 0x0A, 0x1A, 0x0A] ++
      (Png.chunk [0x49, 0x48, 0x44, 0x52] (pngIhdr img) ++
        (Png.chunk [0x73, 0x52, 0x47, 0x42] [0] ++
          (Png.chunk [0x49, 0x44, 0x41, 0x54] (pngZlib img) ++
            Png.chunk [0x49, 0x45, 0x4E, 0x44] []))) := by
  have hihdr (out type : List UInt8) : putChunk out type (pngIhdr img) =
      out ++ Png.chunk type (pngIhdr img) :=
    putChunk_eq out type _ (show 13 < 2 ^ 32 by decide)
  have hsrgb (out type : List UInt8) : putChunk out type [0] = out ++ Png.chunk type [0] :=
    putChunk_eq out type [0] (by decide)
  have hiend (out type : List UInt8) : putChunk out type [] = out ++ Png.chunk type [] :=
    putChunk_eq out type [] (by decide)
  rw [encodePngBytes, hihdr, hsrgb, putChunk_eq _ _ _ (hzlib.trans (by decide)), hiend]
  simp only [List.append_assoc]

theorem readHeader_pngIhdr (hvalid : validDimensions img.width img.height = true) :
    Png.readHeader (pngIhdr img) =
      some ⟨img.width.toNat, img.height.toNat, pngColourType img⟩ := by
  obtain ⟨⟨hw, hwidth⟩, hh, hheight⟩ := validDimensions_iff.mp hvalid
  have hihdr : pngIhdr img = bigEndian 4 img.width.toNat ++ (bigEndian 4 img.height.toNat ++
      [8, pngColourType img, 0, 0, 0]) := by
    rw [pngIhdr, putBe32_eq, putBe32_eq, List.append_assoc]
    rfl
  have htype : pngColourType img = 2 ∨ pngColourType img = 6 := by
    rw [pngColourType]
    cases allSolid img <;> decide
  rw [hihdr]
  exact Png.readHeader_append ⟨hw, by omega⟩ ⟨hh, by omega⟩ htype

/-- The alpha of every pixel, if all pixels are opaque. -/
theorem alpha_of_allSolid (h : allSolid img = true) {x y : ℕ} (hx : x < img.width.toNat)
    (hy : y < img.height.toNat) : img.rgba ((y * img.width.toNat + x) * 4 + 3) = 255 := by
  have hplace := place_lt hx hy (show 0 < 4 by decide)
  have hpixel := List.all_eq_true.mp h (y * img.width.toNat + x) (List.mem_range.mpr (by omega))
  rw [Nat.mul_comm]
  exact eq_of_beq hpixel

/-- **A file is read back.** -/
theorem parse_encodePngBytes (hvalid : validDimensions img.width img.height = true) :
    Png.parse (encodePngBytes img) = some ⟨⟨img.width.toNat, img.height.toNat, pngColourType img⟩,
      (List.range img.height.toNat).map (pngColours img)⟩ := by
  obtain ⟨⟨-, hwidth⟩, -, hheight⟩ := validDimensions_iff.mp hvalid
  obtain ⟨hzlib, hlength⟩ := readZlib_pngZlib img hwidth hheight
  rw [encodePngBytes_eq img hlength]
  refine Png.parse_eq (show 13 < 2 ^ 31 by decide) (readHeader_pngIhdr img hvalid) hlength ?_ ?_
    ?_ ?_
  · rw [hzlib, pngRaw_eq]
  · rw [List.length_map, List.length_range]
  · intro row hrow
    obtain ⟨y, -, rfl⟩ := List.mem_map.mp hrow
    rw [pngColours, List.length_map, List.length_range]
  · rintro htype row hrow c hc
    obtain ⟨y, hy, rfl⟩ := List.mem_map.mp hrow
    obtain ⟨x, hx, rfl⟩ := List.mem_map.mp hc
    have hsolid : allSolid img = true := by
      by_contra hclear
      rw [pngColourType, if_neg hclear] at htype
      exact absurd (show (6 : UInt8) = 2 from htype) (by decide)
    exact alpha_of_allSolid img hsolid (List.mem_range.mp hx) (List.mem_range.mp hy)

end Encode

/-! ### Decoding undoes encoding -/

/-- A pixel in the terms of the format. -/
def Pixel.toColour (p : Pixel) : Png.Colour := (p.r, p.g, p.b, p.a)

/-- What the file of an image shows. -/
def pngPicture (img : Image) (colourType : UInt8) : Png.Picture :=
  ⟨⟨img.width.toNat, img.height.toNat, colourType⟩, (List.range img.height.toNat).map fun y =>
    (List.range img.width.toNat).map fun x => (img.pixel x y).toColour⟩

/-- The image that a decoded picture is. -/
def imageOfPng (p : Png.Picture) : Image :=
  ⟨UInt32.ofNat p.width, UInt32.ofNat p.height,
    p.rows.flatMap fun row => row.flatMap fun c => [c.1, c.2.1, c.2.2.1, c.2.2.2]⟩

/-- The file shows the pixels of the image. -/
theorem imageOfPng_pngPicture {img : Image} (h : validImage img = true) (colourType : UInt8) :
    imageOfPng (pngPicture img colourType) = img := by
  conv_rhs => rw [← Image.ofPixels_pixel h]
  simp only [imageOfPng, pngPicture, UInt32.ofNat_toNat, List.flatMap_map]
  rfl

theorem allSolid_viewOfImage (img : Image) : allSolid (viewOfImage img) = true ↔
    ∀ p < img.width.toNat * img.height.toNat, img.rgba.getD (4 * p + 3) 0 = 255 := by
  rw [allSolid, List.all_eq_true]
  simp only [List.mem_range, beq_iff_eq]
  rfl

/-- **Decoding undoes encoding.** The file of a valid image is read back to the dimensions and the
pixels of the image. It has the colour type 2 if every pixel is opaque, and 6 otherwise. -/
theorem encodePng_decodes (img : Image) (h : validImage img = true) :
    ∃ file colourType, encodePng img = (.ok, file) ∧
      Png.parse file = some (pngPicture img colourType) ∧
      imageOfPng (pngPicture img colourType) = img ∧
      (colourType = 2 ∨ colourType = 6) ∧
      (colourType = 2 ↔
        ∀ p < img.width.toNat * img.height.toNat, img.rgba.getD (4 * p + 3) 0 = 255) := by
  refine ⟨encodePngBytes (viewOfImage img), pngColourType (viewOfImage img), ?_,
    parse_encodePngBytes (viewOfImage img) (validImage_iff.mp h).1,
    imageOfPng_pngPicture h _, ?_, ?_⟩
  · rw [encodePng, h]
    rfl
  · rw [pngColourType]
    cases allSolid (viewOfImage img) <;> decide
  · rw [← allSolid_viewOfImage, pngColourType]
    cases allSolid (viewOfImage img) <;> decide

/-- A picture of two pixels, one of them transparent. -/
theorem encodePng_decodes_pixels :
    let img : Image := ⟨2, 1, [200, 100, 50, 255, 1, 2, 3, 0]⟩
    ∃ file colourType, encodePng img = (.ok, file) ∧
      Png.parse file = some ⟨⟨2, 1, colourType⟩, [[(200, 100, 50, 255), (1, 2, 3, 0)]]⟩ ∧
      imageOfPng (pngPicture img colourType) = img ∧ (colourType = 2 ∨ colourType = 6) ∧
      (colourType = 2 ↔
        ∀ p < img.width.toNat * img.height.toNat, img.rgba.getD (4 * p + 3) 0 = 255) :=
  encodePng_decodes ⟨2, 1, [200, 100, 50, 255, 1, 2, 3, 0]⟩ (by decide)

end HumanizedHash
