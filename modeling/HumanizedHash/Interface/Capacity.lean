import HumanizedHash.Encoding.JpegSize
import HumanizedHash.Encoding.PngSize
import HumanizedHash.Interface.Encoders

/-!
# Encoding with one call

The sizes of the files are bounded by the dimensions alone, so a caller of the C interface can do
without the call that asks for the size: a buffer of the size given here holds the file of every
picture with the dimensions.

## Main definitions

* `pngCapacity`, `bmpCapacity`, `jpegCapacity`: sizes that are enough.

## Main results

* `hhEncode_oneCall`: a call with such a buffer writes the file.

## References

* `src/src/c_api.cpp`, `src/docs/INTEGRATION.md`.
-/

namespace HumanizedHash

/-- The rows with their filter bytes at nine bits a byte, and what stands around them. -/
def pngCapacity (width height : UInt32) : ℕ :=
  (9 * (height.toNat * (1 + 4 * width.toNat)) + 625) / 8

/-- The header, and the rows, each filled to a multiple of four bytes. -/
def bmpCapacity (width height : UInt32) : ℕ := 54 + 4 * ((3 * width.toNat + 3) / 4) * height.toNat

/-- The header and the end, and every block position at worst. -/
def jpegCapacity (width height : UInt32) : ℕ := 627 + 1250 * (blockCount height * blockCount width)

section Capacity

variable {img : Image}

theorem length_encodePng_le (hvalid : validImage img = true) {file : List UInt8}
    (hfile : encodePng img = (.ok, file)) : file.length ≤ pngCapacity img.width img.height := by
  have hlength := length_encodePngBytes_le (viewOfImage img) (validImage_iff.mp hvalid).1
  rw [encodePng, hvalid] at hfile
  obtain rfl : encodePngBytes (viewOfImage img) = file := (Prod.mk.inj hfile).2
  rw [pngCapacity, Nat.le_div_iff_mul_le (by decide), Nat.mul_comm]
  exact hlength

theorem length_encodeBmp_eq (hvalid : validImage img = true) {matte : Rgb} {file : List UInt8}
    (hfile : encodeBmp img matte = (.ok, file)) :
    file.length = bmpCapacity img.width img.height := by
  obtain ⟨⟨-, hwidth⟩, -⟩ := validDimensions_iff.mp (validImage_iff.mp hvalid).1
  rw [encodeBmp, hvalid] at hfile
  obtain rfl : encodeBmpBytes (viewOfImage img) matte = file := (Prod.mk.inj hfile).2
  exact length_encodeBmpBytes matte (show (viewOfImage img).width.toNat ≤ 4096 from hwidth)

theorem length_encodeJpeg_le (hvalid : validImage img = true) {quality : ℤ}
    (hquality : 50 ≤ quality ∧ quality ≤ 100) {matte : Rgb} {file : List UInt8}
    (hfile : encodeJpeg img quality matte = (.ok, file)) :
    file.length ≤ jpegCapacity img.width img.height := by
  rw [encodeJpeg_of_valid matte hvalid hquality] at hfile
  obtain rfl : encodeJpegBytes (viewOfImage img) quality matte = file := (Prod.mk.inj hfile).2
  exact length_encodeJpegBytes_le (viewOfImage img) quality matte

end Capacity

/-- **One call is enough.** With a buffer of the size that the dimensions call for, each of the
functions writes its whole file and the size of it, and no other byte: it never answers that the
buffer is too small, whatever the pixels are. -/
theorem hhEncode_oneCall (mem : Memory UInt8) (rgba out capacity size : ℕ) (width height : UInt32)
    (quality : ℤ) (matte : Pointer) (hrange : InRange width height)
    (hquality : 50 ≤ quality ∧ quality ≤ 100) :
    (pngCapacity width height ≤ capacity →
      ∃ file, encodePng (imageAt mem rgba width height) = (.ok, file) ∧
        hhEncodePng mem (some rgba) width height (some out) capacity (some size) =
          ⟨hhOk, mem.write out file, some file.length⟩) ∧
    (bmpCapacity width height ≤ capacity →
      ∃ file, encodeBmp (imageAt mem rgba width height) (colourOrWhite mem matte) = (.ok, file) ∧
        hhEncodeBmp mem (some rgba) width height matte (some out) capacity (some size) =
          ⟨hhOk, mem.write out file, some file.length⟩) ∧
    (jpegCapacity width height ≤ capacity →
      ∃ file, encodeJpeg (imageAt mem rgba width height) quality (colourOrWhite mem matte) =
          (.ok, file) ∧
        hhEncodeJpeg mem (some rgba) width height quality matte (some out) capacity (some size) =
          ⟨hhOk, mem.write out file, some file.length⟩) := by
  have hvalid := validDimensions_iff.mpr hrange
  have himage : validImage (imageAt mem rgba width height) = true := validImage_imageAt hvalid
  refine ⟨fun hroom => ?_, fun hroom => ?_, fun hroom => ?_⟩
  · obtain ⟨file, hfile, hanswers⟩ := hhEncodePng_answers mem rgba width height hvalid
    exact ⟨file, hfile,
      hanswers.of_fits out capacity size ((length_encodePng_le himage hfile).trans hroom)⟩
  · obtain ⟨file, hfile, hanswers⟩ := hhEncodeBmp_answers mem rgba width height hvalid matte
    exact ⟨file, hfile,
      hanswers.of_fits out capacity size ((length_encodeBmp_eq himage hfile).le.trans hroom)⟩
  · obtain ⟨file, hfile, hanswers⟩ :=
      hhEncodeJpeg_answers mem rgba width height hvalid hquality matte
    exact ⟨file, hfile, hanswers.of_fits out capacity size
      ((length_encodeJpeg_le himage hquality hfile).trans hroom)⟩

/-- A pixel that is transparent. -/
theorem hhEncode_oneCall_pixel :
    ∃ file, encodePng ⟨1, 1, [0, 0, 0, 0]⟩ = (.ok, file) ∧
      hhEncodePng (fun _ => 0) (some 0) 1 1 (some 100) 83 (some 0) =
        ⟨hhOk, Memory.write (fun _ => 0) 100 file, some file.length⟩ :=
  (hhEncode_oneCall (fun _ => 0) 0 100 83 0 1 1 92 none ⟨by decide, by decide⟩
    ⟨by decide, by decide⟩).1 (by decide)

end HumanizedHash
