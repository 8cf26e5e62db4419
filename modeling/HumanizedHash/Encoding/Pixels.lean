import HumanizedHash.Foundations.Tables
import HumanizedHash.Raster.Rasterise

/-!
# What the encoders share

The pixels that an encoder reads, the check of an image, and the flattening of a pixel over a
matte.

## Main definitions

* `PixelView`, `validDimensions`, `validImage`, `viewOfImage`, `flatten`.
* `flattenedAt`, `Image.pixel`, `Pixel.flatten`: the pixels of a view and of an image.
* `Image.ofPixels`: the image with given pixels.

## Main results

* `validDimensions_iff`, `toNat_flatten`, `Pixel.flatten_of_solid`.
* `Image.pixel_ofPixels`, `Image.ofPixels_pixel`: an image is given by its pixels.

## References

* `src/src/encode_util.hpp`, `src/include/hh/encode.hpp`.
-/

namespace HumanizedHash

def maxEncodedDimension : UInt32 := 4096

/-- `struct pixel_view`: the bytes from the pointer on, and the dimensions. -/
structure PixelView where
  rgba : Memory UInt8
  width : UInt32
  height : UInt32

/-- `valid_dimensions`. -/
def validDimensions (width height : UInt32) : Bool :=
  width ≠ 0 ∧ height ≠ 0 ∧ width ≤ maxEncodedDimension ∧ height ≤ maxEncodedDimension

/-- `valid_image`. -/
def validImage (img : Image) : Bool :=
  validDimensions img.width img.height ∧
    img.rgba.length = img.width.toNat * img.height.toNat * 4

/-- `view_of`. -/
def viewOfImage (img : Image) : PixelView :=
  ⟨fun i => img.rgba.getD i 0, img.width, img.height⟩

/-- `flatten`: one channel of a pixel with alpha `a` over the matte. -/
def flatten (value a matte : UInt8) : UInt8 :=
  UInt8.ofNat ((a.toNat * value.toNat + (255 - a.toNat) * matte.toNat + 127) / 255)

/-- The flattened colour at a position. -/
def flattenedAt (img : PixelView) (matte : Rgb) (x y : ℕ) : Rgb :=
  let p := (y * img.width.toNat + x) * 4
  ⟨flatten (img.rgba p) (img.rgba (p + 3)) matte.r,
    flatten (img.rgba (p + 1)) (img.rgba (p + 3)) matte.g,
    flatten (img.rgba (p + 2)) (img.rgba (p + 3)) matte.b⟩

/-- A pixel flattened over the matte, channel by channel. -/
def Pixel.flatten (p : Pixel) (matte : Rgb) : Rgb :=
  ⟨HumanizedHash.flatten p.r p.a matte.r, HumanizedHash.flatten p.g p.a matte.g,
    HumanizedHash.flatten p.b p.a matte.b⟩

/-- The pixel of an image in column `x` and row `y`. -/
def Image.pixel (img : Image) (x y : ℕ) : Pixel :=
  let q := (y * img.width.toNat + x) * 4
  ⟨img.rgba.getD q 0, img.rgba.getD (q + 1) 0, img.rgba.getD (q + 2) 0, img.rgba.getD (q + 3) 0⟩

/-- The place of a byte of a pixel. -/
theorem place_lt {w h x y i : ℕ} (hx : x < w) (hy : y < h) (hi : i < 4) :
    (y * w + x) * 4 + i < w * h * 4 := by
  have hrow : (y + 1) * w ≤ h * w := Nat.mul_le_mul_right w hy
  rw [Nat.succ_mul, Nat.mul_comm h w] at hrow
  omega

/-- What the encoders read at a position is the flattened pixel of the image. -/
theorem flattenedAt_viewOfImage (img : Image) (matte : Rgb) (x y : ℕ) :
    flattenedAt (viewOfImage img) matte x y = (img.pixel x y).flatten matte := rfl

/-- No value of `flatten` exceeds a byte. -/
theorem toNat_flatten (value a matte : UInt8) : (flatten value a matte).toNat =
    (a.toNat * value.toNat + (255 - a.toNat) * matte.toNat + 127) / 255 := by
  have hvalue := Nat.mul_le_mul_left a.toNat (Nat.le_of_lt_succ value.toNat_lt)
  have hmatte := Nat.mul_le_mul_left (255 - a.toNat) (Nat.le_of_lt_succ matte.toNat_lt)
  have ha := a.toNat_lt
  rw [flatten, UInt8.toNat_ofNat', Nat.mod_eq_of_lt]
  omega

/-- An opaque pixel shows nothing of the matte. -/
theorem Pixel.flatten_of_solid {p : Pixel} (h : p.a = 255) (matte : Rgb) :
    p.flatten matte = ⟨p.r, p.g, p.b⟩ := by
  have hchannel (v m : UInt8) : HumanizedHash.flatten v 255 m = v := by
    have hfull : (255 : UInt8).toNat = 255 := rfl
    rw [← UInt8.toNat_inj, toNat_flatten, hfull]
    omega
  simp only [Pixel.flatten, h, hchannel]

theorem validDimensions_iff {width height : UInt32} : validDimensions width height = true ↔
    (1 ≤ width.toNat ∧ width.toNat ≤ 4096) ∧ 1 ≤ height.toNat ∧ height.toNat ≤ 4096 := by
  have hmax : maxEncodedDimension.toNat = 4096 := rfl
  have hzero (n : UInt32) : n ≠ 0 ↔ n.toNat ≠ 0 := not_congr UInt32.toNat_inj.symm
  rw [validDimensions, decide_eq_true_iff, UInt32.le_iff_toNat_le, UInt32.le_iff_toNat_le, hmax,
    hzero, hzero]
  omega

theorem validImage_iff {img : Image} : validImage img = true ↔
    validDimensions img.width img.height = true ∧
      img.rgba.length = img.width.toNat * img.height.toNat * 4 := by
  rw [validImage, decide_eq_true_iff]

/-! ### An image is given by its pixels -/

/-- The image with the pixel `px x y` in column `x` and row `y`. -/
def Image.ofPixels (width height : UInt32) (px : ℕ → ℕ → Pixel) : Image :=
  ⟨width, height, Tables.rows height.toNat fun y => Tables.rows width.toNat fun x => (px x y).bytes⟩

section OfPixels

variable {width height : UInt32} (px : ℕ → ℕ → Pixel)

theorem Image.length_row_ofPixels (y : ℕ) :
    (Tables.rows width.toNat fun x => (px x y).bytes).length = width.toNat * 4 :=
  Tables.length_rows (f := fun x => (px x y).bytes) (fun _ => rfl) _

theorem Image.length_ofPixels :
    (ofPixels width height px).rgba.length = width.toNat * height.toNat * 4 := by
  rw [ofPixels, Tables.length_rows (length_row_ofPixels px)]
  ring

theorem Image.valid_ofPixels (h : validDimensions width height = true) :
    validImage (ofPixels width height px) = true :=
  validImage_iff.mpr ⟨h, length_ofPixels px⟩

/-- The bytes of an image with given pixels. -/
theorem Image.getD_ofPixels {x y i : ℕ} (hx : x < width.toNat) (hy : y < height.toNat)
    (hi : i < 4) : (ofPixels width height px).rgba.getD ((y * width.toNat + x) * 4 + i) 0 =
      (px x y).bytes.getD i 0 := by
  have hplace : (y * width.toNat + x) * 4 + i = y * (width.toNat * 4) + (x * 4 + i) := by ring
  rw [ofPixels, hplace, Tables.getD_rows (length_row_ofPixels px) hy (by omega),
    Tables.getD_rows (f := fun x => (px x y).bytes) (fun _ => rfl) hx hi]

/-- **The pixels of an image with given pixels.** -/
theorem Image.pixel_ofPixels {x y : ℕ} (hx : x < width.toNat) (hy : y < height.toNat) :
    (ofPixels width height px).pixel x y = px x y := by
  have h (i : ℕ) (hi : i < 4) := getD_ofPixels px hx hy hi
  have hwidth : (ofPixels width height px).width = width := rfl
  rw [pixel, hwidth, h 1 (by decide), h 2 (by decide), h 3 (by decide)]
  exact congrArg (Pixel.mk · _ _ _) (h 0 (by decide))

end OfPixels

/-- **A valid image is the image with its pixels.** -/
theorem Image.ofPixels_pixel {img : Image} (h : validImage img = true) :
    ofPixels img.width img.height img.pixel = img := by
  have hrow (y : ℕ) : (Tables.rows img.width.toNat fun x => (img.pixel x y).bytes) =
      (List.range (img.width.toNat * 4)).map fun j =>
        img.rgba.getD (y * (img.width.toNat * 4) + j) 0 := by
    rw [← Tables.rows_chunks]
    refine Tables.rows_congr fun x _ => ?_
    have hplace : y * (img.width.toNat * 4) + x * 4 = (y * img.width.toNat + x) * 4 := by ring
    simp only [← Nat.add_assoc, hplace]
    rfl
  have hlength : img.height.toNat * (img.width.toNat * 4) = img.rgba.length := by
    rw [(validImage_iff.mp h).2]
    ring
  rw [ofPixels, Tables.rows_congr fun y _ => hrow y,
    Tables.rows_chunks (fun i => img.rgba.getD i 0), hlength, Tables.map_getD_range]

end HumanizedHash
