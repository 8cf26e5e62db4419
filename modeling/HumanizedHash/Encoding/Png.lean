import HumanizedHash.Encoding.Checksums
import HumanizedHash.Encoding.Deflate
import HumanizedHash.Encoding.Pixels

/-!
# The PNG encoder

`encode` of `src/png.cpp` and the entry points over it.

## Main definitions

* `putChunk`, `pngRaw`, `pngZlib`, `encodePngBytes`, `encodePng`.

## References

* `src/src/png.cpp`, `src/docs/SPEC.md` (section 11).
-/

namespace HumanizedHash

/-- `put_be32`. -/
def putBe32 (v : UInt32) : List UInt8 :=
  [(v >>> 24).toUInt8, (v >>> 16).toUInt8, (v >>> 8).toUInt8, v.toUInt8]

/-- `put_chunk`: the output with a chunk behind it. -/
def putChunk (out type data : List UInt8) : List UInt8 :=
  let out := out ++ putBe32 (UInt32.ofNat data.length)
  let start := out.length
  let out := out ++ type ++ data
  out ++ putBe32 (crc32 (out.drop start))

section Encode

variable (img : PixelView)

/-- `opaque`. -/
def allSolid : Bool :=
  (List.range (img.width.toNat * img.height.toNat)).all fun p => img.rgba (4 * p + 3) == 255

/-- `bpp`. -/
def pngBpp : ℕ := if allSolid img then 3 else 4

theorem pngBpp_le : pngBpp img ≤ 4 := by
  rw [pngBpp]
  split_ifs <;> decide

/-- `stride`. -/
def pngStride : ℕ := 1 + img.width.toNat * pngBpp img

/-- The body of the loop over `y`: the filter type and the pixels of a row. -/
def pngRow (y : ℕ) : List UInt8 :=
  0 :: (List.range img.width.toNat).flatMap fun x =>
    (List.range (pngBpp img)).map fun i => img.rgba (y * img.width.toNat * 4 + 4 * x + i)

/-- `raw`. -/
def pngRaw : List UInt8 := (List.range img.height.toNat).flatMap (pngRow img)

/-- `zlib`. -/
def pngZlib : List UInt8 :=
  let raw := pngRaw img
  deflateFixed raw (pngBpp img) (pngStride img) [0x78, 0x01] ++ putBe32 (adler32 raw)

/-- `ihdr`. -/
def pngIhdr : List UInt8 :=
  putBe32 img.width ++ putBe32 img.height ++ [8, if allSolid img then 2 else 6, 0, 0, 0]

/-- `encode`. -/
def encodePngBytes : List UInt8 :=
  let out := [0x89, 0x50, 0x4E, 0x47, 0x0D, 0x0A, 0x1A, 0x0A]
  let out := putChunk out [0x49, 0x48, 0x44, 0x52] (pngIhdr img)
  let out := putChunk out [0x73, 0x52, 0x47, 0x42] [0]
  let out := putChunk out [0x49, 0x44, 0x41, 0x54] (pngZlib img)
  putChunk out [0x49, 0x45, 0x4E, 0x44] []

/-- `encode_png_view`: the code, and the bytes that are left; `allocated` tells whether there is
room for them. -/
def encodePngView (allocated : Bool := true) : ErrorCode × List UInt8 :=
  if !allocated then (.outOfMemory, []) else (.ok, encodePngBytes img)

end Encode

/-- `encode_png`. -/
def encodePng (img : Image) (allocated : Bool := true) : ErrorCode × List UInt8 :=
  if !validImage img then
    (.invalidImage, [])
  else
    encodePngView (viewOfImage img) allocated

end HumanizedHash
