import HumanizedHash.Encoding.Bmp
import HumanizedHash.Encoding.EdgeReplication
import HumanizedHash.Encoding.Png
import HumanizedHash.Interface.CAbi

/-!
# The encoders of the C interface

`encode_with` of `src/c_api.cpp` and the three functions over it. A function encodes from the
pixels of the caller, tells the size of the file, and copies the file if there is room for it. So
a first call without a buffer asks for the size, and a second call with a buffer of that size
succeeds. `*out_size` is an object of its own, beside the buffers of bytes.

## Main definitions

* `encodeWith`, `hhEncodePng`, `hhEncodeBmp`, `hhEncodeJpeg`.
* `imageAt`: the image that the caller passes.
* `Answers`, `Refuses`: what a call owes when the input is valid, and when it is not.

## Main results

* `encodePngBytes_congr`, `encodeBmpBytes_congr`, `encodeJpegBytes_congr`: an encoder reads the
  pixels only.
* `encodeWith_answers`, `encodeWith_refuses`: one call.
* `hhEncode_exact`: the protocol of the three functions.

## References

* `src/src/c_api.cpp`, `src/include/hh/hh.h`.
-/

namespace HumanizedHash

def hhInvalidImage : Int := 11

def hhBufferTooSmall : Int := 12

/-- What a call leaves: its result, the memory, and `*out_size`, if there is one. -/
structure EncodeResult where
  code : Int
  mem : Memory UInt8
  outSize : Option ℕ

/-! ### The functions -/

section Functions

variable (mem : Memory UInt8) (rgba : Pointer) (width height : UInt32)

/-- `encode_with`. `outSize` is `*out_size` at the call, or none if `out_size` is null. -/
def encodeWith (out : Pointer) (capacity : ℕ) (outSize : Option ℕ)
    (encoder : PixelView → ErrorCode × List UInt8) : EncodeResult :=
  match rgba, outSize with
  | some rgba, some _ =>
    if !validDimensions width height then
      ⟨hhInvalidImage, mem, some 0⟩
    else
      let (ec, encoded) := encoder ⟨fun i => mem (rgba + i), width, height⟩
      if ec ≠ .ok then
        ⟨ec.code, mem, some 0⟩
      else
        match out with
        | none => ⟨hhBufferTooSmall, mem, some encoded.length⟩
        | some out =>
          if capacity < encoded.length then
            ⟨hhBufferTooSmall, mem, some encoded.length⟩
          else
            ⟨hhOk, mem.write out encoded, some encoded.length⟩
  | _, _ => ⟨hhInvalidArgument, mem, outSize⟩

/-- `hh_encode_png`. -/
def hhEncodePng (out : Pointer) (capacity : ℕ) (outSize : Option ℕ) : EncodeResult :=
  encodeWith mem rgba width height out capacity outSize fun img => encodePngView img

/-- `hh_encode_bmp`. -/
def hhEncodeBmp (matte out : Pointer) (capacity : ℕ) (outSize : Option ℕ) : EncodeResult :=
  let m := colourOrWhite mem matte
  encodeWith mem rgba width height out capacity outSize fun img => encodeBmpView img m

/-- `hh_encode_jpeg`. -/
def hhEncodeJpeg (quality : ℤ) (matte out : Pointer) (capacity : ℕ) (outSize : Option ℕ) :
    EncodeResult :=
  let m := colourOrWhite mem matte
  encodeWith mem rgba width height out capacity outSize fun img => encodeJpegView img quality m

end Functions

/-! ### An encoder reads the pixels only -/

section Congruence

variable {rgba rgba' : Memory UInt8} {width height : UInt32}

theorem flattenedAt_congr (hpixels : ∀ i < width.toNat * height.toNat * 4, rgba' i = rgba i)
    (matte : Rgb) {x y : ℕ} (hx : x < width.toNat) (hy : y < height.toNat) :
    flattenedAt ⟨rgba', width, height⟩ matte x y = flattenedAt ⟨rgba, width, height⟩ matte x y := by
  have hbyte (i : ℕ) (hi : i < 4) := hpixels _ (place_lt hx hy hi)
  have hfirst := hbyte 0 (by decide)
  rw [Nat.add_zero] at hfirst
  simp only [flattenedAt, hfirst, hbyte 1 (by decide), hbyte 2 (by decide), hbyte 3 (by decide)]

theorem encodeBmpBytes_congr (hpixels : ∀ i < width.toNat * height.toNat * 4, rgba' i = rgba i)
    (matte : Rgb) : encodeBmpBytes ⟨rgba', width, height⟩ matte =
      encodeBmpBytes ⟨rgba, width, height⟩ matte := by
  have hrow (y : ℕ) (hy : y < height.toNat) :
      bmpRow ⟨rgba', width, height⟩ matte y = bmpRow ⟨rgba, width, height⟩ matte y := by
    have hpixel (x : ℕ) (hx : x < width.toNat) : bmpPixel ⟨rgba', width, height⟩ matte x y =
        bmpPixel ⟨rgba, width, height⟩ matte x y :=
      congrArg (fun c : Rgb => [c.b, c.g, c.r]) (flattenedAt_congr hpixels matte hx hy)
    exact congrArg (· ++ _) (Tables.rows_congr hpixel)
  have hrows (n : ℕ) (hn : n ≤ height.toNat) :
      bmpRows ⟨rgba', width, height⟩ matte n = bmpRows ⟨rgba, width, height⟩ matte n := by
    induction n with
    | zero => rfl
    | succ n ih => rw [bmpRows, bmpRows, hrow n hn, ih (Nat.le_of_succ_le hn)]
  exact congrArg (_ ++ ·) (hrows height.toNat le_rfl)

theorem encodeJpegBytes_congr (hvalid : validDimensions width height = true)
    (hpixels : ∀ i < width.toNat * height.toNat * 4, rgba' i = rgba i) (quality : ℤ)
    (matte : Rgb) : encodeJpegBytes ⟨rgba', width, height⟩ quality matte =
      encodeJpegBytes ⟨rgba, width, height⟩ quality matte := by
  obtain ⟨⟨hwidth, -⟩, hheight, -⟩ := validDimensions_iff.mp hvalid
  have hsamples (u : ScanUnit) :
      sampleBlock ⟨rgba', width, height⟩ matte u.left u.top u.component =
        sampleBlock ⟨rgba, width, height⟩ matte u.left u.top u.component := by
    rw [sampleBlock, sampleBlock]
    congr 1
    funext k
    dsimp only
    rw [flattenedAt_congr hpixels matte (by omega) (by omega)]
  have hscan : scanBytes ⟨rgba', width, height⟩ quality matte =
      scanBytes ⟨rgba, width, height⟩ quality matte :=
    scanBytes_congr quality rfl fun u _ => hsamples u
  rw [encodeJpegBytes_eq, encodeJpegBytes_eq, hscan]
  rfl

theorem encodePngBytes_congr (hpixels : ∀ i < width.toNat * height.toNat * 4, rgba' i = rgba i) :
    encodePngBytes ⟨rgba', width, height⟩ = encodePngBytes ⟨rgba, width, height⟩ := by
  have hsolid : allSolid ⟨rgba', width, height⟩ = allSolid ⟨rgba, width, height⟩ := by
    rw [allSolid, allSolid, Bool.eq_iff_iff, List.all_eq_true, List.all_eq_true]
    refine forall₂_congr fun p hp => ?_
    have hplace : p < width.toNat * height.toNat := List.mem_range.mp hp
    dsimp only
    rw [hpixels (4 * p + 3) (by omega)]
  have hbpp : pngBpp ⟨rgba', width, height⟩ = pngBpp ⟨rgba, width, height⟩ := by
    rw [pngBpp, pngBpp, hsolid]
  have hrow (y : ℕ) (hy : y < height.toNat) :
      pngRow ⟨rgba', width, height⟩ y = pngRow ⟨rgba, width, height⟩ y := by
    rw [pngRow, pngRow, hbpp]
    refine congrArg (0 :: ·) (Tables.rows_congr fun x hx => List.map_congr_left fun i hi => ?_)
    have hi := (List.mem_range.mp hi).trans_le (pngBpp_le _)
    have hplace : y * width.toNat * 4 + 4 * x + i = (y * width.toNat + x) * 4 + i := by ring
    dsimp only
    rw [hplace]
    exact hpixels _ (place_lt hx hy hi)
  have hraw : pngRaw ⟨rgba', width, height⟩ = pngRaw ⟨rgba, width, height⟩ :=
    Tables.rows_congr hrow
  have hzlib : pngZlib ⟨rgba', width, height⟩ = pngZlib ⟨rgba, width, height⟩ := by
    rw [pngZlib, pngZlib, hraw, hbpp, pngStride, pngStride, hbpp]
  have hihdr : pngIhdr ⟨rgba', width, height⟩ = pngIhdr ⟨rgba, width, height⟩ := by
    rw [pngIhdr, pngIhdr, hsolid]
  rw [encodePngBytes, encodePngBytes, hzlib, hihdr]

end Congruence

/-! ### One call -/

/-- The dimensions that are accepted. -/
def InRange (width height : UInt32) : Prop :=
  (1 ≤ width.toNat ∧ width.toNat ≤ 4096) ∧ 1 ≤ height.toNat ∧ height.toNat ≤ 4096

/-- The image whose pixels are at an address. -/
def imageAt (mem : Memory UInt8) (rgba : ℕ) (width height : UInt32) : Image :=
  ⟨width, height, mem.read rgba (width.toNat * height.toNat * 4)⟩

/-- What the calls of a function owe for a file: without room for it they tell its size and change
nothing else, and with room they write it and change no other byte. -/
structure Answers (call : Memory UInt8 → Pointer → ℕ → Option ℕ → EncodeResult)
    (mem : Memory UInt8) (file : List UInt8) : Prop where
  of_null : ∀ capacity size,
    call mem none capacity (some size) = ⟨hhBufferTooSmall, mem, some file.length⟩
  of_small : ∀ out capacity size, capacity < file.length →
    call mem (some out) capacity (some size) = ⟨hhBufferTooSmall, mem, some file.length⟩
  of_fits : ∀ out capacity size, file.length ≤ capacity →
    call mem (some out) capacity (some size) = ⟨hhOk, mem.write out file, some file.length⟩
  /-- A second call with the size that a first one without a buffer told. -/
  second : ∀ first out capacity size capacity', first = call mem none capacity (some size) →
    first.outSize = some capacity' →
      call first.mem (some out) capacity' first.outSize = ⟨hhOk, mem.write out file, some capacity'⟩

/-- What the calls of a function owe for an input that is not valid. -/
def Refuses (call : Memory UInt8 → Pointer → ℕ → Option ℕ → EncodeResult) (mem : Memory UInt8)
    (ec : ErrorCode) : Prop :=
  ∀ out capacity size, call mem out capacity (some size) = ⟨ec.code, mem, some 0⟩

section Calls

variable {mem : Memory UInt8} {rgba : ℕ} {width height : UInt32}

theorem viewOfImage_imageAt (i : ℕ) (hi : i < width.toNat * height.toNat * 4) :
    (viewOfImage (imageAt mem rgba width height)).rgba i = mem (rgba + i) := by
  have hlength : i < (mem.read rgba (width.toNat * height.toNat * 4)).length := by
    rwa [Memory.length_read]
  rw [viewOfImage, imageAt]
  dsimp only
  rw [List.getD_eq_getElem _ _ hlength, Memory.getElem_read]

theorem validImage_imageAt (hvalid : validDimensions width height = true) :
    validImage (imageAt mem rgba width height) = true :=
  validImage_iff.mpr ⟨hvalid, Memory.length_read mem rgba _⟩

variable (encoder : Memory UInt8 → PixelView → ErrorCode × List UInt8)

theorem encodeWith_invalid (hvalid : validDimensions width height = false) :
    Refuses (fun mem out capacity size =>
      encodeWith mem (some rgba) width height out capacity size (encoder mem)) mem
      .invalidImage := by
  intro out capacity size
  simp only [encodeWith, hvalid, Bool.not_false, if_true]
  rfl

theorem encodeWith_refuses (hvalid : validDimensions width height = true) {ec : ErrorCode}
    {rest : List UInt8} (hec : ec ≠ .ok)
    (hencoder : encoder mem ⟨fun i => mem (rgba + i), width, height⟩ = (ec, rest)) :
    Refuses (fun mem out capacity size =>
      encodeWith mem (some rgba) width height out capacity size (encoder mem)) mem ec := by
  intro out capacity size
  simp only [encodeWith, hvalid, hencoder, Bool.not_true, Bool.false_eq_true, if_false, ne_eq, hec,
    not_false_eq_true, if_true]

theorem encodeWith_answers (hvalid : validDimensions width height = true) {file : List UInt8}
    (hencoder : encoder mem ⟨fun i => mem (rgba + i), width, height⟩ = (.ok, file)) :
    Answers (fun mem out capacity size =>
      encodeWith mem (some rgba) width height out capacity size (encoder mem)) mem file := by
  have hnull (capacity size : ℕ) : encodeWith mem (some rgba) width height none capacity
      (some size) (encoder mem) = ⟨hhBufferTooSmall, mem, some file.length⟩ := by
    simp only [encodeWith, hvalid, hencoder, Bool.not_true, Bool.false_eq_true, if_false, ne_eq,
      not_true_eq_false]
  have hfits (out capacity size : ℕ) (h : file.length ≤ capacity) :
      encodeWith mem (some rgba) width height (some out) capacity (some size) (encoder mem) =
        ⟨hhOk, mem.write out file, some file.length⟩ := by
    simp only [encodeWith, hvalid, hencoder, Bool.not_true, Bool.false_eq_true, if_false, ne_eq,
      not_true_eq_false, if_neg (not_lt.mpr h)]
  refine ⟨hnull, fun out capacity size h => ?_, hfits, ?_⟩
  · simp only [encodeWith, hvalid, hencoder, Bool.not_true, Bool.false_eq_true, if_false, ne_eq,
      not_true_eq_false, if_pos h]
  · rintro first out capacity size capacity' rfl h
    simp only [hnull] at h ⊢
    obtain rfl : file.length = capacity' := Option.some.inj h
    exact hfits out file.length file.length le_rfl

end Calls

/-! ### The three functions -/

section Exact

variable (mem : Memory UInt8) (rgba : ℕ) (width height : UInt32)

/-- What an encoder of the C++ interface reads of the image is what `encode_with` passes to it. -/
theorem encodeBytes_imageAt {β : Type} (encode : PixelView → β)
    (hcongr : ∀ rgba rgba', (∀ i < width.toNat * height.toNat * 4, rgba' i = rgba i) →
      encode ⟨rgba', width, height⟩ = encode ⟨rgba, width, height⟩) :
    encode ⟨fun i => mem (rgba + i), width, height⟩ =
      encode (viewOfImage (imageAt mem rgba width height)) :=
  hcongr _ _ fun i hi => (viewOfImage_imageAt i hi).symm

theorem hhEncodePng_answers (hvalid : validDimensions width height = true) :
    ∃ file, encodePng (imageAt mem rgba width height) = (.ok, file) ∧
      Answers (fun mem => hhEncodePng mem (some rgba) width height) mem file := by
  have hbytes := encodeBytes_imageAt mem rgba width height encodePngBytes
    fun _ _ => encodePngBytes_congr
  refine ⟨encodePngBytes (viewOfImage (imageAt mem rgba width height)), ?_, ?_⟩
  · rw [encodePng, validImage_imageAt hvalid]
    rfl
  · refine encodeWith_answers (fun _ img => encodePngView img) hvalid ?_
    rw [← hbytes]
    rfl

theorem hhEncodeBmp_answers (hvalid : validDimensions width height = true) (matte : Pointer) :
    ∃ file, encodeBmp (imageAt mem rgba width height) (colourOrWhite mem matte) = (.ok, file) ∧
      Answers (fun mem => hhEncodeBmp mem (some rgba) width height matte) mem file := by
  have hbytes := encodeBytes_imageAt mem rgba width height
    (fun img => encodeBmpBytes img (colourOrWhite mem matte))
    fun _ _ h => encodeBmpBytes_congr h _
  refine ⟨encodeBmpBytes (viewOfImage (imageAt mem rgba width height)) (colourOrWhite mem matte),
    ?_, ?_⟩
  · rw [encodeBmp, validImage_imageAt hvalid]
    rfl
  · refine encodeWith_answers
      (fun mem img => encodeBmpView img (colourOrWhite mem matte)) hvalid ?_
    rw [← hbytes]
    rfl

theorem encodeJpegView_of_quality {quality : ℤ} (hquality : 50 ≤ quality ∧ quality ≤ 100)
    (img : PixelView) (matte : Rgb) :
    encodeJpegView img quality matte = (.ok, encodeJpegBytes img quality matte) := by
  have hrange : ¬(quality < 50 ∨ 100 < quality) := by omega
  rw [encodeJpegView, if_neg hrange]
  rfl

theorem hhEncodeJpeg_answers (hvalid : validDimensions width height = true) {quality : ℤ}
    (hquality : 50 ≤ quality ∧ quality ≤ 100) (matte : Pointer) :
    ∃ file, encodeJpeg (imageAt mem rgba width height) quality (colourOrWhite mem matte) =
        (.ok, file) ∧
      Answers (fun mem => hhEncodeJpeg mem (some rgba) width height quality matte) mem file := by
  have hbytes := encodeBytes_imageAt mem rgba width height
    (fun img => encodeJpegBytes img quality (colourOrWhite mem matte))
    fun _ _ h => encodeJpegBytes_congr hvalid h quality _
  refine ⟨encodeJpegBytes (viewOfImage (imageAt mem rgba width height)) quality
    (colourOrWhite mem matte), ?_, ?_⟩
  · exact encodeJpeg_of_valid _ (validImage_imageAt hvalid) hquality
  · refine encodeWith_answers
      (fun mem img => encodeJpegView img quality (colourOrWhite mem matte)) hvalid ?_
    rw [← hbytes]
    exact encodeJpegView_of_quality hquality _ _

theorem hhEncodeJpeg_refuses (hvalid : validDimensions width height = true) {quality : ℤ}
    (hquality : quality < 50 ∨ 100 < quality) (matte : Pointer) :
    Refuses (fun mem => hhEncodeJpeg mem (some rgba) width height quality matte) mem
      .invalidQuality := by
  have hview (img : PixelView) (m : Rgb) :
      encodeJpegView img quality m = (.invalidQuality, []) := by
    rw [encodeJpegView, if_pos hquality]
  exact encodeWith_refuses
    (fun mem img => encodeJpegView img quality (colourOrWhite mem matte)) hvalid
    (fun h => ErrorCode.noConfusion h) (hview _ _)

end Exact

/-- What the calls of the three functions owe for pixels at an address. -/
structure SizeQueryExact (mem : Memory UInt8) (rgba : ℕ) (width height : UInt32) (quality : ℤ)
    (matte : Pointer) : Prop where
  invalid : ¬InRange width height →
    Refuses (fun mem => hhEncodePng mem (some rgba) width height) mem .invalidImage ∧
    Refuses (fun mem => hhEncodeBmp mem (some rgba) width height matte) mem .invalidImage ∧
    Refuses (fun mem => hhEncodeJpeg mem (some rgba) width height quality matte) mem .invalidImage
  png : InRange width height →
    ∃ file, encodePng (imageAt mem rgba width height) = (.ok, file) ∧
      Answers (fun mem => hhEncodePng mem (some rgba) width height) mem file
  bmp : InRange width height →
    ∃ file, encodeBmp (imageAt mem rgba width height) (colourOrWhite mem matte) = (.ok, file) ∧
      Answers (fun mem => hhEncodeBmp mem (some rgba) width height matte) mem file
  jpeg_quality : InRange width height → ¬(50 ≤ quality ∧ quality ≤ 100) →
    Refuses (fun mem => hhEncodeJpeg mem (some rgba) width height quality matte) mem .invalidQuality
  jpeg : InRange width height → 50 ≤ quality ∧ quality ≤ 100 →
    ∃ file, encodeJpeg (imageAt mem rgba width height) quality (colourOrWhite mem matte) =
        (.ok, file) ∧
      Answers (fun mem => hhEncodeJpeg mem (some rgba) width height quality matte) mem file

/-- **The size query is exact**, for all pixels, dimensions, qualities and mattes. -/
theorem hhEncode_exact (mem : Memory UInt8) (rgba : ℕ) (width height : UInt32) (quality : ℤ)
    (matte : Pointer) : SizeQueryExact mem rgba width height quality matte where
  invalid hrange := by
    have hvalid : validDimensions width height = false :=
      Bool.eq_false_iff.mpr fun h => hrange (validDimensions_iff.mp h)
    exact ⟨encodeWith_invalid (fun _ img => encodePngView img) hvalid,
      encodeWith_invalid (fun mem img => encodeBmpView img (colourOrWhite mem matte)) hvalid,
      encodeWith_invalid (fun mem img => encodeJpegView img quality (colourOrWhite mem matte))
        hvalid⟩
  png hrange := hhEncodePng_answers mem rgba width height (validDimensions_iff.mpr hrange)
  bmp hrange := hhEncodeBmp_answers mem rgba width height (validDimensions_iff.mpr hrange) matte
  jpeg_quality hrange hquality :=
    hhEncodeJpeg_refuses mem rgba width height (validDimensions_iff.mpr hrange) (by omega) matte
  jpeg hrange hquality :=
    hhEncodeJpeg_answers mem rgba width height (validDimensions_iff.mpr hrange) hquality matte

end HumanizedHash
