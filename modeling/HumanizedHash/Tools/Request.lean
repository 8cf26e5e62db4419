import HumanizedHash.Derivation.ValueObjects
import HumanizedHash.Encoding.Bmp
import HumanizedHash.Encoding.JpegFidelity
import HumanizedHash.Encoding.PngInverse
import HumanizedHash.Raster.Render
import HumanizedHash.Raster.Tag
import HumanizedHash.Tools.Names

/-!
# One picture of the command line tool

`run` of `examples/hh_cli.cpp` takes a request through the whole library: the base digest of the
input, the fingerprint, with or without a key, the picture and the file. It stops at the first error
of the library. Where there is none, the file shows the picture of the fingerprint that the result
holds.

## Main definitions

* `Tools.Request`, `Tools.Result`, `Tools.run`.
* `Tools.Request.input`: the bytes that a request hashes.
* `Tools.Request.Shows`: what the file of a request owes to the picture.
* `Tools.Request.Answered`: what a result without an error is.

## Main results

* `Tools.encode_eq_ok_iff`: the formats, and what the files show.
* `Tools.run_exact`: the error of a request, and a result without an error.

## References

* `src/examples/hh_cli.cpp`.
-/

namespace HumanizedHash

namespace Tools

/-! ### The code -/

/-- `struct request`, with its default values. -/
structure Request where
  text : Bool := false
  input : List UInt8 := []
  key : List UInt8 := []
  size : UInt32 := 128
  options : RenderOptions := {}
  format : List UInt8 := Tools.text "png"
  quality : ℤ := 92
  matte : Rgb := ⟨255, 255, 255⟩
  deriving DecidableEq

/-- `struct result`, with its default values. -/
structure Result where
  error : ErrorCode := .ok
  digest : BaseDigest := .unset
  fingerprint : Fingerprint := .unset
  kcv : List UInt8 := []
  bytes : List UInt8 := []
  deriving DecidableEq

/-- The digest of `run`. -/
def baseDigest (rq : Request) : ErrorCode × BaseDigest :=
  if rq.text then makeBaseDigestFromText (.external rq.input) .unset
  else makeBaseDigestFromHex rq.input .unset

/-- The fingerprint of `run`, with the text of the key check value. -/
def fingerprintOf (rq : Request) (digest : BaseDigest) : ErrorCode × Fingerprint × List UInt8 :=
  if rq.key = [] then
    let (ec, fp) := universalFingerprint digest .unset
    (ec, fp, [])
  else
    match HexTools.fromHex rq.key with
    | (false, _) => (.invalidKey, .unset, [])
    | (true, keyBytes) =>
      match makeSecretKey (.external keyBytes) .unset with
      | (.ok, key) =>
        let (ec, fp) := keyedFingerprint digest key .unset
        (ec, fp, toHex key.kcv.toList)
      | (ec, _) => (ec, .unset, [])

/-- The file of `run`. -/
def encode (rq : Request) (img : Image) : ErrorCode × List UInt8 :=
  if rq.format = Tools.text "png" then encodePng img
  else if rq.format = Tools.text "bmp" then encodeBmp img rq.matte
  else if rq.format = Tools.text "jpeg" then encodeJpeg img rq.quality rq.matte
  else if rq.format = Tools.text "rgba" then (.ok, img.rgba)
  else (.invalidArgument, [])

/-- `run`. -/
def run (rq : Request) : Result :=
  let (ec, digest) := baseDigest rq
  if ec ≠ .ok then
    { error := ec, digest := digest }
  else
    let (ec, fp, kcv) := fingerprintOf rq digest
    if ec ≠ .ok then
      { error := ec, digest := digest, fingerprint := fp, kcv := kcv }
    else
      let (ec, img) := render fp rq.size rq.options .empty
      if ec ≠ .ok then
        { error := ec, digest := digest, fingerprint := fp, kcv := kcv }
      else
        let (ec, bytes) := encode rq img
        { error := ec, digest := digest, fingerprint := fp, kcv := kcv, bytes := bytes }

/-! ### The file shows the picture -/

/-- The bytes that a request hashes, with their kind. -/
def Request.source (rq : Request) : InputKind × List UInt8 :=
  if rq.text then (.text, rq.input)
  else (.binary, (HexTools.fromHex (removeHexPrefix rq.input)).2)

/-- What a file shows of a picture: a PNG and a raw file the picture itself, a BMP the flattened
one, and a JPEG the quantised blocks of the flattened one. -/
def Request.Shows (rq : Request) (img : Image) (file : List UInt8) : Prop :=
  (rq.format = Tools.text "png" ∧ ∃ p, Png.parse file = some p ∧ imageOfPng p = img) ∨
  (rq.format = Tools.text "bmp" ∧ Bitmap.parse file = some (bmpPicture img rq.matte)) ∨
  (rq.format = Tools.text "jpeg" ∧ (50 ≤ rq.quality ∧ rq.quality ≤ 100) ∧
    Jfif.parse file = some (jpegContents img rq.quality rq.matte)) ∨
  (rq.format = Tools.text "rgba" ∧ file = img.rgba)

/-- The formats that a request may ask for. -/
def Request.FormatKnown (rq : Request) : Prop :=
  rq.format = Tools.text "png" ∨ rq.format = Tools.text "bmp" ∨
    (rq.format = Tools.text "jpeg" ∧ 50 ≤ rq.quality ∧ rq.quality ≤ 100) ∨
      rq.format = Tools.text "rgba"

variable {rq : Request} {img : Image}

/-- **The formats.** A valid picture is encoded if the format is one of the four and the quality of
a JPEG is in range, and then the file shows it. -/
theorem encode_eq_ok_iff (h : validImage img = true) :
    ((encode rq img).1 = .ok ↔ rq.FormatKnown) ∧
      ((encode rq img).1 = .ok → rq.Shows img (encode rq img).2) := by
  have hjpeg : Tools.text "jpeg" ≠ Tools.text "png" ∧ Tools.text "jpeg" ≠ Tools.text "bmp" := by
    decide
  have hrgba : Tools.text "rgba" ≠ Tools.text "jpeg" := by decide
  rw [encode, Request.FormatKnown, Request.Shows]
  obtain ⟨⟨-, hwidth⟩, -, hheight⟩ := validDimensions_iff.mp (validImage_iff.mp h).1
  split_ifs with hp hb hj hr
  · have hfile : encodePng img = (.ok, encodePngBytes (viewOfImage img)) := by
      rw [encodePng, h]
      rfl
    rw [hfile]
    exact ⟨iff_of_true rfl (.inl hp), fun _ => .inl ⟨hp, _,
      parse_encodePngBytes _ (validImage_iff.mp h).1, imageOfPng_pngPicture h _⟩⟩
  · have hfile : encodeBmp img rq.matte = (.ok, encodeBmpBytes (viewOfImage img) rq.matte) := by
      rw [encodeBmp, h]
      rfl
    rw [hfile]
    exact ⟨iff_of_true rfl (.inr (.inl hb)), fun _ => .inr (.inl ⟨hb,
      parse_encodeBmpBytes rq.matte hwidth hheight⟩)⟩
  · by_cases hq : 50 ≤ rq.quality ∧ rq.quality ≤ 100
    · rw [encodeJpeg_of_valid rq.matte h hq]
      exact ⟨iff_of_true rfl (.inr (.inr (.inl ⟨hj, hq⟩))), fun _ => .inr (.inr (.inl ⟨hj, hq,
        parse_encodeJpegBytes img rq.quality rq.matte h⟩))⟩
    · have hfile : encodeJpeg img rq.quality rq.matte = (.invalidQuality, []) := by
        rw [encodeJpeg, h, if_neg (by decide), encodeJpegView, if_pos (by omega)]
      rw [hfile]
      refine ⟨iff_of_false ErrorCode.noConfusion ?_, fun h => ErrorCode.noConfusion h⟩
      rintro (hp | hb | ⟨-, hq'⟩ | hr)
      · exact hjpeg.1 (hj.symm.trans hp)
      · exact hjpeg.2 (hj.symm.trans hb)
      · exact hq hq'
      · exact hrgba (hr.symm.trans hj)
  · exact ⟨iff_of_true rfl (.inr (.inr (.inr hr))), fun _ => .inr (.inr (.inr ⟨hr, rfl⟩))⟩
  · refine ⟨iff_of_false id ?_, False.elim⟩
    rintro (hp' | hb' | ⟨hj', -⟩ | hr')
    · exact hp hp'
    · exact hb hb'
    · exact hj hj'
    · exact hr hr'

/-! ### The first fault of a request -/

/-- The fault of an input: what it must be to have a digest. -/
def Request.inputFault (rq : Request) : ErrorCode :=
  if rq.text then checkLength rq.input.length
  else
    let digits := removeHexPrefix rq.input
    if digits = [] ∨ (HexTools.fromHex digits).1 = false then .invalidHex
    else checkLength (HexTools.fromHex digits).2.length

/-- A key is the text of 32 bytes that are not all zero. -/
def Request.KeyValid (rq : Request) : Prop :=
  (HexTools.fromHex rq.key).1 = true ∧ (HexTools.fromHex rq.key).2.length = 32 ∧
    ∃ b ∈ (HexTools.fromHex rq.key).2, b ≠ 0

instance (rq : Request) : Decidable rq.KeyValid := inferInstanceAs (Decidable (_ ∧ _))

/-- The bytes of a valid key. -/
def Request.keyBytes (rq : Request) : Vector UInt8 32 :=
  Storage.copyInto (Vector.replicate 32 0) 0 (HexTools.fromHex rq.key).2

/-- The mode of the picture. -/
def Request.mode (rq : Request) : Mode := if rq.key = [] then .universal else .keyed

/-- The fault of a format. -/
def Request.formatFault (rq : Request) : ErrorCode :=
  if rq.format = Tools.text "jpeg" then
    if 50 ≤ rq.quality ∧ rq.quality ≤ 100 then .ok else .invalidQuality
  else if rq.format ∈ [Tools.text "png", Tools.text "bmp", Tools.text "rgba"] then .ok
  else .invalidArgument

/-- The first of a list of faults. -/
def firstFault : List ErrorCode → ErrorCode
  | [] => .ok
  | ec :: l => if ec = .ok then firstFault l else ec

theorem firstFault_ok_cons (l : List ErrorCode) : firstFault (.ok :: l) = firstFault l := if_pos rfl

theorem firstFault_cons_of_ne {ec : ErrorCode} (h : ec ≠ .ok) (l : List ErrorCode) :
    firstFault (ec :: l) = ec := if_neg h

theorem firstFault_singleton (ec : ErrorCode) : firstFault [ec] = ec := by
  by_cases h : ec = .ok
  · rw [h, firstFault_ok_cons, firstFault]
  · rw [firstFault_cons_of_ne h]

/-- The first fault of a request, seen on a page of the colour `page`: the input, the key, the size
and the options, the format. -/
def Request.fault (page : Rgb) (rq : Request) : ErrorCode :=
  firstFault [rq.inputFault, if rq.key = [] ∨ rq.KeyValid then .ok else .invalidKey,
    verdict page ⟨Vector.replicate 32 0, rq.mode, true⟩ rq.size rq.options, rq.formatFault]

theorem formatFault_eq_ok_iff : rq.formatFault = .ok ↔ rq.FormatKnown := by
  have hjpeg : Tools.text "jpeg" ∉ [Tools.text "png", Tools.text "bmp", Tools.text "rgba"] := by
    decide
  simp only [Request.FormatKnown, Request.formatFault]
  split_ifs with hj hq hmem
  · exact iff_of_true rfl (.inr (.inr (.inl ⟨hj, hq⟩)))
  · refine iff_of_false id ?_
    rintro (hp | hb | ⟨-, hq'⟩ | hr)
    · exact hjpeg (hj ▸ hp ▸ List.mem_cons_self)
    · exact hjpeg (hj ▸ hb ▸ List.mem_cons_of_mem _ List.mem_cons_self)
    · exact hq hq'
    · exact hjpeg (hj ▸ hr ▸ List.mem_cons_of_mem _ (List.mem_cons_of_mem _ List.mem_cons_self))
  · simp only [List.mem_cons, List.not_mem_nil, or_false] at hmem
    refine iff_of_true rfl ?_
    tauto
  · simp only [List.mem_cons, List.not_mem_nil, or_false] at hmem
    refine iff_of_false id ?_
    tauto

/-- The code of an encoder is the fault of the format. -/
theorem fst_encode_eq (h : validImage img = true) : (encode rq img).1 = rq.formatFault := by
  by_cases hok : (encode rq img).1 = .ok
  · exact hok.trans (formatFault_eq_ok_iff.mpr ((encode_eq_ok_iff h).1.mp hok)).symm
  · have hfault : rq.formatFault ≠ .ok := fun hf =>
      hok ((encode_eq_ok_iff h).1.mpr (formatFault_eq_ok_iff.mp hf))
    rw [Request.formatFault] at hfault ⊢
    split_ifs at hfault ⊢ with hj hq hmem
    · exact absurd rfl hfault
    · rw [encode, hj, if_neg (by decide), if_neg (by decide), if_pos rfl, encodeJpeg, h,
        if_neg (by decide), encodeJpegView, if_pos (by omega)]
    · exact absurd rfl hfault
    · simp only [List.mem_cons, List.not_mem_nil, or_false, not_or] at hmem
      rw [encode, if_neg hmem.1, if_neg hmem.2.1, if_neg hj, if_neg hmem.2.2]

/-! ### The steps -/

/-- The digest of a request. -/
def Request.digest (rq : Request) : BaseDigest :=
  ⟨stretch (deriveD0 rq.source.1 rq.source.2) stretchIterations, true⟩

theorem baseDigest_eq (rq : Request) : baseDigest rq =
    if rq.inputFault = .ok then (.ok, rq.digest) else (rq.inputFault, .unset) := by
  rw [baseDigest, Request.inputFault, Request.digest, Request.source]
  by_cases htext : rq.text = true
  · simp only [htext, if_true, makeBaseDigestFromText, digestOf, ByteView.isNull, ByteView.size,
      Bool.false_eq_true, false_and, if_false]
    cases hcheck : checkLength rq.input.length <;> rfl
  · simp only [htext, if_false, makeBaseDigestFromHex_eq, Bool.false_eq_true]
    by_cases hrej : removeHexPrefix rq.input = [] ∨
        (HexTools.fromHex (removeHexPrefix rq.input)).1 = false
    · simp only [if_pos hrej, reduceCtorEq, if_false]
    · have hne := HexTools.snd_fromHex_ne_nil (not_or.mp hrej).1 (not_or.mp hrej).2
      have hpos := List.length_pos_of_ne_nil hne
      by_cases hlarge : maxInputSize < (HexTools.fromHex (removeHexPrefix rq.input)).2.length
      · simp only [if_neg hrej, if_pos hlarge, checkLength, if_neg hpos.ne', reduceCtorEq, if_false]
      · simp only [if_neg hrej, if_neg hlarge, checkLength, if_neg hpos.ne', if_true]
        exact makeBaseDigest_external_of_le hne (not_lt.mp hlarge) .unset

/-- The key of a request. -/
theorem makeSecretKey_eq (rq : Request) :
    makeSecretKey (.external (HexTools.fromHex rq.key).2) .unset =
      if (HexTools.fromHex rq.key).2.length = 32 ∧ ∃ b ∈ (HexTools.fromHex rq.key).2, b ≠ 0 then
        (.ok, ⟨rq.keyBytes, true⟩)
      else (.invalidKey, .unset) := by
  have hany : (HexTools.fromHex rq.key).2.foldl (fun any b => any ||| b) 0 = 0 ↔
      ¬∃ b ∈ (HexTools.fromHex rq.key).2, b ≠ 0 := by
    rw [foldl_or_eq_zero_iff]
    push Not
    exact and_iff_right rfl
  simp only [makeSecretKey, ByteView.isNull, ByteView.size, ByteView.load, Bool.false_eq_true,
    false_or, SecretKey.clear_eq, hany]
  by_cases hlength : (HexTools.fromHex rq.key).2.length = 32
  · by_cases hex : ∃ b ∈ (HexTools.fromHex rq.key).2, b ≠ 0
    · rw [if_neg (not_not.mpr hlength), if_neg (not_not.mpr hex), if_pos ⟨hlength, hex⟩]
      rfl
    · rw [if_neg (not_not.mpr hlength), if_pos hex, if_neg fun h => hex h.2]
  · rw [if_pos hlength, if_neg fun h => hlength h.1]

theorem fingerprintOf_eq (rq : Request) {digest : BaseDigest} (hset : digest.set = true) :
    fingerprintOf rq digest =
      if rq.key = [] then (.ok, ⟨digest.bytes, .universal, true⟩, [])
      else if rq.KeyValid then
        (.ok, ⟨keyedBytes rq.keyBytes digest.bytes, .keyed, true⟩,
          toHex (keyCheckValue rq.keyBytes).toList)
      else (.invalidKey, .unset, []) := by
  have hempty : digest.empty = false := by rw [BaseDigest.empty, hset, Bool.not_true]
  rw [fingerprintOf]
  by_cases hkey : rq.key = []
  · rw [if_pos hkey, if_pos hkey, universalFingerprint, hempty]
    rfl
  · rw [if_neg hkey, if_neg hkey]
    have hmake := makeSecretKey_eq rq
    cases hhex : HexTools.fromHex rq.key with
    | mk accepted bytes =>
      rw [hhex] at hmake
      cases accepted with
      | false =>
        rw [if_neg fun h : rq.KeyValid => Bool.false_ne_true (by rw [← h.1, hhex])]
      | true =>
        by_cases hvalid : bytes.length = 32 ∧ ∃ b ∈ bytes, b ≠ 0
        · have hkv : rq.KeyValid := by
            rw [Request.KeyValid, hhex]
            exact ⟨rfl, hvalid⟩
          rw [if_pos hvalid] at hmake
          rw [if_pos hkv]
          simp only [hmake, keyedFingerprint, hempty, SecretKey.empty, SecretKey.kcv, Bool.not_true,
            Bool.false_eq_true, if_false]
          rfl
        · have hkv : ¬rq.KeyValid := by
            rw [Request.KeyValid, hhex]
            exact fun h => hvalid h.2
          rw [if_neg hvalid] at hmake
          rw [if_neg hkv]
          simp only [hmake]

/-! ### A request from end to end -/

/-- What a result without an error is: the digest of the input, the fingerprint of the digest with
the text of the key check value, and a file that shows its picture. -/
structure Request.Answered (rq : Request) (r : Result) : Prop where
  digest : r.digest = rq.digest
  universal : rq.key = [] → r.fingerprint = ⟨rq.digest.bytes, .universal, true⟩ ∧ r.kcv = []
  keyed : rq.key ≠ [] → HexTools.fromHex rq.key = (true, rq.keyBytes.toList) ∧
    r.fingerprint = ⟨keyedBytes rq.keyBytes rq.digest.bytes, .keyed, true⟩ ∧
    r.kcv = toHex (keyCheckValue rq.keyBytes).toList
  picture : ∃ img, render r.fingerprint rq.size rq.options .empty = (.ok, img) ∧ rq.Shows img r.bytes

/-- A picture that is rendered is valid. -/
theorem validImage_of_render {fp : Fingerprint} {size : UInt32} {options : RenderOptions}
    {out img : Image} (h : render fp size options out = (.ok, img)) : validImage img = true := by
  cases hprepare : prepare fp size options with
  | error ec =>
    rw [render_of_error hprepare, Prod.mk.injEq] at h
    exact absurd h.1 (ne_ok_of_prepare hprepare)
  | ok job =>
    have hsize := (prepared_of_prepare hprepare).size_mem
    rw [render_of_ok hprepare, Prod.mk.injEq] at h
    obtain rfl := h.2
    have hmin : minImageSize.toNat = 16 := rfl
    have hmax : maxImageSize.toNat = 1024 := rfl
    simp only [UInt32.le_iff_toNat_le, hmin, hmax] at hsize
    have hdimensions : validDimensions size size = true :=
      validDimensions_iff.mpr ⟨by omega, by omega⟩
    exact validImage_iff.mpr ⟨hdimensions, Memory.length_read _ _ _⟩

/-- The verdict on a picture depends on the fingerprint through its mode only. -/
theorem verdict_eq_of_zeros (page : Rgb) (fp : Fingerprint) (size : UInt32)
    (options : RenderOptions) : verdict page fp size options =
      verdict page ⟨Vector.replicate 32 0, fp.mode, fp.set⟩ size options := by
  simp only [verdict]

/-- The code of `render` is the verdict. -/
theorem fst_render_eq (page : Rgb) (fp : Fingerprint) (size : UInt32) (options : RenderOptions)
    (out : Image) : (render fp size options out).1 = verdict page fp size options := by
  have hprepare := prepare_eq page fp size options
  by_cases hok : verdict page fp size options = .ok
  · rw [if_pos hok] at hprepare
    rw [render_of_ok hprepare, hok]
  · rw [if_neg hok] at hprepare
    rw [render_of_error hprepare]

/-- The end of `run`, behind a fingerprint. -/
theorem run_of_fingerprint {rq : Request} {fp : Fingerprint} {kcv : List UInt8}
    (hinput : rq.inputFault = .ok) (hfp : fingerprintOf rq rq.digest = (.ok, fp, kcv)) (page : Rgb) :
    (run rq).error = firstFault [verdict page fp rq.size rq.options, rq.formatFault] ∧
      (run rq).digest = rq.digest ∧ (run rq).fingerprint = fp ∧ (run rq).kcv = kcv ∧
      ((run rq).error = .ok → ∃ img, render fp rq.size rq.options .empty = (.ok, img) ∧
        rq.Shows img (run rq).bytes) := by
  have hdigest := baseDigest_eq rq
  have hverdict := fst_render_eq page fp rq.size rq.options .empty
  rw [if_pos hinput] at hdigest
  cases hrender : render fp rq.size rq.options .empty with
  | mk ec img =>
    rw [hrender] at hverdict
    by_cases hec : ec = .ok
    · have himg := hrender.trans (congrArg (·, img) hec)
      have hvalid := validImage_of_render himg
      have hformat : (encode rq img).1 = rq.formatFault := fst_encode_eq hvalid
      have hshows : (encode rq img).1 = .ok → rq.Shows img (encode rq img).2 :=
        (encode_eq_ok_iff hvalid).2
      rw [← hverdict, hec, firstFault_ok_cons, firstFault_singleton]
      cases hfile : encode rq img with
      | mk code bytes =>
        rw [hfile] at hformat hshows
        simp only [run, hdigest, hfp, hrender, hec, hfile, ne_eq, not_true_eq_false, if_false,
          true_and]
        exact ⟨hformat, fun hok => ⟨img, rfl, hshows hok⟩⟩
    · rw [← hverdict, firstFault_cons_of_ne hec]
      simp only [run, hdigest, hfp, hrender, hec, ne_eq, not_true_eq_false, if_false,
        not_false_eq_true, if_true, true_and]
      exact False.elim

/-- The error of a request, and its result. -/
theorem run_spec (rq : Request) :
    (∀ page, (run rq).error = rq.fault page) ∧ ((run rq).error = .ok → rq.Answered (run rq)) := by
  have hdigest := baseDigest_eq rq
  have hset : rq.digest.set = true := rfl
  have hkeyed := fingerprintOf_eq rq hset
  by_cases hinput : rq.inputFault = .ok
  · by_cases hkey : rq.key = []
    · rw [if_pos hkey] at hkeyed
      have hrun := run_of_fingerprint hinput hkeyed
      refine ⟨fun page => ?_, fun hok => ⟨(hrun frameColour).2.1, fun _ =>
        ⟨(hrun frameColour).2.2.1, (hrun frameColour).2.2.2.1⟩, fun hne => absurd hkey hne, ?_⟩⟩
      · have hmode : rq.mode = .universal := if_pos hkey
        rw [(hrun page).1, verdict_eq_of_zeros, Request.fault, hinput, if_pos (Or.inl hkey),
          firstFault_ok_cons, firstFault_ok_cons, hmode]
      · rw [(hrun frameColour).2.2.1]
        exact (hrun frameColour).2.2.2.2 hok
    · rw [if_neg hkey] at hkeyed
      by_cases hvalid : rq.KeyValid
      · rw [if_pos hvalid] at hkeyed
        have hrun := run_of_fingerprint hinput hkeyed
        have hbytes : HexTools.fromHex rq.key = (true, rq.keyBytes.toList) := by
          rw [Request.keyBytes, Storage.toList_copyInto_zero _ _ hvalid.2.1, ← hvalid.1]
        refine ⟨fun page => ?_, fun hok => ⟨(hrun frameColour).2.1, fun h => absurd h hkey,
          fun _ => ⟨hbytes, (hrun frameColour).2.2.1, (hrun frameColour).2.2.2.1⟩, ?_⟩⟩
        · have hmode : rq.mode = .keyed := if_neg hkey
          rw [(hrun page).1, verdict_eq_of_zeros, Request.fault, hinput, if_pos (Or.inr hvalid),
            firstFault_ok_cons, firstFault_ok_cons, hmode]
        · rw [(hrun frameColour).2.2.1]
          exact (hrun frameColour).2.2.2.2 hok
      · rw [if_neg hvalid] at hkeyed
        rw [if_pos hinput] at hdigest
        have herror : (run rq).error = .invalidKey := by
          simp only [run, hdigest, hkeyed, ne_eq, not_true_eq_false, if_false, reduceCtorEq,
            not_false_eq_true, if_true]
        refine ⟨fun page => ?_, fun hok => absurd (herror.symm.trans hok) ErrorCode.noConfusion⟩
        rw [herror, Request.fault, hinput, if_neg (not_or.mpr ⟨hkey, hvalid⟩), firstFault_ok_cons,
          firstFault_cons_of_ne (show ErrorCode.invalidKey ≠ .ok from ErrorCode.noConfusion)]
  · rw [if_neg hinput] at hdigest
    have herror : (run rq).error = rq.inputFault := by
      simp only [run, hdigest, hinput, ne_eq, not_false_eq_true, if_true]
    refine ⟨fun page => ?_, fun hok => absurd (herror.symm.trans hok) hinput⟩
    rw [herror, Request.fault, firstFault_cons_of_ne hinput]

theorem snd_encode_of_error (h : (encode rq img).1 ≠ .ok) : (encode rq img).2 = [] := by
  rw [encode] at h ⊢
  split_ifs at h ⊢ with hp hb hj hr
  · rw [encodePng] at h ⊢
    split_ifs at h ⊢
    · rfl
    · exact absurd rfl h
  · rw [encodeBmp] at h ⊢
    split_ifs at h ⊢
    · rfl
    · exact absurd rfl h
  · rw [encodeJpeg, encodeJpegView] at h ⊢
    split_ifs at h ⊢
    · rfl
    · rfl
    · rfl
    · exact absurd rfl h
  · exact absurd rfl h
  · rfl

/-- A request that fails leaves no bytes. -/
theorem bytes_run_of_error (h : (run rq).error ≠ .ok) : (run rq).bytes = [] := by
  rw [run] at h ⊢
  dsimp only at h ⊢
  split_ifs at h ⊢
  · rfl
  · rfl
  · rfl
  · exact snd_encode_of_error h

/-- **A request from end to end.** The error of `run` is the first fault of the request, seen on any
page. Where there is none, the file shows the picture of the fingerprint of the input, and where
there is one, there are no bytes. -/
theorem run_exact (rq : Request) :
    (∀ page, (run rq).error = rq.fault page) ∧ ((run rq).error = .ok → rq.Answered (run rq)) ∧
      ((run rq).error ≠ .ok → (run rq).bytes = []) :=
  ⟨(run_spec rq).1, (run_spec rq).2, bytes_run_of_error⟩

end Tools

end HumanizedHash
