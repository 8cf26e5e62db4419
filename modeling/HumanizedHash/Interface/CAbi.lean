import HumanizedHash.Foundations.ByteOrder
import HumanizedHash.Raster.Rasterise

/-!
# The C interface

The functions of `src/c_api.cpp` on flat memory. A pointer is an address or null; a function
takes the memory at the call and returns the number of its error with the memory it leaves. The
value objects of the C++ interface are local to a call, so everything that is read from the
arguments is read before the first byte of the output is written. The order of the bytes of a
32-bit field is that of the host, a parameter.

## Main definitions

* `Endian`: the byte order of the host.
* `hhBaseDigest`, `hhBaseDigestFromHex`, `hhBaseDigestFromText`.
* `hhUniversalFingerprint`, `hhKeyedFingerprint`, `hhKeyCheckValue`, `hhTag`, `hhLayoutOf`.
* `optionsOf`, `hhRender`, `hhMeasureContrast`.

## References

* `src/include/hh/hh.h`, `src/src/c_api.cpp`.
-/

namespace HumanizedHash

/-- The byte order of the host. -/
inductive Endian
  | little
  | big
  deriving DecidableEq

/-- The four bytes of a 32-bit field. -/
def Endian.store : Endian → ℕ → List UInt8
  | little, v => ByteOrder.littleEndian 4 v
  | big, v => ByteOrder.bigEndian 4 v

/-- The value of a 32-bit field. -/
def Endian.load : Endian → List UInt8 → ℕ
  | little, l => ByteOrder.ofLittleEndian l
  | big, l => ByteOrder.ofBigEndian l

/-- A pointer. -/
abbrev Pointer := Option ℕ

def hhOk : Int := 0

def hhInvalidArgument : Int := 14

def hhModeUniversal : Int := 1

def hhModeKeyed : Int := 2

variable (mem : Memory UInt8)

/-! ### Local helpers -/

/-- The view of `size` bytes at a pointer. -/
def viewOf (data : Pointer) (size : ℕ) : ByteView :=
  match data with
  | none => .null size
  | some p => .external (mem.read p size)

/-- The `string_view` of `size` characters at a pointer: a null one is empty. -/
def stringViewOf (data : Pointer) (size : ℕ) : ByteView :=
  match data with
  | none => .null 0
  | some p => .external (mem.read p size)

/-- `digest_out`. -/
def digestOut (result : ErrorCode × BaseDigest) (out : ℕ) : ErrorCode × Memory UInt8 :=
  if result.1 = .ok then
    (result.1, mem.write out result.2.bytes.toList)
  else
    (result.1, mem)

/-- `colour_or_white`. -/
def colourOrWhite (c : Pointer) : Rgb :=
  match c with
  | none => ⟨255, 255, 255⟩
  | some p => ⟨mem p, mem (p + 1), mem (p + 2)⟩

/-- `sizeof(hh_render_options)`: a 32-bit field, seven bytes and one of padding. -/
def sizeofRenderOptions : ℕ := 12

/-- `options_of`: whether the structure is accepted, and the options. -/
def optionsOf (host : Endian) (o : Pointer) : Bool × RenderOptions :=
  match o with
  | none => (true, {})
  | some o =>
    if host.load (mem.read o 4) ≠ sizeofRenderOptions then
      (false, {})
    else
      (true,
        { shape := ImageShape.ofByte (mem (o + 4))
          frame := FrameStyle.ofByte (mem (o + 5))
          background := ⟨mem (o + 6), mem (o + 7), mem (o + 8)⟩
          backgroundAlpha := mem (o + 9)
          frameAlpha := mem (o + 10) })

/-- `make_fingerprint`. -/
def makeFingerprint (bytes : Pointer) (mode : Int) (fp : Fingerprint) :
    ErrorCode × Fingerprint :=
  match bytes with
  | none => (.invalidArgument, fp)
  | some p =>
    if mode ≠ hhModeUniversal ∧ mode ≠ hhModeKeyed then
      (.invalidFingerprint, fp)
    else
      importFingerprint (.external (mem.read p 32)) (Mode.ofByte (UInt8.ofInt mode)) fp

/-! ### Digests -/

/-- `hh_base_digest`. -/
def hhBaseDigest (data : Pointer) (size : ℕ) (outDigest : Pointer) : Int × Memory UInt8 :=
  match outDigest with
  | none => (hhInvalidArgument, mem)
  | some out =>
    if data = none ∧ size ≠ 0 then
      (hhInvalidArgument, mem)
    else
      let result := digestOut mem (makeBaseDigest (viewOf mem data size) .unset) out
      (result.1.code, result.2)

/-- `hh_base_digest_from_hex`. -/
def hhBaseDigestFromHex (hex : Pointer) (length : ℕ) (outDigest : Pointer) :
    Int × Memory UInt8 :=
  match outDigest with
  | none => (hhInvalidArgument, mem)
  | some out =>
    if hex = none ∧ length ≠ 0 then
      (hhInvalidArgument, mem)
    else
      let view := (stringViewOf mem hex length).load BaseDigest.unset.bytes
      let result := digestOut mem (makeBaseDigestFromHex view .unset) out
      (result.1.code, result.2)

/-- `hh_base_digest_from_text`. -/
def hhBaseDigestFromText (utf8 : Pointer) (length : ℕ) (outDigest : Pointer) :
    Int × Memory UInt8 :=
  match outDigest with
  | none => (hhInvalidArgument, mem)
  | some out =>
    if utf8 = none ∧ length ≠ 0 then
      (hhInvalidArgument, mem)
    else
      let result := digestOut mem
        (makeBaseDigestFromText (stringViewOf mem utf8 length) .unset) out
      (result.1.code, result.2)

/-! ### Fingerprints -/

/-- `hh_universal_fingerprint`. -/
def hhUniversalFingerprint (digest outFingerprint : Pointer) : Int × Memory UInt8 :=
  match digest, outFingerprint with
  | some digest, some out => (hhOk, mem.write out (mem.read digest 32))
  | _, _ => (hhInvalidArgument, mem)

/-- `hh_keyed_fingerprint`. -/
def hhKeyedFingerprint (digest key outFingerprint : Pointer) : Int × Memory UInt8 :=
  match digest, key, outFingerprint with
  | some digest, some key, some out =>
    let (ec, d) := importBaseDigest (.external (mem.read digest 32)) .unset
    let (ec, k) :=
      if ec = .ok then makeSecretKey (.external (mem.read key 32)) .unset else (ec, .unset)
    let (ec, fp) := if ec = .ok then keyedFingerprint d k .unset else (ec, .unset)
    if ec = .ok then (ec.code, mem.write out fp.bytes.toList) else (ec.code, mem)
  | _, _, _ => (hhInvalidArgument, mem)

/-- `hh_key_check_value`. -/
def hhKeyCheckValue (key outKcv : Pointer) : Int × Memory UInt8 :=
  match key, outKcv with
  | some key, some out =>
    let (ec, k) := makeSecretKey (.external (mem.read key 32)) .unset
    if ec = .ok then (ec.code, mem.write out k.kcv.toList) else (ec.code, mem)
  | _, _ => (hhInvalidArgument, mem)

/-- `hh_tag`. -/
def hhTag (fingerprint outTag : Pointer) : Int × Memory UInt8 :=
  match outTag with
  | none => (hhInvalidArgument, mem)
  | some out =>
    let (ec, fp) := makeFingerprint mem fingerprint hhModeUniversal .unset
    if ec = .ok then (ec.code, mem.write out fp.tagChars.toList) else (ec.code, mem)

/-- The assignments to `out_layout`: the mode at 0, the cells from 1 on, two bytes each, the
palette from 36 on and the frame colour at 52. -/
def storeLayout (host : Endian) (out : ℕ) (l : Layout) : Memory UInt8 :=
  let mem := mem.write out [l.mode.toByte]
  let mem := l.cells.toList.zipIdx.foldl (fun mem c =>
    (mem.write (out + 1 + 2 * c.2) [c.1.figure.toByte]).write (out + 1 + 2 * c.2 + 1)
      [c.1.colour]) mem
  let mem := l.paletteRgb.toList.zipIdx.foldl (fun mem c =>
    mem.write (out + 36 + 4 * c.2) (host.store c.1.toNat)) mem
  mem.write (out + 52) (host.store l.frameRgb.toNat)

/-- `hh_layout_of`. -/
def hhLayoutOf (host : Endian) (fingerprint : Pointer) (mode : Int) (outLayout : Pointer) :
    Int × Memory UInt8 :=
  match outLayout with
  | none => (hhInvalidArgument, mem)
  | some out =>
    let (ec, fp) := makeFingerprint mem fingerprint mode .unset
    if ec ≠ .ok then
      (ec.code, mem)
    else
      (hhOk, storeLayout mem host out (describe fp))

/-! ### Pictures -/

/-- `hh_render`. -/
def hhRender (host : Endian) (fingerprint : Pointer) (mode : Int) (size : UInt32)
    (options outRgba : Pointer) (capacity : ℕ) : Int × Memory UInt8 :=
  match outRgba with
  | none => (hhInvalidArgument, mem)
  | some out =>
    let (ec, fp) := makeFingerprint mem fingerprint mode .unset
    if ec ≠ .ok then
      (ec.code, mem)
    else
      let (accepted, o) := optionsOf mem host options
      if !accepted then
        (hhInvalidArgument, mem)
      else
        let result := renderInto fp size o (some out) capacity mem
        (result.1.code, result.2)

/-- `hh_measure_contrast`. -/
def hhMeasureContrast (host : Endian) (options page outContrast : Pointer) :
    Int × Memory UInt8 :=
  match outContrast with
  | none => (hhInvalidArgument, mem)
  | some out =>
    let (accepted, o) := optionsOf mem host options
    if !accepted then
      (hhInvalidArgument, mem)
    else
      let r := measureContrast o (colourOrWhite mem page)
      let mem := mem.write out (host.store r.figuresX100)
      (hhOk, mem.write (out + 4) (host.store r.frameX100))

end HumanizedHash
