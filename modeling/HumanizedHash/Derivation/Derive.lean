import HumanizedHash.Hashing.Pbkdf2
import HumanizedHash.Types

/-!
# Canonicalisation and derivation

The value objects of the public interface and the operations of `src/derive.cpp` on them: the
base digest of an input, the fingerprints derived from it, the secret key. Every operation takes
the object it writes and returns the error code with the object it leaves, so that the order of
clearing, checking and setting is that of the source. A view is read where the source reads it,
through the bytes that the written object holds at that time.

## Main definitions

* `BaseDigest`, `SecretKey`, `Fingerprint`.
* `deriveD0`, `stretch`, `m2Message`, `keyedBytes`, `keyCheckValue`.
* `makeBaseDigest`, `makeBaseDigestFromText`, `makeBaseDigestFromHex`, `importBaseDigest`.
* `makeSecretKey`, `universalFingerprint`, `keyedFingerprint`, `importFingerprint`.

## References

* `src/src/derive.hpp`, `src/src/derive.cpp`, `src/include/hh/digest.hpp`,
  `src/include/hh/key.hpp`, `src/include/hh/fingerprint.hpp`.
-/

namespace HumanizedHash

open Storage

/-! ### Value objects -/

/-- `class base_digest`. -/
structure BaseDigest where
  bytes : Vector UInt8 32
  set : Bool
  deriving DecidableEq

namespace BaseDigest

/-- `digest_access::set`. -/
def assign (_ : BaseDigest) (bytes : Vector UInt8 32) : BaseDigest :=
  { bytes := bytes, set := true }

/-- `digest_access::clear`, and the default constructor. -/
def unset : BaseDigest :=
  { bytes := Vector.replicate 32 0, set := false }

def clear (_ : BaseDigest) : BaseDigest := unset

def empty (d : BaseDigest) : Bool := !d.set

@[simp] theorem clear_eq (d : BaseDigest) : d.clear = unset := rfl

end BaseDigest

/-- `class secret_key`. -/
structure SecretKey where
  bytes : Vector UInt8 32
  set : Bool
  deriving DecidableEq

namespace SecretKey

/-- `key_access::set`. -/
def assign (_ : SecretKey) (bytes : Vector UInt8 32) : SecretKey :=
  { bytes := bytes, set := true }

/-- `key_access::clear`, and the default constructor. -/
def unset : SecretKey :=
  { bytes := Vector.replicate 32 0, set := false }

def clear (_ : SecretKey) : SecretKey := unset

def empty (k : SecretKey) : Bool := !k.set

/-- The copy constructor, and the copy assignment from another object. -/
def copyFrom (other : SecretKey) : SecretKey :=
  { bytes := other.bytes, set := other.set }

/-- The move constructor, and the move assignment from another object: the object that is written
and what is left of the other one. -/
def moveFrom (other : SecretKey) : SecretKey × SecretKey :=
  ({ bytes := other.bytes, set := other.set }, other.clear)

@[simp] theorem clear_eq (k : SecretKey) : k.clear = unset := rfl

end SecretKey

/-- `class fingerprint`. -/
structure Fingerprint where
  bytes : Vector UInt8 32
  mode : Mode
  set : Bool
  deriving DecidableEq

namespace Fingerprint

/-- `fingerprint_access::set`. -/
def assign (_ : Fingerprint) (bytes : Vector UInt8 32) (m : Mode) : Fingerprint :=
  { bytes := bytes, mode := m, set := true }

/-- `fingerprint_access::clear`, and the default constructor. -/
def unset : Fingerprint :=
  { bytes := Vector.replicate 32 0, mode := .universal, set := false }

def clear (_ : Fingerprint) : Fingerprint := unset

def empty (f : Fingerprint) : Bool := !f.set

@[simp] theorem clear_eq (f : Fingerprint) : f.clear = unset := rfl

end Fingerprint

/-! ### Derivation -/

/-- `"HumanizedHash"`. -/
def dst : List UInt8 :=
  [0x48, 0x75, 0x6D, 0x61, 0x6E, 0x69, 0x7A, 0x65, 0x64, 0x48, 0x61, 0x73, 0x68]

/-- `"HumanizedHash/stretch"`. -/
def stretchSalt : List UInt8 :=
  [0x48, 0x75, 0x6D, 0x61, 0x6E, 0x69, 0x7A, 0x65, 0x64, 0x48, 0x61, 0x73, 0x68, 0x2F, 0x73, 0x74,
    0x72, 0x65, 0x74, 0x63, 0x68]

def stageDigest : UInt8 := 0x01

def stageKeyed : UInt8 := 0x02

def stageKcv : UInt8 := 0x03

def stretchIterations : UInt32 := 16384

def maxInputSize : ℕ := 1048576

/-- `enum class input_kind`. -/
inductive InputKind
  | binary
  | text
  deriving DecidableEq

def InputKind.toByte : InputKind → UInt8
  | binary => 0x00
  | text => 0x01

/-- `put_prefix`: `DST || 00 || stage`. -/
def putPrefix (stage : UInt8) : List UInt8 :=
  dst ++ [0x00, stage]

/-- `check_length`. -/
def checkLength (size : ℕ) : ErrorCode :=
  if size = 0 then .emptyInput
  else if maxInputSize < size then .inputTooLarge
  else .ok

/-- `m1_header`: `DST || 00 || 01 || kind || u32be(length)`. -/
def m1Header (kind : InputKind) (length : UInt32) : Vector UInt8 20 :=
  copyInto (Vector.replicate 20 0) 0
    (putPrefix stageDigest ++ [kind.toByte, (length >>> 24).toUInt8, (length >>> 16).toUInt8,
      (length >>> 8).toUInt8, length.toUInt8])

/-- `derive_d0`. -/
def deriveD0 (kind : InputKind) (data : List UInt8) : Sha256Digest :=
  let header := m1Header kind (UInt32.ofNat data.length)
  let h := Sha256.new.update header.toList
  let h := h.update data
  h.finish.1

/-- `stretch`. -/
def stretch (d0 : Sha256Digest) (iterations : UInt32) : Vector UInt8 32 :=
  copyInto (Vector.replicate 32 0) 0 (pbkdf2HmacSha256 d0.toList stretchSalt iterations 32)

/-- `m2_message`: `DST || 00 || 02 || s`. -/
def m2Message (s : Vector UInt8 32) : Vector UInt8 47 :=
  copyInto (copyInto (Vector.replicate 47 0) 0 (putPrefix stageKeyed))
    (putPrefix stageKeyed).length s.toList

/-- `keyed_bytes`. -/
def keyedBytes (key s : Vector UInt8 32) : Vector UInt8 32 :=
  hmacSha256Tag key.toList (m2Message s).toList

/-- The message of the key check value, `DST || 00 || 03`. -/
def kcvMessage : Vector UInt8 15 :=
  copyInto (Vector.replicate 15 0) 0 (putPrefix stageKcv)

/-- `key_check_value`: the first four bytes of the tag. -/
def keyCheckValue (key : Vector UInt8 32) : Vector UInt8 4 :=
  let tag := hmacSha256Tag key.toList kcvMessage.toList
  Vector.ofFn fun i : Fin 4 => tag[i]

/-- `digest_of`. The object is cleared before the view is checked and read. -/
def digestOf (kind : InputKind) (data : ByteView) (out : BaseDigest) : ErrorCode × BaseDigest :=
  let out := out.clear
  if data.isNull ∧ data.size ≠ 0 then
    (.invalidArgument, out)
  else
    match checkLength data.size with
    | .ok =>
      let d0 := deriveD0 kind (data.load out.bytes)
      let s := stretch d0 stretchIterations
      (.ok, out.assign s)
    | ec => (ec, out)

/-! ### Base digests -/

def makeBaseDigest (data : ByteView) (out : BaseDigest) : ErrorCode × BaseDigest :=
  digestOf .binary data out

def makeBaseDigestFromText (text : ByteView) (out : BaseDigest) : ErrorCode × BaseDigest :=
  digestOf .text text out

/-- `hex_value`. -/
def hexValue (c : UInt8) : Int :=
  if 0x30 ≤ c ∧ c ≤ 0x39 then c.toNat - 0x30
  else if 0x61 ≤ c ∧ c ≤ 0x66 then c.toNat - 0x61 + 10
  else if 0x41 ≤ c ∧ c ≤ 0x46 then c.toNat - 0x41 + 10
  else -1

/-- The string without one leading `0x` or `0X`. -/
def removeHexPrefix (hex : List UInt8) : List UInt8 :=
  if 2 ≤ hex.length ∧ hex.getD 0 0 = 0x30 ∧ (hex.getD 1 0 = 0x78 ∨ hex.getD 1 0 = 0x58) then
    hex.drop 2
  else
    hex

/-- The byte at `pos` of a string of digits. -/
def hexByte (hex : List UInt8) (pos : ℕ) : UInt8 :=
  let hi := hexValue (hex.getD (2 * pos) 0)
  let lo := hexValue (hex.getD (2 * pos + 1) 0)
  UInt8.ofInt (hi * 16 + lo)

/-- The bytes of the decoding buffer. -/
def chunkSize : ℕ := 256

/-- The loop of `make_base_digest_from_hex` that decodes a chunk and absorbs it. -/
def absorbHex (hex : List UInt8) (size pos : ℕ) (h : Sha256) : Sha256 :=
  if pos < size then
    let n := min chunkSize (size - pos)
    let chunk := (List.range n).map fun i => hexByte hex (pos + i)
    absorbHex hex size (pos + n) (h.update chunk)
  else
    h
termination_by size - pos
decreasing_by simp only [chunkSize]; omega

def makeBaseDigestFromHex (hex : List UInt8) (out : BaseDigest) : ErrorCode × BaseDigest :=
  let out := out.clear
  let hex := removeHexPrefix hex
  if hex.isEmpty ∨ hex.length % 2 ≠ 0 then
    (.invalidHex, out)
  else if hex.any fun c => hexValue c < 0 then
    (.invalidHex, out)
  else
    let size := hex.length / 2
    match checkLength size with
    | .ok =>
      let header := m1Header .binary (UInt32.ofNat size)
      let h := Sha256.new.update header.toList
      let d0 := (absorbHex hex size 0 h).finish.1
      let s := stretch d0 stretchIterations
      (.ok, out.assign s)
    | ec => (ec, out)

/-- `import_base_digest`. The bytes are copied before the object is written. -/
def importBaseDigest (bytes32 : ByteView) (out : BaseDigest) : ErrorCode × BaseDigest :=
  if bytes32.isNull ∨ bytes32.size ≠ 32 then
    (.invalidDigest, out.clear)
  else
    let copy := copyInto (Vector.replicate 32 0) 0 (bytes32.load out.bytes)
    (.ok, out.assign copy)

/-! ### Secret keys -/

/-- `secret_key::kcv`. -/
def SecretKey.kcv (k : SecretKey) : Vector UInt8 4 :=
  if !k.set then Vector.replicate 4 0 else keyCheckValue k.bytes

/-- `make_secret_key`. The object is cleared before the view is checked and read. -/
def makeSecretKey (bytes32 : ByteView) (out : SecretKey) : ErrorCode × SecretKey :=
  let out := out.clear
  if bytes32.isNull ∨ bytes32.size ≠ 32 then
    (.invalidKey, out)
  else
    let any := (bytes32.load out.bytes).foldl (fun any b => any ||| b) 0
    if any = 0 then
      (.invalidKey, out)
    else
      (.ok, out.assign (copyInto out.bytes 0 (bytes32.load out.bytes)))

/-! ### Fingerprints -/

def universalFingerprint (digest : BaseDigest) (out : Fingerprint) : ErrorCode × Fingerprint :=
  let out := out.clear
  if digest.empty then
    (.invalidDigest, out)
  else
    (.ok, out.assign digest.bytes .universal)

def keyedFingerprint (digest : BaseDigest) (key : SecretKey) (out : Fingerprint) :
    ErrorCode × Fingerprint :=
  let out := out.clear
  if digest.empty then
    (.invalidDigest, out)
  else if key.empty then
    (.invalidKey, out)
  else
    (.ok, out.assign (keyedBytes key.bytes digest.bytes) .keyed)

/-- `import_fingerprint`. The bytes are copied before the object is written. -/
def importFingerprint (bytes32 : ByteView) (m : Mode) (out : Fingerprint) :
    ErrorCode × Fingerprint :=
  if bytes32.isNull ∨ bytes32.size ≠ 32 ∨ (m ≠ .universal ∧ m ≠ .keyed) then
    (.invalidFingerprint, out.clear)
  else
    let copy := copyInto (Vector.replicate 32 0) 0 (bytes32.load out.bytes)
    (.ok, out.assign copy m)

end HumanizedHash
