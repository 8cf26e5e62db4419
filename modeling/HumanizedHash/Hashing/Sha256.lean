import HumanizedHash.Foundations.BlockFold
import HumanizedHash.Foundations.ByteOrder
import HumanizedHash.Foundations.Storage

/-!
# SHA-256

The incremental hasher of `src/sha256.cpp`: the compression function on one 64-byte block, and
the object that buffers an incomplete block between calls of `update`. The template parameter and
the `secrecy` member only decide whether the stack is wiped afterwards; no value depends on them,
and they are left out.

## Main definitions

* `sha256Compress`, `sha256Store`: the compression function and the digest of a state.
* `Sha256`, `Sha256.update`, `Sha256.finish`: the hasher.
* `sha256Hash`: the one-shot form.

## References

* `src/src/sha256.hpp`, `src/src/sha256.cpp`.
-/

namespace HumanizedHash

open BlockFold Storage

/-! ### The compression function -/

/-- `sha256_state`. -/
abbrev Sha256State := Vector UInt32 8

/-- `sha256_digest`. -/
abbrev Sha256Digest := Vector UInt8 32

def sha256BlockSize : ℕ := 64

def sha256DigestSize : ℕ := 32

theorem sha256BlockSize_pos : 0 < sha256BlockSize := Nat.zero_lt_succ 63

/-- A full buffer is one block. -/
theorem length_block (block : Vector UInt8 64) : block.toList.length = sha256BlockSize :=
  Vector.length_toList

/-- The initial hash value H(0) of FIPS 180-4 section 5.3.3. -/
def sha256InitialState : Sha256State :=
  #v[0x6A09E667, 0xBB67AE85, 0x3C6EF372, 0xA54FF53A, 0x510E527F, 0x9B05688C, 0x1F83D9AB,
    0x5BE0CD19]

namespace Sha256

/-- The round constants K of FIPS 180-4 section 4.2.2. -/
def k : Array UInt32 :=
  #[0x428A2F98, 0x71374491, 0xB5C0FBCF, 0xE9B5DBA5, 0x3956C25B, 0x59F111F1, 0x923F82A4,
    0xAB1C5ED5, 0xD807AA98, 0x12835B01, 0x243185BE, 0x550C7DC3, 0x72BE5D74, 0x80DEB1FE,
    0x9BDC06A7, 0xC19BF174, 0xE49B69C1, 0xEFBE4786, 0x0FC19DC6, 0x240CA1CC, 0x2DE92C6F,
    0x4A7484AA, 0x5CB0A9DC, 0x76F988DA, 0x983E5152, 0xA831C66D, 0xB00327C8, 0xBF597FC7,
    0xC6E00BF3, 0xD5A79147, 0x06CA6351, 0x14292967, 0x27B70A85, 0x2E1B2138, 0x4D2C6DFC,
    0x53380D13, 0x650A7354, 0x766A0ABB, 0x81C2C92E, 0x92722C85, 0xA2BFE8A1, 0xA81A664B,
    0xC24B8B70, 0xC76C51A3, 0xD192E819, 0xD6990624, 0xF40E3585, 0x106AA070, 0x19A4C116,
    0x1E376C08, 0x2748774C, 0x34B0BCB5, 0x391C0CB3, 0x4ED8AA4A, 0x5B9CCA4F, 0x682E6FF3,
    0x748F82EE, 0x78A5636F, 0x84C87814, 0x8CC70208, 0x90BEFFFA, 0xA4506CEB, 0xBEF9A3F7,
    0xC67178F2]

def rotr (x n : UInt32) : UInt32 :=
  (x >>> n) ||| (x <<< (32 - n))

def loadBe32 (p : List UInt8) (i : ℕ) : UInt32 :=
  ((p.getD i 0).toUInt32 <<< 24) ||| ((p.getD (i + 1) 0).toUInt32 <<< 16) |||
    ((p.getD (i + 2) 0).toUInt32 <<< 8) ||| (p.getD (i + 3) 0).toUInt32

def storeBe32 (v : UInt32) : List UInt8 :=
  [(v >>> 24).toUInt8, (v >>> 16).toUInt8, (v >>> 8).toUInt8, v.toUInt8]

/-- The message schedule `w`: 16 words of the block, then 48 words computed from them. -/
def schedule (block : List UInt8) : Array UInt32 :=
  (List.range' 16 48).foldl
    (fun w i =>
      let s0 := rotr w[i - 15]! 7 ^^^ rotr w[i - 15]! 18 ^^^ (w[i - 15]! >>> 3)
      let s1 := rotr w[i - 2]! 17 ^^^ rotr w[i - 2]! 19 ^^^ (w[i - 2]! >>> 10)
      w.push (w[i - 16]! + s0 + w[i - 7]! + s1))
    ((Array.range 16).map fun i => loadBe32 block (4 * i))

/-- The working variables of the compression function. -/
structure Working where
  a : UInt32
  b : UInt32
  c : UInt32
  d : UInt32
  e : UInt32
  f : UInt32
  g : UInt32
  h : UInt32

/-- One round, with the round constant `ki` and the schedule word `wi`. -/
def Working.round (v : Working) (ki wi : UInt32) : Working :=
  let s1 := rotr v.e 6 ^^^ rotr v.e 11 ^^^ rotr v.e 25
  let ch := (v.e &&& v.f) ^^^ (~~~v.e &&& v.g)
  let t1 := v.h + s1 + ch + ki + wi
  let s0 := rotr v.a 2 ^^^ rotr v.a 13 ^^^ rotr v.a 22
  let maj := (v.a &&& v.b) ^^^ (v.a &&& v.c) ^^^ (v.b &&& v.c)
  let t2 := s0 + maj
  { a := t1 + t2, b := v.a, c := v.b, d := v.c, e := v.d + t1, f := v.e, g := v.f, h := v.g }

end Sha256

open Sha256

/-- `sha256_compress`, and `sha256_compress_secret`, on one 64-byte block. -/
@[irreducible] def sha256Compress (state : Sha256State) (block : List UInt8) : Sha256State :=
  let w := schedule block
  let v : Working :=
    { a := state[0], b := state[1], c := state[2], d := state[3], e := state[4], f := state[5],
      g := state[6], h := state[7] }
  let v := (List.range 64).foldl (fun v i => v.round k[i]! w[i]!) v
  #v[state[0] + v.a, state[1] + v.b, state[2] + v.c, state[3] + v.d, state[4] + v.e,
    state[5] + v.f, state[6] + v.g, state[7] + v.h]

/-- The working variables in front of the rounds. -/
def Sha256.workingOf (s : Sha256State) : Working :=
  ⟨s[0], s[1], s[2], s[3], s[4], s[5], s[6], s[7]⟩

/-- The state behind the rounds. -/
def Sha256.feedForward (s : Sha256State) (v : Working) : Sha256State :=
  #v[s[0] + v.a, s[1] + v.b, s[2] + v.c, s[3] + v.d, s[4] + v.e, s[5] + v.f, s[6] + v.g,
    s[7] + v.h]

/-- `sha256_store`: the state as a big-endian digest. -/
def sha256Store (state : Sha256State) : Sha256Digest :=
  Vector.ofFn fun i => (storeBe32 state[i.val / 4]).getD (i % 4) 0

/-! ### The incremental hasher -/

/-- `class sha256`. -/
structure Sha256 where
  state : Sha256State
  buffer : Vector UInt8 64
  length : UInt64
  buffered : ℕ

namespace Sha256

/-- A fresh hasher. -/
def new : Sha256 :=
  { state := sha256InitialState, buffer := Vector.replicate 64 0, length := 0, buffered := 0 }

/-- The hasher that resumes from a mid-state, which has absorbed `length` bytes. -/
def resume (state : Sha256State) (length : UInt64) : Sha256 :=
  { state := state, buffer := Vector.replicate 64 0, length := length, buffered := 0 }

/-- `reset`: what the wiped object holds is what a fresh one holds. -/
def reset (_ : Sha256) : Sha256 :=
  { state := sha256InitialState, buffer := Vector.replicate 64 0, length := 0, buffered := 0 }

/-- The second half of `update`: whole blocks are hashed straight from the caller's data and the
tail is kept. -/
def updateBlocks (h : Sha256) (data : List UInt8) : Sha256 :=
  let (state, tail) := absorb sha256BlockSize sha256Compress h.state data
  if tail.length ≠ 0 then
    { h with state := state, buffer := copyInto h.buffer 0 tail, buffered := tail.length }
  else
    { h with state := state }

/-- `update`. -/
def update (h : Sha256) (data : List UInt8) : Sha256 :=
  if data.length = 0 then
    h
  else
    let h := { h with length := h.length + UInt64.ofNat data.length }
    if h.buffered ≠ 0 then
      let take := min data.length (sha256BlockSize - h.buffered)
      let buffer := copyInto h.buffer h.buffered (data.take take)
      let buffered := h.buffered + take
      if buffered < sha256BlockSize then
        { h with buffer := buffer, buffered := buffered }
      else
        updateBlocks
          { h with state := sha256Compress h.state buffer.toList, buffer := buffer, buffered := 0 }
          (data.drop take)
    else
      updateBlocks h data

/-- The eight bytes that `finish` writes at the end of the last block: the byte at `63 - i` is
`bitLength >> 8 * i`. -/
def lengthBytes (bitLength : UInt64) : List UInt8 :=
  (List.range 8).reverse.map fun i => (bitLength >>> (8 * UInt64.ofNat i)).toUInt8

/-- The first half of `finish`: the terminator, and a block of its own for it where it leaves no
room for the length. -/
def finishTerminator (h : Sha256) : Sha256 :=
  let buffer := copyInto h.buffer h.buffered [0x80]
  let buffered := h.buffered + 1
  if sha256BlockSize - 8 < buffered then
    let buffer := copyInto buffer buffered (List.replicate (sha256BlockSize - buffered) 0)
    { h with state := sha256Compress h.state buffer.toList, buffer := buffer, buffered := 0 }
  else
    { h with buffer := buffer, buffered := buffered }

/-- `finish`: the digest and the object that is left. -/
def finish (h : Sha256) : Sha256Digest × Sha256 :=
  let bitLength := h.length * 8
  let h := h.finishTerminator
  let buffer := copyInto h.buffer h.buffered (List.replicate (sha256BlockSize - 8 - h.buffered) 0)
  let buffer := copyInto buffer (sha256BlockSize - 8) (lengthBytes bitLength)
  let state := sha256Compress h.state buffer.toList
  (sha256Store state, { h with state := state, buffer := buffer, buffered := 0 })

end Sha256

/-- `sha256_hash`, the one-shot form. -/
def sha256Hash (data : List UInt8) : Sha256Digest :=
  (Sha256.new.update data).finish.1

end HumanizedHash
