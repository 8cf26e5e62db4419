import HumanizedHash.Encoding.Png
import HumanizedHash.Foundations.HashChain
import HumanizedHash.Lab.Canvas

/-!
# The PNG writer of the lab

`tools/lab/png_writer.cpp`: a writer of its own, with a compressor that looks for matches in hash
chains. The tables of the codes and the bases are those of `src/png.cpp`.

## Main definitions

* `Lab.crc32`, `Lab.adler32`: the checks.
* `Lab.BitWriter`: the writer with an accumulator of 64 bits.
* `Lab.Chains`, `Lab.insert`, `Lab.searchChain`: the hash chains, and a search for a match.
* `Lab.deflateFixed`, `Lab.writePng`.

## References

* `src/tools/lab/png_writer.cpp`.
-/

namespace HumanizedHash

namespace Lab

/-! ### The checks -/

/-- `crc32`. The table and the loop are written as in `src/checksum.cpp`. -/
def crc32 (data : List UInt8) (crc : UInt32 := 0) : UInt32 := ~~~(data.foldl crcByte (~~~crc))

/-- The body of the loop of `adler32`, on `a` and `b`. -/
def adlerByte (s : UInt32 × UInt32) (v : UInt8) : UInt32 × UInt32 :=
  let a := (s.1 + v.toUInt32) % 65521
  (a, (s.2 + a) % 65521)

/-- `adler32`. -/
def adler32 (data : List UInt8) : UInt32 :=
  let s := data.foldl adlerByte (1, 0)
  (s.2 <<< 16) ||| s.1

/-! ### The writer -/

/-- `class bit_writer`. -/
structure BitWriter where
  out : List UInt8
  acc : UInt64
  used : ℕ

namespace BitWriter

/-- The constructor. -/
def new : BitWriter := ⟨[], 0, 0⟩

/-- The loop of `put`. -/
def drain (w : BitWriter) : BitWriter :=
  if 8 ≤ w.used then drain ⟨w.out ++ [w.acc.toUInt8], w.acc >>> 8, w.used - 8⟩ else w
termination_by w.used

def put (w : BitWriter) (bits : UInt32) (count : ℕ) : BitWriter :=
  drain { w with
    acc := w.acc ||| (bits.toUInt64 <<< UInt64.ofNat w.used), used := w.used + count }

/-- `put_code`. The loop over the bits is written as in `src/png.cpp`. -/
def putCode (w : BitWriter) (code : UInt32) (count : ℕ) : BitWriter :=
  w.put (HumanizedHash.BitWriter.reversed code count) count

def finish (w : BitWriter) : List UInt8 :=
  if 0 < w.used then w.out ++ [w.acc.toUInt8] else w.out

end BitWriter

/-- `put_literal`. -/
def putLiteral (w : BitWriter) (symbol : ℕ) : BitWriter :=
  w.putCode (UInt32.ofNat (fixedCode symbol).1) (fixedCode symbol).2

/-- `put_match`. -/
def putMatch (w : BitWriter) (length dist : ℕ) : BitWriter :=
  let li := searchBase lengthBase length 28
  let w := putLiteral w (257 + li)
  let w := w.put (UInt32.ofNat (length - lengthBase.getD li 0)) (lengthExtra.getD li 0)
  let di := searchBase distBase dist 29
  let w := w.putCode (UInt32.ofNat di) 5
  w.put (UInt32.ofNat (dist - distBase.getD di 0)) (distExtra.getD di 0)

/-! ### The hash chains -/

def window : ℕ := 32768

/-- `max_chain`. -/
def maxChain : ℕ := 48

/-- `max_match`. -/
def maxMatch : ℕ := 258

section Deflate

variable (input : List UInt8)

/-- `hash_at`. -/
def hashAt (i : ℕ) : ℕ :=
  let v := ((input.getD i 0).toUInt32 <<< 16) ||| ((input.getD (i + 1) 0).toUInt32 <<< 8) |||
    (input.getD (i + 2) 0).toUInt32
  ((v * 2654435761) >>> 16).toNat

/-- `head` and `prev`. -/
abbrev Chains := HashChain.Table ℕ

/-- `insert`. -/
def insert (t : Chains) (i : ℕ) : Chains :=
  if i + 2 < input.length then
    let h := hashAt input i
    let prev := Function.update t.prev (i % window) (t.head h)
    ⟨Function.update t.head h i, prev⟩
  else
    t

/-- The loop over `len`. -/
def matchLength (c i limit len : ℕ) : ℕ :=
  if len < limit ∧ input.getD (c + len) 0 = input.getD (i + len) 0 then
    matchLength c i limit (len + 1)
  else
    len
termination_by limit - len

/-- The loop over the chain, on `best_len` and `best_dist`; `chain` more candidates are allowed. No
candidate is behind `i`, and `i - c` does not wrap around. -/
def searchChain (t : Chains) (i limit : ℕ) : ℕ → ℤ → ℕ × ℕ → ℕ × ℕ
  | 0, _, best => best
  | chain + 1, cand, best =>
    if cand < 0 then best
    else
      let c := cand.toNat
      if window - 1 < i - c then best
      else
        let len := matchLength input c i limit 0
        if best.1 < len then
          if len = limit then (len, i - c)
          else searchChain t i limit chain (t.prev (c % window)) (len, i - c)
        else searchChain t i limit chain (t.prev (c % window)) best

/-- `best_len` and `best_dist` at a place. -/
def findMatch (t : Chains) (i : ℕ) : ℕ × ℕ :=
  if i + 2 < input.length then
    searchChain input t i (min maxMatch (input.length - i)) maxChain (t.head (hashAt input i)) (0, 0)
  else
    (0, 0)

/-- The loop of `deflate_fixed`. -/
def deflateLoop (t : Chains) (w : BitWriter) (i : ℕ) : BitWriter :=
  if i < input.length then
    let (bestLen, bestDist) := findMatch input t i
    if 3 ≤ bestLen then
      deflateLoop ((List.range bestLen).foldl (fun t k => insert input t (i + k)) t)
        (putMatch w bestLen bestDist) (i + bestLen)
    else
      deflateLoop (insert input t i) (putLiteral w (input.getD i 0).toNat) (i + 1)
  else
    w
termination_by input.length - i

/-- `deflate_fixed`. -/
def deflateFixed : List UInt8 :=
  let w := BitWriter.new
  let w := w.put 1 1
  let w := w.put 1 2
  let w := deflateLoop input HashChain.Table.empty w 0
  let w := putLiteral w 256
  w.finish

end Deflate

/-! ### The file -/

/-- `put_chunk`: the output with a chunk behind it. -/
def putChunk (out type data : List UInt8) : List UInt8 :=
  let out := out ++ putBe32 (UInt32.ofNat data.length)
  let start := out.length
  let out := out ++ type
  let out := out ++ data
  out ++ putBe32 (crc32 (out.drop start))

section File

variable (c : Canvas) (withAlpha : Bool)

/-- The body of the loop over `y`. -/
def rawRow (y : ℕ) : List UInt8 :=
  0 :: (List.range c.width).flatMap fun x =>
    let p := c.get x y
    [p.r, p.g, p.b] ++ if withAlpha then [p.a] else []

/-- `raw`. -/
def raw : List UInt8 := (List.range c.height).flatMap (rawRow c withAlpha)

/-- `zlib`. -/
def zlib : List UInt8 :=
  [0x78, 0x01] ++ deflateFixed (raw c withAlpha) ++ putBe32 (adler32 (raw c withAlpha))

/-- `ihdr`. -/
def ihdr : List UInt8 :=
  putBe32 (UInt32.ofNat c.width) ++ putBe32 (UInt32.ofNat c.height) ++
    [8, if withAlpha then 6 else 2, 0, 0, 0]

/-- The bytes that `write_png` writes. -/
def writePng : List UInt8 :=
  let png := [0x89, 0x50, 0x4E, 0x47, 0x0D, 0x0A, 0x1A, 0x0A]
  let png := putChunk png [0x49, 0x48, 0x44, 0x52] (ihdr c withAlpha)
  let png := putChunk png [0x73, 0x52, 0x47, 0x42] [0]
  let png := putChunk png [0x49, 0x44, 0x41, 0x54] (zlib c withAlpha)
  putChunk png [0x49, 0x45, 0x4E, 0x44] []

end File

end Lab

end HumanizedHash
