import HumanizedHash.Foundations.BitList

/-!
# The compressor of a PNG file

`deflate_fixed` of `src/png.cpp`: one block with the fixed codes, and matches at two distances.

## Main definitions

* `BitWriter`: the bits of a stream, packed from the least significant one of each byte.
* `putLiteral`, `putMatch`, `bestMatch`, `deflateFixed`.

## References

* `src/src/png.cpp`, `src/docs/SPEC.md` (section 11).
-/

namespace HumanizedHash

/-! ### The writer -/

/-- `class bit_writer`. -/
structure BitWriter where
  out : List UInt8
  acc : UInt32
  used : ℕ

namespace BitWriter

/-- The constructor. -/
def new (out : List UInt8) : BitWriter := ⟨out, 0, 0⟩

/-- The loop of `put` that moves full bytes to the output. -/
def drain (w : BitWriter) : BitWriter :=
  if 8 ≤ w.used then
    drain ⟨w.out ++ [(w.acc &&& 0xFF).toUInt8], w.acc >>> 8, w.used - 8⟩
  else
    w
termination_by w.used

def put (w : BitWriter) (bits : UInt32) (count : ℕ) : BitWriter :=
  drain { w with acc := w.acc ||| (bits <<< UInt32.ofNat w.used), used := w.used + count }

/-- The loop of `put_code`: the lowest `count` bits in the opposite order. -/
def reversed (code : UInt32) (count : ℕ) : UInt32 :=
  (List.range count).foldl
    (fun reversed i => (reversed <<< 1) ||| ((code >>> UInt32.ofNat i) &&& 1)) 0

/-- `put_code`. -/
def putCode (w : BitWriter) (code : UInt32) (count : ℕ) : BitWriter :=
  w.put (reversed code count) count

def flush (w : BitWriter) : BitWriter :=
  if w.used ≠ 0 then
    ⟨w.out ++ [(w.acc &&& 0xFF).toUInt8], 0, 0⟩
  else
    w

end BitWriter

/-! ### Symbols and matches -/

/-- The codeword of a literal or length in `put_symbol`, and its number of bits. -/
def fixedCode (symbol : ℕ) : ℕ × ℕ :=
  if symbol < 144 then (0x30 + symbol, 8)
  else if symbol < 256 then (0x190 + (symbol - 144), 9)
  else if symbol < 280 then (symbol - 256, 7)
  else (0xC0 + (symbol - 280), 8)

/-- `put_symbol` of `src/png.cpp`. -/
def putLiteral (w : BitWriter) (symbol : ℕ) : BitWriter :=
  w.putCode (UInt32.ofNat (fixedCode symbol).1) (fixedCode symbol).2

def lengthBase : List ℕ :=
  [3, 4, 5, 6, 7, 8, 9, 10, 11, 13, 15, 17, 19, 23, 27, 31, 35, 43, 51, 59, 67, 83, 99, 115, 131,
    163, 195, 227, 258]

def lengthExtra : List ℕ :=
  [0, 0, 0, 0, 0, 0, 0, 0, 1, 1, 1, 1, 2, 2, 2, 2, 3, 3, 3, 3, 4, 4, 4, 4, 5, 5, 5, 5, 0]

def distBase : List ℕ :=
  [1, 2, 3, 4, 5, 7, 9, 13, 17, 25, 33, 49, 65, 97, 129, 193, 257, 385, 513, 769, 1025, 1537, 2049,
    3073, 4097, 6145, 8193, 12289, 16385, 24577]

def distExtra : List ℕ :=
  [0, 0, 0, 0, 1, 1, 2, 2, 3, 3, 4, 4, 5, 5, 6, 6, 7, 7, 8, 8, 9, 9, 10, 10, 11, 11, 12, 12, 13, 13]

/-- The loops of `put_match`: from the index `i` down to the first base that is not above the
value. The source relies on the first base of a table for the end. -/
def searchBase (base : List ℕ) (value : ℕ) : ℕ → ℕ
  | 0 => 0
  | i + 1 => if value < base.getD (i + 1) 0 then searchBase base value i else i + 1

/-- `put_match`. -/
def putMatch (w : BitWriter) (length dist : ℕ) : BitWriter :=
  let li := searchBase lengthBase length 28
  let w := putLiteral w (257 + li)
  let w := w.put (UInt32.ofNat (length - lengthBase.getD li 0)) (lengthExtra.getD li 0)
  let di := searchBase distBase dist 29
  let w := w.putCode (UInt32.ofNat di) 5
  w.put (UInt32.ofNat (dist - distBase.getD di 0)) (distExtra.getD di 0)

/-! ### The compressor -/

section Deflate

variable (raw : List UInt8)

/-- The loop that extends a match at the distance `d`. -/
def extendMatch (i d limit len : ℕ) : ℕ :=
  if len < limit ∧ raw.getD (i + len) 0 = raw.getD (i - d + len) 0 then
    extendMatch i d limit (len + 1)
  else
    len
termination_by limit - len

/-- The body of the loop over the distances, on `best` and `dist`. -/
def tryDistance (i : ℕ) (s : ℕ × ℕ) (d : ℕ) : ℕ × ℕ :=
  if i < d then
    s
  else
    let len := extendMatch raw i d (min 258 (raw.length - i)) 0
    if s.1 < len then (len, d) else s

/-- `best` and `dist` at a position. -/
def bestMatch (bpp stride i : ℕ) : ℕ × ℕ := [bpp, stride].foldl (tryDistance raw i) (0, 0)

/-- The loop of `deflate_fixed`. -/
def deflateLoop (bpp stride : ℕ) (w : BitWriter) (i : ℕ) : BitWriter :=
  if i < raw.length then
    let (best, dist) := bestMatch raw bpp stride i
    if 3 ≤ best then
      deflateLoop bpp stride (putMatch w best dist) (i + best)
    else
      deflateLoop bpp stride (putLiteral w (raw.getD i 0).toNat) (i + 1)
  else
    w
termination_by raw.length - i

/-- `deflate_fixed`. -/
def deflateFixed (bpp stride : ℕ) (out : List UInt8) : List UInt8 :=
  let w := BitWriter.new out
  let w := w.put 1 1
  let w := w.put 1 2
  let w := deflateLoop raw bpp stride w 0
  let w := putLiteral w 256
  w.flush.out

end Deflate

end HumanizedHash
