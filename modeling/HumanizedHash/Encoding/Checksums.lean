import HumanizedHash.Formats.Checksum
import Mathlib.Logic.Function.Iterate
import Mathlib.Tactic.Ring

/-!
# The checksums of a PNG file

`crc32` and `adler32` of `src/checksum.cpp`, in 32-bit arithmetic. The one takes a byte at a time
from a table, the other reduces its sums once for many bytes; both are the checksums of the formats.

## Main definitions

* `crcTable`, `crc32`, `adler32`.
* `Room`: the sums that a number of bytes cannot make overflow.
* `adlerAdditions`: the sums that `adler32` forms.

## Main results

* `toNat_crc32`, `toNat_adler32`: the checksums of the formats.
* `crc32_eq_bitwise`, `adler32_exact`: from every start value, and in parts.

## References

* `src/src/checksum.cpp`, `src/src/checksum.hpp`.
-/

namespace HumanizedHash

/-- The body of the loop over `k` in `make_crc_table`. -/
def crcStep (c : UInt32) : UInt32 :=
  if c &&& 1 ≠ 0 then (0xEDB88320 : UInt32) ^^^ (c >>> 1) else c >>> 1

/-- `crc_table`. -/
def crcTable : Vector UInt32 256 :=
  Vector.ofFn fun n => crcStep^[8] (UInt32.ofNat n.val)

/-- The body of the loop of `crc32`. -/
def crcByte (crc : UInt32) (b : UInt8) : UInt32 :=
  crcTable.get ((crc ^^^ b.toUInt32) &&& 0xFF).toUInt8.toFin ^^^ (crc >>> 8)

/-- `crc32`. -/
def crc32 (data : List UInt8) (crc : UInt32 := 0) : UInt32 := ~~~(data.foldl crcByte (~~~crc))

/-- The body of the inner loop of `adler32`, on `a` and `b`. -/
def adlerByte (s : UInt32 × UInt32) (b : UInt8) : UInt32 × UInt32 :=
  let a := s.1 + b.toUInt32
  (a, s.2 + a)

/-- The outer loop of `adler32`. -/
def adlerBlocks (s : UInt32 × UInt32) (data : List UInt8) : UInt32 × UInt32 :=
  if data.length ≠ 0 then
    let n := min data.length 5552
    let s := (data.take n).foldl adlerByte s
    adlerBlocks (s.1 % 65521, s.2 % 65521) (data.drop n)
  else
    s
termination_by data.length
decreasing_by
  rw [List.length_drop]
  omega

/-- `adler32`. -/
def adler32 (data : List UInt8) (adler : UInt32 := 1) : UInt32 :=
  let s := adlerBlocks (adler &&& 0xFFFF, adler >>> 16) data
  (s.2 <<< 16) ||| s.1

/-! ### The table -/

theorem toNat_crcStep (c : UInt32) : (crcStep c).toNat = Checksum.shift c.toNat := by
  have hlow : (c &&& 1 ≠ 0) ↔ c.toNat.testBit 0 = true := by
    rw [ne_eq, ← UInt32.toNat_inj, UInt32.toNat_and, Nat.testBit_zero, decide_eq_true_iff]
    have hmod : c.toNat &&& (1 : UInt32).toNat = c.toNat % 2 := Nat.and_one_is_mod _
    rw [hmod]
    have hzero : (0 : UInt32).toNat = 0 := rfl
    omega
  have hshift : (c >>> 1).toNat = c.toNat >>> 1 := UInt32.toNat_shiftRight c 1
  rw [crcStep, Checksum.shift]
  by_cases h : c.toNat.testBit 0 = true
  · rw [if_pos (hlow.mpr h), if_pos h, UInt32.toNat_xor, hshift, Nat.xor_comm]
    rfl
  · rw [if_neg (mt hlow.mp h), if_neg h, hshift]

theorem toNat_iterate_crcStep (n : ℕ) (c : UInt32) :
    (crcStep^[n] c).toNat = Checksum.shift^[n] c.toNat := by
  induction n generalizing c with
  | zero => rfl
  | succ n ih => rw [Function.iterate_succ_apply, Function.iterate_succ_apply, ih, toNat_crcStep]

/-- **A byte at a time from the table.** -/
theorem toNat_crcByte (crc : UInt32) (b : UInt8) :
    (crcByte crc b).toNat = (Bits.lsb 8 b.toNat).foldl Checksum.crcBit crc.toNat := by
  have hindex :
      ((crc ^^^ b.toUInt32) &&& 0xFF).toUInt8.toNat = (crc.toNat ^^^ b.toNat) % 2 ^ 8 := by
    rw [UInt32.toNat_toUInt8, UInt32.toNat_and, UInt32.toNat_xor, UInt8.toNat_toUInt32]
    exact (congrArg (· % 2 ^ 8) (Nat.and_two_pow_sub_one_eq_mod _ 8)).trans (Nat.mod_mod _ _)
  have hhigh : (crc.toNat ^^^ b.toNat) >>> 8 = crc.toNat >>> 8 := by
    rw [Nat.shiftRight_xor_distrib, Nat.shiftRight_eq_div_pow b.toNat,
      Nat.div_eq_of_lt b.toNat_lt, Nat.xor_zero]
  have hsplit := Bits.mod_xor_shiftLeft 8 (crc.toNat ^^^ b.toNat)
  have hentry (i : Fin 256) : (crcTable.get i).toNat = Checksum.shift^[8] i.val := by
    have hword : (UInt32.ofNat i.val).toNat = i.val := UInt32.toNat_ofNat_of_lt' (by
      have := i.isLt
      rw [UInt32.size]
      omega)
    have hget : crcTable.get i = crcStep^[8] (UInt32.ofNat i.val) := Vector.getElem_ofFn i.isLt
    rw [hget, toNat_iterate_crcStep, hword]
  have hshift : (crc >>> 8).toNat = crc.toNat >>> 8 := UInt32.toNat_shiftRight crc 8
  rw [Checksum.foldl_crcBit, Nat.mod_eq_of_lt b.toNat_lt, ← hsplit, Checksum.shifts_xor_shiftLeft,
    hhigh, crcByte, UInt32.toNat_xor, hentry, hshift, ← hindex]
  rfl

/-- All bytes from the table. -/
theorem toNat_foldl_crcByte (data : List UInt8) (crc : UInt32) :
    (data.foldl crcByte crc).toNat = (Bits.lsbOf data).foldl Checksum.crcBit crc.toNat := by
  induction data generalizing crc with
  | nil => rfl
  | cons b data ih =>
    have hbits : Bits.lsbOf (b :: data) = Bits.lsb 8 b.toNat ++ Bits.lsbOf data :=
      List.flatMap_cons
    rw [List.foldl_cons, ih, toNat_crcByte, hbits, List.foldl_append]

/-- The check continued from a check. -/
theorem toNat_crc32From (data : List UInt8) (crc : UInt32) :
    (crc32 data crc).toNat = Checksum.crc32From crc.toNat data := by
  rw [crc32, UInt32.toNat_not, toNat_foldl_crcByte, UInt32.toNat_not]
  rfl

/-- **The check of the format.** -/
theorem toNat_crc32 (data : List UInt8) : (crc32 data).toNat = Checksum.crc32 data :=
  toNat_crc32From data 0

/-- **The table and the shifts.** From every start value and over all bytes, `crc32` is the check
that takes the bits one by one, and the check of a string is that of its second part continued from
that of its first. -/
theorem crc32_eq_bitwise (crc : UInt32) :
    (∀ data, (crc32 data crc).toNat = Checksum.crc32From crc.toNat data) ∧
      ∀ x y, crc32 y (crc32 x crc) = crc32 (x ++ y) crc := by
  refine ⟨fun data => toNat_crc32From data crc, fun x y => UInt32.toNat_inj.mp ?_⟩
  rw [toNat_crc32From, toNat_crc32From, toNat_crc32From, Checksum.crc32From_append]

/-! ### The sums -/

/-- The sums as numbers. -/
def sums (s : UInt32 × UInt32) : ℕ × ℕ := (s.1.toNat, s.2.toNat)

/-- There is room in both sums for `n` more bytes of any value. -/
structure Room (s : UInt32 × UInt32) (n : ℕ) : Prop where
  first : s.1.toNat + 255 * n < 2 ^ 32
  second : 2 * s.2.toNat + 2 * n * s.1.toNat + 255 * n * (n + 1) < 2 ^ 33

/-- Reduced sums have room for a block. -/
theorem room_of_reduced {s : UInt32 × UInt32} (h : Checksum.Reduced (sums s)) {n : ℕ}
    (hn : n ≤ 5552) : Room s n := by
  obtain ⟨hfirst, hsecond⟩ : s.1.toNat < 65521 ∧ s.2.toNat < 65521 := h
  have hsquare : n * (n + 1) ≤ 5552 * 5553 := Nat.mul_le_mul hn (by omega)
  have hproduct : n * s.1.toNat ≤ 5552 * 65520 := Nat.mul_le_mul hn (by omega)
  refine ⟨by omega, ?_⟩
  rw [Nat.mul_assoc 2 n, Nat.mul_assoc 255]
  omega

/-- **One byte**: neither sum overflows, and there is room for one byte less. -/
theorem Room.byte {s : UInt32 × UInt32} {n : ℕ} (h : Room s (n + 1)) (b : UInt8) :
    (s.1.toNat + b.toNat < 2 ^ 32 ∧ s.2.toNat + (adlerByte s b).1.toNat < 2 ^ 32) ∧
      sums (adlerByte s b) = Checksum.sumStep (sums s) b ∧ Room (adlerByte s b) n := by
  obtain ⟨a, c⟩ := s
  obtain ⟨hfirst, hsecond⟩ := h
  dsimp only at hfirst hsecond
  have hb := b.toNat_lt
  have ha : (a + b.toUInt32).toNat = a.toNat + b.toNat := by
    rw [UInt32.toNat_add, UInt8.toNat_toUInt32, Nat.mod_eq_of_lt (by omega)]
  have hexpand : 2 * (n + 1) * a.toNat + 255 * (n + 1) * (n + 1 + 1) =
      2 * n * a.toNat + 2 * a.toNat + 255 * n * (n + 1) + 510 * n + 510 := by ring
  have hc : (c + (a + b.toUInt32)).toNat = c.toNat + (a.toNat + b.toNat) := by
    rw [UInt32.toNat_add, ha, Nat.mod_eq_of_lt (by omega)]
  have hmul : n * b.toNat ≤ n * 255 := Nat.mul_le_mul_left _ (Nat.le_of_lt_succ hb)
  have hsum : 2 * n * (a.toNat + b.toNat) = 2 * n * a.toNat + 2 * (n * b.toNat) := by ring
  refine ⟨⟨by dsimp only; omega, ?_⟩, ?_, ?_, ?_⟩
  · simp only [adlerByte, ha]
    omega
  · rw [sums, sums, Checksum.sumStep, adlerByte, ha, hc]
  · simp only [adlerByte, ha]
    omega
  · simp only [adlerByte, ha, hc, hsum]
    omega

/-- No sum of a block overflows. -/
theorem foldl_adlerByte (data : List UInt8) {s : UInt32 × UInt32} (h : Room s data.length) :
    sums (data.foldl adlerByte s) = data.foldl Checksum.sumStep (sums s) := by
  induction data generalizing s with
  | nil => rfl
  | cons b data ih =>
    obtain ⟨-, hsums, hroom⟩ := h.byte b
    rw [List.foldl_cons, List.foldl_cons, ih hroom, hsums]

/-- The body of the outer loop, for a block of bytes. -/
def adlerBlock (s : UInt32 × UInt32) (block : List UInt8) : UInt32 × UInt32 :=
  let s := block.foldl adlerByte s
  (s.1 % 65521, s.2 % 65521)

/-- **One block**: the sums of its bytes, reduced once. -/
theorem sums_adlerBlock {s : UInt32 × UInt32} (h : Checksum.Reduced (sums s)) {block : List UInt8}
    (hlength : block.length ≤ 5552) :
    sums (adlerBlock s block) = block.foldl Checksum.adlerStep (sums s) := by
  have hreduced : sums s = Checksum.reduce (sums s) := by
    rw [Checksum.reduce, Nat.mod_eq_of_lt h.1, Nat.mod_eq_of_lt h.2]
  have hmod (v : UInt32) : (v % 65521).toNat = v.toNat % 65521 := UInt32.toNat_mod v 65521
  rw [hreduced, Checksum.foldl_adlerStep, ← foldl_adlerByte block (room_of_reduced h hlength),
    adlerBlock, sums, hmod, hmod]
  rfl

theorem reduced_adlerBlock {s : UInt32 × UInt32} (h : Checksum.Reduced (sums s))
    {block : List UInt8} (hlength : block.length ≤ 5552) :
    Checksum.Reduced (sums (adlerBlock s block)) := by
  rw [sums_adlerBlock h hlength]
  exact Checksum.reduced_foldl h block

theorem length_block_le (data : List UInt8) : (data.take (min data.length 5552)).length ≤ 5552 := by
  rw [List.length_take]
  omega

/-- The blocks reduce the sums often enough. -/
theorem adlerBlocks_eq (data : List UInt8) {s : UInt32 × UInt32} (h : Checksum.Reduced (sums s)) :
    sums (adlerBlocks s data) = data.foldl Checksum.adlerStep (sums s) := by
  induction hn : data.length using Nat.strong_induction_on generalizing data s with
  | _ n ih =>
    subst hn
    rw [adlerBlocks]
    by_cases hdata : data.length = 0
    · rw [if_neg (not_not.mpr hdata), List.eq_nil_of_length_eq_zero hdata]
      rfl
    · have hrest := ih (data.drop (min data.length 5552)).length (by rw [List.length_drop]; omega)
        (data.drop (min data.length 5552)) (reduced_adlerBlock h (length_block_le data)) rfl
      rw [sums_adlerBlock h (length_block_le data), ← List.foldl_append,
        List.take_append_drop] at hrest
      rw [if_pos hdata]
      exact hrest

/-- The sums that the inner loop forms, from the values of their terms. -/
def byteAdditions (s : UInt32 × UInt32) : List UInt8 → List ℕ
  | [] => []
  | b :: data => (s.1.toNat + b.toNat) :: (s.2.toNat + (adlerByte s b).1.toNat) ::
      byteAdditions (adlerByte s b) data

/-- The sums that the outer loop forms. -/
def blockAdditions (s : UInt32 × UInt32) (data : List UInt8) : List ℕ :=
  if data.length ≠ 0 then
    let n := min data.length 5552
    byteAdditions s (data.take n) ++ blockAdditions (adlerBlock s (data.take n)) (data.drop n)
  else
    []
termination_by data.length
decreasing_by
  rw [List.length_drop]
  omega

/-- The sums that `adler32` forms. -/
def adlerAdditions (data : List UInt8) (adler : UInt32) : List ℕ :=
  blockAdditions (adler &&& 0xFFFF, adler >>> 16) data

theorem byteAdditions_lt (data : List UInt8) {s : UInt32 × UInt32} (h : Room s data.length) :
    ∀ v ∈ byteAdditions s data, v < 2 ^ 32 := by
  induction data generalizing s with
  | nil => exact List.forall_mem_nil _
  | cons b data ih =>
    obtain ⟨⟨hfirst, hsecond⟩, -, hroom⟩ := h.byte b
    exact List.forall_mem_cons.mpr ⟨hfirst, List.forall_mem_cons.mpr ⟨hsecond, ih hroom⟩⟩

theorem blockAdditions_lt (data : List UInt8) {s : UInt32 × UInt32}
    (h : Checksum.Reduced (sums s)) : ∀ v ∈ blockAdditions s data, v < 2 ^ 32 := by
  induction hn : data.length using Nat.strong_induction_on generalizing data s with
  | _ n ih =>
    subst hn
    rw [blockAdditions]
    by_cases hdata : data.length = 0
    · rw [if_neg (not_not.mpr hdata)]
      exact List.forall_mem_nil _
    · have hbytes := byteAdditions_lt _ (room_of_reduced h (length_block_le data))
      have hrest := ih (data.drop (min data.length 5552)).length (by rw [List.length_drop]; omega)
        (data.drop (min data.length 5552)) (reduced_adlerBlock h (length_block_le data)) rfl
      rw [if_pos hdata]
      exact List.forall_mem_append.mpr ⟨hbytes, hrest⟩

/-- The two halves of a start value. -/
theorem sums_halves (adler : UInt32) :
    sums (adler &&& 0xFFFF, adler >>> 16) = (adler.toNat % 65536, adler.toNat / 65536) := by
  have hlow : (adler &&& 0xFFFF).toNat = adler.toNat % 2 ^ 16 :=
    Nat.and_two_pow_sub_one_eq_mod adler.toNat 16
  have hhigh : (adler >>> 16).toNat = adler.toNat >>> 16 := UInt32.toNat_shiftRight adler 16
  rw [sums, hlow, hhigh, Nat.shiftRight_eq_div_pow]
  rfl

/-- The sums continued from a check. -/
theorem toNat_adler32From (data : List UInt8) {adler : UInt32}
    (h : Checksum.Reduced (adler.toNat % 65536, adler.toNat / 65536)) :
    (adler32 data adler).toNat = Checksum.adler32From adler.toNat data := by
  rw [← sums_halves] at h
  have hsums := adlerBlocks_eq data h
  have hreduced := Checksum.reduced_foldl h data
  rw [← hsums] at hreduced
  rw [sums_halves] at hsums
  rw [adler32, Checksum.adler32From, ← hsums]
  generalize adlerBlocks (adler &&& 0xFFFF, adler >>> 16) data = t at hreduced ⊢
  obtain ⟨hfirst, hsecond⟩ : t.1.toNat < 65521 ∧ t.2.toNat < 65521 := hreduced
  have hshift : (t.2 <<< 16).toNat = t.2.toNat <<< 16 := by
    rw [UInt32.toNat_shiftLeft]
    refine Nat.mod_eq_of_lt ?_
    rw [Nat.shiftLeft_eq]
    exact (Nat.mul_lt_mul_of_pos_right hsecond (by decide)).trans (by decide)
  rw [UInt32.toNat_or, hshift, ← Nat.shiftLeft_add_eq_or_of_lt (hfirst.trans (by decide)),
    Nat.shiftLeft_eq]
  rfl

/-- **The sums of the format.** -/
theorem toNat_adler32 (data : List UInt8) : (adler32 data).toNat = Checksum.adler32 data :=
  toNat_adler32From data ⟨by decide, by decide⟩

/-- **The delayed reductions are exact.** From a start value with reduced halves no addition
overflows, the check is the one that reduces the sums behind every byte, and the check of a string
is that of its second part continued from that of its first. -/
theorem adler32_exact (adler : UInt32) (hlow : adler.toNat % 65536 < 65521)
    (hhigh : adler.toNat / 65536 < 65521) :
    (∀ data, ∀ v ∈ adlerAdditions data adler, v < 2 ^ 32) ∧
      (∀ data, (adler32 data adler).toNat = Checksum.adler32From adler.toNat data) ∧
      ∀ x y, adler32 y (adler32 x adler) = adler32 (x ++ y) adler := by
  have hreduced : Checksum.Reduced (adler.toNat % 65536, adler.toNat / 65536) := ⟨hlow, hhigh⟩
  refine ⟨fun data => blockAdditions_lt data (by rwa [sums_halves]),
    fun data => toNat_adler32From data hreduced, fun x y => UInt32.toNat_inj.mp ?_⟩
  have hnext : Checksum.Reduced
      ((adler32 x adler).toNat % 65536, (adler32 x adler).toNat / 65536) := by
    rw [toNat_adler32From x hreduced]
    exact Checksum.reduced_adler32From hreduced x
  rw [toNat_adler32From y hnext, toNat_adler32From x hreduced, toNat_adler32From _ hreduced,
    Checksum.adler32From_append hreduced]

/-- The start value of the encoder, and two strings. -/
theorem adler32_exact_one : adler32 [0x62] (adler32 [0x61] 1) = adler32 [0x61, 0x62] 1 :=
  (adler32_exact 1 (by decide) (by decide)).2.2 [0x61] [0x62]

end HumanizedHash
