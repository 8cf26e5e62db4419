import HumanizedHash.Foundations.BitList
import Mathlib.Tactic.Linarith

/-!
# Checksums of byte strings

The cyclic redundancy check with 32 bits that takes the bits of a byte string one by one, the
least significant one of each byte first, and the two sums modulo 65521 of Adler. Both are defined
as in the formats that use them; the tables and the delayed reductions of an implementation are
compared with them by the lemmas here.

## Main definitions

* `Checksum.crc32`, `Checksum.adler32`.
* `Checksum.crc32From`, `Checksum.adler32From`: the same, continued from a check.

## Main results

* `Checksum.foldl_crcBit`: the bits of a byte at once.
* `Checksum.shifts_xor_shiftLeft`: bits above the ones that are shifted out.
* `Checksum.foldl_adlerStep`: the sums may be reduced at the end.
* `Checksum.crc32From_append`, `Checksum.adler32From_append`: a check in two parts.
-/

namespace HumanizedHash

open Bits

namespace Checksum

/-! ### The cyclic redundancy check -/

/-- The divisor, without its leading bit, in the order of the register. -/
def polynomial : ℕ := 0xEDB88320

/-- A shift of the register: the divisor is subtracted if a one is shifted out. -/
def shift (r : ℕ) : ℕ := if r.testBit 0 then (r >>> 1) ^^^ polynomial else r >>> 1

/-- The register after one more bit. -/
def crcBit (r : ℕ) (bit : Bool) : ℕ := shift (r ^^^ bit.toNat)

/-- The check of a byte string: the register starts with ones and is inverted at the end. -/
def crc32 (data : List UInt8) : ℕ := 2 ^ 32 - 1 - (lsbOf data).foldl crcBit (2 ^ 32 - 1)

/-- The check continued: the register starts with the inverted check of the bytes in front. -/
def crc32From (crc : ℕ) (data : List UInt8) : ℕ :=
  2 ^ 32 - 1 - (lsbOf data).foldl crcBit (2 ^ 32 - 1 - crc)

/-- Bits above the one that is shifted out. -/
theorem shift_xor_shiftLeft (r y : ℕ) : shift (r ^^^ (y <<< 1)) = shift r ^^^ y := by
  have hlow : (r ^^^ (y <<< 1)).testBit 0 = r.testBit 0 := by
    rw [Nat.testBit_xor, Nat.testBit_shiftLeft]
    exact Bool.xor_false _
  have hhigh : (r ^^^ (y <<< 1)) >>> 1 = (r >>> 1) ^^^ y := by
    rw [Nat.shiftRight_xor_distrib, Nat.shiftLeft_shiftRight]
  rw [shift, shift, hlow, hhigh]
  split_ifs
  · rw [Nat.xor_assoc, Nat.xor_assoc, Nat.xor_comm y]
  · rfl

/-- **Bits above the ones that are shifted out.** -/
theorem shifts_xor_shiftLeft (n r y : ℕ) : shift^[n] (r ^^^ (y <<< n)) = shift^[n] r ^^^ y := by
  induction n generalizing r with
  | zero => rfl
  | succ n ih =>
    rw [Function.iterate_succ_apply, Function.iterate_succ_apply, Nat.shiftLeft_add,
      shift_xor_shiftLeft, ih]

/-- **The bits of a number at once**: they are added to the register, which is shifted. -/
theorem foldl_crcBit (n r v : ℕ) : (lsb n v).foldl crcBit r = shift^[n] (r ^^^ (v % 2 ^ n)) := by
  induction n generalizing r v with
  | zero => rw [Nat.pow_zero, Nat.mod_one, Nat.xor_zero]; rfl
  | succ n ih =>
    have hsplit : v % 2 ^ (n + 1) = (v.testBit 0).toNat ^^^ ((v >>> 1 % 2 ^ n) <<< 1) := by
      refine Nat.eq_of_testBit_eq fun i => ?_
      rw [Nat.testBit_mod_two_pow, Nat.testBit_xor, Nat.testBit_shiftLeft]
      cases i with
      | zero => cases v.testBit 0 <;> rfl
      | succ i =>
        have hhead : (v.testBit 0).toNat.testBit (i + 1) = false := by
          cases v.testBit 0 <;> simp [Nat.testBit_succ]
        rw [hhead, Bool.false_xor, decide_eq_true (Nat.le_add_left 1 i), Bool.true_and,
          Nat.add_sub_cancel, Nat.testBit_mod_two_pow, Nat.testBit_shiftRight, Nat.add_comm 1 i]
        simp
    rw [lsb, List.foldl_cons, ih, Function.iterate_succ_apply, hsplit, ← Nat.xor_assoc,
      shift_xor_shiftLeft, crcBit]

theorem shift_lt {r : ℕ} (h : r < 2 ^ 32) : shift r < 2 ^ 32 := by
  have hhalf : r >>> 1 < 2 ^ 32 := (Nat.shiftRight_le r 1).trans_lt h
  rw [shift]
  split_ifs
  · exact Nat.xor_lt_two_pow hhalf (by decide)
  · exact hhalf

/-- The register keeps its size. -/
theorem foldl_crcBit_lt {r : ℕ} (h : r < 2 ^ 32) (bits : List Bool) :
    bits.foldl crcBit r < 2 ^ 32 := by
  induction bits generalizing r with
  | nil => exact h
  | cons bit bits ih =>
    have hbit : bit.toNat < 2 ^ 32 := (Bool.toNat_lt bit).trans (by decide)
    exact ih (shift_lt (Nat.xor_lt_two_pow h hbit))

/-- **A check in two parts**: the inversions between them cancel. -/
theorem crc32From_append (crc : ℕ) (x y : List UInt8) :
    crc32From (crc32From crc x) y = crc32From crc (x ++ y) := by
  have hlt : (lsbOf x).foldl crcBit (2 ^ 32 - 1 - crc) < 2 ^ 32 :=
    foldl_crcBit_lt ((Nat.sub_le _ _).trans_lt (by decide)) _
  have hcancel : 2 ^ 32 - 1 - crc32From crc x = (lsbOf x).foldl crcBit (2 ^ 32 - 1 - crc) := by
    rw [crc32From]
    omega
  rw [crc32From, hcancel, crc32From, lsbOf_append, List.foldl_append]

/-! ### The sums of Adler -/

/-- The largest prime below `2 ^ 16`. -/
def adlerBase : ℕ := 65521

/-- The two sums after one more byte. -/
def adlerStep (s : ℕ × ℕ) (b : UInt8) : ℕ × ℕ :=
  let a := (s.1 + b.toNat) % adlerBase
  (a, (s.2 + a) % adlerBase)

/-- The sums of a byte string, the second one in the upper half. -/
def adler32 (data : List UInt8) : ℕ :=
  let s := data.foldl adlerStep (1, 0)
  s.2 * 65536 + s.1

/-- The sums continued from those of the bytes in front. -/
def adler32From (adler : ℕ) (data : List UInt8) : ℕ :=
  let s := data.foldl adlerStep (adler % 65536, adler / 65536)
  s.2 * 65536 + s.1

/-- Two sums that are reduced. -/
def Reduced (s : ℕ × ℕ) : Prop := s.1 < adlerBase ∧ s.2 < adlerBase

theorem reduced_foldl {s : ℕ × ℕ} (h : Reduced s) (data : List UInt8) :
    Reduced (data.foldl adlerStep s) := by
  have hbase : 0 < adlerBase := by decide
  induction data generalizing s with
  | nil => exact h
  | cons b data ih => exact ih ⟨Nat.mod_lt _ hbase, Nat.mod_lt _ hbase⟩

section Halves

variable {adler : ℕ} (h : Reduced (adler % 65536, adler / 65536)) (x : List UInt8)

include h

/-- The two sums from the check. -/
theorem adler32From_halves : (adler32From adler x % 65536, adler32From adler x / 65536) =
    x.foldl adlerStep (adler % 65536, adler / 65536) := by
  have hlt := (reduced_foldl h x).1.trans (show adlerBase < 65536 by decide)
  rw [adler32From]
  exact Prod.ext (by dsimp only; omega) (by dsimp only; omega)

theorem reduced_adler32From :
    Reduced (adler32From adler x % 65536, adler32From adler x / 65536) := by
  rw [adler32From_halves h]
  exact reduced_foldl h x

/-- **Sums in two parts.** -/
theorem adler32From_append (y : List UInt8) :
    adler32From (adler32From adler x) y = adler32From adler (x ++ y) := by
  rw [adler32From, adler32From_halves h, adler32From, List.foldl_append]

end Halves

/-- The two sums after one more byte, without a reduction. -/
def sumStep (s : ℕ × ℕ) (b : UInt8) : ℕ × ℕ :=
  let a := s.1 + b.toNat
  (a, s.2 + a)

/-- The sums reduced. -/
def reduce (s : ℕ × ℕ) : ℕ × ℕ := (s.1 % adlerBase, s.2 % adlerBase)

theorem adlerStep_reduce (s : ℕ × ℕ) (b : UInt8) :
    adlerStep (reduce s) b = reduce (sumStep s b) := by
  simp only [adlerStep, reduce, sumStep, Nat.mod_add_mod, Nat.add_mod_mod]

/-- **The sums may be reduced at the end.** -/
theorem foldl_adlerStep (data : List UInt8) (s : ℕ × ℕ) :
    data.foldl adlerStep (reduce s) = reduce (data.foldl sumStep s) := by
  induction data generalizing s with
  | nil => rfl
  | cons b data ih => rw [List.foldl_cons, List.foldl_cons, adlerStep_reduce, ih]

end Checksum

end HumanizedHash
