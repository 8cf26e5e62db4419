import Mathlib.Data.Nat.Bitwise

/-!
# Numbers as lists of bits

The lowest bits of a number as a list, in both orders, and the number that a list of bits stands
for. A bit stream is a list of bits from which numbers are taken off the front.

## Main definitions

* `Bits.msb`, `Bits.lsb`: the lowest `n` bits, the most or the least significant one first.
* `Bits.ofMsb`, `Bits.ofLsb`: the number of a list.
* `Bits.takeMsb`, `Bits.takeLsb`: a number off the front of a stream.
* `Bits.msbOf`, `Bits.lsbOf`: the bits of bytes.

## Main results

* `Bits.msb_add`, `Bits.lsb_add`: the bits of two halves.
* `Bits.takeMsb_append`, `Bits.takeLsb_append`: what was put is taken.
-/

namespace HumanizedHash

namespace Bits

/-- The lowest `n` bits of `v`, the most significant one first. -/
def msb : ℕ → ℕ → List Bool
  | 0, _ => []
  | n + 1, v => v.testBit n :: msb n v

/-- The lowest `n` bits of `v`, the least significant one first. -/
def lsb : ℕ → ℕ → List Bool
  | 0, _ => []
  | n + 1, v => v.testBit 0 :: lsb n (v >>> 1)

/-- The number of a list of bits, the most significant one first. -/
def ofMsb : List Bool → ℕ
  | [] => 0
  | b :: bits => b.toNat * 2 ^ bits.length + ofMsb bits

/-- The number of a list of bits, the least significant one first. -/
def ofLsb : List Bool → ℕ
  | [] => 0
  | b :: bits => b.toNat + 2 * ofLsb bits

@[simp] theorem length_msb (n v : ℕ) : (msb n v).length = n := by
  induction n with
  | zero => rfl
  | succ n ih => rw [msb, List.length_cons, ih]

@[simp] theorem length_lsb (n v : ℕ) : (lsb n v).length = n := by
  induction n generalizing v with
  | zero => rfl
  | succ n ih => rw [lsb, List.length_cons, ih]

/-- The lists depend on the lowest bits only. -/
theorem msb_congr {n v w : ℕ} (h : ∀ i < n, v.testBit i = w.testBit i) : msb n v = msb n w := by
  induction n with
  | zero => rfl
  | succ n ih =>
    rw [msb, msb, h n (Nat.lt_succ_self n), ih fun i hi => h i (Nat.lt_succ_of_lt hi)]

theorem lsb_congr {n v w : ℕ} (h : ∀ i < n, v.testBit i = w.testBit i) : lsb n v = lsb n w := by
  induction n generalizing v w with
  | zero => rfl
  | succ n ih =>
    rw [lsb, lsb, h 0 (Nat.succ_pos n), ih fun i hi => ?_]
    rw [Nat.testBit_shiftRight, Nat.testBit_shiftRight, h (1 + i) (by omega)]

/-- The bits of a number in two parts. -/
theorem msb_add (m n v : ℕ) : msb (m + n) v = msb m (v >>> n) ++ msb n v := by
  induction m with
  | zero => rw [Nat.zero_add, msb, List.nil_append]
  | succ m ih =>
    rw [Nat.add_right_comm, msb, ih, msb, List.cons_append, Nat.testBit_shiftRight,
      Nat.add_comm n m]

theorem lsb_add (m n v : ℕ) : lsb (m + n) v = lsb m v ++ lsb n (v >>> m) := by
  induction m generalizing v with
  | zero => rw [Nat.zero_add, lsb, List.nil_append, Nat.shiftRight_zero]
  | succ m ih =>
    rw [Nat.add_right_comm, lsb, ih, lsb, List.cons_append, ← Nat.shiftRight_add,
      Nat.add_comm 1 m]

theorem msb_two_pow_sub_one (n : ℕ) : msb n (2 ^ n - 1) = List.replicate n true := by
  induction n with
  | zero => rfl
  | succ n ih =>
    have hlow : msb n (2 ^ (n + 1) - 1) = msb n (2 ^ n - 1) := msb_congr fun i hi => by
      rw [Nat.testBit_two_pow_sub_one, Nat.testBit_two_pow_sub_one, decide_eq_true hi,
        decide_eq_true (Nat.lt_succ_of_lt hi)]
    rw [msb, hlow, ih, Nat.testBit_two_pow_sub_one, decide_eq_true (Nat.lt_succ_self n),
      List.replicate_succ]

/-- The two orders are each other's reverse. -/
theorem lsb_eq_reverse_msb (n v : ℕ) : lsb n v = (msb n v).reverse := by
  induction n with
  | zero => rfl
  | succ n ih =>
    rw [lsb_add n 1, ih, msb, List.reverse_cons, lsb, lsb, Nat.testBit_shiftRight, Nat.add_zero]

@[simp] theorem ofMsb_msb (n v : ℕ) : ofMsb (msb n v) = v % 2 ^ n := by
  induction n with
  | zero => rw [Nat.pow_zero, Nat.mod_one]; rfl
  | succ n ih =>
    rw [msb, ofMsb, ih, length_msb, Nat.toNat_testBit, Nat.pow_succ, Nat.mod_mul, Nat.mul_comm,
      Nat.add_comm]

@[simp] theorem ofLsb_lsb (n v : ℕ) : ofLsb (lsb n v) = v % 2 ^ n := by
  induction n generalizing v with
  | zero => rw [Nat.pow_zero, Nat.mod_one]; rfl
  | succ n ih =>
    rw [lsb, ofLsb, ih, Nat.toNat_testBit, Nat.pow_zero, Nat.div_one, Nat.pow_succ,
      Nat.mul_comm (2 ^ n), Nat.mod_mul, Nat.shiftRight_one]

/-- A number in two parts. -/
theorem mod_xor_shiftLeft (n v : ℕ) : (v % 2 ^ n) ^^^ ((v >>> n) <<< n) = v := by
  refine Nat.eq_of_testBit_eq fun i => ?_
  rw [Nat.testBit_xor, Nat.testBit_mod_two_pow, Nat.testBit_shiftLeft, Nat.testBit_shiftRight]
  by_cases hi : i < n
  · rw [decide_eq_true hi, decide_eq_false (not_le.mpr hi), Bool.true_and, Bool.false_and,
      Bool.xor_false]
  · rw [decide_eq_false hi, decide_eq_true (not_lt.mp hi), Bool.false_and, Bool.true_and,
      Bool.false_xor, Nat.add_sub_cancel' (not_lt.mp hi)]

/-! ### Streams -/

/-- The number in the first `n` bits of a stream, and the rest of it. -/
def takeMsb (n : ℕ) (bits : List Bool) : Option (ℕ × List Bool) :=
  if n ≤ bits.length then some (ofMsb (bits.take n), bits.drop n) else none

def takeLsb (n : ℕ) (bits : List Bool) : Option (ℕ × List Bool) :=
  if n ≤ bits.length then some (ofLsb (bits.take n), bits.drop n) else none

theorem takeMsb_append {n v : ℕ} (hv : v < 2 ^ n) (rest : List Bool) :
    takeMsb n (msb n v ++ rest) = some (v, rest) := by
  have hlength : n ≤ (msb n v ++ rest).length := by
    rw [List.length_append, length_msb]
    exact Nat.le_add_right n _
  rw [takeMsb, if_pos hlength, List.take_left' (length_msb n v), List.drop_left' (length_msb n v),
    ofMsb_msb, Nat.mod_eq_of_lt hv]

theorem takeLsb_append {n v : ℕ} (hv : v < 2 ^ n) (rest : List Bool) :
    takeLsb n (lsb n v ++ rest) = some (v, rest) := by
  have hlength : n ≤ (lsb n v ++ rest).length := by
    rw [List.length_append, length_lsb]
    exact Nat.le_add_right n _
  rw [takeLsb, if_pos hlength, List.take_left' (length_lsb n v), List.drop_left' (length_lsb n v),
    ofLsb_lsb, Nat.mod_eq_of_lt hv]

/-! ### The bits of bytes -/

/-- The bits of bytes, the most significant one of each byte first. -/
def msbOf (bytes : List UInt8) : List Bool := bytes.flatMap fun b => msb 8 b.toNat

/-- The bits of bytes, the least significant one of each byte first. -/
def lsbOf (bytes : List UInt8) : List Bool := bytes.flatMap fun b => lsb 8 b.toNat

@[simp] theorem lsbOf_append (bytes bytes' : List UInt8) :
    lsbOf (bytes ++ bytes') = lsbOf bytes ++ lsbOf bytes' := List.flatMap_append

theorem lsbOf_singleton (b : UInt8) : lsbOf [b] = lsb 8 b.toNat := List.append_nil (lsb 8 b.toNat)

theorem length_lsbOf (bytes : List UInt8) : (lsbOf bytes).length = 8 * bytes.length := by
  induction bytes with
  | nil => rfl
  | cons b bytes ih =>
    rw [lsbOf, List.flatMap_cons, List.length_append, length_lsb, ← lsbOf, ih, List.length_cons,
      Nat.mul_succ, Nat.add_comm]

/-- The bits of a number that fits fewer bits. -/
theorem lsb_of_lt {m n v : ℕ} (h : v < 2 ^ m) :
    lsb (m + n) v = lsb m v ++ List.replicate n false := by
  have hzero (k : ℕ) : lsb k 0 = List.replicate k false := by
    induction k with
    | zero => rfl
    | succ k ih => rw [lsb, Nat.zero_shiftRight, ih, Nat.zero_testBit, List.replicate_succ]
  rw [lsb_add, Nat.shiftRight_eq_div_pow, Nat.div_eq_of_lt h, hzero]

/-- Bits behind the lowest ones. -/
theorem lsb_or {m n v w : ℕ} (h : v < 2 ^ m) :
    lsb (m + n) (v ||| (w <<< m)) = lsb m v ++ lsb n w := by
  have hlow : lsb m (v ||| (w <<< m)) = lsb m v := lsb_congr fun i hi => by
    rw [Nat.testBit_or, Nat.testBit_shiftLeft, decide_eq_false (not_le.mpr hi), Bool.false_and,
      Bool.or_false]
  have hhigh : (v ||| (w <<< m)) >>> m = w := by
    rw [Nat.shiftRight_or_distrib, Nat.shiftRight_eq_div_pow, Nat.div_eq_of_lt h,
      Nat.zero_or, Nat.shiftLeft_shiftRight]
  rw [lsb_add, hlow, hhigh]

end Bits

end HumanizedHash
