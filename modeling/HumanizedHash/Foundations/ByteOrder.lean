import Mathlib.Data.List.Basic
import Mathlib.Data.Nat.Notation
import Mathlib.Tactic.Ring

/-!
# Numbers as byte strings

The big-endian and the little-endian encoding of a natural number in a fixed number of bytes,
and the numbers read back from byte strings. Encoding keeps the number modulo the power of 256
that fits; reading back gives the number when it fits.

## Main definitions

* `ByteOrder.bigEndian`, `ByteOrder.ofBigEndian`.
* `ByteOrder.littleEndian`, `ByteOrder.ofLittleEndian`.

## Main results

* `ByteOrder.ofBigEndian_bigEndian`, `ByteOrder.ofLittleEndian_littleEndian`: reading back.
-/

namespace ByteOrder

/-- The byte of a number is the number modulo 256. -/
theorem toNat_byte (v : ℕ) : (UInt8.ofNat v).toNat = v % 256 := UInt8.toNat_ofNat'

/-- The `n` low bytes of `v`, most significant byte first. -/
def bigEndian : ℕ → ℕ → List UInt8
  | 0, _ => []
  | n + 1, v => bigEndian n (v / 256) ++ [UInt8.ofNat v]

/-- The `n` low bytes of `v`, least significant byte first. -/
def littleEndian : ℕ → ℕ → List UInt8
  | 0, _ => []
  | n + 1, v => UInt8.ofNat v :: littleEndian n (v / 256)

/-- The number whose big-endian bytes are `l`. -/
def ofBigEndian (l : List UInt8) : ℕ :=
  l.foldl (fun v b => v * 256 + b.toNat) 0

/-- The number whose little-endian bytes are `l`. -/
def ofLittleEndian : List UInt8 → ℕ
  | [] => 0
  | b :: l => b.toNat + 256 * ofLittleEndian l

@[simp] theorem length_bigEndian : (n v : ℕ) → (bigEndian n v).length = n
  | 0, _ => rfl
  | n + 1, v => by rw [bigEndian, List.length_append, length_bigEndian n, List.length_singleton]

@[simp] theorem length_littleEndian : (n v : ℕ) → (littleEndian n v).length = n
  | 0, _ => rfl
  | n + 1, v => by rw [littleEndian, List.length_cons, length_littleEndian n]

@[simp] theorem ofBigEndian_nil : ofBigEndian [] = 0 := rfl

@[simp] theorem ofBigEndian_concat (l : List UInt8) (b : UInt8) :
    ofBigEndian (l ++ [b]) = ofBigEndian l * 256 + b.toNat := by
  simp only [ofBigEndian, List.foldl_append, List.foldl_cons, List.foldl_nil]

/-- Reading back a big-endian encoding gives the number modulo what fits. -/
theorem ofBigEndian_bigEndian_mod (n v : ℕ) : ofBigEndian (bigEndian n v) = v % 256 ^ n := by
  induction n generalizing v with
  | zero => rw [bigEndian, ofBigEndian_nil, pow_zero, Nat.mod_one]
  | succ n ih =>
    rw [bigEndian, ofBigEndian_concat, ih, toNat_byte, pow_succ', Nat.mod_mul]
    ring

/-- A number that fits is read back from its big-endian bytes. -/
theorem ofBigEndian_bigEndian {n v : ℕ} (h : v < 256 ^ n) : ofBigEndian (bigEndian n v) = v := by
  rw [ofBigEndian_bigEndian_mod, Nat.mod_eq_of_lt h]

/-- Reading back a little-endian encoding gives the number modulo what fits. -/
theorem ofLittleEndian_littleEndian_mod (n v : ℕ) :
    ofLittleEndian (littleEndian n v) = v % 256 ^ n := by
  induction n generalizing v with
  | zero => rw [littleEndian, ofLittleEndian, pow_zero, Nat.mod_one]
  | succ n ih =>
    rw [littleEndian, ofLittleEndian, ih, toNat_byte, pow_succ', Nat.mod_mul]

/-- A number that fits is read back from its little-endian bytes. -/
theorem ofLittleEndian_littleEndian {n v : ℕ} (h : v < 256 ^ n) :
    ofLittleEndian (littleEndian n v) = v := by
  rw [ofLittleEndian_littleEndian_mod, Nat.mod_eq_of_lt h]

/-- Only the number modulo what fits is encoded. -/
theorem littleEndian_mod (n v : ℕ) : littleEndian n (v % 256 ^ n) = littleEndian n v := by
  induction n generalizing v with
  | zero => rfl
  | succ n ih =>
    have hlow : UInt8.ofNat (v % 256 ^ (n + 1)) = UInt8.ofNat v := by
      rw [← UInt8.toNat_inj, toNat_byte, toNat_byte,
        Nat.mod_mod_of_dvd v (dvd_pow_self 256 n.succ_ne_zero)]
    have hhigh : v % 256 ^ (n + 1) / 256 = v / 256 % 256 ^ n := by
      rw [pow_succ', Nat.mod_mul_right_div_self]
    rw [littleEndian, littleEndian, hlow, hhigh, ih]

/-- The low bytes, and the bytes of the quotient behind them. -/
theorem littleEndian_add (m n v : ℕ) :
    littleEndian (m + n) v = littleEndian m v ++ littleEndian n (v / 256 ^ m) := by
  induction m generalizing v with
  | zero => rw [Nat.zero_add, pow_zero, Nat.div_one, littleEndian, List.nil_append]
  | succ m ih =>
    rw [Nat.add_right_comm, littleEndian, littleEndian, ih, List.cons_append, pow_succ',
      Nat.div_div_eq_div_mul]

/-! ### Bytes shifted out of machine words -/

/-- A byte shifted out of a 32-bit word. -/
theorem toUInt8_shiftRight_uint32 (v : ℕ) (i : UInt32) (hi : i.toNat + 8 ≤ 32) :
    (UInt32.ofNat v >>> i).toUInt8 = UInt8.ofNat (v / 2 ^ i.toNat) := by
  have hsplit : 2 ^ 32 = 2 ^ i.toNat * 2 ^ (32 - i.toNat) := by
    rw [← pow_add]
    congr 1
    omega
  rw [← UInt8.toNat_inj, UInt32.toNat_toUInt8, UInt32.toNat_shiftRight, UInt8.toNat_ofNat',
    UInt32.toNat_ofNat', Nat.mod_eq_of_lt (show i.toNat < 32 by omega),
    Nat.shiftRight_eq_div_pow, hsplit, Nat.mod_mul_right_div_self,
    Nat.mod_mod_of_dvd _ (pow_dvd_pow 2 (show 8 ≤ 32 - i.toNat by omega))]

/-- A byte shifted out of a 64-bit word. -/
theorem toUInt8_shiftRight_uint64 (v : ℕ) (i : UInt64) (hi : i.toNat + 8 ≤ 64) :
    (UInt64.ofNat v >>> i).toUInt8 = UInt8.ofNat (v / 2 ^ i.toNat) := by
  have hsplit : 2 ^ 64 = 2 ^ i.toNat * 2 ^ (64 - i.toNat) := by
    rw [← pow_add]
    congr 1
    omega
  rw [← UInt8.toNat_inj, UInt64.toNat_toUInt8, UInt64.toNat_shiftRight, UInt8.toNat_ofNat',
    UInt64.toNat_ofNat', Nat.mod_eq_of_lt (show i.toNat < 64 by omega),
    Nat.shiftRight_eq_div_pow, hsplit, Nat.mod_mul_right_div_self,
    Nat.mod_mod_of_dvd _ (pow_dvd_pow 2 (show 8 ≤ 64 - i.toNat by omega))]

/-- The four bytes of a 32-bit word, shifted out from the top. -/
theorem shiftRight_uint32_eq_bigEndian (v : ℕ) :
    [(UInt32.ofNat v >>> 24).toUInt8, (UInt32.ofNat v >>> 16).toUInt8,
      (UInt32.ofNat v >>> 8).toUInt8, (UInt32.ofNat v).toUInt8] = bigEndian 4 v := by
  have hlow : (UInt32.ofNat v).toUInt8 = (UInt32.ofNat v >>> 0).toUInt8 := rfl
  rw [hlow]
  simp (disch := decide) only [toUInt8_shiftRight_uint32]
  simp [bigEndian, Nat.div_div_eq_div_mul]

end ByteOrder
