import Mathlib.Data.Nat.Digits.Lemmas

/-!
# Decimal numerals

The numeral of a natural number in the characters `0` to `9`, without leading zeros, and the value
of a string of such characters, whatever its leading zeros.

## Main definitions

* `Numerals.IsDigit`, `Numerals.value`, `Numerals.numeral`.

## Main results

* `Numerals.value_numeral`: a numeral has the value of its number.
* `Numerals.numeral_injective`: different numbers have different numerals.
-/

namespace HumanizedHash

namespace Numerals

/-- A character `0` to `9`. -/
def IsDigit (c : UInt8) : Prop := 0x30 ≤ c ∧ c ≤ 0x39

instance (c : UInt8) : Decidable (IsDigit c) := inferInstanceAs (Decidable (_ ∧ _))

/-- The value of a string of digits behind digits of the value `v`. -/
def valueFrom (v : ℕ) (text : List UInt8) : ℕ :=
  text.foldl (fun v c => v * 10 + (c.toNat - 0x30)) v

/-- The value of a string of digits. -/
def value (text : List UInt8) : ℕ := valueFrom 0 text

/-- The character of a digit. -/
def digit (d : ℕ) : UInt8 := UInt8.ofNat (0x30 + d)

/-- The numeral of a number. -/
def numeral (n : ℕ) : List UInt8 :=
  if n = 0 then [0x30] else (Nat.digits 10 n).reverse.map digit

theorem isDigit_iff {c : UInt8} : IsDigit c ↔ 48 ≤ c.toNat ∧ c.toNat ≤ 57 := by
  simp only [IsDigit, UInt8.le_iff_toNat_le, UInt8.toNat_ofNat]

theorem toNat_digit {d : ℕ} (h : d < 10) : (digit d).toNat = 48 + d := by
  rw [digit, UInt8.toNat_ofNat']
  exact Nat.mod_eq_of_lt (by omega)

theorem isDigit_digit {d : ℕ} (h : d < 10) : IsDigit (digit d) := by
  rw [isDigit_iff, toNat_digit h]
  omega

theorem isDigit_of_mem_numeral {n : ℕ} {c : UInt8} (h : c ∈ numeral n) : IsDigit c := by
  rw [numeral] at h
  split_ifs at h with h0
  · rw [List.mem_singleton.mp h]
    decide
  · obtain ⟨d, hd, rfl⟩ := List.mem_map.mp h
    exact isDigit_digit (Nat.digits_lt_base (by decide) (List.mem_reverse.mp hd))

theorem numeral_ne_nil (n : ℕ) : numeral n ≠ [] := by
  rw [numeral]
  split_ifs with h0
  · exact List.cons_ne_nil _ _
  · rw [ne_eq, List.map_eq_nil_iff, List.reverse_eq_nil_iff]
    exact Nat.digits_ne_nil_iff_ne_zero.mpr h0

/-- **A numeral has the value of its number.** -/
theorem value_numeral (n : ℕ) : value (numeral n) = n := by
  rw [numeral]
  split_ifs with h0
  · rw [h0]
    rfl
  · have hdigits : ∀ d ∈ Nat.digits 10 n, d < 10 := fun d hd => Nat.digits_lt_base (by decide) hd
    have hfold (ds : List ℕ) (hds : ∀ d ∈ ds, d < 10) :
        ds.foldr (fun d v => v * 10 + ((digit d).toNat - 0x30)) 0 = Nat.ofDigits 10 ds := by
      induction ds with
      | nil => rfl
      | cons d ds ih =>
        obtain ⟨hd, hds⟩ := List.forall_mem_cons.mp hds
        rw [List.foldr_cons, ih hds, toNat_digit hd, Nat.ofDigits_cons]
        omega
    rw [value, valueFrom, List.foldl_map, List.foldl_reverse, hfold _ hdigits, Nat.ofDigits_digits]

/-- The number of digits of a numeral. -/
theorem length_numeral_le {n k : ℕ} (hk : k ≠ 0) (h : n < 10 ^ k) : (numeral n).length ≤ k := by
  rw [numeral]
  split_ifs with h0
  · exact Nat.pos_of_ne_zero hk
  · rw [List.length_map, List.length_reverse]
    exact (Nat.digits_length_le_iff (by decide) n).mpr h

/-- A number is below the power of ten that its digits allow. -/
theorem lt_pow_length_numeral (n : ℕ) : n < 10 ^ (numeral n).length := by
  rw [numeral]
  split_ifs with h0
  · rw [h0]
    decide
  · rw [List.length_map, List.length_reverse]
    exact Nat.lt_base_pow_length_digits (by decide)

/-- Different numbers have different numerals. -/
theorem numeral_injective : Function.Injective numeral :=
  Function.LeftInverse.injective value_numeral

end Numerals

end HumanizedHash
