import HumanizedHash.Foundations.CanonicalCode
import Mathlib.Data.Nat.Size
import Mathlib.Tactic.Linarith

/-!
# Coefficients of a sequential scan

A decoder for the entropy-coded data of a baseline sequential scan with one block of each component
at a position. A block is the difference of its first coefficient to that of the block before of
the component, and runs of zeros, each in front of a value; a value is the code of its number of
bits and these bits. The bytes are read up to a marker: behind a byte `FF` that is data stands a
zero.

## Main definitions

* `EntropyCode.Table`: a code by its counts and symbols.
* `EntropyCode.readDifference`, `EntropyCode.readRuns`, `EntropyCode.readBlocks`.
* `EntropyCode.unstuff`: the data in front of a marker.

## Main results

* `EntropyCode.extend_bits`: a value is recovered from its bits.
* `EntropyCode.readRuns_zeros`: long runs are cut.
* `EntropyCode.unstuff_append`: the data in front of a marker is read back.
-/

namespace HumanizedHash

open Bits

namespace EntropyCode

/-! ### Values -/

/-- A code: the number of its codewords of each length, and its symbols. -/
structure Table where
  counts : List ℕ
  symbols : List UInt8
  deriving DecidableEq

/-- The symbol at the front of a stream. -/
def Table.read (t : Table) (bits : List Bool) : Option (ℕ × List Bool) :=
  (Canonical.decode 0 0 t.counts t.symbols bits).map fun (s, bits) => (s.toNat, bits)

/-- The value with the bits `v`, of which there are `s`. -/
def extend (v s : ℕ) : ℤ := if v < 2 ^ (s - 1) then (v : ℤ) - 2 ^ s + 1 else v

/-- A value of `s` bits. -/
def readValue (s : ℕ) (bits : List Bool) : Option (ℤ × List Bool) :=
  (takeMsb s bits).map fun (v, bits) => (extend v s, bits)

/-- The difference of a first coefficient. -/
def readDifference (t : Table) (bits : List Bool) : Option (ℤ × List Bool) := do
  let (s, bits) ← t.read bits
  if s ≤ 11 then readValue s bits else none

/-- The next `n` coefficients of a block: runs of zeros, each in front of a value, a run of 16 zeros
without one, or zeros up to the end. -/
def readRuns (t : Table) (n : ℕ) (bits : List Bool) : Option (List ℤ × List Bool) :=
  if n = 0 then
    some ([], bits)
  else
    (t.read bits).bind fun (symbol, bits) =>
      if symbol = 0x00 then
        some (List.replicate n 0, bits)
      else if symbol = 0xF0 then
        if 16 ≤ n then
          (readRuns t (n - 16) bits).map fun (vs, bits) => (List.replicate 16 0 ++ vs, bits)
        else
          none
      else if 1 ≤ symbol % 16 ∧ symbol % 16 ≤ 10 ∧ symbol / 16 < n then
        (readValue (symbol % 16) bits).bind fun (v, bits) =>
          (readRuns t (n - symbol / 16 - 1) bits).map fun (vs, bits) =>
            (List.replicate (symbol / 16) 0 ++ v :: vs, bits)
      else
        none
termination_by n

/-- The codes of a component. -/
structure Coding where
  dc : Table
  ac : Table
  deriving DecidableEq

/-- A block with the prediction `previous`: its first coefficient, and the 63 others. -/
def readBlock (c : Coding) (previous : ℤ) (bits : List Bool) : Option (List ℤ × List Bool) := do
  let (difference, bits) ← readDifference c.dc bits
  let (vs, bits) ← readRuns c.ac 63 bits
  return ((previous + difference) :: vs, bits)

/-- Blocks one behind the other, each with its component; the first coefficient of a block is the
prediction for the next block of the component. -/
def readBlocks : List (Coding × ℕ) → (ℕ → ℤ) → List Bool → Option (List (List ℤ) × List Bool)
  | [], _, bits => some ([], bits)
  | (c, i) :: order, previous, bits =>
    (readBlock c (previous i) bits).bind fun (block, bits) =>
      (readBlocks order (Function.update previous i (block.headD 0)) bits).map
        fun (blocks, bits) => (block :: blocks, bits)

/-- **A value is recovered from its bits.** They are those of the value, or of its predecessor if
it is negative. -/
theorem extend_bits {v : ℤ} {s : ℕ} (h : s = v.natAbs.size) :
    extend (if 0 ≤ v then v else v + 2 ^ s - 1).toNat s = v := by
  have hlt : (v.natAbs : ℤ) < 2 ^ s := by
    rw [h]
    exact_mod_cast Nat.lt_size_self v.natAbs
  rcases eq_or_ne v 0 with rfl | hne
  · subst h
    rfl
  · have hpos : 1 ≤ s := by
      rw [h]
      exact Nat.size_pos.mpr (Int.natAbs_pos.mpr hne)
    have hge : 2 ^ (s - 1) ≤ v.natAbs := Nat.lt_size.mp (by omega)
    have hcast : (2 : ℤ) ^ (s - 1) ≤ v.natAbs := by exact_mod_cast hge
    have hdouble : (2 : ℤ) ^ s = 2 * 2 ^ (s - 1) := by rw [← pow_succ', Nat.sub_add_cancel hpos]
    have hpush : ((2 ^ (s - 1) : ℕ) : ℤ) = 2 ^ (s - 1) := by push_cast; rfl
    rw [extend]
    split_ifs <;> omega

/-! ### Runs -/

section Runs

variable {t : Table} {bits rest : List Bool}

/-- Zeros up to the end. -/
theorem readRuns_end (hread : t.read bits = some (0x00, rest)) {n : ℕ} (hn : n ≠ 0) :
    readRuns t n bits = some (List.replicate n 0, rest) := by
  rw [readRuns, if_neg hn, hread]
  rfl

/-- A value behind a run. -/
theorem readRuns_value {run s n : ℕ} {v : ℤ} {tail : List Bool}
    (hread : t.read bits = some (run * 16 + s, rest)) (hs : 1 ≤ s ∧ s ≤ 10) (hrun : run < n)
    (hvalue : readValue s rest = some (v, tail)) :
    readRuns t n bits = (readRuns t (n - run - 1) tail).map fun (vs, bits) =>
      (List.replicate run 0 ++ v :: vs, bits) := by
  have hquotient : (run * 16 + s) / 16 = run := by omega
  have hremainder : (run * 16 + s) % 16 = s := by omega
  rw [readRuns, if_neg (by omega), hread]
  dsimp only [Option.bind]
  rw [if_neg (by omega), if_neg (by omega), hquotient, hremainder,
    if_pos ⟨hs.1, hs.2, hrun⟩, hvalue]

/-- **Long runs are cut** into runs of 16 zeros. -/
theorem readRuns_zeros {long : List Bool}
    (hread : ∀ rest, t.read (long ++ rest) = some (0xF0, rest))
    (k : ℕ) {n : ℕ} (hn : 16 * k ≤ n) (rest : List Bool) :
    readRuns t n ((List.replicate k long).flatten ++ rest) =
      (readRuns t (n - 16 * k) rest).map fun (vs, bits) =>
        (List.replicate (16 * k) 0 ++ vs, bits) := by
  induction k generalizing n with
  | zero =>
    simp
  | succ k ih =>
    have hsplit : List.replicate (16 * (k + 1)) (0 : ℤ) =
        List.replicate 16 0 ++ List.replicate (16 * k) 0 := by
      rw [← List.replicate_add, Nat.mul_succ, Nat.add_comm]
    rw [List.replicate_succ, List.flatten_cons, List.append_assoc, readRuns, if_neg (by omega),
      hread]
    dsimp only [Option.bind]
    rw [if_neg (by decide), if_pos rfl, if_pos (by omega), ih (by omega), hsplit,
      show n - 16 - 16 * k = n - 16 * (k + 1) by omega]
    cases readRuns t (n - 16 * (k + 1)) rest with
    | none => rfl
    | some r => simp only [Option.map_some, List.append_assoc]

end Runs

/-! ### Bytes -/

/-- The data in front of a marker, and the rest from the marker on. -/
def unstuff : List UInt8 → Option (List UInt8 × List UInt8)
  | [] => none
  | [_] => none
  | b :: c :: l =>
    if b = 0xFF then
      if c = 0x00 then (unstuff l).map fun (data, rest) => (b :: data, rest)
      else some ([], b :: c :: l)
    else
      (unstuff (c :: l)).map fun (data, rest) => (b :: data, rest)

/-- Data with a zero behind every byte `FF`. -/
def stuff (data : List UInt8) : List UInt8 :=
  data.flatMap fun b => if b = 0xFF then [b, 0x00] else [b]

/-- **The data in front of a marker is read back.** -/
theorem unstuff_append (data : List UInt8) {marker : UInt8} (h : marker ≠ 0x00)
    (rest : List UInt8) :
    unstuff (stuff data ++ 0xFF :: marker :: rest) = some (data, 0xFF :: marker :: rest) := by
  induction data with
  | nil => rw [stuff, List.flatMap_nil, List.nil_append, unstuff, if_pos rfl, if_neg h]
  | cons b data ih =>
    have hcons : stuff (b :: data) = (if b = 0xFF then [b, 0x00] else [b]) ++ stuff data :=
      List.flatMap_cons
    rw [hcons]
    by_cases hb : b = 0xFF
    · rw [if_pos hb, List.append_assoc, List.cons_append, List.cons_append, List.nil_append,
        unstuff, if_pos hb, if_pos rfl, ih]
      rfl
    · rw [if_neg hb, List.append_assoc, List.cons_append, List.nil_append]
      obtain ⟨c, l, hl⟩ : ∃ c l, stuff data ++ 0xFF :: marker :: rest = c :: l :=
        List.exists_cons_of_ne_nil (by simp)
      rw [hl] at ih ⊢
      rw [unstuff, if_neg hb, ih]
      rfl

/-- Every byte `FF` of the data is followed by a zero. -/
theorem getElem?_stuff (data : List UInt8) {i : ℕ} (h : (stuff data)[i]? = some 0xFF) :
    (stuff data)[i + 1]? = some 0x00 := by
  induction data generalizing i with
  | nil => exact absurd h (by simp [stuff])
  | cons b data ih =>
    have hcons : stuff (b :: data) = (if b = 0xFF then [b, 0x00] else [b]) ++ stuff data :=
      List.flatMap_cons
    rw [hcons] at h ⊢
    by_cases hb : b = 0xFF
    · rw [if_pos hb] at h ⊢
      rcases i with _ | _ | i
      · rfl
      · exact absurd (Option.some.inj h) (by decide)
      · exact ih h
    · rw [if_neg hb] at h ⊢
      rcases i with _ | i
      · exact absurd (Option.some.inj h) hb
      · exact ih h

end EntropyCode

end HumanizedHash
