import HumanizedHash.Encoding.JpegTables
import Mathlib.Algebra.Order.Ring.Int
import Mathlib.Data.Nat.Size

/-!
# The entropy-coded data of a JPEG file

The writer of the entropy-coded data and the coding of a block, from `src/jpeg.cpp`. What a block
puts is the list of its symbols, each with its additional bits.

## Main definitions

* `ScanWriter`, `category`, `putValue`, `encodeBlock`.
* `ScanSymbol`, `blockSymbols`: the symbols of a block.
* `ScanWriter.Holds`: the bits that a writer holds.

## Main results

* `encodeBlock_eq`: a block puts its symbols.
* `ScanWriter.Holds.put`, `ScanWriter.Holds.finish`: what was put is held.

## References

* `src/src/jpeg.cpp`, `src/docs/SPEC.md` (section 13.7).
-/

namespace HumanizedHash

open Bits

/-! ### The code -/

/-- `class scan_writer`. -/
structure ScanWriter where
  out : List UInt8
  acc : UInt32
  used : ℕ

namespace ScanWriter

/-- The constructor. -/
def new (out : List UInt8) : ScanWriter := ⟨out, 0, 0⟩

/-- A byte of the output; `FF` is followed by `00`. -/
def pushByte (out : List UInt8) (b : UInt8) : List UInt8 :=
  let out := out ++ [b]
  if b = 0xFF then out ++ [0x00] else out

/-- The loop of `put` that moves full bytes to the output. -/
def drain (w : ScanWriter) : ScanWriter :=
  if 8 ≤ w.used then
    let b := ((w.acc >>> UInt32.ofNat (w.used - 8)) &&& 0xFF).toUInt8
    drain { w with out := pushByte w.out b, used := w.used - 8 }
  else
    w
termination_by w.used

def put (w : ScanWriter) (bits : UInt32) (count : ℕ) : ScanWriter :=
  drain
    { w with
      acc := (w.acc <<< UInt32.ofNat count) ||| (bits &&& ((1 <<< UInt32.ofNat count) - 1))
      used := w.used + count }

def finish (w : ScanWriter) : ScanWriter :=
  if w.used ≠ 0 then
    w.put ((1 <<< UInt32.ofNat (8 - w.used)) - 1) (8 - w.used)
  else
    w

end ScanWriter

/-- The loop of `category`. -/
def countBits (a n : ℕ) : ℕ :=
  if a ≠ 0 then countBits (a / 2) (n + 1) else n
termination_by a

/-- `category`: the number of bits of the magnitude. -/
def category (v : ℤ) : ℕ := countBits v.natAbs 0

/-- The number that `put_value` writes. -/
def encodedValue (v : ℤ) (bits : ℕ) : ℤ :=
  if 0 ≤ v then v else v + 2 ^ bits - 1

/-- `put_value`. -/
def putValue (w : ScanWriter) (v : ℤ) (bits : ℕ) : ScanWriter :=
  if bits = 0 then w else w.put (UInt32.ofInt (encodedValue v bits)) bits

/-- The code of a symbol. -/
def putSymbol (w : ScanWriter) (table : HuffmanEncoder) (symbol : ℕ) : ScanWriter :=
  w.put (table.code symbol).toUInt32 (table.length symbol).toNat

/-- The loop of `encode_block` that cuts a long run. -/
def cutRun (w : ScanWriter) (ac : HuffmanEncoder) (run : ℕ) : ScanWriter × ℕ :=
  if 16 ≤ run then cutRun (putSymbol w ac 0xF0) ac (run - 16) else (w, run)
termination_by run

/-- The loop of `encode_block` for one coefficient. -/
def encodeCoefficient (ac : HuffmanEncoder) (st : ScanWriter × ℕ) (v : ℤ) : ScanWriter × ℕ :=
  let (w, run) := st
  if v = 0 then
    (w, run + 1)
  else
    let (w, run) := cutRun w ac run
    let bits := category v
    let symbol := run * 16 + bits
    let w := putSymbol w ac symbol
    (putValue w v bits, 0)

/-- The end of a block that ends with zeros. -/
def endBlock (ac : HuffmanEncoder) (st : ScanWriter × ℕ) : ScanWriter :=
  if st.2 ≠ 0 then putSymbol st.1 ac 0x00 else st.1

/-- `zz[0]`. -/
def dcOf (zz : Vector ℤ 64) : ℤ := zz.toList.getD 0 0

/-- `encode_block`: the writer, and the prediction for the next block. -/
def encodeBlock (w : ScanWriter) (zz : Vector ℤ 64) (previousDc : ℤ) (dc ac : HuffmanEncoder) :
    ScanWriter × ℤ :=
  let diff := dcOf zz - previousDc
  let dcBits := category diff
  let w := putSymbol w dc dcBits
  let w := putValue w diff dcBits
  let st := (zz.toList.drop 1).foldl (encodeCoefficient ac) (w, 0)
  (endBlock ac st, dcOf zz)

theorem dcOf_eq (zz : Vector ℤ 64) : dcOf zz = zz.get 0 := by
  rw [dcOf, List.getD_eq_getElem _ _ (by rw [Vector.length_toList]; decide),
    Vector.getElem_toList]
  rfl

/-! ### Categories -/

theorem countBits_eq (a n : ℕ) : countBits a n = n + a.size := by
  induction a using Nat.strong_induction_on generalizing n with
  | _ a ih =>
    rw [countBits]
    split_ifs with h
    · have hsize : (Nat.bit a.bodd a.div2).size = a.div2.size + 1 :=
        Nat.size_bit (by rwa [Nat.bit_bodd_div2])
      rw [Nat.bit_bodd_div2, Nat.div2_val] at hsize
      rw [ih (a / 2) (Nat.div_lt_self (Nat.pos_of_ne_zero h) one_lt_two), hsize]
      omega
    · obtain rfl : a = 0 := not_not.mp h
      rfl

theorem category_eq (v : ℤ) : category v = v.natAbs.size := by
  rw [category, countBits_eq, Nat.zero_add]

theorem category_le {v : ℤ} {n : ℕ} (h : v.natAbs < 2 ^ n) : category v ≤ n := by
  rw [category_eq]
  exact Nat.size_le.mpr h

/-- The written number has as many bits as its category says. -/
theorem encodedValue_mem (v : ℤ) :
    0 ≤ encodedValue v (category v) ∧ encodedValue v (category v) < 2 ^ category v := by
  have hsize : (v.natAbs : ℤ) < 2 ^ category v := by
    rw [category_eq]
    exact_mod_cast Nat.lt_size_self v.natAbs
  rw [encodedValue]
  split_ifs <;> omega

theorem category_eq_zero_iff {v : ℤ} : category v = 0 ↔ v = 0 := by
  rw [category_eq, Nat.size_eq_zero, Int.natAbs_eq_zero]

/-! ### The symbols of a block -/

/-- A symbol with its additional bits: a run of zeros and a value. The value 0 stands for no
value: the run 15 without a value is the symbol `F0`, the run 0 without a value ends a block. -/
abbrev ScanSymbol := ℕ × ℤ

namespace ScanSymbol

/-- The number of a symbol. -/
def number (s : ScanSymbol) : ℕ := s.1 * 16 + category s.2

def emit (table : HuffmanEncoder) (w : ScanWriter) (s : ScanSymbol) : ScanWriter :=
  putValue (putSymbol w table s.number) s.2 (category s.2)

end ScanSymbol

/-- The symbols for a list of coefficients behind a run of zeros. -/
def runLengths : ℕ → List ℤ → List ScanSymbol
  | run, [] => if run ≠ 0 then [(0, 0)] else []
  | run, v :: vs =>
    if v = 0 then runLengths (run + 1) vs
    else List.replicate (run / 16) (15, 0) ++ (run % 16, v) :: runLengths 0 vs

theorem emit_zero (table : HuffmanEncoder) (w : ScanWriter) (run : ℕ) :
    ScanSymbol.emit table w (run, 0) = putSymbol w table (run * 16) := by
  have hcategory : category 0 = 0 := category_eq_zero_iff.mpr rfl
  rw [ScanSymbol.emit, ScanSymbol.number, hcategory, putValue, if_pos rfl, Nat.add_zero]

theorem cutRun_eq (w : ScanWriter) (ac : HuffmanEncoder) (run : ℕ) :
    cutRun w ac run =
      ((List.replicate (run / 16) (15, 0)).foldl (ScanSymbol.emit ac) w, run % 16) := by
  induction run using Nat.strong_induction_on generalizing w with
  | _ run ih =>
    rw [cutRun]
    split_ifs with h
    · have hquotient : run / 16 = (run - 16) / 16 + 1 := by omega
      rw [ih (run - 16) (by omega), hquotient, List.replicate_succ, List.foldl_cons, emit_zero]
      exact Prod.ext rfl (by dsimp only; omega)
    · have hquotient : run / 16 = 0 := by omega
      rw [hquotient, List.replicate_zero, List.foldl_nil, Nat.mod_eq_of_lt (by omega)]

/-- The loop over the coefficients, and the end of the block. -/
theorem foldl_encodeCoefficient (ac : HuffmanEncoder) (vs : List ℤ) (w : ScanWriter) (run : ℕ) :
    endBlock ac (vs.foldl (encodeCoefficient ac) (w, run)) =
      (runLengths run vs).foldl (ScanSymbol.emit ac) w := by
  induction vs generalizing w run with
  | nil =>
    rw [runLengths, List.foldl_nil, endBlock]
    split_ifs
    · exact (emit_zero ac w 0).symm
    · rfl
  | cons v vs ih =>
    rw [List.foldl_cons, encodeCoefficient, runLengths]
    by_cases hv : v = 0
    · rw [if_pos hv, if_pos hv]
      exact ih w (run + 1)
    · rw [if_neg hv, if_neg hv, cutRun_eq, List.foldl_append, List.foldl_cons]
      exact ih _ 0

/-- **A block puts its symbols**: the difference, then the runs. -/
theorem encodeBlock_eq (w : ScanWriter) (zz : Vector ℤ 64) (previousDc : ℤ)
    (dc ac : HuffmanEncoder) : encodeBlock w zz previousDc dc ac =
      ((runLengths 0 (zz.toList.drop 1)).foldl (ScanSymbol.emit ac)
        (ScanSymbol.emit dc w (0, dcOf zz - previousDc)), dcOf zz) := by
  rw [← foldl_encodeCoefficient, encodeBlock, ScanSymbol.emit, ScanSymbol.number, Nat.zero_mul,
    Nat.zero_add]

/-- A run before a value is short, and the value is one of the coefficients. -/
theorem mem_runLengths {run : ℕ} {vs : List ℤ} {s : ScanSymbol} (h : s ∈ runLengths run vs) :
    s = (0, 0) ∨ s = (15, 0) ∨ (s.1 ≤ 15 ∧ s.2 ≠ 0 ∧ s.2 ∈ vs) := by
  induction vs generalizing run with
  | nil =>
    rw [runLengths] at h
    split_ifs at h
    · exact Or.inl (List.mem_singleton.mp h)
    · exact absurd h List.not_mem_nil
  | cons v vs ih =>
    have htail {run : ℕ} (h : s ∈ runLengths run vs) :
        s = (0, 0) ∨ s = (15, 0) ∨ (s.1 ≤ 15 ∧ s.2 ≠ 0 ∧ s.2 ∈ v :: vs) :=
      (ih h).imp_right (Or.imp_right fun h => ⟨h.1, h.2.1, List.mem_cons_of_mem v h.2.2⟩)
    rw [runLengths] at h
    split_ifs at h with hv
    · exact htail h
    · rcases List.mem_append.mp h with hcut | hrest
      · exact Or.inr (Or.inl (List.eq_of_mem_replicate hcut))
      · rcases List.mem_cons.mp hrest with rfl | hrest
        · exact Or.inr (Or.inr ⟨by dsimp only; omega, hv, List.mem_cons_self⟩)
        · exact htail hrest

/-! ### The bits that a writer holds -/

/-- A byte of the entropy-coded data. -/
def stuffByte (b : UInt8) : List UInt8 := if b = 0xFF then [b, 0x00] else [b]

def stuff (bytes : List UInt8) : List UInt8 := bytes.flatMap stuffByte

/-- The bits of bytes, the most significant one of each byte first. -/
def bitsOf (bytes : List UInt8) : List Bool := bytes.flatMap fun b => msb 8 b.toNat

@[simp] theorem stuff_append (bytes bytes' : List UInt8) :
    stuff (bytes ++ bytes') = stuff bytes ++ stuff bytes' := List.flatMap_append

@[simp] theorem bitsOf_append (bytes bytes' : List UInt8) :
    bitsOf (bytes ++ bytes') = bitsOf bytes ++ bitsOf bytes' := List.flatMap_append

theorem bitsOf_singleton (b : UInt8) : bitsOf [b] = msb 8 b.toNat :=
  List.append_nil (msb 8 b.toNat)

namespace ScanWriter

theorem pushByte_eq (head bytes : List UInt8) (b : UInt8) :
    pushByte (head ++ stuff bytes) b = head ++ stuff (bytes ++ [b]) := by
  have hlast : stuff [b] = stuffByte b := List.append_nil (stuffByte b)
  rw [pushByte, stuff_append, hlast, stuffByte]
  split_ifs
  · rw [List.append_assoc, List.append_assoc, List.singleton_append]
  · rw [List.append_assoc]

/-- The bits that were put behind `head`: full bytes in the output, the rest in the
accumulator. -/
def Holds (w : ScanWriter) (head : List UInt8) (bits : List Bool) : Prop :=
  ∃ bytes, w.out = head ++ stuff bytes ∧ bits = bitsOf bytes ++ msb w.used w.acc.toNat

theorem holds_new (head : List UInt8) : (new head).Holds head [] :=
  ⟨[], (List.append_nil head).symm, rfl⟩

section Holds

variable {w : ScanWriter} {head : List UInt8} {bits : List Bool}

theorem used_drain (w : ScanWriter) : w.drain.used = w.used % 8 := by
  induction hn : w.used using Nat.strong_induction_on generalizing w with
  | _ n ih =>
    subst hn
    rw [ScanWriter.drain]
    by_cases hfull : 8 ≤ w.used
    · rw [if_pos hfull]
      exact (ih (w.used - 8) (by omega) _ rfl).trans (by omega)
    · rw [if_neg hfull, Nat.mod_eq_of_lt (not_le.mp hfull)]

theorem used_put (w : ScanWriter) (b : UInt32) (count : ℕ) :
    (w.put b count).used = (w.used + count) % 8 :=
  used_drain _

theorem used_put_lt (w : ScanWriter) (b : UInt32) (count : ℕ) : (w.put b count).used < 8 := by
  rw [used_put]
  exact Nat.mod_lt _ (by decide)

/-- Moving full bytes to the output keeps the bits. -/
theorem Holds.drain (h : w.Holds head bits) (hused : w.used ≤ 32) : w.drain.Holds head bits := by
  induction hn : w.used using Nat.strong_induction_on generalizing w with
  | _ n ih =>
    subst hn
    rw [ScanWriter.drain]
    by_cases hfull : 8 ≤ w.used
    · obtain ⟨bytes, hout, hbits⟩ := h
      have hsplit := msb_add 8 (w.used - 8) w.acc.toNat
      rw [Nat.add_sub_cancel' hfull] at hsplit
      have hbyte : msb 8 ((w.acc >>> UInt32.ofNat (w.used - 8)) &&& 0xFF).toUInt8.toNat =
          msb 8 (w.acc.toNat >>> (w.used - 8)) := by
        refine msb_congr fun i hi => ?_
        have hmask : (UInt32.toNat 0xFF).testBit i = true := by
          rw [show UInt32.toNat 0xFF = 2 ^ 8 - 1 from rfl, Nat.testBit_two_pow_sub_one,
            decide_eq_true hi]
        rw [UInt32.toNat_toUInt8, UInt32.toNat_and, UInt32.toNat_shiftRight, UInt32.toNat_ofNat',
          Nat.testBit_mod_two_pow, Nat.testBit_and, decide_eq_true hi, Bool.true_and, hmask,
          Bool.and_true, Nat.mod_eq_of_lt (show w.used - 8 < 2 ^ 32 by omega),
          Nat.mod_eq_of_lt (show w.used - 8 < 32 by omega)]
      rw [hsplit, ← List.append_assoc, ← hbyte, ← bitsOf_singleton, ← bitsOf_append] at hbits
      rw [if_pos hfull, hout]
      dsimp only
      rw [pushByte_eq]
      exact ih (w.used - 8) (by omega)
        (w := ⟨head ++ stuff (bytes ++ [_]), w.acc, w.used - 8⟩) ⟨_, rfl, hbits⟩
        (by dsimp only; omega) rfl
    · rw [if_neg hfull]
      exact h

theorem toNat_ofNat_mod {count : ℕ} (hcount : count < 32) :
    (UInt32.ofNat count).toNat % 32 = count := by
  rw [UInt32.toNat_ofNat', Nat.mod_mod_of_dvd _ (by decide), Nat.mod_eq_of_lt hcount]

/-- The mask of the lowest bits. -/
theorem toNat_mask {count : ℕ} (hcount : count < 32) :
    ((1 : UInt32) <<< UInt32.ofNat count - 1).toNat = 2 ^ count - 1 := by
  have hpow : 2 ^ count < 2 ^ 32 := Nat.pow_lt_pow_right one_lt_two hcount
  have hone : ((1 : UInt32) <<< UInt32.ofNat count).toNat = 2 ^ count := by
    rw [UInt32.toNat_shiftLeft, toNat_ofNat_mod hcount]
    change 1 <<< count % 2 ^ 32 = 2 ^ count
    rw [Nat.one_shiftLeft, Nat.mod_eq_of_lt hpow]
  have hle : (1 : UInt32) ≤ 1 <<< UInt32.ofNat count := by
    rw [UInt32.le_iff_toNat_le, hone]
    exact Nat.one_le_two_pow
  rw [UInt32.toNat_sub_of_le _ _ hle, hone]
  rfl

/-- The accumulator after bits were added. -/
theorem testBit_acc (acc bits : UInt32) {count i : ℕ} (hcount : count < 32) (hi : i < 32) :
    ((acc <<< UInt32.ofNat count) |||
      (bits &&& ((1 <<< UInt32.ofNat count) - 1))).toNat.testBit i =
      if i < count then bits.toNat.testBit i else acc.toNat.testBit (i - count) := by
  rw [UInt32.toNat_or, UInt32.toNat_and, UInt32.toNat_shiftLeft, toNat_ofNat_mod hcount,
    toNat_mask hcount, Nat.testBit_or, Nat.testBit_and, Nat.testBit_mod_two_pow,
    Nat.testBit_shiftLeft, Nat.testBit_two_pow_sub_one,
    decide_eq_true hi, Bool.true_and]
  by_cases hlow : i < count
  · rw [if_pos hlow, decide_eq_true hlow, decide_eq_false (by omega), Bool.false_and,
      Bool.false_or, Bool.and_true]
  · rw [if_neg hlow, decide_eq_false hlow, decide_eq_true (by omega), Bool.true_and,
      Bool.and_false, Bool.or_false]

/-- **What was put is held.** -/
theorem Holds.put (h : w.Holds head bits) (b : UInt32) {count : ℕ} (hcount : count < 32)
    (hlive : w.used + count ≤ 32) :
    (w.put b count).Holds head (bits ++ msb count b.toNat) := by
  obtain ⟨bytes, hout, hbits⟩ := h
  refine Holds.drain (w := { w with acc := _, used := w.used + count }) ⟨bytes, hout, ?_⟩ hlive
  have hhigh : msb w.used w.acc.toNat = msb w.used (((w.acc <<< UInt32.ofNat count) |||
      (b &&& ((1 <<< UInt32.ofNat count) - 1))).toNat >>> count) := by
    refine msb_congr fun i hi => ?_
    rw [Nat.testBit_shiftRight, testBit_acc _ _ hcount (by omega), if_neg (by omega),
      Nat.add_sub_cancel_left]
  have hlow : msb count b.toNat = msb count ((w.acc <<< UInt32.ofNat count) |||
      (b &&& ((1 <<< UInt32.ofNat count) - 1))).toNat :=
    msb_congr fun i hi => by rw [testBit_acc _ _ hcount (by omega), if_pos hi]
  rw [hbits, hhigh, hlow, List.append_assoc, ← msb_add]

/-- **The last byte is filled with ones.** -/
theorem Holds.finish (h : w.Holds head bits) (hused : w.used < 8) :
    ∃ bytes pad, w.finish.out = head ++ stuff bytes ∧ pad < 8 ∧
      bitsOf bytes = bits ++ List.replicate pad true := by
  rw [ScanWriter.finish]
  by_cases hzero : w.used = 0
  · obtain ⟨bytes, hout, hbits⟩ := h
    rw [if_neg (not_not.mpr hzero)]
    refine ⟨bytes, 0, hout, by decide, ?_⟩
    rw [hbits, hzero, msb, List.replicate_zero, List.append_nil, List.append_nil]
  · rw [if_pos hzero]
    obtain ⟨bytes, hout, hbits⟩ := h.put ((1 <<< UInt32.ofNat (8 - w.used)) - 1)
      (show 8 - w.used < 32 by omega) (by omega)
    have hempty := used_put w ((1 <<< UInt32.ofNat (8 - w.used)) - 1) (8 - w.used)
    rw [show (w.used + (8 - w.used)) % 8 = 0 by omega] at hempty
    refine ⟨bytes, 8 - w.used, hout, by omega, ?_⟩
    rw [toNat_mask (by omega), msb_two_pow_sub_one, hempty, msb, List.append_nil] at hbits
    exact hbits.symm

end Holds

end ScanWriter

/-! ### The writes of a symbol -/

namespace ScanSymbol

/-- The writes of a symbol: its codeword, and its additional bits if it has any. -/
def puts (table : HuffmanEncoder) (s : ScanSymbol) : List (UInt32 × ℕ) :=
  ((table.code s.number).toUInt32, (table.length s.number).toNat) ::
    if category s.2 = 0 then []
    else [(UInt32.ofInt (encodedValue s.2 (category s.2)), category s.2)]

/-- The additional bits of a value. -/
def valueBits (v : ℤ) : List Bool := msb (category v) (encodedValue v (category v)).toNat

/-- The bits of a symbol: its codeword and the additional bits. -/
def bits (table : HuffmanEncoder) (s : ScanSymbol) : List Bool :=
  msb (table.length s.number).toNat (table.code s.number).toNat ++ valueBits s.2

/-- The codeword and the value have at most 16 bits. -/
def Short (table : HuffmanEncoder) (s : ScanSymbol) : Prop :=
  (table.length s.number).toNat ≤ 16 ∧ category s.2 ≤ 16

theorem emit_eq (table : HuffmanEncoder) (w : ScanWriter) (s : ScanSymbol) :
    s.emit table w = (s.puts table).foldl (fun w p => w.put p.1 p.2) w := by
  rw [emit, puts, List.foldl_cons, putValue, putSymbol]
  split_ifs <;> rfl

theorem foldl_emit (table : HuffmanEncoder) (symbols : List ScanSymbol) (w : ScanWriter) :
    symbols.foldl (emit table) w =
      (symbols.flatMap (puts table)).foldl (fun w p => w.put p.1 p.2) w := by
  rw [List.foldl_flatMap]
  exact congrArg (fun f => symbols.foldl f w) (funext₂ fun w s => emit_eq table w s)

end ScanSymbol

/-- The writes of a block: those of the difference, then those of the runs. -/
def blockPuts (zz : Vector ℤ 64) (diff : ℤ) (dc ac : HuffmanEncoder) : List (UInt32 × ℕ) :=
  ScanSymbol.puts dc (0, diff) ++
    (runLengths 0 (zz.toList.drop 1)).flatMap (ScanSymbol.puts ac)

/-- **A block makes its writes.** -/
theorem encodeBlock_eq_puts (w : ScanWriter) (zz : Vector ℤ 64) (previousDc : ℤ)
    (dc ac : HuffmanEncoder) : encodeBlock w zz previousDc dc ac =
      ((blockPuts zz (dcOf zz - previousDc) dc ac).foldl (fun w p => w.put p.1 p.2) w,
        dcOf zz) := by
  rw [encodeBlock_eq, ScanSymbol.foldl_emit, ScanSymbol.emit_eq, blockPuts, List.foldl_append]

namespace ScanSymbol

/-- The writes of a short symbol have at most 16 bits. -/
theorem Short.snd_le {table : HuffmanEncoder} {s : ScanSymbol} (h : s.Short table) :
    ∀ p ∈ s.puts table, p.2 ≤ 16 := by
  intro p hp
  rw [puts] at hp
  rcases List.mem_cons.mp hp with rfl | hp
  · exact h.1
  · split_ifs at hp
    · exact absurd hp List.not_mem_nil
    · rw [List.mem_singleton.mp hp]
      exact h.2

/-- The bits of the writes of a short symbol. -/
theorem Short.flatMap_puts {table : HuffmanEncoder} {s : ScanSymbol} (h : s.Short table) :
    (s.puts table).flatMap (fun p => msb p.2 p.1.toNat) = s.bits table := by
  rw [puts, List.flatMap_cons, bits, valueBits]
  refine congrArg₂ (· ++ ·) rfl ?_
  split_ifs with hzero
  · rw [hzero, msb, List.flatMap_nil]
  · have hmem := encodedValue_mem s.2
    have hpow : (2 : ℤ) ^ category s.2 ≤ 2 ^ 16 := pow_le_pow_right₀ one_le_two h.2
    have hcast : (UInt32.ofInt (encodedValue s.2 (category s.2))).toNat =
        (encodedValue s.2 (category s.2)).toNat := by
      rw [UInt32.ofInt, UInt32.toNat_ofNat']
      omega
    rw [List.flatMap_singleton, hcast]

end ScanSymbol

namespace ScanWriter

/-- A list of writes of at most 16 bits each. -/
theorem Holds.foldl_put {w : ScanWriter} {head : List UInt8} {bits : List Bool}
    (h : w.Holds head bits) (hused : w.used < 8) (puts : List (UInt32 × ℕ))
    (hputs : ∀ p ∈ puts, p.2 ≤ 16) :
    (puts.foldl (fun w p => w.put p.1 p.2) w).Holds head
      (bits ++ puts.flatMap fun p => msb p.2 p.1.toNat) := by
  induction puts generalizing w bits with
  | nil => rwa [List.flatMap_nil, List.append_nil]
  | cons p puts ih =>
    have hp := hputs p List.mem_cons_self
    rw [List.foldl_cons, List.flatMap_cons, ← List.append_assoc]
    exact ih (h.put p.1 (by omega) (by omega)) (used_put_lt w p.1 p.2)
      fun q hq => hputs q (List.mem_cons_of_mem p hq)

theorem used_foldl_put_lt {w : ScanWriter} (hused : w.used < 8) (puts : List (UInt32 × ℕ)) :
    (puts.foldl (fun w p => w.put p.1 p.2) w).used < 8 := by
  induction puts generalizing w with
  | nil => exact hused
  | cons p puts ih => exact ih (used_put_lt w p.1 p.2)

end ScanWriter

end HumanizedHash
