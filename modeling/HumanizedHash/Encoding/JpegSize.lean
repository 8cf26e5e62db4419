import HumanizedHash.Encoding.JpegInverse

/-!
# The size of a JPEG file

A block has at most 63 symbols behind its first one, for a symbol stands for a value, or for 16
zeros, or for the zeros at the end. So the bits of a block are bounded, and with a byte `00` behind
every byte `FF` at worst the data doubles.

## Main results

* `length_runLengths_le`: the number of symbols of a block.
* `length_unitBits_le`: the bits of a block.
* `length_encodeJpegBytes_le`: the size of a file.

## References

* `src/src/jpeg.cpp`.
-/

namespace HumanizedHash

open Bits

/-- **A symbol stands for a coefficient** at least. -/
theorem length_runLengths_le (run : ℕ) (vs : List ℤ) :
    (runLengths run vs).length ≤ run + vs.length := by
  induction vs generalizing run with
  | nil =>
    rw [runLengths]
    split_ifs with hrun
    · rw [List.length_singleton, List.length_nil]
      omega
    · exact Nat.zero_le _
  | cons v vs ih =>
    rw [runLengths, List.length_cons]
    split_ifs
    · have htail := ih (run + 1)
      omega
    · have htail := ih 0
      rw [List.length_append, List.length_replicate, List.length_cons]
      omega

section Scan

variable (img : PixelView) (quality : ℤ) (matte : Rgb)

theorem length_valueBits (v : ℤ) : (ScanSymbol.valueBits v).length = category v := length_msb _ _

/-- **The bits of a block.** -/
theorem length_unitBits_le {st : ScanState} (h : st.Sound) (u : ScanUnit) :
    (unitBits img quality matte st u).length ≤ 1665 := by
  have hdiff : (ScanSymbol.bits (dcTables (tableOf u.component))
      (0, unitDiff img quality matte st u)).length ≤ 27 := by
    have hcode := (short_diff img quality matte u h).1
    have hcategory := category_diff_le img quality matte u h
    rw [ScanSymbol.bits, List.length_append, length_msb, length_valueBits]
    dsimp only
    omega
  have hrun (s : ScanSymbol) (hs : s ∈ unitRuns img quality matte u) :
      (ScanSymbol.bits (acTables (tableOf u.component)) s).length ≤ 26 := by
    have hcode := (short_unitRuns img quality matte u hs).1
    obtain ⟨-, hcategory, -⟩ := unitRuns_mem img quality matte u hs
    rw [ScanSymbol.bits, List.length_append, length_msb, length_valueBits]
    omega
  have hcount : (unitRuns img quality matte u).length ≤ 63 := by
    have hsymbols := length_runLengths_le 0 ((unitBlock img quality matte u).toList.drop 1)
    rw [List.length_drop, Vector.length_toList] at hsymbols
    exact hsymbols.trans (by decide)
  have hruns : ((unitRuns img quality matte u).flatMap
      (ScanSymbol.bits (acTables (tableOf u.component)))).length ≤
        (unitRuns img quality matte u).length * 26 := by
    rw [List.length_flatMap]
    refine (List.sum_le_card_nsmul _ 26 fun n hn => ?_).trans_eq ?_
    · obtain ⟨s, hs, rfl⟩ := List.mem_map.mp hn
      exact hrun s hs
    · rw [List.length_map, smul_eq_mul]
  rw [unitBits, List.length_append]
  omega

/-- The bits of a scan. -/
theorem length_scanBits_le {st : ScanState} (h : st.Sound) (units : List ScanUnit) :
    (scanBits img quality matte st units).length ≤ 1665 * units.length := by
  induction units generalizing st with
  | nil => exact Nat.zero_le _
  | cons u units ih =>
    have hhead := length_unitBits_le img quality matte h u
    have htail := ih (h.encodeUnit img quality matte u)
    rw [scanBits, List.length_append, List.length_cons]
    omega

theorem length_msbOf (bytes : List UInt8) : (msbOf bytes).length = 8 * bytes.length := by
  rw [msbOf, List.length_flatMap]
  simp only [length_msb, List.map_const', List.sum_replicate, smul_eq_mul]
  exact Nat.mul_comm _ _

theorem length_stuff_le (data : List UInt8) :
    (EntropyCode.stuff data).length ≤ 2 * data.length := by
  induction data with
  | nil => exact Nat.zero_le _
  | cons b data ih =>
    have hbyte : (if b = 0xFF then [b, 0x00] else [b]).length ≤ 2 := by
      split_ifs <;> simp
    rw [EntropyCode.stuff] at ih ⊢
    rw [List.flatMap_cons, List.length_append, List.length_cons]
    omega

theorem length_scanUnits :
    (scanUnits img).length = 3 * (blockCount img.height * blockCount img.width) := by
  rw [scanUnits, List.length_flatMap]
  simp only [List.length_flatMap, List.length_map, List.length_finRange, List.map_const',
    List.sum_replicate, List.length_range, smul_eq_mul]
  ring

theorem length_jpegHeader : (jpegHeader img quality).length = 623 := by
  have hquantiser (id : UInt8) (table : Vector UInt8 64) : (putQuantiser id table).length = 69 := by
    simp only [putQuantiser, putBe16, List.length_append, List.length_cons, List.length_nil,
      List.length_map, Vector.length_toList]
  have hdc : (putHuffman 0x00 jpegDcLuminance).length = 33 ∧
      (putHuffman 0x01 jpegDcChrominance).length = 33 := ⟨rfl, rfl⟩
  have hac : (putHuffman 0x10 jpegAcLuminance).length = 183 ∧
      (putHuffman 0x11 jpegAcChrominance).length = 183 := ⟨rfl, rfl⟩
  simp only [jpegHeader, List.length_append, hquantiser, hdc, hac, putBe16, List.length_cons,
    List.length_nil]

/-- **The size of a file**: 1250 bytes for a block position at worst. -/
theorem length_encodeJpegBytes_le : (encodeJpegBytes img quality matte).length ≤
    627 + 1250 * (blockCount img.height * blockCount img.width) := by
  obtain ⟨data, pad, hscan, hpad, hbits⟩ := exists_scanBytes_eq img quality matte
  have hlength := congrArg List.length hbits
  have hscanBits := length_scanBits_le img quality matte (ScanState.sound_start [])
    (scanUnits img)
  have hstuff := length_stuff_le data
  rw [length_msbOf, List.length_append, List.length_replicate] at hlength
  rw [length_scanUnits] at hscanBits
  rw [encodeJpegBytes_eq, hscan, List.length_append, List.length_append, length_jpegHeader,
    List.length_cons, List.length_singleton]
  omega

end Scan

end HumanizedHash
