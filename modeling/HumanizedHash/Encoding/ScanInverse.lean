import HumanizedHash.Encoding.JpegSafety
import HumanizedHash.Formats.EntropyCode

/-!
# Decoding undoes the scan of the JPEG encoder

The bits that a scan puts are those of its units, each coded with the prediction that the units in
front of it leave. A decoder that knows the counts and the symbols of the codes reads the quantised
values of all units back.

## Main definitions

* `JpegHuffmanSpec.table`: a table as the decoder knows it.
* `unitBits`, `scanBits`: the bits of a unit and of a scan.
* `unitCoding`: the codes of a unit.

## Main results

* `readRuns_runLengths`: the values behind the first one are read back.
* `holds_scanBits`: a scan puts its bits.
* `readBlocks_scanBits`: the quantised values of all units are read back.

## References

* `src/src/jpeg.cpp`, `src/docs/SPEC.md` (section 13.7).
-/

namespace HumanizedHash

open Bits EntropyCode

/-! ### Symbols -/

/-- A table as the decoder knows it. -/
def JpegHuffmanSpec.table (spec : JpegHuffmanSpec) : Table := ⟨spec.lengthCounts, spec.symbols⟩

section Symbols

variable {spec : JpegHuffmanSpec} (hspec : spec.Valid)

include hspec in
/-- **The code of a listed symbol is read back.** -/
theorem read_bits {s : ScanSymbol} (hs : s.number ∈ spec.symbols.map UInt8.toNat)
    (rest : List Bool) : spec.table.read (s.bits (build spec) ++ rest) =
      some (s.number, ScanSymbol.valueBits s.2 ++ rest) := by
  obtain ⟨x, hx, hnumber⟩ := exists_codeword hspec hs
  obtain ⟨hcode, hlength⟩ := build_of_mem hspec hx
  rw [ScanSymbol.bits, ← hnumber, hcode, hlength, List.append_assoc, Table.read,
    JpegHuffmanSpec.table, Canonical.decode_append hspec.kraft hx]
  rfl

/-- The additional bits of a value are read back. -/
theorem readValue_valueBits (v : ℤ) (rest : List Bool) :
    readValue (category v) (ScanSymbol.valueBits v ++ rest) = some (v, rest) := by
  obtain ⟨hnonneg, hlt⟩ := encodedValue_mem v
  have hfits : (encodedValue v (category v)).toNat < 2 ^ category v := by
    zify
    rwa [Int.toNat_of_nonneg hnonneg]
  have hextend := extend_bits (category_eq v)
  rw [readValue, ScanSymbol.valueBits, takeMsb_append hfits, Option.map_some]
  exact congrArg (fun v => some (v, rest)) hextend

theorem valueBits_zero : ScanSymbol.valueBits 0 = [] := by
  rw [ScanSymbol.valueBits, category_eq_zero_iff.mpr rfl, msb]

/-- A symbol without a value. -/
theorem number_zero (run : ℕ) : ScanSymbol.number (run, 0) = run * 16 := by
  rw [ScanSymbol.number, category_eq_zero_iff.mpr rfl, Nat.add_zero]

include hspec in
/-- A difference is read back. -/
theorem readDifference_bits (hdc : ∀ s ∈ dcSymbols, s ∈ spec.symbols.map UInt8.toNat) {d : ℤ}
    (hd : category d ≤ 11) (rest : List Bool) :
    readDifference spec.table (ScanSymbol.bits (build spec) (0, d) ++ rest) = some (d, rest) := by
  have hread := read_bits hspec (s := (0, d))
    (by rw [number_diff]; exact hdc _ (mem_dcSymbols hd)) rest
  rw [number_diff] at hread
  rw [readDifference, hread]
  simp only [Option.bind_eq_bind, Option.bind_some, if_pos hd, readValue_valueBits]

include hspec in
/-- **The values behind the first one are read back**, behind a run of zeros. -/
theorem readRuns_runLengths (hac : ∀ s ∈ acSymbols, s ∈ spec.symbols.map UInt8.toNat) (run : ℕ)
    {vs : List ℤ} (hvs : ∀ v ∈ vs, category v ≤ 10) (rest : List Bool) :
    readRuns spec.table (run + vs.length)
        ((runLengths run vs).flatMap (ScanSymbol.bits (build spec)) ++ rest) =
      some (List.replicate run 0 ++ vs, rest) := by
  have hzero (run : ℕ) (h : run * 16 ∈ acSymbols) (rest : List Bool) :
      spec.table.read (ScanSymbol.bits (build spec) (run, 0) ++ rest) = some (run * 16, rest) := by
    have hread := read_bits hspec (s := (run, 0)) (by rw [number_zero]; exact hac _ h) rest
    rwa [number_zero, valueBits_zero, List.nil_append] at hread
  induction vs generalizing run with
  | nil =>
    rw [runLengths, List.length_nil, Nat.add_zero, List.append_nil]
    by_cases hrun : run = 0
    · rw [hrun, if_neg (not_not.mpr rfl), readRuns, if_pos rfl]
      rfl
    · rw [if_pos hrun, List.flatMap_singleton]
      exact readRuns_end (hzero 0 List.mem_cons_self rest) hrun
  | cons v vs ih =>
    have htail (u : ℤ) (hu : u ∈ vs) : category u ≤ 10 := hvs u (List.mem_cons_of_mem v hu)
    rw [runLengths]
    by_cases hv : v = 0
    · have hzeros : List.replicate (run + 1) (0 : ℤ) ++ vs = List.replicate run 0 ++ v :: vs := by
        rw [List.replicate_succ', List.append_assoc, List.singleton_append, hv]
      rw [if_pos hv, List.length_cons, ← hzeros, Nat.add_comm vs.length, ← Nat.add_assoc,
        ih _ htail]
    · -- The long run is cut, and what is left of it stands in front of the value.
      have hlong := hzero 15 (List.mem_cons_of_mem _ List.mem_cons_self)
      have hsymbol : (run % 16, v) ∈ runLengths (run % 16) (v :: vs) := by
        rw [runLengths, if_neg hv, Nat.mod_mod]
        exact List.mem_append_right _ List.mem_cons_self
      obtain ⟨-, hcategory, hlisted⟩ := number_mem_acSymbols hvs hsymbol
      have hpos : category v ≠ 0 := fun h => hv (category_eq_zero_iff.mp h)
      have hread := read_bits hspec (hac _ hlisted)
        ((runLengths 0 vs).flatMap (ScanSymbol.bits (build spec)) ++ rest)
      rw [ScanSymbol.number] at hread
      have hrest := ih 0 htail
      have hlength : run + (v :: vs).length - 16 * (run / 16) - run % 16 - 1 = 0 + vs.length := by
        rw [List.length_cons]
        omega
      have hvalue := readRuns_value (n := run + (v :: vs).length - 16 * (run / 16)) hread
        ⟨Nat.one_le_iff_ne_zero.mpr hpos, hcategory⟩ (by rw [List.length_cons]; omega)
        (readValue_valueBits v _)
      have hzeros : List.replicate run (0 : ℤ) =
          List.replicate (16 * (run / 16)) 0 ++ List.replicate (run % 16) 0 := by
        rw [← List.replicate_add, Nat.div_add_mod]
      rw [hlength, hrest] at hvalue
      rw [if_neg hv, List.flatMap_append, List.flatMap_replicate, List.flatMap_cons,
        List.append_assoc, List.append_assoc, readRuns_zeros hlong _ (by omega), hvalue, hzeros]
      simp only [Option.map_some, List.replicate_zero, List.nil_append, List.append_assoc]

end Symbols

/-! ### Blocks -/

theorem dcOf_cons_drop (zz : Vector ℤ 64) : dcOf zz :: zz.toList.drop 1 = zz.toList := by
  have hlength : 0 < zz.toList.length := by
    rw [Vector.length_toList]
    decide
  rw [dcOf, List.getD_eq_getElem _ _ hlength]
  exact List.getElem_cons_drop hlength

theorem headD_toList (zz : Vector ℤ 64) : zz.toList.headD 0 = dcOf zz := by
  rw [dcOf]
  cases zz.toList <;> rfl

/-- **A block is read back** with the prediction that it was coded with. -/
theorem readBlock_bits {dc ac : JpegHuffmanSpec} (hdc : dc.Valid) (hac : ac.Valid)
    (hdcSymbols : ∀ s ∈ dcSymbols, s ∈ dc.symbols.map UInt8.toNat)
    (hacSymbols : ∀ s ∈ acSymbols, s ∈ ac.symbols.map UInt8.toNat) {zz : Vector ℤ 64} {previous : ℤ}
    (hdiff : category (dcOf zz - previous) ≤ 11)
    (hvalues : ∀ v ∈ zz.toList.drop 1, category v ≤ 10) (rest : List Bool) :
    readBlock ⟨dc.table, ac.table⟩ previous
        (ScanSymbol.bits (build dc) (0, dcOf zz - previous) ++
          (runLengths 0 (zz.toList.drop 1)).flatMap (ScanSymbol.bits (build ac)) ++ rest) =
      some (zz.toList, rest) := by
  have hruns := readRuns_runLengths hac hacSymbols 0 hvalues rest
  rw [List.length_drop, Vector.length_toList, List.replicate_zero, List.nil_append] at hruns
  rw [readBlock, List.append_assoc, readDifference_bits hdc hdcSymbols hdiff]
  simp only [Option.bind_eq_bind, Option.bind_some]
  rw [hruns, Option.bind_some, add_sub_cancel, dcOf_cons_drop]
  rfl

/-! ### Units -/

/-- The codes of a component. -/
def codingOf (c : Fin 3) : Coding := ⟨(dcSpecs (tableOf c)).table, (acSpecs (tableOf c)).table⟩

section Scan

variable (img : PixelView) (quality : ℤ) (matte : Rgb)

/-- The bits of a unit: those of the difference and of the runs. -/
def unitBits (st : ScanState) (u : ScanUnit) : List Bool :=
  ScanSymbol.bits (dcTables (tableOf u.component)) (0, unitDiff img quality matte st u) ++
    (unitRuns img quality matte u).flatMap (ScanSymbol.bits (acTables (tableOf u.component)))

/-- The bits of a scan that starts in a state. -/
def scanBits (st : ScanState) : List ScanUnit → List Bool
  | [] => []
  | u :: units =>
    unitBits img quality matte st u ++ scanBits (encodeUnit img quality matte st u) units

variable {st : ScanState}

/-- The writes of a unit put its bits. -/
theorem flatMap_unitPuts (h : st.Sound) (u : ScanUnit) :
    (unitPuts img quality matte st u).flatMap (fun p => msb p.2 p.1.toNat) =
      unitBits img quality matte st u := by
  have hruns : (unitRuns img quality matte u).flatMap (fun s =>
      (s.puts (acTables (tableOf u.component))).flatMap fun p => msb p.2 p.1.toNat) =
      (unitRuns img quality matte u).flatMap (ScanSymbol.bits (acTables (tableOf u.component))) :=
    List.flatMap_congr fun s hs => (short_unitRuns img quality matte u hs).flatMap_puts
  rw [unitPuts, blockPuts, ← unitRuns, List.flatMap_append,
    (short_diff img quality matte u h).flatMap_puts, List.flatMap_assoc, hruns, unitBits]

/-- **A scan puts its bits.** -/
theorem holds_scanBits {head : List UInt8} {bits : List Bool} (h : st.Sound)
    (hholds : st.writer.Holds head bits) (units : List ScanUnit) :
    (units.foldl (encodeUnit img quality matte) st).writer.Holds head
      (bits ++ scanBits img quality matte st units) := by
  induction units generalizing st bits with
  | nil => rwa [scanBits, List.append_nil]
  | cons u units ih =>
    have hunit : (encodeUnit img quality matte st u).writer.Holds head
        (bits ++ unitBits img quality matte st u) := by
      rw [← flatMap_unitPuts img quality matte h u, encodeUnit_eq]
      exact hholds.foldl_put h.used_lt _ (unitPuts_snd_le img quality matte u h)
    rw [List.foldl_cons, scanBits, ← List.append_assoc]
    exact ih (h.encodeUnit img quality matte u) hunit

/-- **The quantised values of a unit are read back.** -/
theorem readBlock_unitBits (h : st.Sound) (u : ScanUnit) (rest : List Bool) :
    readBlock (codingOf u.component) (st.previousDc u.component)
        (unitBits img quality matte st u ++ rest) =
      some ((unitBlock img quality matte u).toList, rest) := by
  have hdiff := category_diff_le img quality matte u h
  have hvalues (v : ℤ) (hv : v ∈ (unitBlock img quality matte u).toList.drop 1) :
      category v ≤ 10 := by
    obtain ⟨i, hi, rfl⟩ := exists_get_of_mem_drop hv
    exact category_get_le img quality matte u hi
  rw [unitDiff] at hdiff
  rw [unitBits, unitDiff, unitRuns, codingOf, dcTables, acTables]
  exact readBlock_bits (dcSpecs_valid _) (acSpecs_valid _) (fun s hs => dcSpecs_listed _ hs)
    (fun s hs => acSpecs_listed _ hs) hdiff hvalues rest

/-- **The quantised values of all units are read back.** -/
theorem readBlocks_scanBits (h : st.Sound) (previous : ℕ → ℤ)
    (hprevious : ∀ c : Fin 3, previous c = st.previousDc c) (units : List ScanUnit)
    (rest : List Bool) :
    readBlocks (units.map fun u => (codingOf u.component, u.component.val)) previous
        (scanBits img quality matte st units ++ rest) =
      some (units.map fun u => (unitBlock img quality matte u).toList, rest) := by
  induction units generalizing st previous with
  | nil => rfl
  | cons u units ih =>
    have hnext (c : Fin 3) : Function.update previous u.component.val
        (dcOf (unitBlock img quality matte u)) c =
          (encodeUnit img quality matte st u).previousDc c := by
      rw [encodeUnit_eq]
      dsimp only
      by_cases hc : c = u.component
      · rw [hc, Function.update_self, Function.update_self]
      · rw [Function.update_of_ne (fun hval => hc (Fin.ext hval)), Function.update_of_ne hc,
          hprevious]
    rw [List.map_cons, readBlocks, scanBits, List.append_assoc, hprevious,
      readBlock_unitBits img quality matte h, Option.bind_some]
    dsimp only
    rw [headD_toList, ih (h.encodeUnit img quality matte u) _ hnext]
    rfl

end Scan

end HumanizedHash
