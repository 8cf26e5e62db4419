import HumanizedHash.Encoding.JpegTables
import HumanizedHash.Formats.HuffmanTable

/-!
# The codes that `build` assigns

For counts that satisfy the Kraft inequality and as many different symbols, the table of `build` is
the canonical prefix code. The code of the next symbol is the weight of the codes before it, at the
length that has been reached, which is below the power of two of this length; so no code is cut when
it is stored in 16 bits.

## Main definitions

* `passState`: the local variables of `build` in front of a pass of its inner loop.
* `HuffmanEncoder.word`: the bits that the encoder writes for a symbol.

## Main results

* `code_passState`: the code of every pass.
* `build_canonical`: lengths, codes, prefix freeness and the decoder.

## References

* `src/src/jpeg.cpp`, `src/src/jpeg_tables.hpp`, `src/tests/test_encode.cpp`.
-/

namespace HumanizedHash

open Bits

/-! ### The passes -/

section Passes

variable {spec : JpegHuffmanSpec} {l i : ℕ}

/-- The local variables of `build` in front of pass `i` for the length `l + 1`. -/
def passState (spec : JpegHuffmanSpec) (l i : ℕ) : BuildState :=
  (List.range i).foldl (fun st _ => buildSymbol spec (l + 1) st)
    (((spec.counts.toList.take l).zipIdx 1).foldl (fun st c => buildLength spec st c.1 c.2)
      ⟨0, 0, .zero⟩)

theorem length_lengthCounts (spec : JpegHuffmanSpec) : spec.lengthCounts.length = 16 := by
  rw [JpegHuffmanSpec.lengthCounts, List.length_map, Vector.length_toList]

/-- There are passes for 16 lengths only. -/
theorem lt_length_of_pass (hi : i < spec.lengthCounts.getD l 0) : l < spec.lengthCounts.length := by
  by_contra hge
  rw [List.getD_eq_default _ _ (Nat.le_of_not_lt hge)] at hi
  exact Nat.not_lt_zero i hi

/-- **The code of a pass** is the accumulated weight and the number of the pass. -/
theorem code_passState (h : spec.Valid) (hi : i < spec.lengthCounts.getD l 0) :
    (passState spec l i).code.toNat = 2 * Canonical.weight (spec.lengthCounts.take l) + i ∧
      (passState spec l i).code.toNat < 2 ^ (l + 1) := by
  have hl := lt_length_of_pass hi
  rw [List.getD_eq_getElem _ _ hl] at hi
  have hfirst := Canonical.first_add_le h.kraft hl
  have hsixteen := length_lengthCounts spec
  have hpow : 2 ^ (l + 1) ≤ 2 ^ 16 := Nat.pow_le_pow_right two_pos (by omega)
  have htake : (spec.counts.toList.take l).map UInt8.toNat = spec.lengthCounts.take l :=
    List.map_take
  have hsum : (spec.lengthCounts.take l).sum + spec.lengthCounts[l] ≤ spec.symbols.length := by
    have hsplit := List.sum_take_add_sum_drop spec.lengthCounts l
    rw [List.drop_eq_getElem_cons hl, List.sum_cons, ← h.length_eq] at hsplit
    omega
  have houter := foldl_buildLength spec 1 ⟨0, 0, .zero⟩ (spec.counts.toList.take l)
    (by rw [htake, Nat.zero_add]; omega)
    (by rw [htake, UInt32.toNat_zero, Nat.zero_mul]; omega)
  rw [htake, UInt32.toNat_zero, Nat.zero_mul, Nat.zero_add, Nat.zero_add] at houter
  have hcode : (UInt32.ofNat (2 * Canonical.weight (spec.lengthCounts.take l))).toNat =
      2 * Canonical.weight (spec.lengthCounts.take l) :=
    UInt32.toNat_ofNat_of_lt' (by rw [UInt32.size]; omega)
  have hpass : (passState spec l i).code.toNat =
      2 * Canonical.weight (spec.lengthCounts.take l) + i := by
    rw [passState, houter, foldl_buildSymbol spec (l + 1) _ (by dsimp only; omega)
      (by dsimp only; omega), UInt32.toNat_add, hcode, UInt32.toNat_ofNat', Nat.add_mod_mod,
      Nat.mod_eq_of_lt (by omega)]
  exact ⟨hpass, by omega⟩

end Passes

/-! ### The table -/

/-- The bits that the encoder writes for a symbol. -/
def HuffmanEncoder.word (e : HuffmanEncoder) (s : UInt8) : List Bool :=
  msb (e.length s.toNat).toNat (e.code s.toNat).toNat

section Table

variable {spec : JpegHuffmanSpec}

/-- The bits of a listed symbol are those of its codeword. -/
theorem word_of_mem (h : spec.Valid) {x : Canonical.Entry UInt8} (hx : x ∈ spec.codewords) :
    (build spec).word x.symbol = msb x.length x.code := by
  obtain ⟨hcode, hlength⟩ := build_of_mem h hx
  rw [HuffmanEncoder.word, hcode, hlength]

theorem exists_of_mem_symbols (h : spec.Valid) {s : UInt8} (hs : s ∈ spec.symbols) :
    ∃ x ∈ spec.codewords, x.symbol = s := by
  obtain ⟨x, hx, hsymbol⟩ := exists_codeword h (List.mem_map_of_mem hs)
  exact ⟨x, hx, UInt8.toNat_inj.mp hsymbol⟩

/-- A symbol that is not listed has no code. -/
theorem length_of_notMem (h : spec.Valid) {s : UInt8} (hs : s ∉ spec.symbols) :
    (build spec).length s.toNat = 0 := by
  rw [build_eq h, foldl_assign]
  refine Memory.foldl_update_of_ne _ (fun x : Canonical.Entry UInt8 => x.symbol.toNat) _ _ ?_
  intro x hx heq
  rw [← h.map_symbol] at hs
  exact hs (UInt8.toNat_inj.mp heq ▸ List.mem_map_of_mem hx)

/-- A symbol gets the size and the code that stand at its place in the lists of a decoder. -/
theorem build_getElem? (h : spec.Valid) {k : ℕ} {s : UInt8} (hs : spec.symbols[k]? = some s) :
    ∃ x ∈ spec.codewords, x.symbol = s ∧
      (HuffmanTable.sizes spec.lengthCounts)[k]? = some x.length ∧
      (HuffmanTable.codes (HuffmanTable.sizes spec.lengthCounts))[k]? = some x.code := by
  have hentries : HuffmanTable.entries spec.lengthCounts spec.symbols = spec.codewords :=
    HuffmanTable.entries_eq_codewords h.length_eq
  rw [← h.map_symbol, List.getElem?_map, Option.map_eq_some_iff] at hs
  obtain ⟨x, hget, hsymbol⟩ := hs
  refine ⟨x, List.mem_of_getElem? hget, hsymbol, ?_⟩
  rw [← hentries, HuffmanTable.entries, List.getElem?_map, Option.map_eq_some_iff] at hget
  obtain ⟨⟨s', size, code⟩, hzip, rfl⟩ := hget
  obtain ⟨-, hpair⟩ := List.getElem?_zip_eq_some.mp hzip
  exact List.getElem?_zip_eq_some.mp hpair

/-- **Canonical construction.** For a valid table every code fits its length in every pass, so that
the cast to 16 bits does not change it; a listed symbol gets the length it is counted under and the
code of the decoder's list; no other symbol gets a length; no code is a prefix of another; and the
decoder made from the counts and the symbols maps every code back to its symbol. -/
theorem build_canonical (spec : JpegHuffmanSpec) (h : spec.Valid) :
    let e := build spec
    let sizes := HuffmanTable.sizes spec.lengthCounts
    (∀ l i : ℕ, i < spec.lengthCounts.getD l 0 →
      let code := (passState spec l i).code
      code.toNat < 2 ^ (l + 1) ∧ code.toUInt16.toNat = code.toNat) ∧
    (∀ (k : ℕ) (s : UInt8), spec.symbols[k]? = some s →
      sizes[k]? = some (e.length s.toNat).toNat ∧
      (HuffmanTable.codes sizes)[k]? = some (e.code s.toNat).toNat ∧
      (e.code s.toNat).toNat < 2 ^ (e.length s.toNat).toNat) ∧
    (∀ s : UInt8, s ∉ spec.symbols → e.length s.toNat = 0) ∧
    (∀ s ∈ spec.symbols, ∀ t ∈ spec.symbols, s ≠ t → ¬e.word s <+: e.word t) ∧
    ∀ s ∈ spec.symbols, ∀ rest,
      HuffmanTable.decode (HuffmanTable.entries spec.lengthCounts spec.symbols)
        (e.word s ++ rest) = some (s, rest) := by
  intro e sizes
  refine ⟨fun l i hi => ?_, fun k s hs => ?_, fun s hs => length_of_notMem h hs,
    fun s hs t ht hne hprefix => ?_, fun s hs rest => ?_⟩
  · have hlt := (code_passState h hi).2
    refine ⟨hlt, ?_⟩
    have hl := lt_length_of_pass hi
    rw [length_lengthCounts] at hl
    have hpow : 2 ^ (l + 1) ≤ 2 ^ 16 := Nat.pow_le_pow_right two_pos (by omega)
    rw [UInt32.toNat_toUInt16, Nat.mod_eq_of_lt (hlt.trans_le hpow)]
  · obtain ⟨x, hx, rfl, hsize, hcode⟩ := build_getElem? h hs
    obtain ⟨hbuilt, hlength⟩ := build_of_mem h hx
    have hlt := Canonical.code_lt h.kraft hx
    rw [← hbuilt, ← hlength] at hlt
    exact ⟨by rw [hlength, hsize], by rw [hbuilt, hcode], hlt⟩
  · obtain ⟨x, hx, rfl⟩ := exists_of_mem_symbols h hs
    obtain ⟨y, hy, rfl⟩ := exists_of_mem_symbols h ht
    rw [word_of_mem h hx, word_of_mem h hy] at hprefix
    exact hne (congrArg Canonical.Entry.symbol (Canonical.eq_of_isPrefix h.kraft hx hy hprefix))
  · obtain ⟨x, hx, rfl⟩ := exists_of_mem_symbols h hs
    rw [word_of_mem h hx]
    exact HuffmanTable.decode_append h.length_eq h.kraft hx rest

/-- The symbol behind the first one, in a table of the encoder. -/
theorem build_canonical_dc :
    (HuffmanTable.sizes jpegDcLuminance.lengthCounts)[1]? =
      some ((build jpegDcLuminance).length 1).toNat :=
  ((build_canonical jpegDcLuminance jpegDcLuminance_valid).2.1 1 1 rfl).1

end Table

end HumanizedHash
