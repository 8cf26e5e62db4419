import HumanizedHash.Foundations.CanonicalCode
import HumanizedHash.Foundations.Storage
import Mathlib.Data.Vector.Basic

/-!
# The tables of the JPEG encoder

The quantisers, the zigzag order and the Huffman tables of `src/jpeg_tables.hpp`, the scaling of a
quantiser and the construction of the codes.

## Main definitions

* `jpegZigzag`, `jpegLuminanceQuantiser`, `jpegChrominanceQuantiser`, `scaleQuantiser`.
* `JpegHuffmanSpec` and its four tables, `HuffmanEncoder`, `build`.

## Main results

* `build_of_mem`: a listed symbol gets its canonical codeword.
* `dcSymbols_listed`, `acSymbols_listed`: the tables list every symbol that a scan can need.

## References

* `src/src/jpeg_tables.hpp`, `src/src/jpeg.cpp`, `src/docs/SPEC.md` (section 13.2, appendix B).
-/

namespace HumanizedHash

/-! ### Quantisers -/

def jpegZigzag : Vector (Fin 64) 64 :=
  #v[0, 1, 8, 16, 9, 2, 3, 10, 17, 24, 32, 25, 18, 11, 4, 5, 12, 19, 26, 33, 40, 48, 41, 34, 27, 20,
    13, 6, 7, 14, 21, 28, 35, 42, 49, 56, 57, 50, 43, 36, 29, 22, 15, 23, 30, 37, 44, 51, 58, 59,
    52, 45, 38, 31, 39, 46, 53, 60, 61, 54, 47, 55, 62, 63]

def jpegLuminanceQuantiser : Vector UInt8 64 :=
  #v[16, 11, 10, 16, 24, 40, 51, 61, 12, 12, 14, 19, 26, 58, 60, 55, 14, 13, 16, 24, 40, 57, 69, 56,
    14, 17, 22, 29, 51, 87, 80, 62, 18, 22, 37, 56, 68, 109, 103, 77, 24, 35, 55, 64, 81, 104, 113,
    92, 49, 64, 78, 87, 103, 121, 120, 101, 72, 92, 95, 98, 112, 100, 103, 99]

def jpegChrominanceQuantiser : Vector UInt8 64 :=
  #v[17, 18, 24, 47, 99, 99, 99, 99, 18, 21, 26, 66, 99, 99, 99, 99, 24, 26, 56, 99, 99, 99, 99, 99,
    47, 66, 99, 99, 99, 99, 99, 99, 99, 99, 99, 99, 99, 99, 99, 99, 99, 99, 99, 99, 99, 99, 99, 99,
    99, 99, 99, 99, 99, 99, 99, 99, 99, 99, 99, 99, 99, 99, 99, 99]

/-- `std::clamp`. -/
def clamp (v low high : ℤ) : ℤ :=
  if v < low then low else if high < v then high else v

/-- `scale_quantiser`. -/
def scaleQuantiser (base : Vector UInt8 64) (quality : ℤ) : Vector UInt8 64 :=
  let scale := 200 - 2 * quality
  base.map fun b => UInt8.ofInt (clamp (((b.toNat : ℤ) * scale + 50).tdiv 100) 1 255)

/-! ### Huffman tables -/

/-- `struct jpeg_huffman_spec`: the number of codes of each length from 1 to 16, and the symbols,
whose number is `symbol_count`. -/
structure JpegHuffmanSpec where
  counts : Vector UInt8 16
  symbols : List UInt8
  deriving DecidableEq

def jpegDcSymbols : List UInt8 :=
  [0, 1, 2, 3, 4, 5, 6, 7, 8, 9, 10, 11]

def jpegAcLuminanceSymbols : List UInt8 :=
  [0x01, 0x02, 0x03, 0x00, 0x04, 0x11, 0x05, 0x12, 0x21, 0x31, 0x41, 0x06, 0x13, 0x51, 0x61, 0x07,
    0x22, 0x71, 0x14, 0x32, 0x81, 0x91, 0xA1, 0x08, 0x23, 0x42, 0xB1, 0xC1, 0x15, 0x52, 0xD1, 0xF0,
    0x24, 0x33, 0x62, 0x72, 0x82, 0x09, 0x0A, 0x16, 0x17, 0x18, 0x19, 0x1A, 0x25, 0x26, 0x27, 0x28,
    0x29, 0x2A, 0x34, 0x35, 0x36, 0x37, 0x38, 0x39, 0x3A, 0x43, 0x44, 0x45, 0x46, 0x47, 0x48, 0x49,
    0x4A, 0x53, 0x54, 0x55, 0x56, 0x57, 0x58, 0x59, 0x5A, 0x63, 0x64, 0x65, 0x66, 0x67, 0x68, 0x69,
    0x6A, 0x73, 0x74, 0x75, 0x76, 0x77, 0x78, 0x79, 0x7A, 0x83, 0x84, 0x85, 0x86, 0x87, 0x88, 0x89,
    0x8A, 0x92, 0x93, 0x94, 0x95, 0x96, 0x97, 0x98, 0x99, 0x9A, 0xA2, 0xA3, 0xA4, 0xA5, 0xA6, 0xA7,
    0xA8, 0xA9, 0xAA, 0xB2, 0xB3, 0xB4, 0xB5, 0xB6, 0xB7, 0xB8, 0xB9, 0xBA, 0xC2, 0xC3, 0xC4, 0xC5,
    0xC6, 0xC7, 0xC8, 0xC9, 0xCA, 0xD2, 0xD3, 0xD4, 0xD5, 0xD6, 0xD7, 0xD8, 0xD9, 0xDA, 0xE1, 0xE2,
    0xE3, 0xE4, 0xE5, 0xE6, 0xE7, 0xE8, 0xE9, 0xEA, 0xF1, 0xF2, 0xF3, 0xF4, 0xF5, 0xF6, 0xF7, 0xF8,
    0xF9, 0xFA]

def jpegAcChrominanceSymbols : List UInt8 :=
  [0x00, 0x01, 0x02, 0x03, 0x11, 0x04, 0x05, 0x21, 0x31, 0x06, 0x12, 0x41, 0x51, 0x07, 0x61, 0x71,
    0x13, 0x22, 0x32, 0x81, 0x08, 0x14, 0x42, 0x91, 0xA1, 0xB1, 0xC1, 0x09, 0x23, 0x33, 0x52, 0xF0,
    0x15, 0x62, 0x72, 0xD1, 0x0A, 0x16, 0x24, 0x34, 0xE1, 0x25, 0xF1, 0x17, 0x18, 0x19, 0x1A, 0x26,
    0x27, 0x28, 0x29, 0x2A, 0x35, 0x36, 0x37, 0x38, 0x39, 0x3A, 0x43, 0x44, 0x45, 0x46, 0x47, 0x48,
    0x49, 0x4A, 0x53, 0x54, 0x55, 0x56, 0x57, 0x58, 0x59, 0x5A, 0x63, 0x64, 0x65, 0x66, 0x67, 0x68,
    0x69, 0x6A, 0x73, 0x74, 0x75, 0x76, 0x77, 0x78, 0x79, 0x7A, 0x82, 0x83, 0x84, 0x85, 0x86, 0x87,
    0x88, 0x89, 0x8A, 0x92, 0x93, 0x94, 0x95, 0x96, 0x97, 0x98, 0x99, 0x9A, 0xA2, 0xA3, 0xA4, 0xA5,
    0xA6, 0xA7, 0xA8, 0xA9, 0xAA, 0xB2, 0xB3, 0xB4, 0xB5, 0xB6, 0xB7, 0xB8, 0xB9, 0xBA, 0xC2, 0xC3,
    0xC4, 0xC5, 0xC6, 0xC7, 0xC8, 0xC9, 0xCA, 0xD2, 0xD3, 0xD4, 0xD5, 0xD6, 0xD7, 0xD8, 0xD9, 0xDA,
    0xE2, 0xE3, 0xE4, 0xE5, 0xE6, 0xE7, 0xE8, 0xE9, 0xEA, 0xF2, 0xF3, 0xF4, 0xF5, 0xF6, 0xF7, 0xF8,
    0xF9, 0xFA]

def jpegDcLuminance : JpegHuffmanSpec :=
  ⟨#v[0, 1, 5, 1, 1, 1, 1, 1, 1, 0, 0, 0, 0, 0, 0, 0], jpegDcSymbols⟩

def jpegDcChrominance : JpegHuffmanSpec :=
  ⟨#v[0, 3, 1, 1, 1, 1, 1, 1, 1, 1, 1, 0, 0, 0, 0, 0], jpegDcSymbols⟩

def jpegAcLuminance : JpegHuffmanSpec :=
  ⟨#v[0, 2, 1, 3, 3, 2, 4, 3, 5, 5, 4, 4, 0, 0, 1, 0x7D], jpegAcLuminanceSymbols⟩

def jpegAcChrominance : JpegHuffmanSpec :=
  ⟨#v[0, 2, 1, 2, 4, 4, 3, 4, 7, 5, 4, 4, 0, 1, 2, 0x77], jpegAcChrominanceSymbols⟩

/-- `struct huffman_encoder`: the codes and their lengths, by symbol. -/
structure HuffmanEncoder where
  code : Memory UInt16
  length : Memory UInt8

/-- The encoder without codes. -/
def HuffmanEncoder.zero : HuffmanEncoder := ⟨fun _ => 0, fun _ => 0⟩

/-- The local variables of `build`. -/
structure BuildState where
  code : UInt32
  k : ℕ
  e : HuffmanEncoder

/-- The inner loop of `build`: the next symbol gets the next code of the length `len`. -/
def buildSymbol (spec : JpegHuffmanSpec) (len : ℕ) (st : BuildState) : BuildState :=
  let symbol := spec.symbols.getD st.k 0
  { code := st.code + 1
    k := st.k + 1
    e :=
      { code := Function.update st.e.code symbol.toNat st.code.toUInt16
        length := Function.update st.e.length symbol.toNat (UInt8.ofNat len) } }

/-- The outer loop of `build`, for one length. -/
def buildLength (spec : JpegHuffmanSpec) (st : BuildState) (count : UInt8) (len : ℕ) :
    BuildState :=
  let st := (List.range count.toNat).foldl (fun st _ => buildSymbol spec len st) st
  { st with code := st.code <<< 1 }

/-- `build`: the canonical assignment of the codes. -/
def build (spec : JpegHuffmanSpec) : HuffmanEncoder :=
  ((spec.counts.toList.zipIdx 1).foldl (fun st c => buildLength spec st c.1 c.2)
    ⟨0, 0, .zero⟩).e

/-! ### The codes that are built -/

namespace JpegHuffmanSpec

/-- The number of codes of each length. -/
def lengthCounts (spec : JpegHuffmanSpec) : List ℕ := spec.counts.toList.map UInt8.toNat

/-- The canonical code of a table. -/
abbrev codewords (spec : JpegHuffmanSpec) : List (Canonical.Entry UInt8) :=
  Canonical.codewords spec.lengthCounts spec.symbols

/-- The counts are those of a prefix code, and there are as many symbols, all different. -/
structure Valid (spec : JpegHuffmanSpec) : Prop where
  kraft : Canonical.Kraft spec.lengthCounts
  length_eq : spec.symbols.length = spec.lengthCounts.sum
  nodup : spec.symbols.Nodup

end JpegHuffmanSpec

/-- The stores for one codeword. -/
def HuffmanEncoder.assign (e : HuffmanEncoder) (x : Canonical.Entry UInt8) : HuffmanEncoder :=
  { code := Function.update e.code x.symbol.toNat (UInt16.ofNat x.code)
    length := Function.update e.length x.symbol.toNat (UInt8.ofNat x.length) }

section Build

variable (spec : JpegHuffmanSpec) (len : ℕ) (st : BuildState)

/-- The inner loop stores the codewords of one length. -/
theorem foldl_buildSymbol {n : ℕ} (hk : st.k + n ≤ spec.symbols.length)
    (hcode : st.code.toNat + n < 2 ^ 32) :
    (List.range n).foldl (fun st _ => buildSymbol spec len st) st =
      ⟨st.code + UInt32.ofNat n, st.k + n,
        ((((spec.symbols.drop st.k).take n).zipIdx.map fun s =>
          (⟨s.1, len, st.code.toNat + s.2⟩ : Canonical.Entry UInt8)).foldl
            HuffmanEncoder.assign st.e)⟩ := by
  induction n with
  | zero => simp
  | succ n ih =>
    have hlast : n < (spec.symbols.drop st.k).length := by
      rw [List.length_drop]
      omega
    have htake : ((spec.symbols.drop st.k).take n).length = n := List.length_take_of_le hlast.le
    have hsymbol : spec.symbols.getD (st.k + n) 0 = (spec.symbols.drop st.k)[n] := by
      rw [List.getD_eq_getElem _ _ (by omega), List.getElem_drop]
    have hstep : (st.code + UInt32.ofNat n).toNat = st.code.toNat + n := by
      rw [UInt32.toNat_add, UInt32.toNat_ofNat', Nat.add_mod_mod, Nat.mod_eq_of_lt (by omega)]
    rw [List.range_succ, List.foldl_append, ih (by omega) (by omega), List.foldl_cons,
      List.foldl_nil, buildSymbol, List.take_add_one, List.getElem?_eq_getElem hlast,
      Option.toList_some, List.zipIdx_append, htake, List.map_append, List.foldl_append, hsymbol]
    refine congrArg₂ (fun code e => BuildState.mk code (st.k + (n + 1)) e) ?_ ?_
    · rw [UInt32.add_assoc, UInt32.ofNat_add]
      rfl
    · have hcast : (st.code + UInt32.ofNat n).toUInt16 = UInt16.ofNat (st.code.toNat + n) := by
        rw [← hstep]
        rfl
      rw [hcast]
      simp only [List.zipIdx_singleton, List.map_cons, List.map_nil, List.foldl_cons,
        List.foldl_nil, HuffmanEncoder.assign, Nat.zero_add]

/-- The outer loop stores the codewords of all lengths. The next code is the weight of the codes in
front, at the length that has been reached. -/
theorem foldl_buildLength (counts : List UInt8) (hk : st.k + (counts.map UInt8.toNat).sum ≤
      spec.symbols.length)
    (hkraft : st.code.toNat * 2 ^ counts.length +
      2 * Canonical.weight (counts.map UInt8.toNat) ≤ 2 ^ 17) :
    (counts.zipIdx len).foldl (fun st c => buildLength spec st c.1 c.2) st =
      ⟨UInt32.ofNat (st.code.toNat * 2 ^ counts.length +
          2 * Canonical.weight (counts.map UInt8.toNat)),
        st.k + (counts.map UInt8.toNat).sum,
        (Canonical.entries len st.code.toNat (counts.map UInt8.toNat)
          (spec.symbols.drop st.k)).foldl HuffmanEncoder.assign st.e⟩ := by
  induction counts generalizing len st with
  | nil =>
    have hcode : UInt32.ofNat (st.code.toNat * 2 ^ 0 + 2 * 0) = st.code := by
      rw [Nat.pow_zero, Nat.mul_one, Nat.mul_zero, Nat.add_zero, UInt32.ofNat_toNat]
    exact (congrArg (fun code => BuildState.mk code st.k st.e) hcode).symm
  | cons count counts ih =>
    rw [List.map_cons, List.sum_cons] at hk
    rw [List.map_cons, Canonical.weight, List.length_map, List.length_cons] at hkraft
    have hsplit : st.code.toNat * 2 ^ (counts.length + 1) +
        2 * (count.toNat * 2 ^ counts.length + Canonical.weight (counts.map UInt8.toNat)) =
        2 * (st.code.toNat + count.toNat) * 2 ^ counts.length +
          2 * Canonical.weight (counts.map UInt8.toNat) := by ring
    rw [List.map_cons, List.sum_cons, Canonical.weight, List.length_map, List.length_cons, hsplit]
    rw [hsplit] at hkraft
    have hfits : 2 * (st.code.toNat + count.toNat) ≤ 2 ^ 17 :=
      (Nat.le_mul_of_pos_right _ (Nat.two_pow_pos _)).trans ((Nat.le_add_right _ _).trans hkraft)
    have hshift : ((st.code + UInt32.ofNat count.toNat) <<< 1).toNat =
        2 * (st.code.toNat + count.toNat) := by
      rw [UInt32.toNat_shiftLeft, UInt32.toNat_add, UInt32.toNat_ofNat', Nat.add_mod_mod,
        Nat.mod_eq_of_lt (show st.code.toNat + count.toNat < 2 ^ 32 by omega),
        Nat.shiftLeft_eq]
      change (st.code.toNat + count.toNat) * 2 ^ 1 % 2 ^ 32 = _
      omega
    have hinner := foldl_buildSymbol spec len st (show st.k + count.toNat ≤ _ by omega) (by omega)
    rw [List.zipIdx_cons, List.foldl_cons, buildLength, hinner, ih _ _ (by dsimp only; omega)
      (by dsimp only; rw [hshift]; exact hkraft), hshift, Canonical.entries, List.foldl_append,
      List.drop_drop, Nat.add_assoc]

end Build

theorem build_eq {spec : JpegHuffmanSpec} (h : spec.Valid) :
    build spec = spec.codewords.foldl HuffmanEncoder.assign .zero := by
  have hcounts : spec.counts.toList.length = 16 := spec.counts.length_toList
  have hkraft := h.kraft
  rw [Canonical.Kraft, JpegHuffmanSpec.lengthCounts, List.length_map, hcounts] at hkraft
  have hbuild := foldl_buildLength spec 1 ⟨0, 0, .zero⟩ spec.counts.toList
    (by rw [h.length_eq, Nat.zero_add]; rfl)
    (by rw [UInt32.toNat_zero, Nat.zero_mul]; omega)
  rw [UInt32.toNat_zero, List.drop_zero] at hbuild
  exact congrArg BuildState.e hbuild

theorem foldl_assign (l : List (Canonical.Entry UInt8)) (e : HuffmanEncoder) :
    l.foldl HuffmanEncoder.assign e =
      ⟨l.foldl (fun m x => Function.update m x.symbol.toNat (UInt16.ofNat x.code)) e.code,
        l.foldl (fun m x => Function.update m x.symbol.toNat (UInt8.ofNat x.length)) e.length⟩ := by
  induction l generalizing e with
  | nil => rfl
  | cons x l ih => rw [List.foldl_cons, ih, HuffmanEncoder.assign, List.foldl_cons, List.foldl_cons]

section Codewords

variable {spec : JpegHuffmanSpec} {x : Canonical.Entry UInt8}

theorem length_le_of_mem (hx : x ∈ spec.codewords) : x.length ≤ 16 := by
  have h := Canonical.length_lt_of_mem hx
  rw [JpegHuffmanSpec.lengthCounts, List.length_map, Vector.length_toList] at h
  omega

/-- The symbols of the codewords are those of the table. -/
theorem JpegHuffmanSpec.Valid.map_symbol (h : spec.Valid) :
    spec.codewords.map Canonical.Entry.symbol = spec.symbols :=
  Canonical.map_symbol_entries h.length_eq.le

/-- **A listed symbol gets its canonical codeword.** -/
theorem build_of_mem (h : spec.Valid) (hx : x ∈ spec.codewords) :
    ((build spec).code x.symbol.toNat).toNat = x.code ∧
      ((build spec).length x.symbol.toNat).toNat = x.length := by
  have hnodup : (spec.codewords.map fun x => x.symbol.toNat).Nodup := by
    have hmap := h.nodup.map (f := UInt8.toNat) fun a b hab => UInt8.toNat_inj.mp hab
    rwa [← h.map_symbol, List.map_map] at hmap
  have hlength := length_le_of_mem hx
  have hcode := (Canonical.code_lt h.kraft hx).trans_le (Nat.pow_le_pow_right two_pos hlength)
  rw [build_eq h, foldl_assign]
  dsimp only
  rw [Memory.foldl_update_of_mem _ (fun x : Canonical.Entry UInt8 => x.symbol.toNat) _ _ hnodup hx,
    Memory.foldl_update_of_mem _ (fun x : Canonical.Entry UInt8 => x.symbol.toNat) _ _ hnodup hx]
  exact ⟨Nat.mod_eq_of_lt hcode, Nat.mod_eq_of_lt (by omega)⟩

/-- A listed symbol has a codeword. -/
theorem exists_codeword (h : spec.Valid) {s : ℕ} (hs : s ∈ spec.symbols.map UInt8.toNat) :
    ∃ x ∈ spec.codewords, x.symbol.toNat = s := by
  rw [← h.map_symbol, List.map_map] at hs
  exact List.mem_map.mp hs

end Codewords

/-! ### The four tables -/

/-- The symbols that a scan can need: the categories of the differences, and the runs with the
categories of the values, the two special symbols among them. -/
def dcSymbols : List ℕ := List.range 12

def acSymbols : List ℕ :=
  0x00 :: 0xF0 :: (List.range 16).flatMap fun run => (List.range 10).map fun bits =>
    run * 16 + (bits + 1)

theorem jpegDcLuminance_valid : jpegDcLuminance.Valid := ⟨by decide, by decide, by decide⟩

theorem jpegDcChrominance_valid : jpegDcChrominance.Valid := ⟨by decide, by decide, by decide⟩

theorem jpegAcLuminance_valid : jpegAcLuminance.Valid :=
  ⟨by decide, by decide +kernel, List.Nodup.of_map UInt8.toNat (by decide +kernel)⟩

theorem jpegAcChrominance_valid : jpegAcChrominance.Valid :=
  ⟨by decide, by decide +kernel, List.Nodup.of_map UInt8.toNat (by decide +kernel)⟩

theorem dcSymbols_listed : ∀ s ∈ dcSymbols, s ∈ jpegDcSymbols.map UInt8.toNat := by decide

theorem acSymbols_listed : ∀ s ∈ acSymbols, s ∈ jpegAcLuminanceSymbols.map UInt8.toNat ∧
    s ∈ jpegAcChrominanceSymbols.map UInt8.toNat := by
  decide +kernel

end HumanizedHash
