import HumanizedHash.Foundations.CanonicalCode
import Mathlib.Data.List.Range

/-!
# Huffman tables from counts and symbols

A table of a JPEG file gives the number of codes of each length and the symbols, the shortest codes
first. A decoder makes the list of the sizes from the counts and the list of the codes from the
sizes: the next code is the successor of the last one, shifted once for every length between them.
It then takes the symbol whose code stands at the front of the bits.

## Main definitions

* `HuffmanTable.sizes`, `HuffmanTable.codes`: the sizes and the codes in the order of the symbols.
* `HuffmanTable.entries`, `HuffmanTable.decode`: the table, and how it is read.

## Main results

* `HuffmanTable.entries_eq_codewords`: the table is the canonical code.
* `HuffmanTable.decode_append`: the decoder recovers every symbol from its code.
-/

namespace HumanizedHash

open Bits

namespace HuffmanTable

variable {σ : Type*}

/-- The sizes for counts of the lengths `len`, `len + 1`, …. -/
def sizesFrom (len : ℕ) : List ℕ → List ℕ
  | [] => []
  | n :: counts => List.replicate n len ++ sizesFrom (len + 1) counts

/-- The sizes of the codes. -/
def sizes (counts : List ℕ) : List ℕ := sizesFrom 1 counts

/-- The codes for sizes behind one of size `si`, whose successor is `code`. -/
def codesFrom (si code : ℕ) : List ℕ → List ℕ
  | [] => []
  | size :: sizes =>
    let code := code <<< (size - si)
    code :: codesFrom size (code + 1) sizes

/-- The codes. The first one is zero. -/
def codes (sizes : List ℕ) : List ℕ := codesFrom (sizes.headD 0) 0 sizes

/-- The table. -/
def entries (counts : List ℕ) (symbols : List σ) : List (Canonical.Entry σ) :=
  (symbols.zip ((sizes counts).zip (codes (sizes counts)))).map fun e => ⟨e.1, e.2.1, e.2.2⟩

/-- The symbol whose code stands at the front of the bits. -/
def decode (table : List (Canonical.Entry σ)) (bits : List Bool) : Option (σ × List Bool) :=
  (table.find? fun e => (msb e.length e.code).isPrefixOf bits).map fun e =>
    (e.symbol, bits.drop e.length)

/-- The codes of one length are consecutive. -/
theorem codesFrom_replicate (len code n : ℕ) (rest : List ℕ) :
    codesFrom len code (List.replicate n len ++ rest) =
      List.range' code n ++ codesFrom len (code + n) rest := by
  induction n generalizing code with
  | zero => rfl
  | succ n ih =>
    rw [List.replicate_succ, List.cons_append, codesFrom, Nat.sub_self, Nat.shiftLeft_zero, ih,
      List.range'_succ, List.cons_append, Nat.add_assoc, Nat.add_comm 1 n]

/-- The codes may be shifted to the next length first. -/
theorem codesFrom_shift {si len : ℕ} (h : si ≤ len) (code : ℕ) {sizes : List ℕ}
    (hsizes : ∀ size ∈ sizes, len ≤ size) :
    codesFrom si code sizes = codesFrom len (code <<< (len - si)) sizes := by
  cases sizes with
  | nil => rfl
  | cons size sizes =>
    have hsize : len ≤ size := hsizes size List.mem_cons_self
    have hshift : size - si = len - si + (size - len) := by omega
    rw [codesFrom, codesFrom, hshift, Nat.shiftLeft_add]

theorem le_of_mem_sizesFrom {len size : ℕ} {counts : List ℕ} (h : size ∈ sizesFrom len counts) :
    len ≤ size := by
  induction counts generalizing len with
  | nil => exact absurd h List.not_mem_nil
  | cons n counts ih =>
    rcases List.mem_append.mp h with hhead | htail
    · exact (List.eq_of_mem_replicate hhead).ge
    · exact (Nat.le_succ len).trans (ih htail)

/-- The codes of the lengths behind one. -/
theorem codesFrom_sizesFrom_succ (len code : ℕ) (counts : List ℕ) :
    codesFrom len code (sizesFrom (len + 1) counts) =
      codesFrom (len + 1) (2 * code) (sizesFrom (len + 1) counts) := by
  rw [codesFrom_shift (Nat.le_add_right len 1) code fun size hsize => le_of_mem_sizesFrom hsize,
    Nat.add_sub_cancel_left, Nat.shiftLeft_eq, Nat.pow_one, Nat.mul_comm]

/-- The sizes, the codes and the symbols are those of the entries. -/
theorem zip_eq_entries (len first : ℕ) (counts : List ℕ) (symbols : List σ)
    (h : symbols.length = counts.sum) :
    (symbols.zip ((sizesFrom len counts).zip (codesFrom len first (sizesFrom len counts)))).map
        (fun e => (⟨e.1, e.2.1, e.2.2⟩ : Canonical.Entry σ)) =
      Canonical.entries len first counts symbols := by
  induction counts generalizing len first symbols with
  | nil => rw [List.eq_nil_of_length_eq_zero h]; rfl
  | cons n counts ih =>
    rw [List.sum_cons] at h
    have htake : (symbols.take n).length = n := List.length_take_of_le (by omega)
    have hdrop : (symbols.drop n).length = counts.sum := by
      rw [List.length_drop]
      omega
    have hblock : ((symbols.take n).zip ((List.replicate n len).zip (List.range' first n))).map
        (fun e => (⟨e.1, e.2.1, e.2.2⟩ : Canonical.Entry σ)) =
        (symbols.take n).zipIdx.map fun s => ⟨s.1, len, first + s.2⟩ := by
      refine List.ext_getElem (by simp [htake]) fun i hi hi' => ?_
      simp
    have hzip (ks cs : List ℕ) :
        symbols.zip ((List.replicate n len ++ ks).zip (List.range' first n ++ cs)) =
          (symbols.take n).zip ((List.replicate n len).zip (List.range' first n)) ++
            (symbols.drop n).zip (ks.zip cs) := by
      rw [← List.zip_append (by simp [htake]), List.take_append_drop, ← List.zip_append (by simp)]
    rw [Canonical.entries, sizesFrom, codesFrom_replicate, codesFrom_sizesFrom_succ, hzip,
      List.map_append, hblock, ih _ _ _ hdrop]

/-- **The table is the canonical code.** -/
theorem entries_eq_codewords {counts : List ℕ} {symbols : List σ}
    (h : symbols.length = counts.sum) :
    entries counts symbols = Canonical.codewords counts symbols := by
  have hstart : codes (sizes counts) = codesFrom 1 0 (sizes counts) := by
    rw [codes]
    cases hsizes : sizes counts with
    | nil => rfl
    | cons size rest =>
      rw [List.headD_cons, codesFrom, codesFrom, Nat.zero_shiftLeft, Nat.zero_shiftLeft]
  rw [entries, hstart]
  exact zip_eq_entries 1 0 counts symbols h

/-- **The decoder recovers the symbol**, because no other code stands at the front. -/
theorem decode_append {counts : List ℕ} {symbols : List σ} (h : symbols.length = counts.sum)
    (hkraft : Canonical.Kraft counts) {e : Canonical.Entry σ}
    (he : e ∈ Canonical.codewords counts symbols) (rest : List Bool) :
    decode (entries counts symbols) (msb e.length e.code ++ rest) = some (e.symbol, rest) := by
  have hfront : (msb e.length e.code).isPrefixOf (msb e.length e.code ++ rest) = true :=
    List.isPrefixOf_iff_prefix.mpr (List.prefix_append _ _)
  rw [decode, entries_eq_codewords h]
  cases hfind : (Canonical.codewords counts symbols).find? fun e' =>
      (msb e'.length e'.code).isPrefixOf (msb e.length e.code ++ rest) with
  | none => exact absurd hfront (List.find?_eq_none.mp hfind e he)
  | some e' =>
    have he' := List.mem_of_find?_eq_some hfind
    have hmatch := (List.find?_eq_some_iff_append.mp hfind).1
    have hprefix := List.isPrefixOf_iff_prefix.mp hmatch
    obtain rfl : e' = e := by
      rcases List.prefix_or_prefix_of_prefix hprefix (List.prefix_append _ rest) with hle | hle
      · exact Canonical.eq_of_isPrefix hkraft he' he hle
      · exact (Canonical.eq_of_isPrefix hkraft he he' hle).symm
    rw [Option.map_some, List.drop_left' (length_msb _ _)]

end HuffmanTable

end HumanizedHash
