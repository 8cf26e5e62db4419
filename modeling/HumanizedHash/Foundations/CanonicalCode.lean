import HumanizedHash.Foundations.BitList
import Mathlib.Data.List.Infix
import Mathlib.Tactic.Ring

/-!
# Canonical prefix codes

A canonical code is given by the number of its codewords of each length and by its symbols, the
shortest codewords first. Codewords of one length are consecutive numbers, and a length starts at
twice the number behind the last codeword of the length before.

## Main definitions

* `Canonical.entries`: the codewords.
* `Canonical.weight`: the sum of the Kraft inequality, scaled to the greatest length.
* `Canonical.decode`: a decoder that knows only the counts and the symbols.

## Main results

* `Canonical.code_lt`: under the Kraft inequality a codeword fits its length.
* `Canonical.decode_append`: the decoder recovers every symbol from its codeword.
* `Canonical.eq_of_isPrefix`: no codeword is a prefix of another.
-/

namespace HumanizedHash

open Bits

/-- A symbol with its codeword. -/
structure Canonical.Entry (σ : Type*) where
  symbol : σ
  length : ℕ
  code : ℕ

namespace Canonical

variable {σ : Type*}

/-- The codewords of the lengths `len`, `len + 1`, …, of which `first` is the first number of the
length `len`. -/
def entries (len first : ℕ) : List ℕ → List σ → List (Entry σ)
  | [], _ => []
  | n :: counts, symbols =>
    ((symbols.take n).zipIdx.map fun s => ⟨s.1, len, first + s.2⟩) ++
      entries (len + 1) (2 * (first + n)) counts (symbols.drop n)

/-- The sum of the Kraft inequality in units of the last length of the list. -/
def weight : List ℕ → ℕ
  | [] => 0
  | n :: counts => n * 2 ^ counts.length + weight counts

theorem weight_append (counts counts' : List ℕ) :
    weight (counts ++ counts') = weight counts * 2 ^ counts'.length + weight counts' := by
  induction counts with
  | nil => rw [List.nil_append, weight, Nat.zero_mul, Nat.zero_add]
  | cons n counts ih =>
    rw [List.cons_append, weight, weight, ih, List.length_append, Nat.pow_add]
    ring

/-- The decoder: `code` is the number of the bits read so far, `first` the first codeword of the
next length. -/
def decode (first code : ℕ) : List ℕ → List σ → List Bool → Option (σ × List Bool)
  | n :: counts, symbols, b :: bits =>
    let code := 2 * code + b.toNat
    if code < first + n then symbols[code - first]?.map fun s => (s, bits)
    else decode (2 * (first + n)) code counts (symbols.drop n) bits
  | _, _, _ => none

section Entries

variable {len first n : ℕ} {counts : List ℕ} {symbols : List σ} {e : Entry σ}

/-- An entry has the first length, or it is an entry of the lengths behind. -/
theorem mem_entries_cons (h : e ∈ entries len first (n :: counts) symbols) :
    (∃ i < n, symbols[i]? = some e.symbol ∧ e.length = len ∧ e.code = first + i) ∨
      e ∈ entries (len + 1) (2 * (first + n)) counts (symbols.drop n) := by
  rw [entries, List.mem_append] at h
  refine h.imp_left fun hhead => ?_
  obtain ⟨⟨s, i⟩, hmem, rfl⟩ := List.mem_map.mp hhead
  have hget := List.mem_zipIdx_iff_getElem?.mp hmem
  obtain ⟨hi, -⟩ := List.getElem?_eq_some_iff.mp hget
  rw [List.length_take] at hi
  rw [List.getElem?_take_of_lt (by omega)] at hget
  exact ⟨i, by omega, hget, rfl, rfl⟩

/-- An entry lies behind the first codeword of a shorter length. -/
theorem le_of_mem_entries (h : e ∈ entries len first counts symbols) :
    len ≤ e.length ∧ first * 2 ^ (e.length - len) ≤ e.code := by
  induction counts generalizing len first symbols with
  | nil => exact absurd h List.not_mem_nil
  | cons n counts ih =>
    rcases mem_entries_cons h with ⟨i, -, -, hlength, hcode⟩ | htail
    · rw [hlength, hcode, Nat.sub_self, Nat.pow_zero, Nat.mul_one]
      exact ⟨le_rfl, Nat.le_add_right first i⟩
    · obtain ⟨hlen, hcode⟩ := ih htail
      refine ⟨by omega, le_trans ?_ hcode⟩
      rw [show e.length - len = (e.length - (len + 1)) + 1 by omega, Nat.pow_succ]
      calc first * (2 ^ (e.length - (len + 1)) * 2)
          = 2 * first * 2 ^ (e.length - (len + 1)) := by ring
        _ ≤ 2 * (first + n) * 2 ^ (e.length - (len + 1)) := by gcongr; omega

/-- There are no entries behind the last length. -/
theorem length_lt_of_mem_entries (h : e ∈ entries len first counts symbols) :
    e.length < len + counts.length := by
  induction counts generalizing len first symbols with
  | nil => exact absurd h List.not_mem_nil
  | cons n counts ih =>
    rw [List.length_cons]
    rcases mem_entries_cons h with ⟨-, -, -, hlength, -⟩ | htail
    · omega
    · have := ih htail
      omega

/-- The symbols of the entries are the symbols of the code. -/
theorem map_symbol_entries (hlength : symbols.length ≤ counts.sum) :
    (entries len first counts symbols).map Entry.symbol = symbols := by
  induction counts generalizing len first symbols with
  | nil => exact (List.eq_nil_of_length_eq_zero (Nat.le_zero.mp hlength)).symm
  | cons n counts ih =>
    have hdrop : (symbols.drop n).length ≤ counts.sum := by
      rw [List.length_drop]
      rw [List.sum_cons] at hlength
      omega
    rw [entries, List.map_append, ih hdrop, List.map_map]
    have htake : (symbols.take n).zipIdx.map
        (Entry.symbol ∘ fun s => (⟨s.1, len, first + s.2⟩ : Entry σ)) = symbols.take n :=
      List.zipIdx_map_fst 0 _
    rw [htake, List.take_append_drop]

/-- **The decoder recovers the symbol**, from its codeword behind the bits already read. -/
theorem decode_of_mem (h : e ∈ entries len first counts symbols) (rest : List Bool) :
    decode first (e.code >>> (e.length + 1 - len)) counts symbols
      (msb (e.length + 1 - len) e.code ++ rest) = some (e.symbol, rest) := by
  induction counts generalizing len first symbols with
  | nil => exact absurd h List.not_mem_nil
  | cons n counts ih =>
    have hread (m : ℕ) : 2 * (e.code >>> (m + 1)) + (e.code.testBit m).toNat = e.code >>> m := by
      rw [Nat.toNat_testBit, Nat.shiftRight_succ, Nat.shiftRight_eq_div_pow]
      omega
    rcases mem_entries_cons h with ⟨i, hi, hsymbol, hlength, hcode⟩ | htail
    · have hone : e.length + 1 - len = 0 + 1 := by omega
      rw [hone, msb, List.cons_append, decode]
      simp only [hread]
      rw [Nat.shiftRight_zero, hcode, if_pos (by omega), Nat.add_sub_cancel_left, hsymbol]
      rfl
    · obtain ⟨hlen, hle⟩ := le_of_mem_entries htail
      obtain ⟨m, hm⟩ : ∃ m, e.length - len = m + 1 := ⟨e.length - (len + 1), by omega⟩
      have hbits : e.length + 1 - len = m + 1 + 1 := by omega
      have hnext : e.length + 1 - (len + 1) = m + 1 := by omega
      have hpast : first + n ≤ e.code >>> (m + 1) := by
        rw [Nat.shiftRight_eq_div_pow, Nat.le_div_iff_mul_le (Nat.two_pow_pos _)]
        rw [show e.length - (len + 1) = m by omega] at hle
        calc (first + n) * 2 ^ (m + 1) = 2 * (first + n) * 2 ^ m := by ring
          _ ≤ e.code := hle
      have htail := ih htail
      rw [hnext] at htail
      rw [hbits, msb, List.cons_append, decode]
      simp only [hread]
      rw [if_neg (not_lt.mpr hpast)]
      exact htail

/-- Under the Kraft inequality a codeword fits its length. -/
theorem code_lt_of_mem (h : e ∈ entries len first counts symbols)
    (hkraft : first * 2 ^ counts.length + 2 * weight counts ≤ 2 ^ (len + counts.length)) :
    e.code < 2 ^ e.length := by
  induction counts generalizing len first symbols with
  | nil => exact absurd h List.not_mem_nil
  | cons n counts ih =>
    rw [weight, List.length_cons] at hkraft
    have hsplit : first * 2 ^ (counts.length + 1) + 2 * (n * 2 ^ counts.length + weight counts) =
        2 * (first + n) * 2 ^ counts.length + 2 * weight counts := by ring
    rw [hsplit] at hkraft
    rcases mem_entries_cons h with ⟨i, hi, -, hlength, hcode⟩ | htail
    · have hscaled : (first + n) * 2 ^ (counts.length + 1) ≤ 2 ^ len * 2 ^ (counts.length + 1) := by
        calc (first + n) * 2 ^ (counts.length + 1) = 2 * (first + n) * 2 ^ counts.length := by ring
          _ ≤ 2 ^ (len + (counts.length + 1)) := le_trans (Nat.le_add_right _ _) hkraft
          _ = 2 ^ len * 2 ^ (counts.length + 1) := Nat.pow_add 2 len _
      have hfit := Nat.le_of_mul_le_mul_right hscaled (Nat.two_pow_pos _)
      rw [hlength, hcode]
      omega
    · refine ih htail (hkraft.trans_eq ?_)
      rw [show len + (counts.length + 1) = len + 1 + counts.length by omega]

end Entries

section Code

variable {counts : List ℕ} {symbols : List σ} {e e' : Entry σ}

/-- The codewords of a code whose shortest length is one. -/
abbrev codewords (counts : List ℕ) (symbols : List σ) : List (Entry σ) := entries 1 0 counts symbols

/-- The Kraft inequality. -/
def Kraft (counts : List ℕ) : Prop := weight counts ≤ 2 ^ counts.length

instance (counts : List ℕ) : Decidable (Kraft counts) := Nat.decLe _ _

/-- **The codes of one length fit it.** Twice the weight of the shorter lengths is the first
code. -/
theorem first_add_le (hkraft : Kraft counts) {l : ℕ} (hl : l < counts.length) :
    2 * weight (counts.take l) + counts[l] ≤ 2 ^ (l + 1) := by
  obtain ⟨m, hm⟩ : ∃ m, counts.length = l + 1 + m := ⟨counts.length - (l + 1), by omega⟩
  have hrest : (counts.drop (l + 1)).length = m := by
    rw [List.length_drop]
    omega
  have hsplit := weight_append (counts.take l) (counts.drop l)
  rw [List.take_append_drop, List.drop_eq_getElem_cons hl, weight, List.length_cons,
    hrest] at hsplit
  have hscaled : (2 * weight (counts.take l) + counts[l]) * 2 ^ m ≤ 2 ^ (l + 1) * 2 ^ m := by
    calc (2 * weight (counts.take l) + counts[l]) * 2 ^ m
        = weight (counts.take l) * 2 ^ (m + 1) + counts[l] * 2 ^ m := by ring
      _ ≤ weight counts := by omega
      _ ≤ 2 ^ (l + 1 + m) := hm ▸ hkraft
      _ = 2 ^ (l + 1) * 2 ^ m := Nat.pow_add 2 (l + 1) m
  exact Nat.le_of_mul_le_mul_right hscaled (Nat.two_pow_pos m)

theorem code_lt (hkraft : Kraft counts) (h : e ∈ codewords counts symbols) :
    e.code < 2 ^ e.length := by
  refine code_lt_of_mem h ?_
  rw [Nat.zero_mul, Nat.zero_add, Nat.pow_add, Nat.pow_one]
  exact Nat.mul_le_mul_left 2 hkraft

theorem one_le_length (h : e ∈ codewords counts symbols) : 1 ≤ e.length := (le_of_mem_entries h).1

theorem length_lt_of_mem (h : e ∈ codewords counts symbols) : e.length < 1 + counts.length :=
  length_lt_of_mem_entries h

theorem decode_append (hkraft : Kraft counts) (h : e ∈ codewords counts symbols)
    (rest : List Bool) :
    decode 0 0 counts symbols (msb e.length e.code ++ rest) = some (e.symbol, rest) := by
  have hdecode := decode_of_mem h rest
  have hstart : e.code >>> e.length = 0 := by
    rw [Nat.shiftRight_eq_div_pow, Nat.div_eq_of_lt (code_lt hkraft h)]
  rwa [Nat.add_sub_cancel, hstart] at hdecode

/-- **No codeword is a prefix of another.** -/
theorem eq_of_isPrefix (hkraft : Kraft counts) (h : e ∈ codewords counts symbols)
    (h' : e' ∈ codewords counts symbols) (hpre : msb e.length e.code <+: msb e'.length e'.code) :
    e = e' := by
  obtain ⟨rest, hrest⟩ := hpre
  have hfirst := decode_append hkraft h rest
  have hsecond := decode_append hkraft h' []
  rw [List.append_nil, ← hrest, hfirst] at hsecond
  obtain ⟨hsymbol, rfl⟩ := Prod.mk.inj (Option.some.inj hsecond)
  rw [List.append_nil] at hrest
  have hlength := congrArg List.length hrest
  have hcode := congrArg ofMsb hrest
  rw [length_msb, length_msb] at hlength
  rw [ofMsb_msb, ofMsb_msb, Nat.mod_eq_of_lt (code_lt hkraft h),
    Nat.mod_eq_of_lt (code_lt hkraft h')] at hcode
  obtain ⟨s, l, c⟩ := e
  obtain ⟨s', l', c'⟩ := e'
  obtain rfl : s = s' := hsymbol
  obtain rfl : l = l' := hlength
  obtain rfl : c = c' := hcode
  rfl

end Code

end Canonical

end HumanizedHash
