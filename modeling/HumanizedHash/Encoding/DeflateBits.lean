import HumanizedHash.Encoding.Deflate
import HumanizedHash.Formats.Inflate

/-!
# The bits of the compressor

What the writer of `src/png.cpp` was given it holds, in the order of the stream, and what a token
puts is read back as the token.

## Main definitions

* `BitWriter.Holds`: the bits that a writer holds.
* `tokenBits`: the bits of a token.

## Main results

* `BitWriter.Holds.put`, `BitWriter.Holds.putCode`, `BitWriter.Holds.flush`: what was put is held.
* `fixedCode_mem`: the codes of `put_symbol` are the fixed codes of the format.
* `readToken_tokenBits`: a token is read back.

## References

* `src/src/png.cpp`, `src/docs/SPEC.md` (section 11).
-/

namespace HumanizedHash

open Bits

namespace BitWriter

/-- The bits that were put behind `head`: full bytes in the output, the rest in the
accumulator, which holds nothing else. -/
def Holds (w : BitWriter) (head : List UInt8) (bits : List Bool) : Prop :=
  ∃ bytes, w.out = head ++ bytes ∧ bits = lsbOf bytes ++ lsb w.used w.acc.toNat ∧
    w.acc.toNat < 2 ^ w.used

theorem holds_new (head : List UInt8) : (new head).Holds head [] :=
  ⟨[], (List.append_nil head).symm, rfl, Nat.one_pos⟩

section Holds

variable {w : BitWriter} {head : List UInt8} {bits : List Bool}

/-- The lowest byte of the accumulator. -/
theorem toNat_lowByte (acc : UInt32) : (acc &&& 0xFF).toUInt8.toNat = acc.toNat % 2 ^ 8 := by
  rw [UInt32.toNat_toUInt8, UInt32.toNat_and]
  exact (congrArg (· % 2 ^ 8) (Nat.and_two_pow_sub_one_eq_mod acc.toNat 8)).trans
    (Nat.mod_mod _ _)

theorem lsb_mod (n v : ℕ) : lsb n (v % 2 ^ n) = lsb n v :=
  lsb_congr fun i hi => by rw [Nat.testBit_mod_two_pow, decide_eq_true hi, Bool.true_and]

theorem used_drain (w : BitWriter) : w.drain.used = w.used % 8 := by
  induction hn : w.used using Nat.strong_induction_on generalizing w with
  | _ n ih =>
    subst hn
    rw [BitWriter.drain]
    by_cases hfull : 8 ≤ w.used
    · rw [if_pos hfull]
      exact (ih (w.used - 8) (by omega) _ rfl).trans (by omega)
    · rw [if_neg hfull, Nat.mod_eq_of_lt (not_le.mp hfull)]

theorem used_put_lt (w : BitWriter) (b : UInt32) (count : ℕ) : (w.put b count).used < 8 :=
  (used_drain _).trans_lt (Nat.mod_lt _ (by decide))

/-- Moving full bytes to the output keeps the bits. -/
theorem Holds.drain (h : w.Holds head bits) : w.drain.Holds head bits := by
  induction hn : w.used using Nat.strong_induction_on generalizing w with
  | _ n ih =>
    subst hn
    rw [BitWriter.drain]
    by_cases hfull : 8 ≤ w.used
    · obtain ⟨bytes, hout, hbits, hacc⟩ := h
      have hshift : (w.acc >>> 8).toNat = w.acc.toNat >>> 8 := UInt32.toNat_shiftRight w.acc 8
      have hsplit := lsb_add 8 (w.used - 8) w.acc.toNat
      rw [Nat.add_sub_cancel' hfull, ← lsb_mod 8 w.acc.toNat, ← toNat_lowByte, ← hshift,
        ← lsbOf_singleton] at hsplit
      have hrest : (w.acc >>> 8).toNat < 2 ^ (w.used - 8) := by
        rw [hshift, Nat.shiftRight_eq_div_pow, Nat.div_lt_iff_lt_mul (by decide), ← pow_add,
          Nat.sub_add_cancel hfull]
        exact hacc
      rw [if_pos hfull]
      refine ih (w.used - 8) (by omega) (w := ⟨_, w.acc >>> 8, w.used - 8⟩)
        ⟨bytes ++ [(w.acc &&& 0xFF).toUInt8], ?_, ?_, hrest⟩ rfl
      · rw [hout, List.append_assoc]
      · rw [hbits, hsplit, lsbOf_append, List.append_assoc]
    · rw [if_neg hfull]
      exact h

/-- **What was put is held.** -/
theorem Holds.put (h : w.Holds head bits) {b : UInt32} {count : ℕ} (hb : b.toNat < 2 ^ count)
    (hused : w.used < 8) (hcount : count ≤ 24) :
    (w.put b count).Holds head (bits ++ lsb count b.toNat) := by
  obtain ⟨bytes, hout, hbits, hacc⟩ := h
  have hplace : (UInt32.ofNat w.used).toNat % 32 = w.used := by
    rw [UInt32.toNat_ofNat', Nat.mod_mod_of_dvd _ (by decide), Nat.mod_eq_of_lt (by omega)]
  have hshifted : b.toNat <<< w.used < 2 ^ (w.used + count) := by
    rw [Nat.shiftLeft_eq, pow_add, Nat.mul_comm]
    exact Nat.mul_lt_mul_of_pos_left hb (Nat.two_pow_pos _)
  have hword : 2 ^ (w.used + count) ≤ 2 ^ 32 := Nat.pow_le_pow_right (by decide) (by omega)
  have hor : (w.acc ||| (b <<< UInt32.ofNat w.used)).toNat =
      w.acc.toNat ||| (b.toNat <<< w.used) := by
    rw [UInt32.toNat_or, UInt32.toNat_shiftLeft, hplace, Nat.mod_eq_of_lt (by omega)]
  have hlow : w.acc.toNat < 2 ^ (w.used + count) :=
    hacc.trans_le (Nat.pow_le_pow_right (by decide) (Nat.le_add_right _ _))
  refine Holds.drain (w := { w with acc := _, used := w.used + count }) ⟨bytes, hout, ?_, ?_⟩
  · rw [hbits, List.append_assoc, hor, lsb_or hacc]
  · rw [hor]
    exact Nat.or_lt_two_pow hlow hshifted

/-- The loop of `put_code` turns the bits around. -/
theorem reversed_spec (code : UInt32) {n : ℕ} (hn : n ≤ 32) :
    (reversed code n).toNat < 2 ^ n ∧ msb n (reversed code n).toNat = lsb n code.toNat := by
  induction n with
  | zero => exact ⟨Nat.one_pos, rfl⟩
  | succ n ih =>
    obtain ⟨hlt, hbits⟩ := ih (Nat.le_of_succ_le hn)
    have hplace : (UInt32.ofNat n).toNat % 32 = n := by
      rw [UInt32.toNat_ofNat', Nat.mod_mod_of_dvd _ (by decide), Nat.mod_eq_of_lt (by omega)]
    have hbit : ((code >>> UInt32.ofNat n) &&& 1).toNat = (code.toNat.testBit n).toNat := by
      rw [UInt32.toNat_and, UInt32.toNat_shiftRight, hplace, Nat.toNat_testBit,
        Nat.shiftRight_eq_div_pow]
      exact Nat.and_one_is_mod _
    have hpow : 2 ^ (n + 1) ≤ 2 ^ 32 := Nat.pow_le_pow_right (by decide) hn
    have hshift : (reversed code n <<< 1).toNat = (reversed code n).toNat <<< 1 := by
      have hdouble : (reversed code n).toNat <<< 1 < 2 ^ 32 := by
        rw [Nat.shiftLeft_eq]
        omega
      rw [UInt32.toNat_shiftLeft]
      exact Nat.mod_eq_of_lt hdouble
    have hstep : (reversed code (n + 1)).toNat =
        2 * (reversed code n).toNat + (code.toNat.testBit n).toNat := by
      have hloop : reversed code (n + 1) =
          (reversed code n <<< 1) ||| ((code >>> UInt32.ofNat n) &&& 1) := by
        rw [reversed, List.range_succ, List.foldl_append]
        rfl
      rw [hloop, UInt32.toNat_or, hshift, hbit,
        ← Nat.shiftLeft_add_eq_or_of_lt (Bool.toNat_lt (code.toNat.testBit n)), Nat.shiftLeft_eq,
        pow_one, Nat.mul_comm]
    have hle := Bool.toNat_le (code.toNat.testBit n)
    have hhalf : (reversed code (n + 1)).toNat >>> 1 = (reversed code n).toNat := by
      rw [Nat.shiftRight_one]
      omega
    have hparity : (reversed code (n + 1)).toNat.testBit 0 = code.toNat.testBit n := by
      rw [Nat.testBit_zero, hstep, Nat.mul_add_mod]
      cases code.toNat.testBit n <;> rfl
    refine ⟨by rw [hstep, pow_succ]; omega, ?_⟩
    rw [msb_add n 1, hhalf, hbits, lsb_add n 1]
    simp only [msb, lsb, hparity, Nat.testBit_shiftRight, Nat.add_zero]

/-- **The bits of a codeword are held in the opposite order.** -/
theorem Holds.putCode (h : w.Holds head bits) (code : UInt32) {count : ℕ} (hused : w.used < 8)
    (hcount : count ≤ 24) :
    (w.putCode code count).Holds head (bits ++ msb count code.toNat) := by
  obtain ⟨hlt, hbits⟩ := reversed_spec code (show count ≤ 32 by omega)
  have hput := h.put hlt hused hcount
  rwa [lsb_eq_reverse_msb, hbits, lsb_eq_reverse_msb, List.reverse_reverse] at hput

/-- **The last byte is filled with zeros.** -/
theorem Holds.flush (h : w.Holds head bits) (hused : w.used < 8) :
    ∃ bytes pad, w.flush.out = head ++ bytes ∧ pad < 8 ∧
      lsbOf bytes = bits ++ List.replicate pad false := by
  obtain ⟨bytes, hout, hbits, hacc⟩ := h
  rw [BitWriter.flush]
  by_cases hzero : w.used = 0
  · rw [if_neg (not_not.mpr hzero)]
    refine ⟨bytes, 0, hout, by decide, ?_⟩
    rw [hbits, hzero, lsb, List.replicate_zero, List.append_nil, List.append_nil]
  · have hfill := lsb_of_lt (n := 8 - w.used) hacc
    rw [Nat.add_sub_cancel' hused.le, ← lsb_mod, ← toNat_lowByte, ← lsbOf_singleton] at hfill
    rw [if_pos hzero]
    refine ⟨bytes ++ [(w.acc &&& 0xFF).toUInt8], 8 - w.used, ?_, by omega, ?_⟩
    · rw [hout, List.append_assoc]
    · rw [lsbOf_append, hfill, hbits, List.append_assoc]

end Holds

end BitWriter

/-! ### The codes of the format -/

theorem mem_fixedSymbols {s : ℕ} (h : s < 288) : s ∈ Inflate.fixedSymbols := by
  have hlength : 1 ≤ Inflate.codeLength s ∧ Inflate.codeLength s ≤ 9 := by
    rw [Inflate.codeLength]
    split_ifs <;> decide
  refine List.mem_flatMap.mpr ⟨Inflate.codeLength s - 1, List.mem_range.mpr (by omega), ?_⟩
  exact List.mem_filter.mpr ⟨List.mem_range.mpr h, decide_eq_true (by omega)⟩

/-- The codewords, in the order of the canonical code. -/
theorem codewords_eq : (Canonical.codewords Inflate.fixedCounts Inflate.fixedSymbols).map
    (fun e => (e.symbol, e.length, e.code)) =
      Inflate.fixedSymbols.map fun s => (s, (fixedCode s).2, (fixedCode s).1) := by
  decide +kernel

/-- **The codes of `put_symbol` are the fixed codes of the format.** -/
theorem fixedCode_mem {s : ℕ} (h : s < 288) :
    Inflate.Codeword s (fixedCode s).2 (fixedCode s).1 := by
  have hmem : (s, (fixedCode s).2, (fixedCode s).1) ∈
      (Canonical.codewords Inflate.fixedCounts Inflate.fixedSymbols).map
        (fun e => (e.symbol, e.length, e.code)) := by
    rw [codewords_eq]
    exact List.mem_map.mpr ⟨s, mem_fixedSymbols h, rfl⟩
  obtain ⟨e, he, heq⟩ := List.mem_map.mp hmem
  obtain ⟨hsymbol, hpair⟩ := Prod.mk.inj heq
  obtain ⟨hlength, hcode⟩ := Prod.mk.inj hpair
  rw [Inflate.Codeword, ← hlength, ← hcode, ← hsymbol]
  exact he

theorem fixedCode_short (s : ℕ) : (fixedCode s).2 ≤ 9 ∧ 7 ≤ (fixedCode s).2 := by
  rw [fixedCode]
  split_ifs <;> dsimp only <;> omega

theorem fixedCode_lt {s : ℕ} (h : s < 288) : (fixedCode s).1 < 2 ^ 32 := by
  rw [fixedCode]
  split_ifs <;> omega

/-- The tables of `put_match` are those of the format. -/
theorem lengthTables_eq : ∀ i < 29, lengthBase.getD i 0 = Inflate.lengthBase i ∧
    lengthExtra.getD i 0 = Inflate.lengthExtra i := by decide

theorem distTables_eq : ∀ i < 30, distBase.getD i 0 = Inflate.distBase i ∧
    distExtra.getD i 0 = Inflate.distExtra i := by decide

/-- The base that is found is the last one that is not above the value. -/
theorem searchBase_spec (base : List ℕ) (v n : ℕ) : searchBase base v n ≤ n ∧
    (searchBase base v n ≠ 0 → base.getD (searchBase base v n) 0 ≤ v) ∧
    ∀ j, searchBase base v n < j → j ≤ n → v < base.getD j 0 := by
  induction n with
  | zero => exact ⟨le_rfl, fun h => absurd rfl h, fun j hj hn => absurd hn (not_le.mpr hj)⟩
  | succ n ih =>
    rw [searchBase]
    split_ifs with h
    · obtain ⟨hle, hbase, habove⟩ := ih
      refine ⟨Nat.le_succ_of_le hle, hbase, fun j hj hn => ?_⟩
      obtain hlt | rfl := Nat.lt_succ_iff_lt_or_eq.mp (Nat.lt_succ_of_le hn)
      · exact habove j hj (Nat.le_of_lt_succ hlt)
      · exact h
    · exact ⟨le_rfl, fun _ => not_lt.mp h, fun j hj hn => absurd hn (not_le.mpr hj)⟩

/-- The base and the extra bits of a value that is in the range of the table. -/
theorem searchBase_extra {base extra : List ℕ} {n v : ℕ} (hfirst : base.getD 0 0 ≤ v)
    (hnext : ∀ i < n, base.getD (i + 1) 0 ≤ base.getD i 0 + 2 ^ extra.getD i 0)
    (hlast : v < base.getD n 0 + 2 ^ extra.getD n 0) :
    let i := searchBase base v n
    i ≤ n ∧ base.getD i 0 ≤ v ∧ v - base.getD i 0 < 2 ^ extra.getD i 0 := by
  intro i
  obtain ⟨hle, hbase, habove⟩ := searchBase_spec base v n
  have hbelow : base.getD i 0 ≤ v := by
    by_cases hzero : i = 0
    · rwa [hzero]
    · exact hbase hzero
  refine ⟨hle, hbelow, ?_⟩
  rcases Nat.lt_or_ge i n with hlt | hge
  · have hv := habove (i + 1) (Nat.lt_succ_self i) hlt
    have hstep := hnext i hlt
    omega
  · obtain hn : i = n := Nat.le_antisymm hle hge
    rw [← hn] at hlast
    omega

/-! ### Tokens -/

/-- The tokens that the compressor makes. -/
def TokenFits : Inflate.Token → Prop
  | .literal _ => True
  | .copy length dist => 3 ≤ length ∧ length ≤ 258 ∧ 1 ≤ dist ∧ dist ≤ 32768

/-- What the loop of `deflate_fixed` puts for a token. -/
def putToken (w : BitWriter) : Inflate.Token → BitWriter
  | .literal b => putLiteral w b.toNat
  | .copy length dist => putMatch w length dist

/-- The bits of a literal or a length. -/
def literalBits (symbol : ℕ) : List Bool := msb (fixedCode symbol).2 (fixedCode symbol).1

/-- The bits of a token. -/
def tokenBits : Inflate.Token → List Bool
  | .literal b => literalBits b.toNat
  | .copy length dist =>
    let li := searchBase lengthBase length 28
    let di := searchBase distBase dist 29
    literalBits (257 + li) ++ (lsb (lengthExtra.getD li 0) (length - lengthBase.getD li 0) ++
      (msb 5 di ++ lsb (distExtra.getD di 0) (dist - distBase.getD di 0)))

theorem searchLength {length : ℕ} (h : 3 ≤ length ∧ length ≤ 258) :
    let li := searchBase lengthBase length 28
    li ≤ 28 ∧ lengthBase.getD li 0 ≤ length ∧
      length - lengthBase.getD li 0 < 2 ^ lengthExtra.getD li 0 :=
  searchBase_extra h.1 (by decide) (Nat.lt_succ_of_le h.2)

theorem searchDist {dist : ℕ} (h : 1 ≤ dist ∧ dist ≤ 32768) :
    let di := searchBase distBase dist 29
    di ≤ 29 ∧ distBase.getD di 0 ≤ dist ∧ dist - distBase.getD di 0 < 2 ^ distExtra.getD di 0 :=
  searchBase_extra h.1 (by decide) (Nat.lt_succ_of_le h.2)

theorem extra_le : (∀ i ≤ 28, lengthExtra.getD i 0 ≤ 5) ∧ ∀ i ≤ 29, distExtra.getD i 0 ≤ 13 := by
  decide

section Tokens

variable {w : BitWriter} {head : List UInt8} {bits : List Bool}

theorem toNat_ofNat_of_lt {v n : ℕ} (h : v < 2 ^ n) (hn : n ≤ 32) : (UInt32.ofNat v).toNat = v := by
  have hword : 2 ^ n ≤ 2 ^ 32 := Nat.pow_le_pow_right (by decide) hn
  rw [UInt32.toNat_ofNat', Nat.mod_eq_of_lt (by omega)]

theorem BitWriter.Holds.putLiteral (h : w.Holds head bits) (hused : w.used < 8) {symbol : ℕ}
    (hsymbol : symbol < 288) :
    (putLiteral w symbol).Holds head (bits ++ literalBits symbol) := by
  have hput := h.putCode (UInt32.ofNat (fixedCode symbol).1) hused
    (show (fixedCode symbol).2 ≤ 24 by have := fixedCode_short symbol; omega)
  rwa [toNat_ofNat_of_lt (fixedCode_lt hsymbol) le_rfl] at hput

/-- **A token puts its bits.** -/
theorem BitWriter.Holds.putToken (h : w.Holds head bits) (hused : w.used < 8) {t : Inflate.Token}
    (ht : TokenFits t) : (putToken w t).Holds head (bits ++ tokenBits t) ∧
      (HumanizedHash.putToken w t).used < 8 := by
  cases t with
  | literal b => exact ⟨h.putLiteral hused (b.toNat_lt.trans (by decide)), used_put_lt _ _ _⟩
  | copy length dist =>
    obtain ⟨hlow, hhigh, hdist⟩ := ht
    obtain ⟨hli, -, hextra⟩ := searchLength ⟨hlow, hhigh⟩
    obtain ⟨hdi, -, hdextra⟩ := searchDist hdist
    have hle := extra_le.1 _ hli
    have hdle := extra_le.2 _ hdi
    have hsymbol := h.putLiteral hused
      (show 257 + searchBase lengthBase length 28 < 288 by omega)
    have hlength := hsymbol.put (b := UInt32.ofNat _)
      (by rw [toNat_ofNat_of_lt hextra (by omega)]; exact hextra) (used_put_lt _ _ _)
      (show lengthExtra.getD _ 0 ≤ 24 by omega)
    have hcode := hlength.putCode (UInt32.ofNat (searchBase distBase dist 29))
      (used_put_lt _ _ _) (show 5 ≤ 24 by decide)
    have hall := hcode.put (b := UInt32.ofNat _)
      (by rw [toNat_ofNat_of_lt hdextra (by omega)]; exact hdextra) (used_put_lt _ _ _)
      (show distExtra.getD _ 0 ≤ 24 by omega)
    refine ⟨?_, used_put_lt _ _ _⟩
    rw [toNat_ofNat_of_lt hextra (by omega), toNat_ofNat_of_lt hdextra (by omega),
      toNat_ofNat_of_lt (show searchBase distBase dist 29 < 2 ^ 5 by omega) (by decide)] at hall
    simp only [List.append_assoc] at hall
    exact hall

/-- **A token is read back.** -/
theorem readToken_tokenBits {t : Inflate.Token} (ht : TokenFits t) (rest : List Bool) :
    Inflate.readToken (tokenBits t ++ rest) = some (some t, rest) := by
  cases t with
  | literal b =>
    exact Inflate.readToken_literal (fixedCode_mem (b.toNat_lt.trans (by decide))) rest
  | copy length dist =>
    obtain ⟨hlow, hhigh, hdist⟩ := ht
    obtain ⟨hli, hbase, hextra⟩ := searchLength ⟨hlow, hhigh⟩
    obtain ⟨hdi, hdbase, hdextra⟩ := searchDist hdist
    have htable := lengthTables_eq _ (Nat.lt_succ_of_le hli)
    have hdtable := distTables_eq _ (Nat.lt_succ_of_le hdi)
    have hread := Inflate.readToken_copy
      (fixedCode_mem (show 257 + searchBase lengthBase length 28 < 288 by omega))
      (Nat.lt_succ_of_le hli) (htable.2 ▸ hextra) (Nat.lt_succ_of_le hdi) (hdtable.2 ▸ hdextra) rest
    rw [← htable.1, ← htable.2, ← hdtable.1, ← hdtable.2, Nat.add_sub_cancel' hbase,
      Nat.add_sub_cancel' hdbase] at hread
    simp only [tokenBits, List.append_assoc]
    exact hread

/-- The end of the block is read. -/
theorem readToken_stop (rest : List Bool) :
    Inflate.readToken (literalBits 256 ++ rest) = some (none, rest) :=
  Inflate.readToken_end (fixedCode_mem (by decide)) rest

/-- The number of bytes that a token stands for. -/
def tokenSize : Inflate.Token → ℕ
  | .literal _ => 1
  | .copy length _ => length

/-- A token has at most eleven bits for each byte that it stands for. -/
theorem length_tokenBits {t : Inflate.Token} (ht : TokenFits t) :
    0 < (tokenBits t).length ∧ (tokenBits t).length ≤ 11 * tokenSize t := by
  have hshort (symbol : ℕ) : (literalBits symbol).length ≤ 9 ∧ 7 ≤ (literalBits symbol).length := by
    rw [literalBits, length_msb]
    exact fixedCode_short symbol
  cases t with
  | literal b =>
    have hb := hshort b.toNat
    rw [tokenBits, tokenSize]
    omega
  | copy length dist =>
    obtain ⟨hlow, hhigh, hdist⟩ := ht
    have hli := extra_le.1 _ (searchLength ⟨hlow, hhigh⟩).1
    have hdi := extra_le.2 _ (searchDist hdist).1
    have hsymbol := hshort (257 + searchBase lengthBase length 28)
    simp only [tokenBits, tokenSize, List.length_append, length_lsb, length_msb]
    omega

end Tokens

end HumanizedHash
