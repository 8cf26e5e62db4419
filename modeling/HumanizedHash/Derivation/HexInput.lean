import HumanizedHash.Derivation.Derive

/-!
# Hexadecimal input is decoded input

`make_base_digest_from_hex` never holds the decoded bytes: it validates the string, checks the
length of what it denotes and decodes it in chunks of 256 bytes straight into an incremental
hash, behind a header it builds itself. It is compared with decoding first, by the strict decoder
of `tools/names.hpp`, and hashing then.

## Main definitions

* `HexTools.nibble`, `HexTools.fromHex`: the strict decoder.
* `lowerCase`: the case of a letter forgotten.

## Main results

* `HexTools.fromHex_eq`: what the strict decoder accepts, and the bytes it gives.
* `removeHexPrefix_eq_iff`: the prefix that is taken off.
* `finish_absorbHex`: the chunks absorb what the decoder gives.
* `makeBaseDigestFromHex_eq_decoded`: the two paths agree.

## References

* `src/src/derive.cpp`, `src/tools/names.hpp`.
-/

namespace HumanizedHash

/-! ### The strict decoder of the tools -/

namespace HexTools

/-- `nibble`. -/
def nibble (c : UInt8) : Int :=
  if 0x30 ≤ c ∧ c ≤ 0x39 then c.toNat - 0x30
  else if 0x61 ≤ c ∧ c ≤ 0x66 then c.toNat - 0x61 + 10
  else if 0x41 ≤ c ∧ c ≤ 0x46 then c.toNat - 0x41 + 10
  else -1

/-- The loop of `from_hex` over the pairs of digits; `out` is what was decoded so far. -/
def decodePairs : List UInt8 → List UInt8 → Bool × List UInt8
  | c :: d :: hex, out =>
    let hi := nibble c
    let lo := nibble d
    if hi < 0 ∨ lo < 0 then
      (false, out)
    else
      decodePairs hex (out ++ [UInt8.ofInt (hi * 16 + lo)])
  | _, out => (true, out)

/-- `from_hex`: whether the string is accepted, and what was decoded. -/
def fromHex (hex : List UInt8) : Bool × List UInt8 :=
  if hex.length % 2 ≠ 0 then (false, []) else decodePairs hex []

/-- The two decoders read a digit alike. -/
theorem nibble_eq (c : UInt8) : nibble c = hexValue c := rfl

/-- The digits behind the first pair. -/
theorem hexByte_cons_cons (c d : UInt8) (hex : List UInt8) (pos : ℕ) :
    hexByte (c :: d :: hex) (pos + 1) = hexByte hex pos := by
  simp only [hexByte, Nat.mul_add, Nat.mul_one, List.getD_cons_succ]

/-- A string of digits is decoded pair by pair. -/
theorem decodePairs_of_valid (hex out : List UInt8) (hvalid : ∀ c ∈ hex, ¬ hexValue c < 0) :
    decodePairs hex out = (true, out ++ (List.range (hex.length / 2)).map (hexByte hex)) := by
  fun_induction decodePairs hex out with
  | case1 c d hex out hi lo hneg =>
    have hc := hvalid c List.mem_cons_self
    have hd := hvalid d (List.mem_cons_of_mem c List.mem_cons_self)
    exact absurd hneg (not_or.mpr ⟨hc, hd⟩)
  | case2 c d hex out hi lo hpos ih =>
    have htail : ∀ x ∈ hex, ¬ hexValue x < 0 := fun x hx =>
      hvalid x (List.mem_cons_of_mem c (List.mem_cons_of_mem d hx))
    have hlen : (c :: d :: hex).length / 2 = hex.length / 2 + 1 := by
      simp only [List.length_cons]
      omega
    have hmap : (List.range (hex.length / 2)).map (hexByte (c :: d :: hex) ∘ Nat.succ) =
        (List.range (hex.length / 2)).map (hexByte hex) :=
      List.map_congr_left fun i _ => hexByte_cons_cons c d hex i
    rw [ih htail, hlen, List.range_succ_eq_map, List.map_cons, List.map_map, hmap,
      List.append_assoc]
    rfl
  | case3 hex out hshort =>
    have hlen : hex.length / 2 = 0 := by
      match hex, hshort with
      | [], _ => rfl
      | [_], _ => exact Nat.div_eq_of_lt Nat.one_lt_two
      | c :: d :: hex, hshort => exact (hshort c d hex rfl).elim
    rw [hlen, List.range_zero, List.map_nil, List.append_nil]

/-- A string of even length with another character in it is rejected. -/
theorem decodePairs_of_invalid (hex out : List UInt8) (heven : hex.length % 2 = 0)
    (hbad : ∃ c ∈ hex, hexValue c < 0) : (decodePairs hex out).1 = false := by
  fun_induction decodePairs hex out with
  | case1 c d hex out hi lo hneg => rfl
  | case2 c d hex out hi lo hpos ih =>
    refine ih (by simp only [List.length_cons] at heven; omega) ?_
    obtain ⟨x, hx, hneg⟩ := hbad
    obtain ⟨hhi, hlo⟩ := not_or.mp hpos
    rcases List.mem_cons.mp hx with rfl | hx
    · exact absurd hneg hhi
    rcases List.mem_cons.mp hx with rfl | hx
    · exact absurd hneg hlo
    · exact ⟨x, hx, hneg⟩
  | case3 hex out hshort =>
    obtain ⟨x, hx, -⟩ := hbad
    match hex, hshort, heven with
    | [], _, _ => exact absurd hx List.not_mem_nil
    | c :: d :: hex, hshort, _ => exact (hshort c d hex rfl).elim

/-- **The strict decoder.** It accepts the strings of digits of even length and gives the bytes
that the pairs denote. -/
theorem fromHex_of_valid (hex : List UInt8) (heven : hex.length % 2 = 0)
    (hvalid : ∀ c ∈ hex, ¬ hexValue c < 0) :
    fromHex hex = (true, (List.range (hex.length / 2)).map (hexByte hex)) := by
  rw [fromHex, if_neg (not_not.mpr heven), decodePairs_of_valid hex [] hvalid, List.nil_append]

theorem fst_fromHex_eq_false_iff (hex : List UInt8) :
    (fromHex hex).1 = false ↔ hex.length % 2 ≠ 0 ∨ ∃ c ∈ hex, hexValue c < 0 := by
  by_cases heven : hex.length % 2 = 0
  · by_cases hbad : ∃ c ∈ hex, hexValue c < 0
    · rw [fromHex, if_neg (not_not.mpr heven), decodePairs_of_invalid hex [] heven hbad]
      exact iff_of_true rfl (Or.inr hbad)
    · have hvalid : ∀ c ∈ hex, ¬ hexValue c < 0 := fun c hc hneg => hbad ⟨c, hc, hneg⟩
      rw [fromHex_of_valid hex heven hvalid]
      exact iff_of_false Bool.noConfusion (not_or.mpr ⟨not_not.mpr heven, hbad⟩)
  · rw [fromHex, if_pos heven]
    exact iff_of_true rfl (Or.inl heven)

/-- A string that is accepted and not empty denotes at least one byte. -/
theorem snd_fromHex_ne_nil {hex : List UInt8} (hne : hex ≠ []) (hacc : (fromHex hex).1 ≠ false) :
    (fromHex hex).2 ≠ [] := by
  rw [ne_eq, fst_fromHex_eq_false_iff, not_or] at hacc
  obtain ⟨hodd, hbad⟩ := hacc
  have heven : hex.length % 2 = 0 := not_not.mp hodd
  rw [fromHex_of_valid hex heven fun c hc hneg => hbad ⟨c, hc, hneg⟩]
  intro hnil
  have hlen := congrArg List.length hnil
  rw [List.length_map, List.length_range, List.length_nil] at hlen
  exact hne (List.length_eq_zero_iff.mp (by omega))

end HexTools

/-! ### The chunks -/

/-- **The loop over the chunks.** It absorbs the bytes that remain, whatever the chunks. -/
theorem absorbed_absorbHex (hex : List UInt8) (size pos : ℕ) (h : Sha256) (m : List UInt8)
    (hm : h.Absorbed m) :
    (absorbHex hex size pos h).Absorbed
      (m ++ (List.range' pos (size - pos)).map (hexByte hex)) := by
  fun_induction absorbHex hex size pos h generalizing m with
  | case1 pos h hlt n chunk ih =>
    have hchunk : chunk = (List.range' pos n).map (hexByte hex) := by
      rw [List.range'_eq_map_range, List.map_map]
      rfl
    have hn : n + (size - (pos + n)) = size - pos := by
      have hle : n ≤ size - pos := Nat.min_le_right ..
      omega
    have hlist : chunk ++ (List.range' (pos + n) (size - (pos + n))).map (hexByte hex) =
        (List.range' pos (size - pos)).map (hexByte hex) := by
      rw [hchunk, ← List.map_append, List.range'_append_1, hn]
    have hnext := ih (m ++ chunk) (hm.update chunk)
    rwa [List.append_assoc, hlist] at hnext
  | case2 pos h hge =>
    rw [show size - pos = 0 by omega, List.range'_zero, List.map_nil, List.append_nil]
    exact hm

/-- The digest that the chunks lead to is that of the decoded bytes. -/
theorem finish_absorbHex (hex : List UInt8) (size : ℕ) :
    (absorbHex hex size 0
        (Sha256.new.update (m1Header .binary (UInt32.ofNat size)).toList)).finish.1 =
      deriveD0 .binary ((List.range size).map (hexByte hex)) := by
  have hheader := Sha256.absorbed_new.update (m1Header .binary (UInt32.ofNat size)).toList
  rw [Sha256.finish_of_absorbed (absorbed_absorbHex hex size 0 _ _ hheader), deriveD0,
    List.length_map, List.length_range, Nat.sub_zero, ← List.range_eq_range']
  exact (Sha256.finish_of_absorbed (hheader.update _)).symm

/-! ### The prefix -/

theorem removeHexPrefix_cons_cons {x : UInt8} (h : x = 0x78 ∨ x = 0x58) (digits : List UInt8) :
    removeHexPrefix (0x30 :: x :: digits) = digits :=
  if_pos ⟨Nat.le_add_left 2 digits.length, rfl, h⟩

/-- **The prefix.** One leading `0x` or `0X` is taken off, and nothing else. -/
theorem removeHexPrefix_eq_iff {hex digits : List UInt8} :
    removeHexPrefix hex = digits ↔
      hex = 0x30 :: 0x78 :: digits ∨ hex = 0x30 :: 0x58 :: digits ∨
        hex = digits ∧ ∀ x tail, digits = 0x30 :: x :: tail → x ≠ 0x78 ∧ x ≠ 0x58 := by
  by_cases hfront : ∃ x tail, (x = 0x78 ∨ x = 0x58) ∧ hex = 0x30 :: x :: tail
  · obtain ⟨x, tail, hx, rfl⟩ := hfront
    rw [removeHexPrefix_cons_cons hx]
    constructor
    · rintro rfl
      rcases hx with rfl | rfl
      · exact Or.inl rfl
      · exact Or.inr (Or.inl rfl)
    · rintro (heq | heq | ⟨rfl, hnot⟩)
      · simp_all
      · simp_all
      · exact absurd hx (not_or.mpr (hnot x tail rfl))
  · have hnot (x : UInt8) (tail : List UInt8) (heq : hex = 0x30 :: x :: tail) :
        x ≠ 0x78 ∧ x ≠ 0x58 := not_or.mp fun hx => hfront ⟨x, tail, hx, heq⟩
    have hself : removeHexPrefix hex = hex := by
      refine if_neg fun ⟨hlen, hzero, hx⟩ => ?_
      match hex, hlen with
      | c :: x :: tail, _ =>
        obtain rfl : c = 0x30 := hzero
        exact absurd hx (not_or.mpr (hnot x tail rfl))
    rw [hself]
    constructor
    · rintro rfl
      exact Or.inr (Or.inr ⟨rfl, hnot⟩)
    · rintro (rfl | rfl | ⟨rfl, -⟩)
      · exact absurd rfl (hnot _ _ rfl).1
      · exact absurd rfl (hnot _ _ rfl).2
      · rfl

/-! ### The two paths -/

/-- A digest of bytes that the limits allow. -/
theorem makeBaseDigest_external_of_le {data : List UInt8} (hne : data ≠ [])
    (hle : data.length ≤ maxInputSize) (out : BaseDigest) :
    makeBaseDigest (.external data) out =
      (.ok, out.assign (stretch (deriveD0 .binary data) stretchIterations)) := by
  have hlen : data.length ≠ 0 := fun h0 => hne (List.length_eq_zero_iff.mp h0)
  have hcheck : checkLength data.length = .ok := by
    rw [checkLength, if_neg hlen, if_neg (not_lt.mpr hle)]
  simp only [makeBaseDigest, digestOf, ByteView.isNull, ByteView.size, hcheck, ByteView.load,
    Bool.false_eq_true, false_and, if_false]
  rfl

/-- The streaming path, in terms of what the strict decoder gives. -/
theorem makeBaseDigestFromHex_eq (hex : List UInt8) (out : BaseDigest) :
    makeBaseDigestFromHex hex out =
      if removeHexPrefix hex = [] ∨ (HexTools.fromHex (removeHexPrefix hex)).1 = false then
        (.invalidHex, .unset)
      else if maxInputSize < (HexTools.fromHex (removeHexPrefix hex)).2.length then
        (.inputTooLarge, .unset)
      else
        makeBaseDigest (.external (HexTools.fromHex (removeHexPrefix hex)).2) out := by
  unfold makeBaseDigestFromHex
  generalize removeHexPrefix hex = s
  simp only [List.isEmpty_iff, List.any_eq_true, decide_eq_true_eq, BaseDigest.clear_eq]
  have hreject := HexTools.fst_fromHex_eq_false_iff s
  by_cases hform : s = [] ∨ s.length % 2 ≠ 0
  · rw [if_pos hform, if_pos (hform.imp_right fun h => hreject.mpr (Or.inl h))]
  by_cases hbad : ∃ c ∈ s, hexValue c < 0
  · rw [if_neg hform, if_pos hbad, if_pos (Or.inr (hreject.mpr (Or.inr hbad)))]
  obtain ⟨hne, hodd⟩ := not_or.mp hform
  have heven : s.length % 2 = 0 := not_not.mp hodd
  have hvalid : ∀ c ∈ s, ¬ hexValue c < 0 := fun c hc hneg => hbad ⟨c, hc, hneg⟩
  have hsize : s.length / 2 ≠ 0 := by
    have hpos : s.length ≠ 0 := fun h0 => hne (List.length_eq_zero_iff.mp h0)
    omega
  have haccept : ¬ (HexTools.fromHex s).1 = false := fun h =>
    (hreject.mp h).elim hodd hbad
  rw [if_neg hform, if_neg hbad, if_neg (not_or.mpr ⟨hne, haccept⟩),
    HexTools.fromHex_of_valid s heven hvalid]
  simp only [List.length_map, List.length_range]
  by_cases hlarge : maxInputSize < s.length / 2
  · have hcheck : checkLength (s.length / 2) = .inputTooLarge := by
      rw [checkLength, if_neg hsize, if_pos hlarge]
    rw [hcheck, if_pos hlarge]
  · have hcheck : checkLength (s.length / 2) = .ok := by
      rw [checkLength, if_neg hsize, if_neg hlarge]
    have hdata : (List.range (s.length / 2)).map (hexByte s) ≠ [] := by
      rw [ne_eq, ← List.length_eq_zero_iff, List.length_map, List.length_range]
      exact hsize
    rw [hcheck, if_neg hlarge, makeBaseDigest_external_of_le hdata
      (by rw [List.length_map, List.length_range]; exact not_lt.mp hlarge)]
    dsimp only
    rw [finish_absorbHex]
    rfl

/-- The strings that are accepted: pairs of digits behind the prefix, one at least and no more than
the limit. -/
theorem fst_makeBaseDigestFromHex_eq_ok_iff (hex : List UInt8) (out : BaseDigest) :
    (makeBaseDigestFromHex hex out).1 = .ok ↔
      removeHexPrefix hex ≠ [] ∧ (removeHexPrefix hex).length % 2 = 0 ∧
        (∀ c ∈ removeHexPrefix hex, ¬ hexValue c < 0) ∧
        (removeHexPrefix hex).length ≤ 2 * maxInputSize := by
  have hreject := HexTools.fst_fromHex_eq_false_iff (removeHexPrefix hex)
  rw [makeBaseDigestFromHex_eq]
  by_cases hrej : removeHexPrefix hex = [] ∨ (HexTools.fromHex (removeHexPrefix hex)).1 = false
  · rw [if_pos hrej]
    refine iff_of_false ErrorCode.noConfusion fun ⟨hne, heven, hvalid, _⟩ => ?_
    rcases hreject.mp (hrej.resolve_left hne) with hodd | ⟨c, hc, hneg⟩
    · exact hodd heven
    · exact hvalid c hc hneg
  obtain ⟨hne, hacc⟩ := not_or.mp hrej
  obtain ⟨hodd, hbad⟩ := not_or.mp (mt hreject.mpr hacc)
  have heven := not_not.mp hodd
  have hvalid (c : UInt8) (hc : c ∈ removeHexPrefix hex) : ¬ hexValue c < 0 :=
    fun hneg => hbad ⟨c, hc, hneg⟩
  have hlength : (HexTools.fromHex (removeHexPrefix hex)).2.length =
      (removeHexPrefix hex).length / 2 := by
    rw [HexTools.fromHex_of_valid _ heven hvalid, List.length_map, List.length_range]
  rw [if_neg hrej]
  by_cases hlarge : maxInputSize < (HexTools.fromHex (removeHexPrefix hex)).2.length
  · rw [if_pos hlarge]
    exact iff_of_false ErrorCode.noConfusion fun h => by omega
  · rw [if_neg hlarge, makeBaseDigest_external_of_le (HexTools.snd_fromHex_ne_nil hne hacc)
      (not_lt.mp hlarge)]
    exact iff_of_true rfl ⟨hne, heven, hvalid, by omega⟩

/-- **A prefix does not matter** in front of digits that do not start with another one. -/
theorem makeBaseDigestFromHex_prefix {x : UInt8} (hx : x = 0x78 ∨ x = 0x58) {digits : List UInt8}
    (hdigits : removeHexPrefix digits = digits) (out : BaseDigest) :
    makeBaseDigestFromHex (0x30 :: x :: digits) out = makeBaseDigestFromHex digits out := by
  rw [makeBaseDigestFromHex_eq, makeBaseDigestFromHex_eq, removeHexPrefix_cons_cons hx, hdigits]

/-- The case of a letter forgotten. -/
def lowerCase (c : UInt8) : UInt8 :=
  if 0x41 ≤ c ∧ c ≤ 0x5A then c + 0x20 else c

theorem hexValue_lowerCase (c : UInt8) : hexValue (lowerCase c) = hexValue c := by
  unfold hexValue lowerCase
  simp only [UInt8.le_iff_toNat_le, UInt8.toNat_ofNat]
  split_ifs <;> simp only [UInt8.toNat_add, UInt8.toNat_ofNat] at * <;> omega

/-- The strict decoder does not see the case of letters. -/
theorem HexTools.fromHex_map_lowerCase (hex : List UInt8) :
    fromHex (hex.map lowerCase) = fromHex hex := by
  have hpairs (out : List UInt8) : decodePairs (hex.map lowerCase) out = decodePairs hex out := by
    fun_induction decodePairs hex out with
    | case1 c d hex out hi lo hneg =>
      rw [List.map_cons, List.map_cons, decodePairs, nibble_eq, nibble_eq, hexValue_lowerCase,
        hexValue_lowerCase]
      exact if_pos hneg
    | case2 c d hex out hi lo hpos ih =>
      rw [List.map_cons, List.map_cons, decodePairs, nibble_eq, nibble_eq, hexValue_lowerCase,
        hexValue_lowerCase]
      exact (if_neg hpos).trans ih
    | case3 hex out hshort =>
      match hex, hshort with
      | [], _ => rfl
      | [_], _ => rfl
      | c :: d :: hex, hshort => exact (hshort c d hex rfl).elim
  rw [fromHex, fromHex, List.length_map, hpairs]

/-- **The streaming path equals decoding first.** A string whose stripped form is empty or not
accepted by the strict decoder is `invalid_hex`; otherwise one that denotes more than 1048576
bytes is `input_too_large`; otherwise the digest is the one that `make_base_digest` gives for the
decoded bytes. An error leaves the object unset, whatever it held, and two strings whose stripped
forms agree up to the case of letters lead to the same code and object. -/
theorem makeBaseDigestFromHex_eq_decoded (hex : List UInt8) (out : BaseDigest) :
    let stripped := removeHexPrefix hex
    let decoded := HexTools.fromHex stripped
    let rejected := stripped = [] ∨ decoded.1 = false
    let result := makeBaseDigestFromHex hex out
    (result.1 = .invalidHex ↔ rejected) ∧
      (result.1 = .inputTooLarge ↔ ¬ rejected ∧ 1048576 < decoded.2.length) ∧
      (result.1 ≠ .ok → result.2 = .unset) ∧
      (¬ rejected → decoded.2.length ≤ 1048576 →
        result.1 = .ok ∧ ∀ out', makeBaseDigest (.external decoded.2) out' = result) ∧
      ∀ (hex' : List UInt8) (out' : BaseDigest),
        (removeHexPrefix hex').map lowerCase = stripped.map lowerCase →
          makeBaseDigestFromHex hex' out' = result := by
  intro stripped decoded rejected result
  have hresult : result = if rejected then (.invalidHex, .unset)
      else if 1048576 < decoded.2.length then (.inputTooLarge, .unset)
      else makeBaseDigest (.external decoded.2) out := makeBaseDigestFromHex_eq hex out
  have hok (hacc : ¬ rejected) (hle : decoded.2.length ≤ 1048576) (out' : BaseDigest) :
      makeBaseDigest (.external decoded.2) out' =
        (.ok, out'.assign (stretch (deriveD0 .binary decoded.2) stretchIterations)) :=
    makeBaseDigest_external_of_le
      (HexTools.snd_fromHex_ne_nil (not_or.mp hacc).1 (not_or.mp hacc).2) hle out'
  have hcases : (rejected ∧ result = (.invalidHex, .unset)) ∨
      (¬ rejected ∧ 1048576 < decoded.2.length ∧ result = (.inputTooLarge, .unset)) ∨
      (¬ rejected ∧ decoded.2.length ≤ 1048576 ∧
        result = makeBaseDigest (.external decoded.2) out) := by
    by_cases hrej : rejected
    · exact Or.inl ⟨hrej, hresult.trans (if_pos hrej)⟩
    rw [if_neg hrej] at hresult
    by_cases hlarge : 1048576 < decoded.2.length
    · exact Or.inr (Or.inl ⟨hrej, hlarge, hresult.trans (if_pos hlarge)⟩)
    · exact Or.inr (Or.inr ⟨hrej, not_lt.mp hlarge, hresult.trans (if_neg hlarge)⟩)
  refine ⟨?_, ?_, ?_, ?_, ?_⟩
  · rcases hcases with ⟨hrej, hr⟩ | ⟨hrej, hlarge, hr⟩ | ⟨hrej, hle, hr⟩
    · exact iff_of_true (by rw [hr]) hrej
    · exact iff_of_false (by rw [hr]; exact ErrorCode.noConfusion) hrej
    · exact iff_of_false (by rw [hr, hok hrej hle]; exact ErrorCode.noConfusion) hrej
  · rcases hcases with ⟨hrej, hr⟩ | ⟨hrej, hlarge, hr⟩ | ⟨hrej, hle, hr⟩
    · exact iff_of_false (by rw [hr]; exact ErrorCode.noConfusion) fun h => h.1 hrej
    · exact iff_of_true (by rw [hr]) ⟨hrej, hlarge⟩
    · exact iff_of_false (by rw [hr, hok hrej hle]; exact ErrorCode.noConfusion)
        fun h => absurd h.2 (not_lt.mpr hle)
  · intro herr
    rcases hcases with ⟨hrej, hr⟩ | ⟨hrej, hlarge, hr⟩ | ⟨hrej, hle, hr⟩
    · rw [hr]
    · rw [hr]
    · exact absurd (by rw [hr, hok hrej hle]) herr
  · intro hrej hle
    have hr := hresult.trans ((if_neg hrej).trans (if_neg (not_lt.mpr hle)))
    exact ⟨by rw [hr, hok hrej hle], fun out' => by rw [hr, hok hrej hle, hok hrej hle]; rfl⟩
  · intro hex' out' hcase
    have hdecoded : HexTools.fromHex (removeHexPrefix hex') = decoded := by
      rw [← HexTools.fromHex_map_lowerCase, hcase, HexTools.fromHex_map_lowerCase]
    have hnil : removeHexPrefix hex' = [] ↔ stripped = [] := by
      rw [← List.map_eq_nil_iff (f := lowerCase), hcase, List.map_eq_nil_iff]
    have hresult' := makeBaseDigestFromHex_eq hex' out'
    rw [hdecoded] at hresult'
    simp only [hnil] at hresult'
    rw [hresult', hresult]
    rfl

/-- The prefix of `0X5a`. -/
example (out : BaseDigest) : makeBaseDigestFromHex [0x30, 0x58, 0x35, 0x61] out =
    makeBaseDigestFromHex [0x35, 0x61] out :=
  makeBaseDigestFromHex_prefix (Or.inr rfl) rfl out

end HumanizedHash
