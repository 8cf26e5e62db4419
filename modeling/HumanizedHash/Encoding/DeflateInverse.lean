import HumanizedHash.Encoding.DeflateBits

/-!
# Decompression undoes the compressor

The loop of `deflate_fixed` puts a list of tokens. A match that it finds is a repetition within the
raw stream at one of the two distances, so the tokens expand to the raw stream.

## Main definitions

* `deflateTokens`: the tokens that the loop puts.
* `Repeats`: a repetition within a list.

## Main results

* `bestMatch_repeats`: a match is a repetition.
* `expand_deflateTokens`: the tokens expand to the raw stream.
* `inflate_deflateFixed`: decompression gives the raw stream, and only the bits that fill the last
  byte are left.

## References

* `src/src/png.cpp`, `src/docs/SPEC.md` (section 11).
-/

namespace HumanizedHash

open Bits

section Matches

variable (raw : List UInt8)

/-- The `n` bytes from the place `i` on are those from the place `i - d` on. -/
structure Repeats (i d n : ℕ) : Prop where
  within : i + n ≤ raw.length
  back : d ≤ i
  get : ∀ k < n, raw.getD (i + k) 0 = raw.getD (i - d + k) 0

/-- What holds of `best` and `dist` after a number of distances. -/
def MatchFound (i : ℕ) (s : ℕ × ℕ) : Prop :=
  s.1 = 0 ∨ (s.1 ≤ 258 ∧ (1 ≤ s.2 ∧ s.2 ≤ 32768) ∧ Repeats raw i s.2 s.1)

variable {raw} {i : ℕ}

/-- The loop that extends a match stops behind what repeats. -/
theorem extendMatch_spec {d limit len : ℕ} (hlen : len ≤ limit)
    (hget : ∀ k < len, raw.getD (i + k) 0 = raw.getD (i - d + k) 0) :
    extendMatch raw i d limit len ≤ limit ∧
      ∀ k < extendMatch raw i d limit len, raw.getD (i + k) 0 = raw.getD (i - d + k) 0 := by
  induction hn : limit - len using Nat.strong_induction_on generalizing len with
  | _ n ih =>
    rw [extendMatch]
    split_ifs with h
    · refine ih (limit - (len + 1)) (by omega) h.1 (fun k hk => ?_) rfl
      obtain hlt | rfl := Nat.lt_succ_iff_lt_or_eq.mp hk
      · exact hget k hlt
      · exact h.2
    · exact ⟨hlen, hget⟩

theorem MatchFound.tryDistance {s : ℕ × ℕ} (h : MatchFound raw i s) {d : ℕ}
    (hd : 1 ≤ d ∧ d ≤ 32768) (hi : i ≤ raw.length) :
    MatchFound raw i (tryDistance raw i s d) := by
  have hlimit : min 258 (raw.length - i) ≤ raw.length - i := Nat.min_le_right ..
  have hmost : min 258 (raw.length - i) ≤ 258 := Nat.min_le_left ..
  have hnone (k : ℕ) (hk : k < 0) : raw.getD (i + k) 0 = raw.getD (i - d + k) 0 :=
    absurd hk (Nat.not_lt_zero k)
  obtain ⟨hle, hget⟩ := extendMatch_spec (Nat.zero_le (min 258 (raw.length - i))) hnone
  rw [HumanizedHash.tryDistance]
  dsimp only
  split_ifs with hfar hbetter
  · exact h
  · exact Or.inr ⟨hle.trans hmost, hd, ⟨by omega, not_lt.mp hfar, hget⟩⟩
  · exact h

/-- **A match is a repetition.** -/
theorem bestMatch_repeats {bpp stride : ℕ} (hbpp : 1 ≤ bpp ∧ bpp ≤ 32768)
    (hstride : 1 ≤ stride ∧ stride ≤ 32768) (hi : i ≤ raw.length) :
    MatchFound raw i (bestMatch raw bpp stride i) :=
  MatchFound.tryDistance (MatchFound.tryDistance (Or.inl rfl) hbpp hi) hstride hi

end Matches

/-! ### The tokens of the loop -/

section Loop

variable (raw : List UInt8) (bpp stride : ℕ)

/-- The tokens that the loop puts from the place `i` on. -/
def deflateTokens (i : ℕ) : List Inflate.Token :=
  if i < raw.length then
    let (best, dist) := bestMatch raw bpp stride i
    if 3 ≤ best then
      .copy best dist :: deflateTokens (i + best)
    else
      .literal (raw.getD i 0) :: deflateTokens (i + 1)
  else
    []
termination_by raw.length - i

variable {raw bpp stride}

/-- The loop puts its tokens. -/
theorem deflateLoop_eq (w : BitWriter) (i : ℕ) :
    deflateLoop raw bpp stride w i = (deflateTokens raw bpp stride i).foldl putToken w := by
  induction hn : raw.length - i using Nat.strong_induction_on generalizing i w with
  | _ n ih =>
    rw [deflateLoop, deflateTokens]
    by_cases hi : i < raw.length
    · rw [if_pos hi, if_pos hi]
      dsimp only
      by_cases hbest : 3 ≤ (bestMatch raw bpp stride i).1
      · rw [if_pos hbest, if_pos hbest, List.foldl_cons]
        exact ih _ (by omega) _ _ rfl
      · rw [if_neg hbest, if_neg hbest, List.foldl_cons]
        exact ih _ (by omega) _ _ rfl
    · rw [if_neg hi, if_neg hi]
      rfl

/-- **The tokens expand to the raw stream**, and stand for as many bytes as it has. -/
theorem expand_deflateTokens (hbpp : 1 ≤ bpp ∧ bpp ≤ 32768)
    (hstride : 1 ≤ stride ∧ stride ≤ 32768) {i : ℕ} (hi : i ≤ raw.length) :
    Inflate.expand (deflateTokens raw bpp stride i) (raw.take i) = some raw ∧
      (∀ t ∈ deflateTokens raw bpp stride i, TokenFits t) ∧
      ((deflateTokens raw bpp stride i).map tokenSize).sum = raw.length - i := by
  induction hn : raw.length - i using Nat.strong_induction_on generalizing i with
  | _ n ih =>
    subst hn
    rw [deflateTokens]
    by_cases hlt : i < raw.length
    · rw [if_pos hlt]
      dsimp only
      by_cases hbest : 3 ≤ (bestMatch raw bpp stride i).1
      · obtain hzero | ⟨hmost, hdist, hrepeats⟩ := bestMatch_repeats hbpp hstride hi
        · omega
        have hwithin := hrepeats.within
        obtain ⟨hexpand, hfits, hsize⟩ := ih (raw.length - (i + (bestMatch raw bpp stride i).1))
          (by omega) hwithin rfl
        have hextend := Inflate.extend_copy hdist.1 hrepeats.back hdist.2 hwithin hrepeats.get
        rw [if_pos hbest]
        refine ⟨?_, ?_, ?_⟩
        · rw [Inflate.expand, hextend]
          exact hexpand
        · rintro t (_ | ⟨_, ht⟩)
          · exact ⟨hbest, hmost, hdist⟩
          · exact hfits t ht
        · rw [List.map_cons, List.sum_cons, hsize, tokenSize]
          omega
      · obtain ⟨hexpand, hfits, hsize⟩ := ih (raw.length - (i + 1)) (by omega) hlt rfl
        rw [if_neg hbest]
        refine ⟨?_, ?_, ?_⟩
        · rw [Inflate.expand, Inflate.extend_literal hlt]
          exact hexpand
        · rintro t (_ | ⟨_, ht⟩)
          · exact trivial
          · exact hfits t ht
        · rw [List.map_cons, List.sum_cons, hsize, tokenSize]
          omega
    · rw [if_neg hlt]
      refine ⟨?_, fun t ht => absurd ht List.not_mem_nil, by rw [List.map_nil, List.sum_nil]; omega⟩
      rw [Inflate.expand, List.take_of_length_le (not_lt.mp hlt)]

end Loop

/-- A list of tokens puts its bits. -/
theorem BitWriter.Holds.foldl_putToken {w : BitWriter} {head : List UInt8} {bits : List Bool}
    (h : w.Holds head bits) (hused : w.used < 8) (ts : List Inflate.Token)
    (hts : ∀ t ∈ ts, TokenFits t) :
    (ts.foldl HumanizedHash.putToken w).Holds head (bits ++ ts.flatMap tokenBits) ∧
      (ts.foldl HumanizedHash.putToken w).used < 8 := by
  induction ts generalizing w bits with
  | nil => exact ⟨by rwa [List.flatMap_nil, List.append_nil], hused⟩
  | cons t ts ih =>
    obtain ⟨hput, hlt⟩ := h.putToken hused (hts t List.mem_cons_self)
    rw [List.foldl_cons, List.flatMap_cons, ← List.append_assoc]
    exact ih hput hlt fun s hs => hts s (List.mem_cons_of_mem t hs)

theorem length_flatMap_tokenBits (ts : List Inflate.Token) (hts : ∀ t ∈ ts, TokenFits t) :
    (ts.flatMap tokenBits).length ≤ 11 * (ts.map tokenSize).sum := by
  induction ts with
  | nil => exact Nat.zero_le _
  | cons t ts ih =>
    have hhead := (length_tokenBits (hts t List.mem_cons_self)).2
    have htail := ih fun s hs => hts s (List.mem_cons_of_mem t hs)
    rw [List.flatMap_cons, List.length_append, List.map_cons, List.sum_cons]
    omega

/-- **Decompression undoes the compressor.** The end of the block is in the last byte. -/
theorem inflate_deflateFixed (raw out : List UInt8) {bpp stride : ℕ} (hbpp : 1 ≤ bpp ∧ bpp ≤ 32768)
    (hstride : 1 ≤ stride ∧ stride ≤ 32768) :
    ∃ bytes pad, deflateFixed raw bpp stride out = out ++ bytes ∧ pad < 8 ∧
      Inflate.inflate (lsbOf bytes) = some (raw, List.replicate pad false) ∧
      8 * bytes.length ≤ 11 * raw.length + 19 := by
  obtain ⟨hexpand, hfits, hsize⟩ := expand_deflateTokens hbpp hstride (Nat.zero_le raw.length)
  have hfinal := (BitWriter.holds_new out).put (show (1 : UInt32).toNat < 2 ^ 1 by decide)
    (show 0 < 8 by decide) (by decide)
  have hkind := hfinal.put (show (1 : UInt32).toNat < 2 ^ 2 by decide)
    (BitWriter.used_put_lt _ _ _) (by decide)
  obtain ⟨htokens, hused⟩ := hkind.foldl_putToken (BitWriter.used_put_lt _ _ _) _ hfits
  have hstop := htokens.putLiteral hused (show 256 < 288 by decide)
  obtain ⟨bytes, pad, hout, hpad, hbits⟩ := hstop.flush (BitWriter.used_put_lt _ _ _)
  have hstream : lsbOf bytes = lsb 1 1 ++ (lsb 2 1 ++
      ((deflateTokens raw bpp stride 0).flatMap tokenBits ++
        (literalBits 256 ++ List.replicate pad false))) := by
    rw [hbits]
    simp only [List.append_assoc, List.nil_append]
    rfl
  refine ⟨bytes, pad, ?_, hpad, ?_, ?_⟩
  · rw [deflateFixed, deflateLoop_eq]
    exact hout
  · rw [hstream]
    exact Inflate.inflate_append (fun t ht => (length_tokenBits (hfits t ht)).1)
      (fun t ht => readToken_tokenBits (hfits t ht)) readToken_stop hexpand _
  · have hlength := congrArg List.length hstream
    have htotal := length_flatMap_tokenBits _ hfits
    have heob : (literalBits 256).length = 7 := rfl
    rw [hsize] at htotal
    simp only [List.length_append, length_lsbOf, length_lsb, List.length_replicate, heob] at hlength
    omega

end HumanizedHash
