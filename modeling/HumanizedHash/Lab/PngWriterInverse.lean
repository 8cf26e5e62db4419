import HumanizedHash.Encoding.PngSize
import HumanizedHash.Formats.Factorisation
import HumanizedHash.Lab.PngWriter

/-!
# Decoding undoes the PNG writer of the lab

The writer with the accumulator of 64 bits writes what that of `src/png.cpp` writes. The hash chains
are the tables of all places in front, so a search meets the nearest earlier places with the same
hash, and the tokens are a greedy factorisation of the input: every copy is the longest among these
candidates, and the nearest of the longest ones. Every factorisation expands to the input.

## Main definitions

* `Lab.BitWriter.Tracks`: the two writers hold the same bits.
* `Lab.candidates`, `Lab.agreement`: what a search compares.
* `Lab.Greedy`: the greedy factorisations.

## Main results

* `Lab.le_agreement_iff`: what is compared is the longest match.
* `Lab.searchChain_eq`: a search is a choice among the candidates.
* `Lab.deflateFixed_greedy`: the stream is that of a greedy factorisation.
* `Lab.inflate_deflateFixed`: decompression undoes the compressor.
* `Lab.writePng_decodes`: the file of a canvas shows its pixels.

## References

* `src/tools/lab/png_writer.cpp`.
-/

namespace HumanizedHash

open Bits ByteOrder

namespace Lab

/-! ### The writers -/

namespace BitWriter

/-- Both writers have written the same bytes and hold the same bits. -/
structure Tracks (w : BitWriter) (v : HumanizedHash.BitWriter) : Prop where
  out : w.out = v.out
  acc : w.acc.toNat = v.acc.toNat
  used : w.used = v.used

theorem tracks_new : Tracks new (HumanizedHash.BitWriter.new []) := ⟨rfl, rfl, rfl⟩

section Tracks

variable {w : BitWriter} {v : HumanizedHash.BitWriter}

/-- The lowest bytes of the accumulators. -/
theorem Tracks.lowByte (h : w.Tracks v) : w.acc.toUInt8 = (v.acc &&& 0xFF).toUInt8 := by
  rw [← UInt8.toNat_inj, HumanizedHash.BitWriter.toNat_lowByte, UInt64.toNat_toUInt8, h.acc]

theorem Tracks.drain (h : w.Tracks v) : w.drain.Tracks v.drain := by
  induction hn : w.used using Nat.strong_induction_on generalizing w v with
  | _ n ih =>
    subst hn
    rw [BitWriter.drain, HumanizedHash.BitWriter.drain, ← h.used]
    by_cases hfull : 8 ≤ w.used
    · rw [if_pos hfull, if_pos hfull]
      refine ih (w.used - 8) (by omega) (w := ⟨_, _, w.used - 8⟩) ⟨?_, ?_, rfl⟩ rfl
      · rw [h.out, h.lowByte]
      · have hwide : (w.acc >>> 8).toNat = w.acc.toNat >>> 8 := UInt64.toNat_shiftRight w.acc 8
        have hnarrow : (v.acc >>> 8).toNat = v.acc.toNat >>> 8 := UInt32.toNat_shiftRight v.acc 8
        rw [hwide, hnarrow, h.acc]
    · rw [if_neg hfull, if_neg hfull]
      exact h

/-- **The accumulators hold the same number** as long as it fits the smaller one. -/
theorem Tracks.put (h : w.Tracks v) (hused : v.used < 8) {b : UInt32} {count : ℕ}
    (hb : b.toNat < 2 ^ count) (hcount : count ≤ 24) : (w.put b count).Tracks (v.put b count) := by
  have hshifted : b.toNat <<< v.used < 2 ^ 32 := by
    have hpow : 2 ^ count * 2 ^ v.used ≤ 2 ^ 32 := by
      rw [← pow_add]
      exact Nat.pow_le_pow_right (by decide) (by omega)
    rw [Nat.shiftLeft_eq]
    exact (Nat.mul_lt_mul_of_pos_right hb (Nat.two_pow_pos _)).trans_le hpow
  have hplace : (UInt32.ofNat v.used).toNat % 32 = v.used := by
    rw [UInt32.toNat_ofNat', Nat.mod_mod_of_dvd _ (by decide), Nat.mod_eq_of_lt (by omega)]
  have hplace' : (UInt64.ofNat v.used).toNat % 64 = v.used := by
    rw [UInt64.toNat_ofNat', Nat.mod_mod_of_dvd _ (by decide), Nat.mod_eq_of_lt (by omega)]
  refine Tracks.drain ⟨h.out, ?_, congrArg (· + count) h.used⟩
  rw [UInt64.toNat_or, UInt32.toNat_or, UInt64.toNat_shiftLeft, UInt32.toNat_shiftLeft, h.used,
    hplace, hplace', h.acc, UInt32.toNat_toUInt64, Nat.mod_eq_of_lt hshifted,
    Nat.mod_eq_of_lt (hshifted.trans (by decide))]

theorem Tracks.putCode (h : w.Tracks v) (hused : v.used < 8) (code : UInt32) {count : ℕ}
    (hcount : count ≤ 24) : (w.putCode code count).Tracks (v.putCode code count) :=
  h.put hused (HumanizedHash.BitWriter.reversed_spec code (by omega)).1 hcount

theorem Tracks.putLiteral (h : w.Tracks v) (hused : v.used < 8) (symbol : ℕ) :
    (Lab.putLiteral w symbol).Tracks (HumanizedHash.putLiteral v symbol) :=
  h.putCode hused _ (by have hshort := fixedCode_short symbol; omega)

/-- What is left in the accumulator is written. -/
theorem Tracks.finish (h : w.Tracks v) : w.finish = v.flush.out := by
  rw [BitWriter.finish, HumanizedHash.BitWriter.flush, h.used, h.out, h.lowByte]
  split_ifs <;> first | rfl | omega

end Tracks

end BitWriter

/-- What the loop of `deflate_fixed` puts for a token. -/
def putToken (w : BitWriter) : Inflate.Token → BitWriter
  | .literal b => putLiteral w b.toNat
  | .copy length dist => putMatch w length dist

/-- **A token is put alike.** -/
theorem BitWriter.Tracks.putToken {w : BitWriter} {v : HumanizedHash.BitWriter} (h : w.Tracks v)
    (hused : v.used < 8) {t : Inflate.Token} (ht : TokenFits t) :
    (Lab.putToken w t).Tracks (HumanizedHash.putToken v t) ∧
      (HumanizedHash.putToken v t).used < 8 := by
  cases t with
  | literal b => exact ⟨h.putLiteral hused b.toNat, HumanizedHash.BitWriter.used_put_lt _ _ _⟩
  | copy length dist =>
    obtain ⟨hlow, hhigh, hdist⟩ := ht
    obtain ⟨hli, -, hextra⟩ := searchLength ⟨hlow, hhigh⟩
    obtain ⟨hdi, -, hdextra⟩ := searchDist hdist
    have hle := extra_le.1 _ hli
    have hdle := extra_le.2 _ hdi
    have hsymbol := h.putLiteral hused (257 + searchBase lengthBase length 28)
    have hlength := hsymbol.put (b := UInt32.ofNat _) (HumanizedHash.BitWriter.used_put_lt _ _ _)
      (by rw [toNat_ofNat_of_lt hextra (by omega)]; exact hextra)
      (show lengthExtra.getD _ 0 ≤ 24 by omega)
    have hcode := hlength.putCode (HumanizedHash.BitWriter.used_put_lt _ _ _)
      (UInt32.ofNat (searchBase distBase dist 29)) (show 5 ≤ 24 by decide)
    have hall := hcode.put (b := UInt32.ofNat _) (HumanizedHash.BitWriter.used_put_lt _ _ _)
      (by rw [toNat_ofNat_of_lt hdextra (by omega)]; exact hdextra)
      (show distExtra.getD _ 0 ≤ 24 by omega)
    exact ⟨hall, HumanizedHash.BitWriter.used_put_lt _ _ _⟩

theorem BitWriter.Tracks.foldl_putToken {w : BitWriter} {v : HumanizedHash.BitWriter}
    (h : w.Tracks v) (hused : v.used < 8) (ts : List Inflate.Token)
    (hts : ∀ t ∈ ts, TokenFits t) :
    (ts.foldl Lab.putToken w).Tracks (ts.foldl HumanizedHash.putToken v) ∧
      (ts.foldl HumanizedHash.putToken v).used < 8 := by
  induction ts generalizing w v with
  | nil => exact ⟨h, hused⟩
  | cons t ts ih =>
    obtain ⟨hput, hlt⟩ := h.putToken hused (hts t List.mem_cons_self)
    exact ih hput hlt fun s hs => hts s (List.mem_cons_of_mem t hs)

/-- **What the writer writes for a list of tokens.** -/
theorem finish_tokens (ts : List Inflate.Token) (hts : ∀ t ∈ ts, TokenFits t) :
    ∃ pad < 8, lsbOf (putLiteral (ts.foldl putToken ((BitWriter.new.put 1 1).put 1 2)) 256).finish =
      streamBits ts pad := by
  have hone : (1 : UInt32).toNat < 2 ^ 1 := by decide
  have hkind : (1 : UInt32).toNat < 2 ^ 2 := by decide
  have hused := HumanizedHash.BitWriter.used_put_lt
  obtain ⟨bytes, pad, hout, hpad, hbits⟩ := flush_tokens [] ts hts
  have hstart := (BitWriter.tracks_new.put (by decide) hone (by decide)).put (hused _ _ _) hkind
    (by decide)
  obtain ⟨htokens, hlt⟩ := hstart.foldl_putToken (hused _ _ _) ts hts
  refine ⟨pad, hpad, ?_⟩
  rw [(htokens.putLiteral hlt 256).finish, hout, List.nil_append, hbits]

/-! ### The search -/

section Search

variable (input : List UInt8)

/-- The places that a search compares: the nearest earlier ones with the same hash. -/
def candidates (i : ℕ) : List ℕ :=
  if i + 2 < input.length then
    (HashChain.earlier (hashAt input) window i (hashAt input i)).take maxChain
  else
    []

/-- The number of bytes from `c` on that repeat at `i`, up to the longest match. -/
def agreement (i c : ℕ) : ℕ := matchLength input c i (min maxMatch (input.length - i)) 0

/-- The tables of all places in front of `i`. -/
def chainsAt (i : ℕ) : Chains :=
  HashChain.Table.build (hashAt input) window (min i (input.length - 2))

variable {input}

theorem mem_candidates {i c : ℕ} (h : c ∈ candidates input i) :
    c < i ∧ i - c < window ∧ hashAt input c = hashAt input i := by
  rw [candidates] at h
  split_ifs at h
  · exact HashChain.mem_earlier.mp (List.mem_of_mem_take h)
  · exact absurd h List.not_mem_nil

variable (input) in
theorem sorted_candidates (i : ℕ) : (candidates input i).Pairwise (· > ·) := by
  rw [candidates]
  split_ifs
  · exact (HashChain.sorted_earlier i _).sublist (List.take_sublist _ _)
  · exact List.Pairwise.nil

/-- The loop over `len` stops at the limit or in front of the first difference. -/
theorem le_matchLength_iff (c i : ℕ) {limit len n : ℕ} :
    n ≤ matchLength input c i limit len ↔ n ≤ len ∨
      n ≤ limit ∧ ∀ k, len ≤ k → k < n → input.getD (c + k) 0 = input.getD (i + k) 0 := by
  induction hm : limit - len using Nat.strong_induction_on generalizing len with
  | _ m ih =>
    rw [matchLength]
    split_ifs with h
    · rw [ih (limit - (len + 1)) (by omega) rfl]
      constructor
      · rintro (hle | ⟨hle, hget⟩)
        · refine or_iff_not_imp_left.mpr fun hlt => ⟨by omega, fun k hk hkn => ?_⟩
          obtain rfl : k = len := by omega
          exact h.2
        · refine Or.inr ⟨hle, fun k hk hkn => ?_⟩
          obtain rfl | hk := hk.eq_or_lt
          · exact h.2
          · exact hget k hk hkn
      · rintro (hle | ⟨hle, hget⟩)
        · exact Or.inl (by omega)
        · exact Or.inr ⟨hle, fun k hk hkn => hget k (by omega) hkn⟩
    · refine ⟨Or.inl, ?_⟩
      rintro (hle | ⟨hle, hget⟩)
      · exact hle
      · by_contra hlt
        exact h ⟨by omega, hget len le_rfl (by omega)⟩

theorem matchLength_le (c i limit : ℕ) : matchLength input c i limit 0 ≤ limit := by
  obtain hzero | ⟨hle, -⟩ := (le_matchLength_iff c i).mp (le_refl (matchLength input c i limit 0))
  · exact hzero.trans (Nat.zero_le limit)
  · exact hle

/-- **The agreement is the longest match.** A number of bytes from `c` on repeats at `i` exactly if
it is not beyond it. -/
theorem le_agreement_iff {i c n : ℕ} (hi : i ≤ input.length) :
    n ≤ agreement input i c ↔ n ≤ maxMatch ∧ i + n ≤ input.length ∧
      ∀ k < n, input.getD (c + k) 0 = input.getD (i + k) 0 := by
  rw [agreement, le_matchLength_iff]
  constructor
  · rintro (hzero | ⟨hle, hget⟩)
    · exact ⟨by omega, by omega, fun k hk => absurd hk (by omega)⟩
    · exact ⟨by omega, by omega, fun k hk => hget k (Nat.zero_le k) hk⟩
  · rintro ⟨hmost, hwithin, hget⟩
    exact Or.inr ⟨by omega, fun k _ hk => hget k hk⟩

/-- **A search is a choice among the places of the walk.** It may stop at the longest match. -/
theorem searchChain_eq (t : Chains) {i limit : ℕ} (chain : ℕ) (cand : ℤ) {best : ℕ × ℕ} :
    searchChain input t i limit chain cand best =
      HashChain.choose (fun c => matchLength input c i limit 0) (fun c => i - c) best
        (t.walk window i chain cand) := by
  induction chain generalizing cand best with
  | zero => rfl
  | succ chain ih =>
    have hwindow : (window - 1 < i - cand.toNat) ↔ window ≤ i - cand.toNat := by
      rw [window]
      omega
    rw [searchChain, HashChain.Table.walk]
    dsimp only
    by_cases hnone : cand < 0
    · rw [if_pos hnone, if_pos (Or.inl hnone)]
      rfl
    by_cases hfar : window ≤ i - cand.toNat
    · rw [if_neg hnone, if_pos (hwindow.mpr hfar), if_pos (Or.inr hfar)]
      rfl
    rw [if_neg hnone, if_neg fun h => hfar (hwindow.mp h), if_neg (not_or.mpr ⟨hnone, hfar⟩),
      HashChain.choose, List.foldl_cons, HashChain.chooseStep]
    split_ifs with hbetter hlimit
    · -- nothing is longer than the limit
      obtain ⟨hsame, -⟩ | ⟨-, c, -, -, -, hlonger, -⟩ := HashChain.choose_spec
        (fun c => matchLength input c i limit 0) (fun c => i - c)
        (matchLength input cand.toNat i limit 0, i - cand.toNat)
        (t.walk window i chain (t.prev (cand.toNat % window)))
      · exact hsame.symm
      · exact absurd (matchLength_le c i limit) (not_le.mpr (hlimit ▸ hlonger))
    · exact ih _
    · exact ih _

/-- **What is found**: the longest match among the candidates, the nearest one of them. -/
theorem findMatch_chainsAt (i : ℕ) :
    findMatch input (chainsAt input i) i =
      HashChain.choose (agreement input i) (fun c => i - c) (0, 0) (candidates input i) := by
  rw [findMatch, candidates]
  split_ifs with h
  · have hall : min i (input.length - 2) = i := by omega
    rw [searchChain_eq, chainsAt, hall, HashChain.walk_build]
    rfl
  · rfl

/-- The tables keep up with the place. -/
theorem insert_chainsAt (i : ℕ) : insert input (chainsAt input i) i = chainsAt input (i + 1) := by
  rw [insert, chainsAt, chainsAt]
  split_ifs with h
  · have hall : min i (input.length - 2) = i := by omega
    have hnext : min (i + 1) (input.length - 2) = i + 1 := by omega
    rw [hall, hnext, HashChain.build_succ]
    rfl
  · have hsame : min (i + 1) (input.length - 2) = min i (input.length - 2) := by omega
    rw [hsame]

theorem foldl_insert_chainsAt (i n : ℕ) :
    (List.range n).foldl (fun t k => insert input t (i + k)) (chainsAt input i) =
      chainsAt input (i + n) := by
  induction n with
  | zero => rfl
  | succ n ih => rw [List.range_succ, List.foldl_append, ih, List.foldl_cons, List.foldl_nil,
      insert_chainsAt, Nat.add_assoc]

end Search

/-! ### Greedy factorisations -/

/-- The tokens of `input` from the place `i` on, where every copy is the longest among the
candidates at its place and the nearest of the longest ones, and a literal stands only where no
candidate repeats three bytes. -/
inductive Greedy (input : List UInt8) : ℕ → List Inflate.Token → Prop
  | stop {i : ℕ} (h : input.length ≤ i) : Greedy input i []
  | literal {i : ℕ} {ts : List Inflate.Token} (hi : i < input.length)
    (hshort : ∀ c ∈ candidates input i, agreement input i c < 3) (h : Greedy input (i + 1) ts) :
    Greedy input i (.literal (input.getD i 0) :: ts)
  | copy {i c : ℕ} {ts : List Inflate.Token} (hi : i < input.length) (hc : c ∈ candidates input i)
    (hlong : 3 ≤ agreement input i c)
    (hbest : ∀ c' ∈ candidates input i, agreement input i c' ≤ agreement input i c)
    (hnearest : ∀ c' ∈ candidates input i, c < c' → agreement input i c' < agreement input i c)
    (h : Greedy input (i + agreement input i c) ts) :
    Greedy input i (.copy (agreement input i c) (i - c) :: ts)

section Loop

variable {input : List UInt8}

theorem Greedy.factors {i : ℕ} {ts : List Inflate.Token} (h : Greedy input i ts) :
    Inflate.Factors input i ts := by
  induction h with
  | stop h => exact .stop h
  | literal hi _ _ ih => exact .literal hi ih
  | @copy i c ts hi hc hlong _ _ _ ih =>
    obtain ⟨hback, hwindow, -⟩ := mem_candidates hc
    obtain ⟨hmost, hwithin, hget⟩ := (le_agreement_iff hi.le).mp (le_refl (agreement input i c))
    rw [maxMatch] at hmost
    rw [window] at hwindow
    refine .copy ⟨hlong, hmost⟩ ⟨by omega, by omega⟩ (Nat.sub_le i c) hwithin (fun k hk => ?_) ih
    rw [Nat.sub_sub_self hback.le, hget k hk]

/-- The tokens of a factorisation have codes, and stand for as many bytes as there are. -/
theorem fits_of_factors {i : ℕ} {ts : List Inflate.Token} (h : Inflate.Factors input i ts) :
    (∀ t ∈ ts, TokenFits t) ∧ (ts.map tokenSize).sum = input.length - i := by
  induction h with
  | stop h =>
    exact ⟨fun t ht => absurd ht List.not_mem_nil, by rw [List.map_nil, List.sum_nil]; omega⟩
  | literal hi _ ih =>
    refine ⟨List.forall_mem_cons.mpr ⟨trivial, ih.1⟩, ?_⟩
    rw [List.map_cons, List.sum_cons, ih.2, tokenSize]
    omega
  | copy hlength hdist _ hwithin _ _ ih =>
    refine ⟨List.forall_mem_cons.mpr ⟨⟨hlength.1, hlength.2, hdist⟩, ih.1⟩, ?_⟩
    rw [List.map_cons, List.sum_cons, ih.2, tokenSize]
    omega

variable (input)

/-- **The loop puts a greedy factorisation.** -/
theorem deflateLoop_greedy (w : BitWriter) (i : ℕ) :
    ∃ ts, Greedy input i ts ∧ deflateLoop input (chainsAt input i) w i = ts.foldl putToken w := by
  induction hn : input.length - i using Nat.strong_induction_on generalizing i w with
  | _ n ih =>
    rw [deflateLoop]
    by_cases hi : i < input.length
    · rw [if_pos hi]
      obtain ⟨hnone, hall⟩ | ⟨front, c, back, hsplit, hfound, hpos, hfront, hback⟩ :=
        HashChain.choose_spec (agreement input i) (fun c => i - c) (0, 0)
          (candidates input i)
      · obtain ⟨ts, hts, hloop⟩ := ih (input.length - (i + 1)) (by omega)
          (putLiteral w (input.getD i 0).toNat) (i + 1) rfl
        refine ⟨_, .literal hi (fun c hc => (hall c hc).trans_lt (by decide)) hts, ?_⟩
        simp only [findMatch_chainsAt, hnone, show ¬3 ≤ 0 by decide, if_false]
        rw [insert_chainsAt]
        exact hloop
      · have hsorted := sorted_candidates input i
        rw [hsplit, List.pairwise_append, List.pairwise_cons] at hsorted
        have hle : ∀ c' ∈ candidates input i, agreement input i c' ≤ agreement input i c := by
          rw [hsplit]
          intro c' hc'
          rcases List.mem_append.mp hc' with hc' | hc'
          · exact (hfront c' hc').le
          · rcases List.mem_cons.mp hc' with rfl | hc'
            · exact le_rfl
            · exact hback c' hc'
        simp only [findMatch_chainsAt, hfound]
        by_cases hlong : 3 ≤ agreement input i c
        · obtain ⟨ts, hts, hloop⟩ := ih (input.length - (i + agreement input i c)) (by omega)
            (putMatch w (agreement input i c) (i - c)) (i + agreement input i c) rfl
          refine ⟨_, .copy hi (by rw [hsplit]; simp) hlong hle ?_ hts, ?_⟩
          · rw [hsplit]
            intro c' hc' hlt
            rcases List.mem_append.mp hc' with hc' | hc'
            · exact hfront c' hc'
            · rcases List.mem_cons.mp hc' with rfl | hc'
              · exact absurd hlt (lt_irrefl _)
              · exact absurd hlt (hsorted.2.1.1 c' hc').asymm
          · rw [if_pos hlong, foldl_insert_chainsAt]
            exact hloop
        · obtain ⟨ts, hts, hloop⟩ := ih (input.length - (i + 1)) (by omega)
            (putLiteral w (input.getD i 0).toNat) (i + 1) rfl
          refine ⟨_, .literal hi (fun c' hc' => (hle c' hc').trans_lt (not_le.mp hlong)) hts, ?_⟩
          rw [if_neg hlong, insert_chainsAt]
          exact hloop
    · rw [if_neg hi]
      exact ⟨[], .stop (not_lt.mp hi), rfl⟩

theorem chainsAt_zero : chainsAt input 0 = HashChain.Table.empty := by
  rw [chainsAt, Nat.zero_min]
  rfl

/-- **The stream of an input** is that of a greedy factorisation. -/
theorem exists_greedy : ∃ ts pad, Greedy input 0 ts ∧ pad < 8 ∧
    lsbOf (deflateFixed input) = streamBits ts pad := by
  obtain ⟨ts, hgreedy, hloop⟩ := deflateLoop_greedy input
    ((BitWriter.new.put 1 1).put 1 2) 0
  obtain ⟨pad, hpad, hbits⟩ := finish_tokens ts (fits_of_factors hgreedy.factors).1
  refine ⟨ts, pad, hgreedy, hpad, ?_⟩
  rw [deflateFixed, ← chainsAt_zero input, hloop]
  exact hbits

/-- Decompression, and the size of a stream. -/
theorem inflate_lsbOf_deflateFixed : ∃ pad < 8,
    Inflate.inflate (lsbOf (deflateFixed input)) = some (input, List.replicate pad false) ∧
      8 * (deflateFixed input).length ≤ 9 * input.length + 17 := by
  obtain ⟨ts, pad, hgreedy, hpad, hbits⟩ := exists_greedy input
  obtain ⟨hfits, hsize⟩ := fits_of_factors hgreedy.factors
  have hlength := length_streamBits_le hfits pad
  rw [← hbits, length_lsbOf, hsize] at hlength
  refine ⟨pad, hpad, ?_, by omega⟩
  rw [hbits]
  exact Inflate.inflate_append (fun t ht => (length_tokenBits (hfits t ht)).1)
    (fun t ht => readToken_tokenBits (hfits t ht)) readToken_stop hgreedy.factors.expand_eq _

/-- **The compressor.** The stream of every input is that of a greedy factorisation over the hash
chains: a copy is the longest match among the 48 nearest earlier places with the same hash, and the
nearest of the longest ones. Decompression gives the input, and the stream is longer than the input
by an eighth and three bytes at most. -/
theorem deflateFixed_exact :
    (∃ ts pad, Greedy input 0 ts ∧ pad < 8 ∧ lsbOf (deflateFixed input) = streamBits ts pad) ∧
      (∃ pad < 8, Inflate.inflate (lsbOf (deflateFixed input)) =
        some (input, List.replicate pad false)) ∧
      8 * (deflateFixed input).length ≤ 9 * input.length + 17 := by
  obtain ⟨pad, hpad, hinflate, hlength⟩ := inflate_lsbOf_deflateFixed input
  exact ⟨exists_greedy input, ⟨pad, hpad, hinflate⟩, hlength⟩

end Loop

/-! ### The checks -/

theorem toNat_crc32 (data : List UInt8) : (crc32 data).toNat = Checksum.crc32 data :=
  HumanizedHash.toNat_crc32 data

/-- A byte, if the sums are reduced. -/
theorem sums_adlerByte {s : UInt32 × UInt32} (h : Checksum.Reduced (sums s)) (v : UInt8) :
    sums (adlerByte s v) = Checksum.adlerStep (sums s) v := by
  obtain ⟨hfirst, hsecond⟩ : s.1.toNat < 65521 ∧ s.2.toNat < 65521 := h
  have hv := v.toNat_lt
  have ha : ((s.1 + v.toUInt32) % 65521).toNat = (s.1.toNat + v.toNat) % 65521 := by
    rw [UInt32.toNat_mod, UInt32.toNat_add, UInt8.toNat_toUInt32,
      Nat.mod_eq_of_lt (show s.1.toNat + v.toNat < 2 ^ 32 by omega)]
    rfl
  have hb : ((s.2 + (s.1 + v.toUInt32) % 65521) % 65521).toNat =
      (s.2.toNat + (s.1.toNat + v.toNat) % 65521) % 65521 := by
    rw [UInt32.toNat_mod, UInt32.toNat_add, ha, Nat.mod_eq_of_lt
      (show s.2.toNat + (s.1.toNat + v.toNat) % 65521 < 2 ^ 32 by omega)]
    rfl
  exact Prod.ext ha hb

theorem sums_foldl_adlerByte (data : List UInt8) {s : UInt32 × UInt32}
    (h : Checksum.Reduced (sums s)) :
    sums (data.foldl adlerByte s) = data.foldl Checksum.adlerStep (sums s) := by
  induction data generalizing s with
  | nil => rfl
  | cons v data ih =>
    have hnext : Checksum.Reduced (sums (adlerByte s v)) := by
      rw [sums_adlerByte h]
      exact Checksum.reduced_foldl h [v]
    rw [List.foldl_cons, List.foldl_cons, ih hnext, sums_adlerByte h]

/-- **The sums of the format**, reduced behind every byte. -/
theorem toNat_adler32 (data : List UInt8) : (adler32 data).toNat = Checksum.adler32 data := by
  have hstart : Checksum.Reduced (sums (1, 0)) := ⟨by decide, by decide⟩
  have hsums := sums_foldl_adlerByte data hstart
  have hreduced := Checksum.reduced_foldl hstart data
  rw [← hsums] at hreduced
  rw [adler32, Checksum.adler32, show ((1, 0) : ℕ × ℕ) = sums (1, 0) from rfl, ← hsums]
  generalize data.foldl adlerByte (1, 0) = t at hreduced ⊢
  obtain ⟨hfirst, hsecond⟩ : t.1.toNat < 65521 ∧ t.2.toNat < 65521 := hreduced
  have hshift : (t.2 <<< 16).toNat = t.2.toNat <<< 16 := by
    rw [UInt32.toNat_shiftLeft]
    refine Nat.mod_eq_of_lt ?_
    rw [Nat.shiftLeft_eq]
    exact (Nat.mul_lt_mul_of_pos_right hsecond (by decide)).trans (by decide)
  rw [UInt32.toNat_or, hshift, ← Nat.shiftLeft_add_eq_or_of_lt (hfirst.trans (by decide)),
    Nat.shiftLeft_eq]
  rfl

/-! ### The file -/

/-- **A chunk is put behind the output.** -/
theorem putChunk_eq (out type data : List UInt8) (hlength : data.length < 2 ^ 32) :
    putChunk out type data = out ++ Png.chunk type data := by
  rw [← HumanizedHash.putChunk_eq out type data hlength]
  rfl

section File

variable (c : Canvas) (withAlpha : Bool)

def colourType : UInt8 := if withAlpha then 6 else 2

/-- The pixels of a row in the terms of the format. -/
def rowColours (y : ℕ) : List Png.Colour :=
  (List.range c.width).map fun x =>
    let p := c.get x y
    (p.r, p.g, p.b, if withAlpha then p.a else 255)

/-- What the file of a canvas shows. -/
def pictureOf : Png.Picture :=
  ⟨⟨c.width, c.height, colourType withAlpha⟩, (List.range c.height).map (rowColours c withAlpha)⟩

theorem raw_eq : raw c withAlpha = ((List.range c.height).map (rowColours c withAlpha)).flatMap
    (Png.rowBytes (colourType withAlpha)) := by
  rw [raw, List.flatMap_map]
  refine List.flatMap_congr fun y _ => ?_
  rw [rawRow, Png.rowBytes, rowColours, List.flatMap_map]
  refine congrArg (0 :: ·) (List.flatMap_congr fun x _ => ?_)
  rw [Png.pixelBytes, colourType]
  cases withAlpha <;> rfl

theorem length_raw_le : (raw c withAlpha).length ≤ c.height * (1 + c.width * 4) := by
  have hpixel (y x : ℕ) : ([(c.get x y).r, (c.get x y).g, (c.get x y).b] ++
      if withAlpha then [(c.get x y).a] else []).length = if withAlpha then 4 else 3 := by
    cases withAlpha <;> rfl
  have hrow (y : ℕ) :
      (rawRow c withAlpha y).length = 1 + c.width * if withAlpha then 4 else 3 := by
    rw [rawRow, List.length_cons, Nat.add_comm 1]
    exact congrArg Nat.succ (Tables.length_rows (hpixel y) c.width)
  have hraw : (raw c withAlpha).length = c.height * (1 + c.width * if withAlpha then 4 else 3) :=
    Tables.length_rows hrow c.height
  rw [hraw]
  refine Nat.mul_le_mul_left _ (Nat.add_le_add_left (Nat.mul_le_mul_left _ ?_) 1)
  cases withAlpha <;> decide

/-- **Decoding undoes the writer.** The file of a canvas is read back to its dimensions and pixels;
without alpha the pixels are shown opaque. The image data is one chunk, which the canvas has to fit
even if every byte of its rows takes nine bits. -/
theorem writePng_decodes (hwidth : 0 < c.width) (hheight : 0 < c.height)
    (hsize : 9 * (c.height * (1 + c.width * 4)) + 65 < 8 * 2 ^ 31) :
    Png.parse (writePng c withAlpha) = some (pictureOf c withAlpha) := by
  obtain ⟨pad, hpad, hinflate, hlength⟩ := inflate_lsbOf_deflateFixed (raw c withAlpha)
  have hraw := length_raw_le c withAlpha
  have hrows : c.height ≤ c.width * c.height := Nat.le_mul_of_pos_left _ hwidth
  have hcolumns : c.width ≤ c.width * c.height := Nat.le_mul_of_pos_right _ hheight
  have hproduct : c.height * (1 + c.width * 4) = c.height + 4 * (c.width * c.height) := by ring
  have hsize4 (v : ℕ) (hv : v < 2 ^ 32) : putBe32 (UInt32.ofNat v) = bigEndian 4 v := by
    rw [putBe32_eq, UInt32.toNat_ofNat', Nat.mod_eq_of_lt hv]
  have hzlib : zlib c withAlpha = [0x78, 0x01] ++ (deflateFixed (raw c withAlpha) ++
      bigEndian 4 (Checksum.adler32 (raw c withAlpha))) := by
    rw [zlib, putBe32_eq, toNat_adler32, List.append_assoc]
  have hfits : (zlib c withAlpha).length < 2 ^ 31 := by
    rw [hzlib]
    simp only [List.length_append, length_bigEndian, List.length_cons, List.length_nil]
    omega
  have hihdr : ihdr c withAlpha = bigEndian 4 c.width ++ (bigEndian 4 c.height ++
      [8, colourType withAlpha, 0, 0, 0]) := by
    rw [ihdr, hsize4 _ (by omega), hsize4 _ (by omega), List.append_assoc]
    rfl
  have htype : colourType withAlpha = 2 ∨ colourType withAlpha = 6 := by
    cases withAlpha <;> decide
  have hheader (out type : List UInt8) : putChunk out type (ihdr c withAlpha) =
      out ++ Png.chunk type (ihdr c withAlpha) :=
    putChunk_eq out type _ (show 13 < 2 ^ 32 by decide)
  have hsrgb (out type : List UInt8) : putChunk out type [0] = out ++ Png.chunk type [0] :=
    putChunk_eq out type [0] (by decide)
  have hiend (out type : List UInt8) : putChunk out type [] = out ++ Png.chunk type [] :=
    putChunk_eq out type [] (by decide)
  rw [writePng, hheader, hsrgb, putChunk_eq _ _ _ (hfits.trans (by decide)), hiend]
  simp only [List.append_assoc]
  refine Png.parse_eq (show 13 < 2 ^ 31 by decide) ?_ hfits ?_ ?_ ?_ ?_
  · rw [hihdr]
    exact Png.readHeader_append ⟨hwidth, by omega⟩ ⟨hheight, by omega⟩ htype
  · rw [hzlib, Png.readZlib_append hpad hinflate, raw_eq]
  · rw [List.length_map, List.length_range]
  · intro row hrow
    obtain ⟨y, -, rfl⟩ := List.mem_map.mp hrow
    rw [rowColours, List.length_map, List.length_range]
  · intro hopaque row hrow p hp
    obtain ⟨y, -, rfl⟩ := List.mem_map.mp hrow
    obtain ⟨x, -, rfl⟩ := List.mem_map.mp hp
    cases withAlpha
    · rfl
    · exact absurd (show (6 : UInt8) = 2 from hopaque) (by decide)

end File

/-- A canvas of two pixels. -/
theorem writePng_decodes_pixels :
    Png.parse (writePng (.new 2 1 ⟨1, 2, 3, 4⟩) true) =
      some ⟨⟨2, 1, 6⟩, [[(1, 2, 3, 4), (1, 2, 3, 4)]]⟩ :=
  writePng_decodes (.new 2 1 ⟨1, 2, 3, 4⟩) true (by decide) (by decide) (by decide)

end Lab

end HumanizedHash
