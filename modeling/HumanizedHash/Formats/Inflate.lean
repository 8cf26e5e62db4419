import HumanizedHash.Foundations.CanonicalCode
import Mathlib.Data.List.GetD

/-!
# Decompression of a block with the fixed codes

A decompressor for a deflate stream that is one final block with the fixed codes. The codewords of
literals and lengths are those of the canonical code with the lengths that the format fixes; the
bases of lengths and distances are what the extra bits of the codes in front of them leave. A copy
must not reach back beyond the output, nor farther than the window.

## Main definitions

* `Inflate.Token`, `Inflate.readToken`, `Inflate.readTokens`: the symbols of a block.
* `Inflate.expand`: the output of a list of tokens.
* `Inflate.inflate`: the output of a stream, and the bits behind the end of the block.

## Main results

* `Inflate.readToken_literal`, `Inflate.readToken_copy`, `Inflate.readToken_end`.
* `Inflate.inflate_append`: a stream of tokens is read back.
* `Inflate.copyBack_take`: a copy of what a list repeats.
-/

namespace HumanizedHash

open Bits

namespace Inflate

/-! ### The codes -/

/-- The length of the codeword of a literal or a length. -/
def codeLength (symbol : ℕ) : ℕ :=
  if symbol < 144 then 8 else if symbol < 256 then 9 else if symbol < 280 then 7 else 8

/-- The symbols whose codewords have the length `len`. -/
def symbolsOf (len : ℕ) : List ℕ := (List.range 288).filter fun s => codeLength s = len

def fixedSymbols : List ℕ := (List.range 9).flatMap fun l => symbolsOf (l + 1)

def fixedCounts : List ℕ := (List.range 9).map fun l => (symbolsOf (l + 1)).length

/-- The number of extra bits of the length code `257 + i`. -/
def lengthExtra (i : ℕ) : ℕ := if i < 28 then i / 4 - 1 else 0

/-- The least length of the code `257 + i`. The last code stands for the greatest length only. -/
def lengthBase (i : ℕ) : ℕ :=
  if i < 28 then 3 + ((List.range i).map fun j => 2 ^ lengthExtra j).sum else 258

/-- The number of extra bits of the distance code `i`. -/
def distExtra (i : ℕ) : ℕ := i / 2 - 1

/-- The least distance of the code `i`. -/
def distBase (i : ℕ) : ℕ := 1 + ((List.range i).map fun j => 2 ^ distExtra j).sum

/-! ### Tokens -/

/-- A literal byte, or a copy of `length` bytes from `dist` bytes back. -/
inductive Token
  | literal (b : UInt8)
  | copy (length dist : ℕ)

/-- A token off the front of a stream; none stands for the end of the block. -/
def readToken (bits : List Bool) : Option (Option Token × List Bool) := do
  let (symbol, bits) ← Canonical.decode 0 0 fixedCounts fixedSymbols bits
  if symbol < 256 then
    return (some (.literal (UInt8.ofNat symbol)), bits)
  else if symbol = 256 then
    return (none, bits)
  else if symbol < 286 then
    let (e, bits) ← takeLsb (lengthExtra (symbol - 257)) bits
    let (di, bits) ← takeMsb 5 bits
    if di < 30 then
      let (d, bits) ← takeLsb (distExtra di) bits
      return (some (.copy (lengthBase (symbol - 257) + e) (distBase di + d)), bits)
    else
      none
  else
    none

/-- The tokens of a block, at most `fuel` with its end. -/
def readTokens : ℕ → List Bool → Option (List Token × List Bool)
  | 0, _ => none
  | fuel + 1, bits =>
    (readToken bits).bind fun (t, bits) =>
      match t with
      | none => some ([], bits)
      | some t => (readTokens fuel bits).map fun (ts, bits) => (t :: ts, bits)

/-! ### The output -/

/-- `n` bytes are copied one by one, so a copy may overlap what it writes. -/
def copyBack (dist : ℕ) : ℕ → List UInt8 → List UInt8
  | 0, out => out
  | n + 1, out => copyBack dist n (out ++ [out.getD (out.length - dist) 0])

/-- The output with a token behind it. -/
def extend (out : List UInt8) : Token → Option (List UInt8)
  | .literal b => some (out ++ [b])
  | .copy length dist =>
    if 1 ≤ dist ∧ dist ≤ out.length ∧ dist ≤ 32768 then some (copyBack dist length out) else none

/-- The output of a list of tokens behind `out`. -/
def expand : List Token → List UInt8 → Option (List UInt8)
  | [], out => some out
  | t :: ts, out => (extend out t).bind (expand ts)

/-- The output of a stream that is one final block with the fixed codes, and the bits behind the
end of the block. -/
def inflate (bits : List Bool) : Option (List UInt8 × List Bool) := do
  let (final, bits) ← takeLsb 1 bits
  let (kind, bits) ← takeLsb 2 bits
  if final = 1 ∧ kind = 1 then
    let (tokens, bits) ← readTokens (bits.length + 1) bits
    let out ← expand tokens []
    return (out, bits)
  else
    none

/-! ### Reading tokens -/

/-- The codewords of the fixed code. -/
abbrev Codeword (symbol len code : ℕ) : Prop :=
  (⟨symbol, len, code⟩ : Canonical.Entry ℕ) ∈ Canonical.codewords fixedCounts fixedSymbols

theorem kraft_fixedCounts : Canonical.Kraft fixedCounts := by decide +kernel

section Read

variable {symbol len code : ℕ}

theorem decode_codeword (h : Codeword symbol len code) (rest : List Bool) :
    Canonical.decode 0 0 fixedCounts fixedSymbols (msb len code ++ rest) = some (symbol, rest) :=
  Canonical.decode_append kraft_fixedCounts h rest

theorem readToken_literal {b : UInt8} (h : Codeword b.toNat len code) (rest : List Bool) :
    readToken (msb len code ++ rest) = some (some (.literal b), rest) := by
  rw [readToken, decode_codeword h]
  simp only [Option.bind_eq_bind, Option.bind_some, if_pos b.toNat_lt, UInt8.ofNat_toNat]
  rfl

theorem readToken_end (h : Codeword 256 len code) (rest : List Bool) :
    readToken (msb len code ++ rest) = some (none, rest) := by
  rw [readToken, decode_codeword h]
  rfl

theorem readToken_copy {li e di d : ℕ} (h : Codeword (257 + li) len code) (hli : li < 29)
    (he : e < 2 ^ lengthExtra li) (hdi : di < 30) (hd : d < 2 ^ distExtra di)
    (rest : List Bool) :
    readToken (msb len code ++ (lsb (lengthExtra li) e ++ (msb 5 di ++
      (lsb (distExtra di) d ++ rest)))) =
      some (some (.copy (lengthBase li + e) (distBase di + d)), rest) := by
  have hcode : di < 2 ^ 5 := by omega
  rw [readToken, decode_codeword h]
  simp only [Option.bind_eq_bind, Option.bind_some]
  rw [if_neg (by omega), if_neg (by omega), if_pos (by omega), Nat.add_sub_cancel_left,
    takeLsb_append he]
  simp only [Option.bind_some, takeMsb_append hcode, if_pos hdi, takeLsb_append hd]
  rfl

end Read

/-- **Tokens one behind the other are read**, up to the end of the block. -/
theorem readTokens_append {encode : Token → List Bool} {stop : List Bool} (ts : List Token)
    (hts : ∀ t ∈ ts, ∀ rest, readToken (encode t ++ rest) = some (some t, rest))
    (hstop : ∀ rest, readToken (stop ++ rest) = some (none, rest)) (rest : List Bool) {fuel : ℕ}
    (hfuel : ts.length < fuel) :
    readTokens fuel (ts.flatMap encode ++ (stop ++ rest)) = some (ts, rest) := by
  induction ts generalizing fuel with
  | nil =>
    obtain ⟨fuel, rfl⟩ := Nat.exists_eq_add_of_lt hfuel
    rw [List.flatMap_nil, List.nil_append, readTokens, hstop]
    rfl
  | cons t ts ih =>
    obtain ⟨fuel, rfl⟩ : ∃ k, fuel = k + 1 := ⟨fuel - 1, by omega⟩
    have htail := ih (fun s hs => hts s (List.mem_cons_of_mem t hs)) (Nat.lt_of_succ_lt_succ hfuel)
    rw [List.flatMap_cons, List.append_assoc, readTokens, hts t List.mem_cons_self]
    simp only [Option.bind_some, htail, Option.map_some]

/-- **A stream of tokens is read back.** -/
theorem inflate_append {encode : Token → List Bool} {stop : List Bool} {ts : List Token}
    {out : List UInt8} (hpos : ∀ t ∈ ts, 0 < (encode t).length)
    (hts : ∀ t ∈ ts, ∀ rest, readToken (encode t ++ rest) = some (some t, rest))
    (hstop : ∀ rest, readToken (stop ++ rest) = some (none, rest)) (hout : expand ts [] = some out)
    (rest : List Bool) :
    inflate (lsb 1 1 ++ (lsb 2 1 ++ (ts.flatMap encode ++ (stop ++ rest)))) = some (out, rest) := by
  have hlength : ts.length ≤ (ts.flatMap encode).length := by
    clear hts hout
    induction ts with
    | nil => exact Nat.zero_le _
    | cons t ts ih =>
      have hhead := hpos t List.mem_cons_self
      have htail := ih fun s hs => hpos s (List.mem_cons_of_mem t hs)
      rw [List.flatMap_cons, List.length_append, List.length_cons]
      omega
  have htokens := readTokens_append ts hts hstop rest
    (show ts.length < (ts.flatMap encode ++ (stop ++ rest)).length + 1 by
      rw [List.length_append]; omega)
  rw [inflate, takeLsb_append (by decide)]
  simp only [Option.bind_eq_bind, Option.bind_some, takeLsb_append (show 1 < 2 ^ 2 by decide),
    and_self, if_true, htokens, hout]
  rfl

/-! ### Copies -/

/-- **A copy of what a list repeats** extends a prefix of the list. -/
theorem copyBack_take {raw : List UInt8} {i dist n : ℕ} (hpos : 1 ≤ dist) (hdist : dist ≤ i)
    (hn : i + n ≤ raw.length) (hmatch : ∀ k < n, raw.getD (i + k) 0 = raw.getD (i - dist + k) 0) :
    copyBack dist n (raw.take i) = raw.take (i + n) := by
  induction n generalizing i with
  | zero => rfl
  | succ n ih =>
    have hi : i < raw.length := by omega
    have hlast : (raw.take i).getD ((raw.take i).length - dist) 0 = raw[i] := by
      have hfirst := hmatch 0 (Nat.succ_pos n)
      rw [Nat.add_zero, Nat.add_zero, List.getD_eq_getElem raw 0 hi] at hfirst
      rw [List.length_take, Nat.min_eq_left hi.le, hfirst, List.getD_eq_getElem?_getD,
        List.getD_eq_getElem?_getD, List.getElem?_take_of_lt (by omega)]
    have hstep (k : ℕ) (hk : k < n) :
        raw.getD (i + 1 + k) 0 = raw.getD (i + 1 - dist + k) 0 := by
      have hnext := hmatch (k + 1) (Nat.succ_lt_succ hk)
      rwa [show i + (k + 1) = i + 1 + k by omega,
        show i - dist + (k + 1) = i + 1 - dist + k by omega] at hnext
    rw [copyBack, hlast, List.take_append_getElem hi, ih (by omega) (by omega) hstep,
      show i + 1 + n = i + (n + 1) by omega]

/-- A match extends a prefix of the list. -/
theorem extend_copy {raw : List UInt8} {i dist n : ℕ} (hpos : 1 ≤ dist) (hdist : dist ≤ i)
    (hwindow : dist ≤ 32768) (hn : i + n ≤ raw.length)
    (hmatch : ∀ k < n, raw.getD (i + k) 0 = raw.getD (i - dist + k) 0) :
    extend (raw.take i) (.copy n dist) = some (raw.take (i + n)) := by
  have hlength : dist ≤ (raw.take i).length := by
    rw [List.length_take]
    omega
  rw [extend, if_pos ⟨hpos, hlength, hwindow⟩, copyBack_take hpos hdist hn hmatch]

/-- A literal extends a prefix of the list. -/
theorem extend_literal {raw : List UInt8} {i : ℕ} (hi : i < raw.length) :
    extend (raw.take i) (.literal (raw.getD i 0)) = some (raw.take (i + 1)) := by
  rw [extend, List.getD_eq_getElem raw 0 hi, List.take_append_getElem hi]

end Inflate

end HumanizedHash
