import HumanizedHash.Formats.Inflate

/-!
# Factorisations of a byte string

A list of tokens is a factorisation of a byte string if each token stands for the bytes at its
place: a literal for the byte itself, a copy for bytes that repeat earlier ones, at a length and a
distance that the format has codes for. How the copies are found is left open. A factorisation
expands to the byte string.

## Main definitions

* `Inflate.Factors`: the factorisations of the bytes from a place on.

## Main results

* `Inflate.Factors.expand_eq`: a factorisation expands to the byte string.
-/

namespace HumanizedHash

namespace Inflate

/-- The tokens stand for the bytes of `raw` from the place `i` on. -/
inductive Factors (raw : List UInt8) : ℕ → List Token → Prop
  | stop {i : ℕ} (h : raw.length ≤ i) : Factors raw i []
  | literal {i : ℕ} {ts : List Token} (hi : i < raw.length) (h : Factors raw (i + 1) ts) :
    Factors raw i (.literal (raw.getD i 0) :: ts)
  | copy {i length dist : ℕ} {ts : List Token} (hlength : 3 ≤ length ∧ length ≤ 258)
    (hdist : 1 ≤ dist ∧ dist ≤ 32768) (hback : dist ≤ i) (hwithin : i + length ≤ raw.length)
    (hget : ∀ k < length, raw.getD (i + k) 0 = raw.getD (i - dist + k) 0)
    (h : Factors raw (i + length) ts) : Factors raw i (.copy length dist :: ts)

namespace Factors

variable {raw : List UInt8} {i : ℕ} {ts : List Token}

/-- **A factorisation expands to the byte string.** -/
theorem expand_eq (h : Factors raw i ts) : expand ts (raw.take i) = some raw := by
  induction h with
  | stop h => rw [expand, List.take_of_length_le h]
  | literal hi _ ih =>
    rw [expand, extend_literal hi]
    exact ih
  | copy _ hdist hback hwithin hget _ ih =>
    rw [expand, extend_copy hdist.1 hback hdist.2 hwithin hget]
    exact ih

end Factors

end Inflate

end HumanizedHash
