import Mathlib.Data.List.Basic
import Mathlib.Tactic.Linarith

/-!
# Folding a compression function over fixed-size blocks

An iterated hash reads its input in blocks of a fixed size `B`: a compression function
`f : σ → List β → σ` takes the chaining state and one block to the next state. This file folds
such a function over the whole blocks of a list and keeps the incomplete block that is left
over, and proves the one law that every streaming implementation rests on: absorbing `l ++ m` is
absorbing `l` and then what `l` left over followed by `m`.

## Main definitions

* `BlockFold.absorb`: the state after the whole blocks of a list, and the list left over.

## Main results

* `BlockFold.absorb_append`: the absorption of a concatenation.
* `BlockFold.length_snd_absorb`: the length of what is left over.
* `BlockFold.absorb_block`: a whole block in front is compressed first.
-/

namespace BlockFold

variable {σ β : Type*} (B : ℕ) (f : σ → List β → σ)

/-- The state after the whole blocks of `l`, and the incomplete block that is left over. With
`B = 0` nothing is absorbed. -/
def absorb (s : σ) (l : List β) : σ × List β :=
  if 0 < B ∧ B ≤ l.length then absorb (f s (l.take B)) (l.drop B) else (s, l)
termination_by l.length
decreasing_by simp only [List.length_drop]; omega

variable {B f}

/-- A list shorter than a block is left over as it is. -/
theorem absorb_of_length_lt (s : σ) {l : List β} (h : l.length < B) :
    absorb B f s l = (s, l) := by
  rw [absorb, if_neg (by omega)]

/-- A whole block in front of a list is compressed first. -/
theorem absorb_block (hB : 0 < B) (s : σ) {b : List β} (hb : b.length = B) (l : List β) :
    absorb B f s (b ++ l) = absorb B f (f s b) l := by
  rw [absorb, if_pos ⟨hB, by simp only [List.length_append]; omega⟩, List.take_left' hb,
    List.drop_left' hb]

/-- Nothing is left over from a single block. -/
theorem absorb_single (hB : 0 < B) (s : σ) {b : List β} (hb : b.length = B) :
    absorb B f s b = (f s b, []) := by
  have h := absorb_block (f := f) hB s hb []
  rw [List.append_nil] at h
  rw [h, absorb_of_length_lt _ (by simpa using hB)]

/-- What is left over is the remainder of the length by the size of a block. -/
theorem length_snd_absorb (s : σ) (l : List β) :
    (absorb B f s l).2.length = if 0 < B then l.length % B else l.length := by
  fun_induction absorb B f s l with
  | case1 s l h ih =>
    rw [ih, if_pos h.1, if_pos h.1, List.length_drop, Nat.mod_eq_sub_mod h.2]
  | case2 s l h =>
    split
    · rw [Nat.mod_eq_of_lt (by omega)]
    · rfl

theorem length_snd_absorb_lt (hB : 0 < B) (s : σ) (l : List β) :
    (absorb B f s l).2.length < B := by
  rw [length_snd_absorb, if_pos hB]
  exact Nat.mod_lt _ hB

/-- **Streaming.** To absorb a concatenation, absorb its first part and then what that part left
over followed by the second part. -/
theorem absorb_append (s : σ) (l m : List β) :
    absorb B f s (l ++ m) = absorb B f (absorb B f s l).1 ((absorb B f s l).2 ++ m) := by
  fun_induction absorb B f s l with
  | case1 s l h ih =>
    have hsplit : l ++ m = l.take B ++ (l.drop B ++ m) := by
      rw [← List.append_assoc, List.take_append_drop]
    rw [← ih, hsplit, absorb_block h.1 s (List.length_take_of_le h.2)]
  | case2 s l h => rfl

/-- Lists of whole blocks leave nothing over. -/
theorem snd_absorb_of_dvd (hB : 0 < B) (s : σ) {l : List β} (h : B ∣ l.length) :
    (absorb B f s l).2 = [] := by
  rw [← List.length_eq_zero_iff, length_snd_absorb, if_pos hB, Nat.mod_eq_zero_of_dvd h]

/-- Absorbing past whole blocks continues from the state they gave. -/
theorem absorb_append_of_dvd (hB : 0 < B) (s : σ) {l : List β} (h : B ∣ l.length) (m : List β) :
    absorb B f s (l ++ m) = absorb B f (absorb B f s l).1 m := by
  rw [absorb_append, snd_absorb_of_dvd hB s h, List.nil_append]

end BlockFold
