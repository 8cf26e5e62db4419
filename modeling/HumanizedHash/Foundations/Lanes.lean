import Mathlib.Data.Nat.Bitwise
import Mathlib.Logic.Function.Iterate
import Mathlib.Tactic.Ring

/-!
# Words in the lanes of a number

Many 32-bit words as one natural number, each in a lane of 64 bits. An operation on such numbers is
the operation on all words at once, so that a computation on many words costs about as much as one
on a single word. Sums are cut back to words by a mask; for a rotation a word is first doubled to
fill its lane.

## Main definitions

* `Lanes.pack`: numbers in lanes.
* `Lanes.words`, `Lanes.ones`, `Lanes.mask`: words in lanes.
* `Lanes.force`, `Lanes.iterate`: what is evaluated before it is used.

## Main results

* `Lanes.pack_xor`, `Lanes.pack_land`, `Lanes.pack_shiftRight_land`: the operations on lanes.
* `Lanes.add_words`, `Lanes.rotate_words`, `Lanes.shift_words`: the operations on words.
* `Lanes.words_inj`: the words are determined by the number.
-/

namespace HumanizedHash

namespace Lanes

variable {ι α : Type*}

/-- The value of `f` at the evaluated number `x`. -/
def force (x : ℕ) (f : ℕ → α) : α := Nat.rec (f 0) (fun n _ => f n.succ) x

@[simp] theorem force_eq (x : ℕ) (f : ℕ → α) : force x f = f x := by
  cases x <;> rfl

/-- `n` steps of `f`, each evaluated before the next one. -/
def iterate (evaluate : α → (α → α) → α) (f : α → α) : ℕ → α → α
  | 0, a => a
  | n + 1, a => evaluate (f a) (iterate evaluate f n)

theorem iterate_eq {evaluate : α → (α → α) → α} (h : ∀ a g, evaluate a g = g a) (f : α → α) (n : ℕ)
    (a : α) : iterate evaluate f n a = f^[n] a := by
  induction n generalizing a with
  | zero => rfl
  | succ n ih => rw [iterate, h, ih, Function.iterate_succ_apply]

/-! ### Numbers in lanes -/

/-- Numbers in lanes of 64 bits, the first one in the lowest lane. -/
def pack : List ι → (ι → ℕ) → ℕ
  | [], _ => 0
  | i :: l, f => 2 ^ 64 * pack l f + f i

variable (l : List ι) {f g : ι → ℕ}

theorem pack_add (f g : ι → ℕ) : pack l f + pack l g = pack l fun i => f i + g i := by
  induction l with
  | nil => rfl
  | cons i l ih =>
    rw [pack, pack, pack, ← ih]
    ring

theorem pack_mul (c : ℕ) (f : ι → ℕ) : pack l f * c = pack l fun i => f i * c := by
  induction l with
  | nil => exact Nat.zero_mul c
  | cons i l ih =>
    rw [pack, pack, ← ih]
    ring

theorem pack_xor (hf : ∀ i, f i < 2 ^ 64) (hg : ∀ i, g i < 2 ^ 64) :
    pack l f ^^^ pack l g = pack l fun i => f i ^^^ g i := by
  induction l with
  | nil => exact Nat.xor_self 0
  | cons i l ih =>
    refine Nat.eq_of_testBit_eq fun j => ?_
    rw [pack, pack, pack, ← ih, Nat.testBit_xor, Nat.testBit_two_pow_mul_add _ (hf i),
      Nat.testBit_two_pow_mul_add _ (hg i),
      Nat.testBit_two_pow_mul_add _ (Nat.xor_lt_two_pow (hf i) (hg i)), Nat.testBit_xor,
      Nat.testBit_xor]
    split_ifs <;> rfl

theorem pack_land (hf : ∀ i, f i < 2 ^ 64) (hg : ∀ i, g i < 2 ^ 64) :
    pack l f &&& pack l g = pack l fun i => f i &&& g i := by
  induction l with
  | nil => exact Nat.and_self 0
  | cons i l ih =>
    refine Nat.eq_of_testBit_eq fun j => ?_
    rw [pack, pack, pack, ← ih, Nat.testBit_and, Nat.testBit_two_pow_mul_add _ (hf i),
      Nat.testBit_two_pow_mul_add _ (hg i),
      Nat.testBit_two_pow_mul_add _ (Nat.and_lt_two_pow _ (hg i)), Nat.testBit_and,
      Nat.testBit_and]
    split_ifs <;> rfl

/-- The mask of the words. -/
def mask (l : List ι) : ℕ := pack l fun _ => 2 ^ 32 - 1

/-- **A shift, cut back to words.** The bits that come in from the next lane are masked. -/
theorem pack_shiftRight_land (hf : ∀ i, f i < 2 ^ 64) {k : ℕ} (hk : k ≤ 32) :
    (pack l f >>> k) &&& mask l = pack l fun i => (f i >>> k) % 2 ^ 32 := by
  have hmask : 2 ^ 32 - 1 < 2 ^ 64 := by decide
  induction l with
  | nil =>
    rw [pack, Nat.zero_shiftRight, Nat.zero_and]
    rfl
  | cons i l ih =>
    rw [mask] at ih
    refine Nat.eq_of_testBit_eq fun j => ?_
    have hlow : (f i >>> k) % 2 ^ 32 < 2 ^ 64 :=
      (Nat.mod_lt _ (Nat.two_pow_pos 32)).trans (Nat.pow_lt_pow_right one_lt_two (by decide))
    rw [mask, pack, pack, pack, ← ih, Nat.testBit_and, Nat.testBit_shiftRight,
      Nat.testBit_two_pow_mul_add _ (hf i), Nat.testBit_two_pow_mul_add _ hmask,
      Nat.testBit_two_pow_mul_add _ hlow, Nat.testBit_and, Nat.testBit_shiftRight,
      Nat.testBit_mod_two_pow, Nat.testBit_shiftRight, Nat.testBit_two_pow_sub_one]
    rcases lt_or_ge j 32 with hj | hj
    · rw [if_pos (show k + j < 64 by omega), if_pos (show j < 64 by omega),
        if_pos (show j < 64 by omega), Bool.and_comm]
    · rcases lt_or_ge j 64 with hj' | hj'
      · rw [if_pos hj', if_pos hj', decide_eq_false (not_lt.mpr hj), Bool.and_false,
          Bool.false_and]
      · rw [if_neg (show ¬k + j < 64 by omega), if_neg (not_lt.mpr hj'), if_neg (not_lt.mpr hj'),
          Nat.add_sub_assoc hj']

theorem pack_inj (hf : ∀ i, f i < 2 ^ 64) (hg : ∀ i, g i < 2 ^ 64) (h : pack l f = pack l g) :
    ∀ i ∈ l, f i = g i := by
  induction l with
  | nil => exact fun i hi => absurd hi List.not_mem_nil
  | cons i l ih =>
    have hi := hf i
    have hi' := hg i
    rw [pack, pack] at h
    exact List.forall_mem_cons.mpr ⟨by omega, ih (by omega)⟩

/-! ### Words in lanes -/

/-- Words in lanes. -/
def words (l : List ι) (f : ι → UInt32) : ℕ := pack l fun i => (f i).toNat

/-- A one in every lane. -/
def ones (l : List ι) : ℕ := pack l fun _ => 1

section Words

variable {f g : ι → UInt32}

theorem toNat_lt_lane (x : UInt32) : x.toNat < 2 ^ 64 :=
  x.toNat_lt.trans (Nat.pow_lt_pow_right one_lt_two (by decide))

/-- The same word in every lane. -/
theorem ones_mul (x : UInt32) : ones l * x.toNat = words l fun _ => x := by
  simp only [ones, words, pack_mul, Nat.one_mul]

theorem xor_words : words l f ^^^ words l g = words l fun i => f i ^^^ g i := by
  simp only [words, pack_xor l (fun i => toNat_lt_lane (f i)) (fun i => toNat_lt_lane (g i)),
    UInt32.toNat_xor]

theorem land_words : words l f &&& words l g = words l fun i => f i &&& g i := by
  simp only [words, pack_land l (fun i => toNat_lt_lane (f i)) (fun i => toNat_lt_lane (g i)),
    UInt32.toNat_and]

theorem words_inj (h : words l f = words l g) : ∀ i ∈ l, f i = g i := fun i hi =>
  UInt32.toNat_inj.mp
    (pack_inj l (fun i => toNat_lt_lane (f i)) (fun i => toNat_lt_lane (g i)) h i hi)

/-- A sum of words. -/
theorem add_words : (words l f + words l g) &&& mask l = words l fun i => f i + g i := by
  have hsum (i : ι) : (f i).toNat + (g i).toNat < 2 ^ 64 := by
    have hf := (f i).toNat_lt
    have hg := (g i).toNat_lt
    omega
  have hshift := pack_shiftRight_land l hsum (Nat.zero_le 32)
  rw [Nat.shiftRight_zero, ← pack_add] at hshift
  rw [words, words, hshift, words]
  simp only [Nat.shiftRight_zero, UInt32.toNat_add]

/-- A shift of words. -/
theorem shift_words {k : ℕ} (hk : k < 32) :
    (words l f >>> k) &&& mask l = words l fun i => f i >>> UInt32.ofNat k := by
  have hcount : (UInt32.ofNat k).toNat % 32 = k := by
    rw [UInt32.toNat_ofNat', Nat.mod_mod_of_dvd _ (by decide), Nat.mod_eq_of_lt hk]
  have hshift (i : ι) : (f i).toNat >>> k % 2 ^ 32 = (f i >>> UInt32.ofNat k).toNat := by
    rw [UInt32.toNat_shiftRight, hcount,
      Nat.mod_eq_of_lt ((Nat.shiftRight_le _ k).trans_lt (f i).toNat_lt)]
  rw [words, pack_shiftRight_land l (fun i => toNat_lt_lane (f i)) hk.le, words]
  simp only [hshift]

/-- A rotation of a word: the word is doubled. -/
theorem toNat_rotate (x : UInt32) {k : ℕ} (hpos : 0 < k) (hk : k < 32) :
    ((x >>> UInt32.ofNat k) ||| (x <<< (32 - UInt32.ofNat k))).toNat =
      (x.toNat * (2 ^ 32 + 1)) >>> k % 2 ^ 32 := by
  have hcount : (UInt32.ofNat k).toNat = k := by
    rw [UInt32.toNat_ofNat', Nat.mod_eq_of_lt (by omega)]
  have hback : (32 - UInt32.ofNat k).toNat = 32 - k := by
    rw [UInt32.toNat_sub_of_le _ _ (by rw [UInt32.le_iff_toNat_le, hcount]; exact hk.le), hcount]
    rfl
  have hdouble : x.toNat * (2 ^ 32 + 1) = 2 ^ 32 * x.toNat + x.toNat := by ring
  refine Nat.eq_of_testBit_eq fun j => ?_
  rw [UInt32.toNat_or, UInt32.toNat_shiftRight, UInt32.toNat_shiftLeft, hcount, hback,
    Nat.mod_eq_of_lt hk, Nat.mod_eq_of_lt (show 32 - k < 32 by omega), hdouble, Nat.testBit_or,
    Nat.testBit_shiftRight, Nat.testBit_mod_two_pow, Nat.testBit_shiftLeft,
    Nat.testBit_mod_two_pow, Nat.testBit_shiftRight, Nat.testBit_two_pow_mul_add _ x.toNat_lt]
  rcases lt_or_ge j 32 with hj | hj
  · rw [decide_eq_true hj, Bool.true_and, Bool.true_and]
    rcases lt_or_ge (k + j) 32 with hlow | hhigh
    · rw [if_pos hlow, decide_eq_false (show ¬32 - k ≤ j by omega), Bool.false_and, Bool.or_false]
    · have hzero : x.toNat.testBit (k + j) = false :=
        Nat.testBit_lt_two_pow (x.toNat_lt.trans_le (Nat.pow_le_pow_right two_pos hhigh))
      rw [if_neg (not_lt.mpr hhigh), hzero, decide_eq_true (show 32 - k ≤ j by omega),
        Bool.true_and, Bool.false_or, show j - (32 - k) = k + j - 32 by omega]
  · have hzero : x.toNat.testBit (k + j) = false :=
      Nat.testBit_lt_two_pow (x.toNat_lt.trans_le (Nat.pow_le_pow_right two_pos (by omega)))
    rw [decide_eq_false (not_lt.mpr hj), Bool.false_and, Bool.false_and, hzero, Bool.or_false]

/-- A rotation of words. -/
theorem rotate_words {k : ℕ} (hpos : 0 < k) (hk : k < 32) :
    ((words l f * (2 ^ 32 + 1)) >>> k) &&& mask l =
      words l fun i => (f i >>> UInt32.ofNat k) ||| (f i <<< (32 - UInt32.ofNat k)) := by
  have hdouble (i : ι) : (f i).toNat * (2 ^ 32 + 1) < 2 ^ 64 := by
    have hf := (f i).toNat_lt
    omega
  rw [words, pack_mul, pack_shiftRight_land l hdouble hk.le, words]
  simp only [toNat_rotate _ hpos hk]

end Words

end Lanes

end HumanizedHash
