import HumanizedHash.Foundations.Storage
import Mathlib.Algebra.BigOperators.Fin
import Mathlib.Algebra.Order.Ring.Int
import Mathlib.LinearAlgebra.Matrix.Notation
import Mathlib.Tactic.FinCases
import Mathlib.Tactic.LinearCombination
import Mathlib.Tactic.Positivity

/-!
# The forward transform of the JPEG encoder

The transform of `src/jpeg.cpp` on signed 32-bit integers. What the machine makes of a
mathematical value is a parameter `i32`, applied to every sum, difference, product, negation and
shift: `unbounded` keeps the value, `checked` has no result when it does not fit 32 bits.

## Main definitions

* `unbounded`, `checked`: the two readings of `i32`.
* `descale`, `dctPass`, `forwardDct`.
* `passMatrix`, `passValue`: one pass as a linear map with rounding.
* `transform`: the transform on exact integers.

## Main results

* `passValues_unbounded`, `passValues_checked`: the arithmetic of a pass, which over small values
  does not overflow.
* `forwardDct_checked`: the transform of a block of samples does not overflow.
* `transform_lane`, `transform_zero`: the outputs, and the first one as the sum of the block.

## References

* `src/src/jpeg.cpp`, `src/docs/SPEC.md` (section 13.5).
-/

namespace HumanizedHash

/-! ### Thirty-two bits -/

/-- Exact integers. -/
def unbounded (x : ℤ) : Id ℤ := x

/-- A signed 32-bit integer: a value that does not fit has no result. -/
def checked (x : ℤ) : Option ℤ :=
  if -2147483648 ≤ x ∧ x ≤ 2147483647 then some x else none

/-! ### The code -/

/-- `block`: 64 values, by their offset. -/
abbrev Block := Vector ℤ 64

namespace Block

def load (d : Block) (a : ℕ) : ℤ := d[a]?.getD 0

def store (d : Block) (a : ℕ) (v : ℤ) : Block := d.setIfInBounds a v

theorem load_store {d : Block} {a : ℕ} (ha : a < 64) (v : ℤ) :
    (d.store a v).load = Function.update d.load a v := by
  funext b
  rw [load, store, Vector.getElem?_setIfInBounds, Function.update_apply]
  by_cases hab : a = b
  · rw [if_pos hab, if_pos hab.symm, if_pos ha, Option.getD_some]
  · rw [if_neg hab, if_neg (Ne.symm hab), load]

theorem get_eq_load (d : Block) (i : Fin 64) : d.get i = d.load i := by
  rw [load, Vector.getElem?_eq_getElem i.isLt, Option.getD_some]
  rfl

end Block

section Code

variable {m : Type → Type} [Monad m] (i32 : ℤ → m ℤ)

/-- `descale`: a shift of a value that is not negative. -/
def descale (x : ℤ) (n : ℕ) : m ℤ := do
  let half ← i32 (2 ^ (n - 1))
  let v ← i32 (x + half)
  if 0 ≤ v then
    i32 (v / 2 ^ n)
  else
    let negated ← i32 (-v)
    let one ← i32 (2 ^ n)
    let u ← i32 (negated + one)
    let u ← i32 (u - 1)
    i32 (-(u / 2 ^ n))

def f0298 : ℤ := 2446
def f0390 : ℤ := 3196
def f0541 : ℤ := 4433
def f0765 : ℤ := 6270
def f0899 : ℤ := 7373
def f1175 : ℤ := 9633
def f1501 : ℤ := 12299
def f1847 : ℤ := 15137
def f1961 : ℤ := 16069
def f2053 : ℤ := 16819
def f2562 : ℤ := 20995
def f3072 : ℤ := 25172

/-- The arithmetic of `dct_pass` on the eight values of a row or a column. -/
def passValues (x : Fin 8 → ℤ) (first : Bool) : m (Vector ℤ 8) := do
  let t0 ← i32 (x 0 + x 7)
  let t7 ← i32 (x 0 - x 7)
  let t1 ← i32 (x 1 + x 6)
  let t6 ← i32 (x 1 - x 6)
  let t2 ← i32 (x 2 + x 5)
  let t5 ← i32 (x 2 - x 5)
  let t3 ← i32 (x 3 + x 4)
  let t4 ← i32 (x 3 - x 4)
  let t10 ← i32 (t0 + t3)
  let t13 ← i32 (t0 - t3)
  let t11 ← i32 (t1 + t2)
  let t12 ← i32 (t1 - t2)
  let n := if first then 11 else 15
  let sum ← i32 (t10 + t11)
  let difference ← i32 (t10 - t11)
  let d0 ← if first then i32 (sum * 4) else descale i32 sum 2
  let d4 ← if first then i32 (difference * 4) else descale i32 difference 2
  let z1 ← i32 (t12 + t13)
  let z1 ← i32 (z1 * f0541)
  let u ← i32 (t13 * f0765)
  let u ← i32 (z1 + u)
  let d2 ← descale i32 u n
  let u ← i32 (t12 * f1847)
  let u ← i32 (z1 - u)
  let d6 ← descale i32 u n
  let z1 ← i32 (t4 + t7)
  let z2 ← i32 (t5 + t6)
  let z3 ← i32 (t4 + t6)
  let z4 ← i32 (t5 + t7)
  let z5 ← i32 (z3 + z4)
  let z5 ← i32 (z5 * f1175)
  let m4 ← i32 (t4 * f0298)
  let m5 ← i32 (t5 * f2053)
  let m6 ← i32 (t6 * f3072)
  let m7 ← i32 (t7 * f1501)
  let z1 ← i32 (-z1)
  let z1 ← i32 (z1 * f0899)
  let z2 ← i32 (-z2)
  let z2 ← i32 (z2 * f2562)
  let z3 ← i32 (-z3)
  let z3 ← i32 (z3 * f1961)
  let z3 ← i32 (z3 + z5)
  let z4 ← i32 (-z4)
  let z4 ← i32 (z4 * f0390)
  let z4 ← i32 (z4 + z5)
  let u ← i32 (m4 + z1)
  let u ← i32 (u + z3)
  let d7 ← descale i32 u n
  let u ← i32 (m5 + z2)
  let u ← i32 (u + z4)
  let d5 ← descale i32 u n
  let u ← i32 (m6 + z2)
  let u ← i32 (u + z3)
  let d3 ← descale i32 u n
  let u ← i32 (m7 + z1)
  let u ← i32 (u + z4)
  let d1 ← descale i32 u n
  return #v[d0, d1, d2, d3, d4, d5, d6, d7]

/-- The eight values at `p`, `p + step`, …, `p + 7 * step`. -/
def lane (d : Block) (p step : ℕ) (k : Fin 8) : ℤ := d.load (p + k * step)

def storeLane (d : Block) (p step : ℕ) (v : Vector ℤ 8) : Block :=
  (List.finRange 8).foldl (fun d (k : Fin 8) => d.store (p + k * step) (v.get k)) d

/-- `dct_pass`. All eight values are read before the first one is stored. -/
def dctPass (d : Block) (p step : ℕ) (first : Bool) : m Block := do
  let v ← passValues i32 (lane d p step) first
  return storeLane d p step v

/-- `forward_dct`: the rows, then the columns. -/
def forwardDct (block : Block) : m Block := do
  let block ← (List.range 8).foldlM (fun d row => dctPass i32 d (8 * row) 1 true) block
  (List.range 8).foldlM (fun d column => dctPass i32 d column 8 false) block

end Code

/-! ### One pass as a linear map -/

/-- The value that `descale` rounds to. -/
def rounded (x : ℤ) (n : ℕ) : ℤ := (x + 2 ^ (n - 1)) / 2 ^ n

/-- The shift of a negated value, negated, is the floor. -/
theorem neg_ceil_eq_floor (v b : ℤ) (hb : 0 < b) : -((-v + b - 1) / b) = v / b := by
  have hv := Int.mul_ediv_add_emod v b
  have hlow := Int.emod_nonneg v hb.ne'
  have hhigh := Int.emod_lt_of_pos v hb
  have hquotient : (-v + b - 1) / b = -(v / b) := by
    rw [show -v + b - 1 = (b - 1 - v % b) + b * -(v / b) by linear_combination hv,
      Int.add_mul_ediv_left _ _ hb.ne', Int.ediv_eq_zero_of_lt (by omega) (by omega), zero_add]
  rw [hquotient, neg_neg]

theorem descale_unbounded (x : ℤ) (n : ℕ) : descale unbounded x n = rounded x n := by
  have hpow : (0 : ℤ) < 2 ^ n := by positivity
  have hcode : descale unbounded x n =
      if 0 ≤ x + 2 ^ (n - 1) then (x + 2 ^ (n - 1)) / 2 ^ n
      else -((-(x + 2 ^ (n - 1)) + 2 ^ n - 1) / 2 ^ n) := rfl
  rw [hcode, neg_ceil_eq_floor _ _ hpow, ite_self, rounded]

/-- The coefficients of a pass. Rows 0 and 4 are exact, the other rows are scaled by `2 ^ 13`. -/
def passMatrix : Matrix (Fin 8) (Fin 8) ℤ :=
  !![1, 1, 1, 1, 1, 1, 1, 1;
     11363, 9633, 6437, 2260, -2260, -6437, -9633, -11363;
     10703, 4433, -4433, -10703, -10703, -4433, 4433, 10703;
     9633, -2259, -11362, -6436, 6436, 11362, 2259, -9633;
     1, -1, -1, 1, 1, -1, -1, 1;
     6437, -11362, 2261, 9633, -9633, -2261, 11362, -6437;
     4433, -10704, 10704, -4433, -4433, 10704, -10704, 4433;
     2260, -6436, 9633, -11363, 11363, -9633, 6436, -2260]

/-- The values of a pass: the linear map, then the rounding of the row. -/
def passValue (first : Bool) (x : Fin 8 → ℤ) (k : Fin 8) : ℤ :=
  let y := ∑ i, passMatrix k i * x i
  if k = 0 ∨ k = 4 then
    if first then y * 4 else rounded y 2
  else
    rounded y (if first then 11 else 15)

/-- The sum of a row, in the terms of the code. -/
theorem sum_passMatrix (x : Fin 8 → ℤ) (k : Fin 8) : ∑ i, passMatrix k i * x i =
    ![x 0 + x 7 + (x 3 + x 4) + (x 1 + x 6 + (x 2 + x 5)),
      11363 * (x 0 - x 7) + 9633 * (x 1 - x 6) + 6437 * (x 2 - x 5) + 2260 * (x 3 - x 4),
      10703 * (x 0 + x 7 - (x 3 + x 4)) + 4433 * (x 1 + x 6 - (x 2 + x 5)),
      9633 * (x 0 - x 7) - 2259 * (x 1 - x 6) - 11362 * (x 2 - x 5) - 6436 * (x 3 - x 4),
      x 0 + x 7 + (x 3 + x 4) - (x 1 + x 6 + (x 2 + x 5)),
      6437 * (x 0 - x 7) - 11362 * (x 1 - x 6) + 2261 * (x 2 - x 5) + 9633 * (x 3 - x 4),
      4433 * (x 0 + x 7 - (x 3 + x 4)) - 10704 * (x 1 + x 6 - (x 2 + x 5)),
      2260 * (x 0 - x 7) - 6436 * (x 1 - x 6) + 9633 * (x 2 - x 5) - 11363 * (x 3 - x 4)] k := by
  fin_cases k <;> simp [passMatrix, Fin.sum_univ_eight] <;> ring

theorem unbounded_bind {α : Type} (x : ℤ) (f : ℤ → Id α) : (unbounded x >>= f) = f x := rfl

theorem descale_unbounded_bind {α : Type} (x : ℤ) (n : ℕ) (f : ℤ → Id α) :
    (descale unbounded x n >>= f) = f (rounded x n) := by
  rw [descale_unbounded]
  rfl

/-- On exact integers the code computes the values of the pass. -/
theorem passValues_unbounded (x : Fin 8 → ℤ) (first : Bool) :
    passValues unbounded x first = Vector.ofFn (passValue first x) := by
  apply Vector.ext
  intro k hk
  rw [Vector.getElem_ofFn]
  obtain ⟨i, rfl⟩ : ∃ i : Fin 8, (i : ℕ) = k := ⟨⟨k, hk⟩, rfl⟩
  cases first with
  | false =>
    simp only [passValues, unbounded_bind, descale_unbounded_bind, if_false, Bool.false_eq_true]
    fin_cases i
    all_goals simp only [passValue, sum_passMatrix]
    all_goals refine congrArg (rounded · _) ?_
    all_goals simp [f0298, f0390, f0541, f0765, f0899, f1175, f1501, f1847, f1961, f2053, f2562,
      f3072]
    all_goals ring
  | true =>
    simp only [passValues, unbounded_bind, descale_unbounded_bind, if_true]
    fin_cases i
    all_goals simp only [passValue, sum_passMatrix]
    all_goals first
      | rfl
      | refine congrArg (rounded · _) ?_
    all_goals simp [f0298, f0390, f0541, f0765, f0899, f1175, f1501, f1847, f1961, f2053, f2562,
      f3072]
    all_goals ring

/-! ### One pass does not overflow -/

section Overflow

variable {α : Type} {x : ℤ} {n : ℕ}

theorem checked_bind_eq {f : ℤ → Option α} {r : Option α} (hlow : -2147483648 ≤ x)
    (hhigh : x ≤ 2147483647) (h : f x = r) : (checked x >>= f) = r := by
  rw [checked, if_pos ⟨hlow, hhigh⟩]
  exact h

theorem descale_checked (hn : n ≤ 16) (hlow : -2147000000 ≤ x) (hhigh : x ≤ 2147000000) :
    descale checked x n = some (rounded x n) := by
  have hhalf : (2 : ℤ) ^ (n - 1) ≤ 2 ^ 16 := pow_le_pow_right₀ (by decide) (by omega)
  have hpow : (2 : ℤ) ^ n ≤ 2 ^ 16 := pow_le_pow_right₀ (by decide) hn
  have hhalf_pos : (0 : ℤ) < 2 ^ (n - 1) := by positivity
  have hpow_pos : (0 : ℤ) < 2 ^ n := by positivity
  have hfloor := neg_ceil_eq_floor (x + 2 ^ (n - 1)) (2 ^ n) hpow_pos
  have hquotient (v : ℤ) (hv : 0 ≤ v) : 0 ≤ v / 2 ^ n ∧ v / 2 ^ n ≤ v :=
    ⟨Int.ediv_nonneg hv hpow_pos.le, Int.ediv_le_self _ hv⟩
  refine checked_bind_eq (by omega) (by omega) ?_
  refine checked_bind_eq (by omega) (by omega) ?_
  by_cases hsign : 0 ≤ x + 2 ^ (n - 1)
  · have h := hquotient _ hsign
    rw [if_pos hsign]
    exact if_pos ⟨by omega, by omega⟩
  · have h := hquotient (-(x + 2 ^ (n - 1)) + 2 ^ n - 1) (by omega)
    rw [if_neg hsign]
    refine checked_bind_eq (by omega) (by omega) ?_
    refine checked_bind_eq (by omega) (by omega) ?_
    refine checked_bind_eq (by omega) (by omega) ?_
    refine checked_bind_eq (by omega) (by omega) ?_
    rw [rounded, ← hfloor]
    exact if_pos ⟨by omega, by omega⟩

theorem descale_bind_eq {f : ℤ → Option α} {r : Option α} (hn : n ≤ 16)
    (hlow : -2147000000 ≤ x) (hhigh : x ≤ 2147000000) (h : f (rounded x n) = r) :
    (descale checked x n >>= f) = r := by
  rw [descale_checked hn hlow hhigh]
  exact h

end Overflow

/-- A pass over values of at most `2 ^ 12` in magnitude does not overflow. -/
theorem passValues_checked {x : Fin 8 → ℤ} (h : ∀ k, -4096 ≤ x k ∧ x k ≤ 4096) (first : Bool) :
    passValues checked x first = some (Vector.ofFn (passValue first x)) := by
  have h0 := h 0
  have h1 := h 1
  have h2 := h 2
  have h3 := h 3
  have h4 := h 4
  have h5 := h 5
  have h6 := h 6
  have h7 := h 7
  clear h
  rw [← passValues_unbounded]
  -- Both readings take the same steps; a step that is checked has to stay in range.
  cases first with
  | false =>
    simp only [passValues, unbounded_bind, descale_unbounded_bind, if_false, Bool.false_eq_true,
      f0298, f0390, f0541, f0765, f0899, f1175, f1501, f1847, f1961, f2053, f2562, f3072]
    repeat' first
      | refine checked_bind_eq (by omega) (by omega) ?_
      | refine descale_bind_eq (by decide) (by omega) (by omega) ?_
    rfl
  | true =>
    simp only [passValues, unbounded_bind, descale_unbounded_bind, if_true, f0298, f0390, f0541,
      f0765, f0899, f1175, f1501, f1847, f1961, f2053, f2562, f3072]
    repeat' first
      | refine checked_bind_eq (by omega) (by omega) ?_
      | refine descale_bind_eq (by decide) (by omega) (by omega) ?_
    rfl

/-- A first pass over samples gives values of at most `2 ^ 12` in magnitude. -/
theorem passValue_true_mem {x : Fin 8 → ℤ} (h : ∀ k, -128 ≤ x k ∧ x k ≤ 127) (k : Fin 8) :
    -4096 ≤ passValue true x k ∧ passValue true x k ≤ 4096 := by
  have h0 := h 0
  have h1 := h 1
  have h2 := h 2
  have h3 := h 3
  have h4 := h 4
  have h5 := h 5
  have h6 := h 6
  have h7 := h 7
  clear h
  fin_cases k <;> simp [passValue, sum_passMatrix, rounded] <;> omega

/-- Row 0 of the second pass undoes the factor 4 of the first. -/
theorem rounded_four_mul (s : ℤ) : rounded (s * 4) 2 = s := by
  rw [rounded]
  omega

/-! ### The passes over a block -/

/-- A pass on exact integers. -/
def pass (first : Bool) (d : Block) (p step : ℕ) : Block :=
  storeLane d p step (Vector.ofFn (passValue first (lane d p step)))

theorem dctPass_unbounded (d : Block) (p step : ℕ) (first : Bool) :
    dctPass unbounded d p step first = pass first d p step := by
  rw [dctPass, passValues_unbounded]
  rfl

theorem dctPass_checked {d : Block} {p step : ℕ}
    (h : ∀ k, -4096 ≤ lane d p step k ∧ lane d p step k ≤ 4096) (first : Bool) :
    dctPass checked d p step first = some (pass first d p step) := by
  rw [dctPass, passValues_checked h]
  rfl

/-- Lanes of a block that have no address in common. -/
structure Separate (base : ℕ → ℕ) (step : ℕ) : Prop where
  lt : ∀ i < 8, ∀ k : Fin 8, base i + k * step < 64
  eq : ∀ i < 8, ∀ j < 8, ∀ k l : Fin 8, base i + k * step = base j + l * step → i = j ∧ k = l

section Lanes

variable {base : ℕ → ℕ} {step : ℕ}

theorem load_storeLane {d : Block} {p step : ℕ} (h : ∀ k : Fin 8, p + k * step < 64)
    (v : Vector ℤ 8) : (storeLane d p step v).load =
      (List.finRange 8).foldl (fun m (k : Fin 8) => Function.update m (p + k * step) (v.get k))
        d.load := by
  rw [storeLane]
  generalize List.finRange 8 = l
  induction l generalizing d with
  | nil => rfl
  | cons k l ih => rw [List.foldl_cons, ih, Block.load_store (h k), List.foldl_cons]

theorem Separate.lane_storeLane (h : Separate base step) {i j : ℕ} (hi : i < 8) (hj : j < 8)
    (d : Block) (v : Vector ℤ 8) : lane (storeLane d (base i) step v) (base j) step =
      if j = i then v.get else lane d (base j) step := by
  funext k
  rw [lane, load_storeLane (h.lt i hi)]
  split_ifs with heq
  · subst heq
    have hinj : Function.Injective fun k : Fin 8 => base j + k * step :=
      fun k l hkl => (h.eq j hj j hj k l hkl).2
    exact Memory.foldl_update_of_mem d.load (fun k : Fin 8 => base j + k * step) v.get _
      ((List.nodup_finRange 8).map hinj) (List.mem_finRange k)
  · exact Memory.foldl_update_of_ne d.load (fun k : Fin 8 => base i + k * step) v.get _
      fun l _ hkl => heq (h.eq i hi j hj l k hkl).1.symm

theorem get_ofFn (f : Fin 8 → ℤ) : (Vector.ofFn f).get = f :=
  funext fun k => Vector.getElem_ofFn k.isLt

/-- The passes over the first `n` lanes change these, each by itself. -/
theorem Separate.lane_foldl (h : Separate base step) (first : Bool) (d : Block) {n : ℕ}
    (hn : n ≤ 8) {j : ℕ} (hj : j < 8) :
    lane ((List.range n).foldl (fun d i => pass first d (base i) step) d) (base j) step =
      if j < n then passValue first (lane d (base j) step) else lane d (base j) step := by
  induction n with
  | zero => rfl
  | succ n ih =>
    have ih := ih (by omega)
    rw [List.range_succ, List.foldl_append, List.foldl_cons, List.foldl_nil, pass,
      h.lane_storeLane (by omega) hj, get_ofFn]
    rcases lt_trichotomy j n with hlt | rfl | hgt
    · rw [if_neg hlt.ne, ih, if_pos hlt, if_pos (by omega)]
    · rw [if_pos rfl, ih, if_neg (lt_irrefl j), if_pos (Nat.lt_succ_self j)]
    · rw [if_neg hgt.ne', ih, if_neg (by omega), if_neg (by omega)]

/-- The passes over lanes of small values do not overflow. -/
theorem Separate.foldlM_checked (h : Separate base step) (first : Bool) (d : Block)
    (hd : ∀ j < 8, ∀ k, -4096 ≤ lane d (base j) step k ∧ lane d (base j) step k ≤ 4096) {n : ℕ}
    (hn : n ≤ 8) :
    (List.range n).foldlM (fun d i => dctPass checked d (base i) step first) d =
      some ((List.range n).foldl (fun d i => pass first d (base i) step) d) := by
  induction n with
  | zero => rfl
  | succ n ih =>
    have hlane := h.lane_foldl first d (show n ≤ 8 by omega) (show n < 8 by omega)
    rw [if_neg (lt_irrefl n)] at hlane
    have hnext := hd n (by omega)
    rw [← hlane] at hnext
    rw [List.range_succ, List.foldlM_append, ih (by omega), List.foldl_append,
      Option.bind_eq_bind, Option.bind_some, List.foldlM_cons, dctPass_checked hnext first,
      Option.bind_eq_bind, Option.bind_some, List.foldlM_nil, List.foldl_cons, List.foldl_nil]
    rfl

theorem foldlM_unbounded (base : ℕ → ℕ) (step : ℕ) (first : Bool) (d : Block) (n : ℕ) :
    (List.range n).foldlM (fun d i => dctPass unbounded d (base i) step first) d =
      (List.range n).foldl (fun d i => pass first d (base i) step) d := by
  simp only [dctPass_unbounded]
  exact List.idRun_foldlM

end Lanes

theorem separate_rows : Separate (fun row => 8 * row) 1 where
  lt i hi k := by omega
  eq i hi j hj k l h := by omega

theorem separate_columns : Separate (fun column => column) 8 where
  lt i hi k := by omega
  eq i hi j hj k l h := by omega

/-- The transform on exact integers. -/
def transform (block : Block) : Block :=
  let block := (List.range 8).foldl (fun d row => pass true d (8 * row) 1) block
  (List.range 8).foldl (fun d column => pass false d column 8) block

theorem forwardDct_unbounded (block : Block) :
    forwardDct unbounded block = transform block := by
  have hrows := foldlM_unbounded (fun row => 8 * row) 1 true block 8
  have hcolumns (d : Block) :=
    foldlM_unbounded (fun column => column) 8 false d 8
  rw [forwardDct, hrows]
  exact hcolumns _

/-- The rows after the first round of passes. -/
theorem lane_rows (block : Block) (i k : Fin 8) :
    ((List.range 8).foldl (fun d row => pass true d (8 * row) 1) block).load (k + i * 8) =
      passValue true (lane block (8 * i) 1) k := by
  have h := congrFun (separate_rows.lane_foldl true block le_rfl i.isLt) k
  rw [if_pos i.isLt] at h
  rw [← h, lane, Nat.mul_one, Nat.add_comm, Nat.mul_comm]

/-- The columns after both rounds. -/
theorem transform_lane (block : Block) (k : Fin 8) : lane (transform block) k 8 =
    passValue false fun i => passValue true (lane block (8 * i) 1) k := by
  have h (d : Block) := separate_columns.lane_foldl false d le_rfl k.isLt
  simp only [if_pos k.isLt] at h
  rw [transform, h]
  exact congrArg (passValue false) (funext fun i => lane_rows block i k)

/-- **The transform of a block of samples does not overflow.** -/
theorem forwardDct_checked {block : Block}
    (h : ∀ a < 64, -128 ≤ block.load a ∧ block.load a ≤ 127) :
    forwardDct checked block = some (transform block) := by
  have hlane (j : ℕ) (hj : j < 8) (k : Fin 8) :
      -128 ≤ lane block (8 * j) 1 k ∧ lane block (8 * j) 1 k ≤ 127 :=
    h _ (by omega)
  have hrows := separate_rows.foldlM_checked true block
    (fun j hj k => ⟨le_trans (by decide) (hlane j hj k).1,
      (hlane j hj k).2.trans (by decide)⟩) le_rfl
  have hcolumns := separate_columns.foldlM_checked false
    ((List.range 8).foldl (fun d row => pass true d (8 * row) 1) block)
    (fun j hj k => by
      have hvalue := lane_rows block k ⟨j, hj⟩
      rw [lane, hvalue]
      exact passValue_true_mem (hlane k k.isLt) _) le_rfl
  rw [forwardDct, hrows, Option.bind_eq_bind, Option.bind_some, hcolumns, transform]

/-- The first value of a pass is the sum of the lane, four times in the first pass. -/
theorem passValue_zero (first : Bool) (x : Fin 8 → ℤ) :
    passValue first x 0 = if first then (∑ i, x i) * 4 else rounded (∑ i, x i) 2 := by
  have hrow : ∑ i, passMatrix 0 i * x i = ∑ i, x i := by
    refine Finset.sum_congr rfl fun i _ => ?_
    fin_cases i <;> exact one_mul _
  rw [passValue, hrow, if_pos (Or.inl rfl)]

/-- The first output is the sum of the block. -/
theorem transform_zero (block : Block) :
    (transform block).load 0 = ∑ i : Fin 8, ∑ k : Fin 8, block.load (8 * i + k) := by
  have h := congrFun (transform_lane block 0) 0
  rw [passValue_zero, if_neg Bool.false_ne_true] at h
  simp only [passValue_zero, if_true, ← Finset.sum_mul, rounded_four_mul] at h
  simpa only [lane, Fin.val_zero, Nat.zero_mul, Nat.add_zero, Nat.mul_one] using h

theorem sum_eight_mem {x : Fin 8 → ℤ} {a b : ℤ} (h : ∀ k, a ≤ x k ∧ x k ≤ b) :
    8 * a ≤ ∑ k, x k ∧ ∑ k, x k ≤ 8 * b := by
  have hlow := Finset.card_nsmul_le_sum Finset.univ x a fun k _ => (h k).1
  have hhigh := Finset.sum_le_card_nsmul Finset.univ x b fun k _ => (h k).2
  rw [Finset.card_univ, Fintype.card_fin, nsmul_eq_mul] at hlow hhigh
  exact ⟨hlow, hhigh⟩

/-- The first output for a block of samples. -/
theorem transform_zero_mem {block : Block}
    (h : ∀ a < 64, -128 ≤ block.load a ∧ block.load a ≤ 127) :
    -8192 ≤ (transform block).load 0 ∧ (transform block).load 0 ≤ 8128 := by
  have hrow (i : Fin 8) : -1024 ≤ ∑ k : Fin 8, block.load (8 * i + k) ∧
      ∑ k : Fin 8, block.load (8 * i + k) ≤ 1016 :=
    sum_eight_mem fun k => h _ (by omega)
  rw [transform_zero]
  exact sum_eight_mem hrow

end HumanizedHash
