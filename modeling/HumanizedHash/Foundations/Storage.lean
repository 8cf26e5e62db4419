import Mathlib.Data.List.Basic
import Mathlib.Data.Nat.Notation

/-!
# Copying bytes into storage

Two kinds of storage that a C program writes into: an array object of a fixed size, a vector
here, and flat memory, a function from addresses. `copyInto` is `memcpy` into the former and
`Memory.write` into the latter; both overwrite a contiguous range and nothing else.

## Main definitions

* `copyInto`: `memcpy` into an array object.
* `Memory.read`, `Memory.write`: a range of flat memory.

## Main results

* `take_copyInto`: what a copy leaves in front of its end.
* `Memory.write_apply_of_mem`, `Memory.write_apply_of_notMem`: what a write leaves, and its frame.
* `Memory.write_write_append`, `Memory.foldl_write_zipIdx`: writes one behind the other.
-/

namespace Storage

variable {α : Type*} {n : ℕ}

/-- The array `dst` after the values `src` were copied into it from the index `offset` on. Values
beyond the end of the array are dropped. -/
def copyInto (dst : Vector α n) (offset : ℕ) (src : List α) : Vector α n :=
  Vector.ofFn fun i => if offset ≤ i then (src[i - offset]?).getD dst[i] else dst[i]

theorem getElem_copyInto (dst : Vector α n) (offset : ℕ) (src : List α) (i : ℕ) (hi : i < n) :
    (copyInto dst offset src)[i] =
      if offset ≤ i then (src[i - offset]?).getD dst[i] else dst[i] := by
  simp only [copyInto, Vector.getElem_ofFn, Fin.getElem_fin]

/-- In front of the end of a copy stand what was in front of its start and the values copied. -/
theorem take_copyInto (dst : Vector α n) (offset : ℕ) (src : List α)
    (h : offset + src.length ≤ n) :
    (copyInto dst offset src).toList.take (offset + src.length) =
      dst.toList.take offset ++ src := by
  apply List.ext_getElem
  · simp only [List.length_take, Vector.length_toList, List.length_append]
    omega
  · intro i h₁ h₂
    simp only [List.length_take, Vector.length_toList] at h₁
    rw [List.getElem_take, Vector.getElem_toList, getElem_copyInto _ _ _ _ (by omega)]
    split
    · rename_i hle
      rw [List.getElem?_eq_getElem (by omega), Option.getD_some,
        List.getElem_append_right (by simp only [List.length_take, Vector.length_toList]; omega)]
      congr 1
      simp only [List.length_take, Vector.length_toList]
      omega
    · rw [List.getElem_append_left (by simp only [List.length_take, Vector.length_toList]; omega),
        List.getElem_take, Vector.getElem_toList]

/-- A copy that fills the array up to its end. -/
theorem toList_copyInto (dst : Vector α n) (offset : ℕ) (src : List α)
    (h : offset + src.length = n) :
    (copyInto dst offset src).toList = dst.toList.take offset ++ src := by
  have hle : offset + src.length ≤ n := Nat.le_of_eq h
  rw [← take_copyInto dst offset src hle, List.take_of_length_le (by simp [h])]

/-- A copy of a whole array's worth of values replaces the array. -/
theorem toList_copyInto_zero (dst : Vector α n) (src : List α) (h : src.length = n) :
    (copyInto dst 0 src).toList = src := by
  rw [toList_copyInto dst 0 src (by rw [h, Nat.zero_add]), List.take_zero, List.nil_append]

/-- Values copied in front of the index `k` leave what stands behind it. -/
theorem drop_copyInto_of_le (dst : Vector α n) (offset : ℕ) (src : List α) {k : ℕ}
    (h : offset + src.length ≤ k) :
    (copyInto dst offset src).toList.drop k = dst.toList.drop k := by
  apply List.ext_getElem
  · simp only [List.length_drop, Vector.length_toList]
  · intro i h₁ h₂
    simp only [List.length_drop, Vector.length_toList] at h₁
    rw [List.getElem_drop, List.getElem_drop, Vector.getElem_toList, Vector.getElem_toList,
      getElem_copyInto _ _ _ _ (by omega), List.getElem?_eq_none (by omega), Option.getD_none,
      ite_self]

end Storage

/-- Flat memory: the value at every address. -/
abbrev Memory (α : Type*) := ℕ → α

namespace Memory

variable {α : Type*} (m : Memory α)

/-- The `n` values from the address `p` on. -/
def read (p n : ℕ) : List α :=
  (List.range n).map fun i => m (p + i)

/-- Memory with the values `l` stored from the address `p` on. -/
def write (p : ℕ) (l : List α) : Memory α :=
  fun a => if p ≤ a then (l[a - p]?).getD (m a) else m a

@[simp] theorem length_read (p n : ℕ) : (m.read p n).length = n := by
  simp only [read, List.length_map, List.length_range]

@[simp] theorem getElem_read (p n i : ℕ) (h : i < (m.read p n).length) :
    (m.read p n)[i] = m (p + i) := by
  simp only [read, List.getElem_map, List.getElem_range]

/-- Two ranges hold the same values. -/
theorem read_eq_iff {m' : Memory α} {p q n : ℕ} :
    m.read p n = m'.read q n ↔ ∀ i < n, m (p + i) = m' (q + i) := by
  simp only [read, List.map_inj_left, List.mem_range]

/-- A write changes no address outside its range. -/
theorem write_apply_of_notMem (p : ℕ) (l : List α) {a : ℕ} (h : a < p ∨ p + l.length ≤ a) :
    m.write p l a = m a := by
  rw [write]
  split
  · rw [List.getElem?_eq_none (by omega), Option.getD_none]
  · rfl

theorem write_apply_of_mem (p : ℕ) (l : List α) {i : ℕ} (h : i < l.length) :
    m.write p l (p + i) = l[i] := by
  rw [write, if_pos (Nat.le_add_right p i), Nat.add_sub_cancel_left, List.getElem?_eq_getElem h,
    Option.getD_some]

/-- Writing nothing. -/
@[simp] theorem write_nil (p : ℕ) : m.write p [] = m := by
  funext a
  rw [write_apply_of_notMem m p [] (by simp only [List.length_nil]; omega)]

/-- A write right behind another one continues it. -/
theorem write_write_append (p : ℕ) (l l' : List α) :
    (m.write p l).write (p + l.length) l' = m.write p (l ++ l') := by
  funext a
  by_cases hin : p + l.length ≤ a ∧ a < p + l.length + l'.length
  · obtain ⟨i, rfl⟩ := Nat.exists_eq_add_of_le hin.1
    rw [write_apply_of_mem _ _ _ (by omega), Nat.add_assoc,
      write_apply_of_mem _ _ _ (by rw [List.length_append]; omega),
      List.getElem_append_right (by omega)]
    simp only [Nat.add_sub_cancel_left]
  · rw [write_apply_of_notMem _ _ _ (by omega)]
    by_cases hfirst : p ≤ a ∧ a < p + l.length
    · obtain ⟨i, rfl⟩ := Nat.exists_eq_add_of_le hfirst.1
      rw [write_apply_of_mem _ _ _ (by omega),
        write_apply_of_mem _ _ _ (by rw [List.length_append]; omega),
        List.getElem_append_left (by omega)]
    · rw [write_apply_of_notMem _ _ _ (by omega),
        write_apply_of_notMem _ _ _ (by rw [List.length_append]; omega)]

/-- Writing the members of an array one after another, `k` values each, is writing them all. -/
theorem foldl_write_zipIdx {β : Type*} (p k : ℕ) (f : β → List α) (hf : ∀ x, (f x).length = k)
    (l : List β) (n : ℕ) :
    (l.zipIdx n).foldl (fun m x => m.write (p + k * x.2) (f x.1)) m =
      m.write (p + k * n) (l.flatMap f) := by
  induction l generalizing m n with
  | nil => rw [List.zipIdx_nil, List.foldl_nil, List.flatMap_nil, write_nil]
  | cons x l ih =>
    rw [List.zipIdx_cons, List.foldl_cons, ih, List.flatMap_cons, ← write_write_append, hf,
      Nat.mul_succ, ← Nat.add_assoc]

/-- Stores to a list of addresses leave the others. -/
theorem foldl_update_of_ne {ι : Type*} (f : ι → ℕ) (v : ι → α) {a : ℕ} (l : List ι)
    (ha : ∀ k ∈ l, f k ≠ a) :
    (l.foldl (fun m k => Function.update m (f k) (v k)) m) a = m a := by
  induction l generalizing m with
  | nil => rfl
  | cons x l ih =>
    rw [List.foldl_cons, ih _ fun k hk => ha k (List.mem_cons_of_mem x hk),
      Function.update_of_ne (ha x List.mem_cons_self).symm]

/-- Stores to different addresses all remain. -/
theorem foldl_update_of_mem {ι : Type*} (f : ι → ℕ) (v : ι → α) {k : ι} (l : List ι)
    (hnodup : (l.map f).Nodup) (hk : k ∈ l) :
    (l.foldl (fun m k => Function.update m (f k) (v k)) m) (f k) = v k := by
  induction l generalizing m with
  | nil => exact absurd hk List.not_mem_nil
  | cons x l ih =>
    rw [List.map_cons, List.nodup_cons] at hnodup
    rw [List.foldl_cons]
    rcases List.mem_cons.mp hk with rfl | htail
    · have hne (j : ι) (hj : j ∈ l) : f j ≠ f k :=
        fun heq => hnodup.1 (heq ▸ List.mem_map_of_mem hj)
      rw [foldl_update_of_ne _ f v l hne, Function.update_self]
    · exact ih _ hnodup.2 htail

end Memory
