import Mathlib.Data.List.Basic
import Mathlib.Data.List.GetD
import Mathlib.Tactic.Ring

/-!
# Tables stored row by row

A table of `n` rows with `k` entries each, as the list of its rows one behind the other. An entry
is found by its row and its place in the row, and the rows of a list that is cut into pieces of
length `k` are the list.

## Main results

* `Tables.getD_rows`: the entry `j` of row `i` is entry `i * k + j` of the list.
* `Tables.rows_chunks`: the pieces of a list, one behind the other.
-/

namespace Tables

variable {α : Type*} {k : ℕ}

/-- The rows `f 0, …, f (n - 1)` one behind the other. -/
def rows (n : ℕ) (f : ℕ → List α) : List α := (List.range n).flatMap f

@[simp] theorem rows_zero (f : ℕ → List α) : rows 0 f = [] := rfl

@[simp] theorem rows_succ (n : ℕ) (f : ℕ → List α) : rows (n + 1) f = rows n f ++ f n := by
  rw [rows, List.range_succ, List.flatMap_append, List.flatMap_singleton, rows]

theorem rows_congr {n : ℕ} {f g : ℕ → List α} (h : ∀ i < n, f i = g i) : rows n f = rows n g :=
  List.flatMap_congr fun i hi => h i (List.mem_range.mp hi)

@[simp] theorem length_rows {f : ℕ → List α} (h : ∀ i, (f i).length = k) (n : ℕ) :
    (rows n f).length = n * k := by
  induction n with
  | zero => rw [rows_zero, List.length_nil, Nat.zero_mul]
  | succ n ih => rw [rows_succ, List.length_append, ih, h, Nat.succ_mul]

/-- **The entry `j` of row `i`.** -/
theorem getD_rows {f : ℕ → List α} (h : ∀ i, (f i).length = k) {n i j : ℕ} (hi : i < n)
    (hj : j < k) (d : α) : (rows n f).getD (i * k + j) d = (f i).getD j d := by
  induction n with
  | zero => exact absurd hi (Nat.not_lt_zero i)
  | succ n ih =>
    have hlength := length_rows h n
    rw [rows_succ]
    obtain hlt | rfl := Nat.lt_succ_iff_lt_or_eq.mp hi
    · have hplace : i * k + j < n * k := calc
        i * k + j < i * k + k := Nat.add_lt_add_left hj _
        _ = (i + 1) * k := (Nat.succ_mul i k).symm
        _ ≤ n * k := Nat.mul_le_mul_right k hlt
      rw [List.getD_append _ _ _ _ (by rwa [hlength]), ih hlt]
    · rw [List.getD_append_right _ _ _ _ (by rw [hlength]; exact Nat.le_add_right ..), hlength,
        Nat.add_sub_cancel_left]

/-- **The pieces of a list.** -/
theorem rows_chunks (f : ℕ → α) (n k : ℕ) :
    rows n (fun i => (List.range k).map fun j => f (i * k + j)) = (List.range (n * k)).map f := by
  induction n with
  | zero => rw [rows_zero, Nat.zero_mul, List.range_zero, List.map_nil]
  | succ n ih =>
    rw [rows_succ, ih, Nat.succ_mul, List.range_add, List.map_append, List.map_map]
    rfl

/-- A list is the table of its entries. -/
theorem map_getD_range (l : List α) (d : α) : (List.range l.length).map (l.getD · d) = l := by
  refine List.ext_getElem (by rw [List.length_map, List.length_range]) fun i _ hi => ?_
  rw [List.getElem_map, List.getElem_range, List.getD_eq_getElem l d hi]

end Tables
