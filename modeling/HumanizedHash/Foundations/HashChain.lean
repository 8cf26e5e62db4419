import Mathlib.Data.Int.ModEq
import Mathlib.Data.List.Basic

/-!
# Hash chains

An index of the places of a sequence by a key. One table holds the last place of every key, the
other, a ring of `window` entries, the place in front of each place that has the same key. The ring
is overwritten all the time; as long as a walk stays within the window, it meets exactly the earlier
places with the key, the nearest one first.

## Main definitions

* `HashChain.Table`: the two tables; a negative entry stands for none.
* `HashChain.Table.insert`, `HashChain.Table.build`: the places up to one, in order.
* `HashChain.Table.walk`: the places that a walk meets.
* `HashChain.earlier`: the earlier places with a key.
* `HashChain.choose`: the first of the best ones of a list.

## Main results

* `HashChain.walk_build`: a walk meets the earlier places with the key.
* `HashChain.choose_spec`: what is chosen.
-/

namespace HumanizedHash

namespace HashChain

variable {κ : Type*} [DecidableEq κ]

/-- The last place of every key, and the place in front of a place. -/
structure Table (κ : Type*) where
  head : κ → ℤ
  prev : ℕ → ℤ

/-- No place. -/
def Table.empty : Table κ := ⟨fun _ => -1, fun _ => -1⟩

section Tables

variable (key : ℕ → κ) (window : ℕ)

/-- A new last place. -/
def Table.insert (t : Table κ) (i : ℕ) : Table κ where
  head := Function.update t.head (key i) i
  prev := Function.update t.prev (i % window) (t.head (key i))

/-- The tables of the first `n` places. -/
def Table.build (n : ℕ) : Table κ := (List.range n).foldl (Table.insert key window) Table.empty

/-- The places that a walk for the place `i` meets, at most `fuel`, none of them beyond the
window. -/
def Table.walk (t : Table κ) (i : ℕ) : ℕ → ℤ → List ℕ
  | 0, _ => []
  | fuel + 1, place =>
    if place < 0 ∨ window ≤ i - place.toNat then []
    else place.toNat :: t.walk i fuel (t.prev (place.toNat % window))

/-- The places in front of `i` within the window that have the key `k`, the nearest first. -/
def earlier (i : ℕ) (k : κ) : List ℕ :=
  (List.range i).reverse.filter fun c => i - c < window ∧ key c = k

/-- The last place in front of `n` with the key `k`. -/
def latest (k : κ) : ℕ → ℤ
  | 0 => -1
  | n + 1 => if key n = k then n else latest k n

variable {key window}

@[simp] theorem head_insert (t : Table κ) (i : ℕ) :
    (t.insert key window i).head = Function.update t.head (key i) i := rfl

@[simp] theorem prev_insert (t : Table κ) (i : ℕ) :
    (t.insert key window i).prev = Function.update t.prev (i % window) (t.head (key i)) := rfl

theorem build_succ (n : ℕ) :
    Table.build key window (n + 1) = (Table.build key window n).insert key window n := by
  rw [Table.build, List.range_succ, List.foldl_append]
  rfl

theorem head_build (k : κ) (n : ℕ) : (Table.build key window n).head k = latest key k n := by
  induction n with
  | zero => rfl
  | succ n ih =>
    rw [build_succ, head_insert, latest, Function.update_apply, ih]
    simp only [eq_comm]

/-- **The ring within the window** holds the place in front of every place. -/
theorem prev_build {c n : ℕ} (hc : c < n) (hn : n ≤ c + window) :
    (Table.build key window n).prev (c % window) = latest key (key c) c := by
  induction n with
  | zero => exact absurd hc (Nat.not_lt_zero c)
  | succ n ih =>
    rw [build_succ, prev_insert]
    obtain hlt | rfl := Nat.lt_succ_iff_lt_or_eq.mp hc
    · -- less than a window lies between the two places, and they do not share an entry
      have hne : c % window ≠ n % window := by
        intro heq
        have hdvd : window ∣ n - c := (Nat.modEq_iff_dvd' hlt.le).mp heq
        have hle := Nat.le_of_dvd (Nat.sub_pos_of_lt hlt) hdvd
        omega
      rw [Function.update_of_ne hne]
      exact ih hlt (by omega)
    · rw [Function.update_self, head_build]

/-- A walk from the last place in front of `m`. -/
theorem walk_latest {i m : ℕ} (hm : m ≤ i) (k : κ) (fuel : ℕ) :
    (Table.build key window i).walk window i fuel (latest key k m) =
      ((List.range m).reverse.filter fun c => i - c < window ∧ key c = k).take fuel := by
  induction m generalizing fuel with
  | zero => cases fuel <;> rfl
  | succ m ih =>
    rw [latest, List.range_succ, List.reverse_append]
    by_cases hkey : key m = k
    · rw [if_pos hkey]
      cases fuel with
      | zero => rfl
      | succ fuel =>
        rw [Table.walk, Int.toNat_natCast]
        by_cases hfar : window ≤ i - m
        · -- everything in front is beyond the window as well
          rw [if_pos (Or.inr hfar)]
          refine (List.take_eq_nil_iff.mpr (Or.inr (List.filter_eq_nil_iff.mpr ?_))).symm
          intro c hc
          simp only [List.reverse_singleton, List.mem_append, List.mem_singleton,
            List.mem_reverse, List.mem_range] at hc
          simp only [decide_eq_true_eq, not_and]
          omega
        · rw [if_neg (by omega), prev_build (by omega) (by omega), hkey, ih (by omega)]
          simp [hkey, not_le.mp hfar]
    · rw [if_neg hkey, ih (by omega)]
      simp [hkey]

/-- **A walk meets the earlier places with the key**, the nearest first. -/
theorem walk_build (i : ℕ) (k : κ) (fuel : ℕ) :
    (Table.build key window i).walk window i fuel ((Table.build key window i).head k) =
      (earlier key window i k).take fuel := by
  rw [head_build]
  exact walk_latest le_rfl k fuel

theorem mem_earlier {i c : ℕ} {k : κ} :
    c ∈ earlier key window i k ↔ c < i ∧ i - c < window ∧ key c = k := by
  simp [earlier]

theorem sorted_earlier (i : ℕ) (k : κ) : (earlier key window i k).Pairwise (· > ·) := by
  refine List.Pairwise.filter _ (List.pairwise_reverse.mpr ?_)
  exact List.pairwise_lt_range

end Tables

/-! ### The first of the best -/

section Choose

variable {α β : Type*} [LinearOrder α] (value : ℕ → α) (item : ℕ → β)

/-- A place replaces the best one if its value is greater. -/
def chooseStep (s : α × β) (c : ℕ) : α × β := if s.1 < value c then (value c, item c) else s

/-- The value of the first of the best places, if it is more than `s`, and its item. -/
def choose (s : α × β) (places : List ℕ) : α × β := places.foldl (chooseStep value item) s

/-- **What is chosen**: nothing, or a place with the greatest value, the first one of them. -/
theorem choose_spec (s : α × β) (places : List ℕ) :
    (choose value item s places = s ∧ ∀ c ∈ places, value c ≤ s.1) ∨
      ∃ front c back, places = front ++ c :: back ∧
        choose value item s places = (value c, item c) ∧ s.1 < value c ∧
        (∀ x ∈ front, value x < value c) ∧ ∀ x ∈ back, value x ≤ value c := by
  rw [choose]
  induction places generalizing s with
  | nil => exact Or.inl ⟨rfl, fun c hc => absurd hc List.not_mem_nil⟩
  | cons p places ih =>
    rw [List.foldl_cons]
    by_cases hbetter : s.1 < value p
    · have hstep : chooseStep value item s p = (value p, item p) := if_pos hbetter
      rw [hstep]
      obtain ⟨hsame, hle⟩ | ⟨front, c, back, rfl, heq, hlt, hfront, hback⟩ := ih (value p, item p)
      · exact Or.inr ⟨[], p, places, rfl, hsame, hbetter,
          fun x hx => absurd hx List.not_mem_nil, hle⟩
      · refine Or.inr ⟨p :: front, c, back, rfl, heq, hbetter.trans hlt, ?_, hback⟩
        rintro x (_ | ⟨_, hx⟩)
        · exact hlt
        · exact hfront x hx
    · have hstep : chooseStep value item s p = s := if_neg hbetter
      rw [hstep]
      obtain ⟨hsame, hle⟩ | ⟨front, c, back, rfl, heq, hlt, hfront, hback⟩ := ih s
      · refine Or.inl ⟨hsame, ?_⟩
        rintro x (_ | ⟨_, hx⟩)
        · exact not_lt.mp hbetter
        · exact hle x hx
      · refine Or.inr ⟨p :: front, c, back, rfl, heq, hlt, ?_, hback⟩
        rintro x (_ | ⟨_, hx⟩)
        · exact (not_lt.mp hbetter).trans_lt hlt
        · exact hfront x hx

end Choose

end HashChain

end HumanizedHash
