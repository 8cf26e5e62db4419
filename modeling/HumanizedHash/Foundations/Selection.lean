import Mathlib.Data.List.Induction
import Mathlib.Data.List.Sort
import Mathlib.Order.Monotone.Basic

/-!
# The least of a stream

A list of bounded length that keeps the items of least score among those it was offered. It is
sorted; an item that is not better than the last one of a full list is turned away. Whatever the
order of the offers, the scores that are kept are the least ones. Which of several items with one
score are kept depends on the order; if the items come in increasing order, they are the least ones
themselves. Lists of parts of the stream are merged by offers.

## Main definitions

* `Selection.least`: the least of a list, in order.
* `Selection.offer`, `Selection.merge`: the operations.
* `Selection.Keeps`: what a list owes to its stream.

## Main results

* `Selection.keeps_offer`, `Selection.keeps_merge`: the operations keep it.
* `Selection.Keeps.mem_of_score_lt`: no better item is missing.
* `Selection.foldl_offer_eq_least`: a stream in increasing order.
-/

namespace HumanizedHash

namespace Selection

variable {α β : Type*} [LinearOrder α] [LinearOrder β]

/-! ### The least of a list -/

/-- The `k` least of a list, in order. -/
def least (k : ℕ) (l : List α) : List α := (l.insertionSort (· ≤ ·)).take k

theorem least_perm (k : ℕ) {l l' : List α} (h : l.Perm l') : least k l = least k l' := by
  have hsort : l.insertionSort (· ≤ ·) = l'.insertionSort (· ≤ ·) :=
    (((l.perm_insertionSort _).trans h).trans (l'.perm_insertionSort _).symm).eq_of_pairwise'
      (l.pairwise_insertionSort _) (l'.pairwise_insertionSort _)
  rw [least, hsort, least]

/-- What is cut off a sorted list does not matter for an insertion. -/
theorem take_orderedInsert (k : ℕ) (a : α) (s : List α) :
    (s.orderedInsert (· ≤ ·) a).take k = ((s.take k).orderedInsert (· ≤ ·) a).take k := by
  induction s generalizing k with
  | nil => rw [List.take_nil]
  | cons b s ih =>
    cases k with
    | zero => rw [List.take_zero, List.take_zero]
    | succ k =>
      rw [List.take_succ_cons, List.orderedInsert, List.orderedInsert]
      by_cases hle : a ≤ b
      · rw [if_pos hle, if_pos hle, List.take_succ_cons, List.take_succ_cons]
        cases k with
        | zero => rw [List.take_zero, List.take_zero]
        | succ k =>
          rw [List.take_succ_cons, List.take_succ_cons, List.take_take,
            Nat.min_eq_left (Nat.le_succ k)]
      · rw [if_neg hle, if_neg hle, List.take_succ_cons, List.take_succ_cons, ih]

theorem insertionSort_least (k : ℕ) (l : List α) :
    (least k l).insertionSort (· ≤ ·) = least k l :=
  List.Pairwise.insertionSort_eq ((l.pairwise_insertionSort _).sublist (List.take_sublist k _))

theorem least_least (k : ℕ) (l : List α) : least k (least k l) = least k l := by
  rw [least, insertionSort_least, least, List.take_take, Nat.min_self]

theorem least_cons (k : ℕ) (a : α) (l : List α) : least k (a :: l) = least k (a :: least k l) := by
  rw [least, least, List.insertionSort_cons, List.insertionSort_cons, insertionSort_least, least,
    ← take_orderedInsert]

/-- The least of two lists are the least of the one and the least of the other. -/
theorem least_append (k : ℕ) (l l' : List α) : least k (l ++ l') = least k (l ++ least k l') := by
  induction l with
  | nil => rw [List.nil_append, List.nil_append, least_least]
  | cons a l ih => rw [List.cons_append, List.cons_append, least_cons, ih, ← least_cons]

theorem least_append_left (k : ℕ) (l l' : List α) :
    least k (l ++ l') = least k (least k l ++ l') := by
  rw [least_perm k List.perm_append_comm, least_append, least_perm k List.perm_append_comm]

theorem least_of_pairwise {k : ℕ} {l : List α} (h : l.Pairwise (· ≤ ·)) : least k l = l.take k := by
  rw [least, h.insertionSort_eq]

theorem length_least (k : ℕ) (l : List α) : (least k l).length = min k l.length := by
  rw [least, List.length_take, List.length_insertionSort]

theorem subperm_least (k : ℕ) (l : List α) : (least k l).Subperm l :=
  (List.take_sublist k _).subperm.trans (l.perm_insertionSort _).subperm

/-- What is less than one of the least is one of them. -/
theorem count_least {k : ℕ} {l : List α} {a b : α} (hb : b ∈ least k l) (hab : a < b) :
    (least k l).count a = l.count a := by
  have hsorted := l.pairwise_insertionSort (· ≤ ·)
  have hsplit : l.count a = (least k l).count a + ((l.insertionSort (· ≤ ·)).drop k).count a := by
    rw [least, ← List.count_append, List.take_append_drop, (l.perm_insertionSort _).count_eq]
  have hrest : ((l.insertionSort (· ≤ ·)).drop k).count a = 0 := by
    refine List.count_eq_zero.mpr fun ha => ?_
    rw [← List.take_append_drop k (l.insertionSort (· ≤ ·)), List.pairwise_append] at hsorted
    exact absurd (hsorted.2.2 b hb a ha) (not_le.mpr hab)
  rw [hsplit, hrest, Nat.add_zero]

/-! ### The operations -/

section Operations

variable (score : β → α) (k : ℕ)

/-- An offer: a full list turns away what is not better than its last item. -/
def offer (best : List β) (b : β) : List β :=
  if best.length = k ∧ ∃ last ∈ best.getLast?, score last ≤ score b then
    best
  else
    let best := (best ++ [b]).mergeSort
    if k < best.length then best.dropLast else best

/-- Every item of `other` is offered. -/
def merge (best other : List β) : List β := other.foldl (offer score k) best

/-- What a list owes to the stream `l`: it is sorted, it has nothing else, and its scores are the
least ones. -/
structure Keeps (l best : List β) : Prop where
  sorted : best.Pairwise (· ≤ ·)
  subperm : best.Subperm l
  scores : best.map score = least k (l.map score)

variable {score k} {l l' best other : List β}

theorem keeps_nil : Keeps score k [] [] where
  sorted := .nil
  subperm := List.Subperm.refl []
  scores := by rw [List.map_nil, least, List.insertionSort_nil, List.take_nil]

theorem Keeps.length_eq (h : Keeps score k l best) : best.length = min k l.length := by
  rw [← List.length_map score, h.scores, length_least, List.length_map]

theorem Keeps.length_le (h : Keeps score k l best) : best.length ≤ k :=
  h.length_eq.trans_le (min_le_left ..)

/-- The scores of the least items are the least scores. -/
theorem map_least (hscore : Monotone score) (l : List β) :
    (least k l).map score = least k (l.map score) := by
  have hsort : (l.insertionSort (· ≤ ·)).map score = (l.map score).insertionSort (· ≤ ·) :=
    (((l.perm_insertionSort _).map score).trans (List.perm_insertionSort _ _).symm).eq_of_pairwise'
      ((l.pairwise_insertionSort _).map score fun a b hab => hscore hab)
      (List.pairwise_insertionSort _ _)
  rw [least, List.map_take, hsort, least]

/-- An item that is not turned away is put in its place, and the last item is dropped if there are
too many. -/
theorem offer_of_not_full {b : β} (hlength : best.length ≤ k)
    (h : ¬(best.length = k ∧ ∃ last ∈ best.getLast?, score last ≤ score b)) :
    offer score k best b = least k (best ++ [b]) := by
  have hsorted : ((best ++ [b]).insertionSort (· ≤ ·)).length = best.length + 1 := by
    rw [List.length_insertionSort, List.length_append, List.length_singleton]
  rw [offer, if_neg h, List.mergeSort_eq_insertionSort (· ≤ ·), least]
  dsimp only
  split_ifs with hlt
  · rw [List.dropLast_eq_take, hsorted, show best.length + 1 - 1 = k by omega]
  · rw [List.take_of_length_le (not_lt.mp hlt)]

/-- A list in order that is full and does not go beyond `b`. -/
theorem least_append_of_full {γ : Type*} [LinearOrder γ] {best : List γ} {b last : γ}
    (hsorted : best.Pairwise (· ≤ ·)) (hlength : best.length = k) (hlast : last ∈ best.getLast?)
    (hle : last ≤ b) : least k (best ++ [b]) = best := by
  have hall : ∀ a ∈ best, a ≤ b := by
    intro a ha
    obtain ⟨front, rfl⟩ := List.getLast?_eq_some_iff.mp hlast
    rcases List.mem_append.mp ha with hfront | hend
    · have hfront := (List.pairwise_append.mp hsorted).2.2 a hfront last
        (List.mem_singleton_self last)
      exact hfront.trans hle
    · exact (List.mem_singleton.mp hend).le.trans hle
  have hsorted' : (best ++ [b]).Pairwise (· ≤ ·) := by
    refine List.pairwise_append.mpr ⟨hsorted, List.pairwise_singleton .., fun a ha c hc => ?_⟩
    rw [List.mem_singleton.mp hc]
    exact hall a ha
  rw [least_of_pairwise hsorted', List.take_append_of_le_length hlength.ge,
    List.take_of_length_le hlength.le]

/-- **An offer.** -/
theorem keeps_offer (hscore : Monotone score) (h : Keeps score k l best) (b : β) :
    Keeps score k (l ++ [b]) (offer score k best b) := by
  have hscores : least k ((l ++ [b]).map score) = least k ((best ++ [b]).map score) := by
    rw [List.map_append, List.map_append, least_append_left, ← h.scores]
  by_cases hfull : best.length = k ∧ ∃ last ∈ best.getLast?, score last ≤ score b
  · obtain ⟨hlength, last, hlast, hle⟩ := hfull
    rw [offer, if_pos ⟨hlength, last, hlast, hle⟩]
    refine ⟨h.sorted, h.subperm.trans (List.sublist_append_left l [b]).subperm, ?_⟩
    have hlast' : score last ∈ (best.map score).getLast? := by
      rw [List.getLast?_map, Option.mem_def.mp hlast]
      rfl
    rw [hscores, List.map_append]
    exact (least_append_of_full (h.sorted.map score fun a b hab => hscore hab)
      (by rw [List.length_map, hlength]) hlast' hle).symm
  · rw [offer_of_not_full h.length_le hfull]
    refine ⟨(List.pairwise_insertionSort _ _).sublist (List.take_sublist ..), ?_, ?_⟩
    · exact (subperm_least k _).trans ((List.subperm_append_right [b]).mpr h.subperm)
    · rw [map_least hscore, hscores]

/-- Several offers. -/
theorem keeps_foldl_offer (hscore : Monotone score) (bs : List β) (h : Keeps score k l best) :
    Keeps score k (l ++ bs) (bs.foldl (offer score k) best) := by
  induction bs generalizing l best with
  | nil => rwa [List.append_nil]
  | cons b bs ih =>
    have hrest := ih (keeps_offer hscore h b)
    rwa [List.append_assoc, List.singleton_append] at hrest

/-- **A merge.** -/
theorem keeps_merge (hscore : Monotone score) (h : Keeps score k l best)
    (h' : Keeps score k l' other) : Keeps score k (l ++ l') (merge score k best other) := by
  have hmerge := keeps_foldl_offer hscore other h
  refine ⟨hmerge.sorted, hmerge.subperm.trans ((List.subperm_append_left l).mpr h'.subperm), ?_⟩
  rw [merge, hmerge.scores, List.map_append, List.map_append, h'.scores, ← least_append]

/-- The order of the stream is of no account. -/
theorem Keeps.perm (h : Keeps score k l best) (hperm : l.Perm l') : Keeps score k l' best where
  sorted := h.sorted
  subperm := h.subperm.trans hperm.subperm
  scores := h.scores.trans (least_perm k (hperm.map score))

/-- **No better item is missing.** -/
theorem Keeps.mem_of_score_lt (h : Keeps score k l best) {a b : β} (ha : a ∈ l) (hb : b ∈ best)
    (hab : score a < score b) : a ∈ best := by
  have hcount : (best.map score).count (score a) = (l.map score).count (score a) := by
    rw [h.scores]
    exact count_least (h.scores ▸ List.mem_map_of_mem hb) hab
  by_contra hnot
  obtain ⟨rest, hperm⟩ : ∃ rest, l.Perm (best ++ rest) := by
    obtain ⟨m, hm, hsub⟩ := h.subperm
    obtain ⟨rest, hrest⟩ := hsub.exists_perm_append
    exact ⟨rest, hrest.trans (hm.append_right rest)⟩
  have hmem : a ∈ rest := by
    have := hperm.mem_iff.mp ha
    exact (List.mem_append.mp this).resolve_left hnot
  have hsum := (hperm.map score).count_eq (score a)
  rw [List.map_append, List.count_append] at hsum
  have hpos : 0 < (rest.map score).count (score a) :=
    List.count_pos_iff.mpr (List.mem_map_of_mem hmem)
  omega

/-- An offer to the least items of a stream, of an item that comes behind those that are not
worse. -/
theorem offer_least {b : β} (h : ∀ a ∈ l, score a ≤ score b → a ≤ b) :
    offer score k (least k l) b = least k (l ++ [b]) := by
  rw [least_append_left]
  by_cases hfull : (least k l).length = k ∧ ∃ last ∈ (least k l).getLast?, score last ≤ score b
  · obtain ⟨hlength, last, hlast, hle⟩ := hfull
    have hmem : last ∈ l := (subperm_least k l).subset (List.mem_of_getLast? hlast)
    have hsorted : (least k l).Pairwise (· ≤ ·) :=
      (l.pairwise_insertionSort _).sublist (List.take_sublist k _)
    rw [offer, if_pos ⟨hlength, last, hlast, hle⟩,
      least_append_of_full hsorted hlength hlast (h last hmem hle)]
  · exact offer_of_not_full ((length_least k l).trans_le (min_le_left ..)) hfull

/-- **A stream in order.** If every item comes behind those that are not worse, the list has the
least items. -/
theorem foldl_offer_eq_least (h : l.Pairwise fun a b => score a ≤ score b → a ≤ b) :
    l.foldl (offer score k) [] = least k l := by
  induction l using List.reverseRecOn with
  | nil => rw [List.foldl_nil, least, List.insertionSort_nil, List.take_nil]
  | append_singleton l b ih =>
    obtain ⟨hl, -, hb⟩ := List.pairwise_append.mp h
    rw [List.foldl_append, ih hl, List.foldl_cons, List.foldl_nil,
      offer_least fun a ha => hb a ha b (List.mem_singleton_self b)]

end Operations

end Selection

end HumanizedHash
