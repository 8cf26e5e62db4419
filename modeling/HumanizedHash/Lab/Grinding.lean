import HumanizedHash.Foundations.Selection
import HumanizedHash.Foundations.Threads
import Mathlib.Algebra.Order.Ring.Rat
import Mathlib.Data.Fintype.Fin
import Mathlib.Data.List.FinRange
import Mathlib.Data.Nat.ModEq
import Mathlib.Data.Prod.Lex

/-!
# The search of the lab

The lab scores many candidates and keeps the nearest ones in lists. The candidates are dealt out to
threads; a thread keeps lists of its own, which are merged at the end, and what the threads share is
changed under a lock. For a number of threads the lists do not depend on how the threads interleave.
Which of several candidates with one score are kept may depend on the number of threads; that the
scores are the least ones does not.

## Main definitions

* `Lab.BestList.offer`, `Lab.BestList.merge`: the lists.
* `Lab.candidatesFrom`, `Lab.grindStart`, `Lab.grindActions`, `Lab.grindResult`: a search.

## Main results

* `Lab.grind_exact`: the lists of a search, and what the threads share.

## References

* `src/tools/lab/grinding.cpp`.
-/

namespace HumanizedHash

namespace Lab

open Machines

/-! ### The code -/

def keep : ℕ := 5

/-- `hit`. A score is a finite `double`, so a rational number. -/
structure Hit where
  score : ℚ
  index : ℕ
  deriving DecidableEq

namespace Hit

/-- What the comparison of the sort looks at. -/
def key (h : Hit) : ℚ ×ₗ ℕ := toLex (h.score, h.index)

theorem key_injective : Function.Injective key := by
  rintro ⟨s, i⟩ ⟨s', i'⟩ h
  obtain ⟨rfl, rfl⟩ := Prod.mk.injEq .. ▸ toLex_inj.mp h
  rfl

/-- The order of the sort: by the score, then by the index. -/
instance : LinearOrder Hit := LinearOrder.lift' key key_injective

theorem le_iff (a b : Hit) : a ≤ b ↔ a.score < b.score ∨ a.score = b.score ∧ a.index ≤ b.index :=
  Prod.Lex.toLex_le_toLex

theorem score_monotone : Monotone score := by
  intro a b h
  rcases (le_iff a b).mp h with hlt | ⟨heq, -⟩
  · exact hlt.le
  · exact heq.le

end Hit

/-- `best_list`. -/
abbrev BestList := List Hit

/-- `best_list::offer`. -/
def BestList.offer (hits : BestList) (score : ℚ) (index : ℕ) : BestList :=
  if hits.length = keep ∧ ∃ last ∈ hits.getLast?, last.score ≤ score then
    hits
  else
    let hits := (hits ++ [Hit.mk score index]).mergeSort
    if keep < hits.length then hits.dropLast else hits

/-- `best_list::merge`. -/
def BestList.merge (hits other : BestList) : BestList :=
  other.foldl (fun hits h => hits.offer h.score h.index) hits

/-- The loop of a thread of `grind`, from the candidate `j` on. -/
def candidatesFrom (count threads j : ℕ) : List ℕ :=
  if 0 < threads ∧ j < count then j :: candidatesFrom count threads (j + threads) else []
termination_by count - j

/-- What `fn` does with a candidate, one after the other: offers to the lists of its thread, and
steps under the lock. -/
inductive Action (lists : ℕ) (γ : Type)
  | offer (list : Fin lists) (score : ℚ) (index : ℕ)
  | locked (c : γ)

section Search

variable {lists : ℕ} {γ σ : Type}

/-- The effects of the actions. -/
def grindActions (locked : γ → σ → σ) :
    Threads.Actions (Action lists γ) (Fin lists → BestList) σ where
  own
    | .offer i score index, best => Function.update best i ((best i).offer score index)
    | .locked _, best => best
  common
    | .offer .., common => common
    | .locked c, common => locked c common

/-- `grind`, when its threads start. -/
def grindStart (count threads : ℕ) (fn : ℕ → List (Action lists γ)) (common : σ) :
    Threads.State (Fin threads) (Action lists γ) (Fin lists → BestList) σ where
  rest t := (candidatesFrom count threads t).flatMap fn
  own _ _ := []
  common

/-- `grind`, when its threads are joined: the merge of their lists. -/
def grindResult {threads : ℕ}
    (s : Threads.State (Fin threads) (Action lists γ) (Fin lists → BestList) σ) (i : Fin lists) :
    BestList :=
  (List.finRange threads).foldl (fun out t => BestList.merge out (s.own t i)) []

end Search

/-! ### The candidates of the threads -/

theorem mem_candidatesFrom {count threads : ℕ} (hthreads : 0 < threads) {j i : ℕ} :
    i ∈ candidatesFrom count threads j ↔ j ≤ i ∧ i < count ∧ i % threads = j % threads := by
  induction j using candidatesFrom.induct count threads with
  | case1 j h ih =>
    rw [candidatesFrom, if_pos h, List.mem_cons, ih, Nat.add_mod_right]
    constructor
    · rintro (rfl | ⟨hle, hlt, hmod⟩)
      · exact ⟨le_rfl, h.2, rfl⟩
      · exact ⟨(Nat.le_add_right j threads).trans hle, hlt, hmod⟩
    · rintro ⟨hle, hlt, hmod⟩
      refine (Nat.eq_or_lt_of_le hle).imp Eq.symm fun hji => ⟨?_, hlt, hmod⟩
      -- two numbers with one remainder are not closer than the divisor
      have hdvd : threads ∣ i - j := (Nat.modEq_iff_dvd' hle).mp hmod.symm
      have hstep := Nat.le_of_dvd (Nat.sub_pos_of_lt hji) hdvd
      omega
  | case2 j h =>
    rw [candidatesFrom, if_neg h]
    exact iff_of_false List.not_mem_nil fun ⟨hle, hlt, _⟩ => h ⟨hthreads, hle.trans_lt hlt⟩

theorem candidatesFrom_pairwise {count threads : ℕ} (hthreads : 0 < threads) (j : ℕ) :
    (candidatesFrom count threads j).Pairwise (· < ·) := by
  induction j using candidatesFrom.induct count threads with
  | case1 j h ih =>
    rw [candidatesFrom, if_pos h]
    refine List.pairwise_cons.mpr ⟨fun i hi => ?_, ih⟩
    exact (Nat.lt_add_of_pos_right hthreads).trans_le ((mem_candidatesFrom hthreads).mp hi).1
  | case2 j h =>
    rw [candidatesFrom, if_neg h]
    exact .nil

/-- One thread takes the candidates in order. -/
theorem candidatesFrom_one (count : ℕ) : candidatesFrom count 1 0 = List.range count := by
  have hmem (i : ℕ) : i ∈ candidatesFrom count 1 0 ↔ i ∈ List.range count := by
    rw [mem_candidatesFrom Nat.one_pos, List.mem_range, Nat.mod_one]
    exact ⟨fun h => h.2.1, fun h => ⟨i.zero_le, h, rfl⟩⟩
  have hpairwise : (candidatesFrom count 1 0).Pairwise (· < ·) :=
    candidatesFrom_pairwise Nat.one_pos 0
  exact ((List.perm_ext_iff_of_nodup (hpairwise.imp Nat.ne_of_lt) List.nodup_range).mpr
    hmem).eq_of_pairwise' hpairwise List.pairwise_lt_range

/-- **Every candidate is dealt out once.** -/
theorem flatMap_candidatesFrom_perm (count : ℕ) {threads : ℕ} (hthreads : 0 < threads) :
    ((List.finRange threads).flatMap fun (t : Fin threads) => candidatesFrom count threads t).Perm
      (List.range count) := by
  refine (List.perm_ext_iff_of_nodup ?_ List.nodup_range).mpr fun i => ?_
  · refine List.nodup_flatMap.mpr ⟨fun t _ => (candidatesFrom_pairwise hthreads t).imp Nat.ne_of_lt,
      (List.nodup_finRange threads).imp fun {t t'} hne i hi hi' => hne (Fin.ext ?_)⟩
    have hmod := ((mem_candidatesFrom hthreads).mp hi).2.2
    rw [((mem_candidatesFrom hthreads).mp hi').2.2, Nat.mod_eq_of_lt t.isLt,
      Nat.mod_eq_of_lt t'.isLt] at hmod
    exact hmod.symm
  · rw [List.mem_flatMap, List.mem_range]
    constructor
    · rintro ⟨t, -, ht⟩
      exact ((mem_candidatesFrom hthreads).mp ht).2.1
    · intro hi
      refine ⟨⟨i % threads, Nat.mod_lt i hthreads⟩, List.mem_finRange _,
        (mem_candidatesFrom hthreads).mpr ⟨Nat.mod_le i threads, hi, ?_⟩⟩
      exact (Nat.mod_mod i threads).symm

/-! ### The lists -/

section Lists

variable {lists threads count : ℕ} {γ σ : Type}

/-- The offers to a list. -/
def offersTo (i : Fin lists) : List (Action lists γ) → List Hit :=
  List.filterMap fun
    | .offer i' score index => if i' = i then some ⟨score, index⟩ else none
    | .locked _ => none

/-- The steps under the lock. -/
def lockedSteps : List (Action lists γ) → List γ :=
  List.filterMap fun
    | .offer .. => none
    | .locked c => some c

@[simp] theorem offersTo_nil (i : Fin lists) : offersTo i ([] : List (Action lists γ)) = [] := rfl

@[simp] theorem offersTo_cons_offer (i i' : Fin lists) (score : ℚ) (index : ℕ)
    (as : List (Action lists γ)) : offersTo i (.offer i' score index :: as) =
      (if i' = i then [⟨score, index⟩] else []) ++ offersTo i as := by
  by_cases hi : i' = i
  · rw [if_pos hi]
    exact List.filterMap_cons_some (if_pos hi)
  · rw [if_neg hi]
    exact List.filterMap_cons_none (if_neg hi)

@[simp] theorem offersTo_cons_locked (i : Fin lists) (c : γ) (as : List (Action lists γ)) :
    offersTo i (.locked c :: as) = offersTo i as := rfl

theorem offersTo_append (i : Fin lists) (as as' : List (Action lists γ)) :
    offersTo i (as ++ as') = offersTo i as ++ offersTo i as' := List.filterMap_append ..

theorem offersTo_flatMap {α : Type*} (i : Fin lists) (l : List α) (fn : α → List (Action lists γ)) :
    offersTo i (l.flatMap fn) = l.flatMap fun j => offersTo i (fn j) := List.filterMap_flatMap ..

@[simp] theorem lockedSteps_nil : lockedSteps ([] : List (Action lists γ)) = [] := rfl

@[simp] theorem lockedSteps_cons_offer (i : Fin lists) (score : ℚ) (index : ℕ)
    (as : List (Action lists γ)) : lockedSteps (.offer i score index :: as) = lockedSteps as := rfl

@[simp] theorem lockedSteps_cons_locked (c : γ) (as : List (Action lists γ)) :
    lockedSteps (.locked c :: as) = c :: lockedSteps as := rfl

theorem lockedSteps_flatMap {α : Type*} (l : List α) (fn : α → List (Action lists γ)) :
    lockedSteps (l.flatMap fn) = l.flatMap fun j => lockedSteps (fn j) := List.filterMap_flatMap ..

/-- The list `i` of a thread takes the offers to it. -/
theorem own_foldl (locked : γ → σ → σ) (i : Fin lists) (as : List (Action lists γ))
    (best : Fin lists → BestList) :
    as.foldl (fun best a => (grindActions locked).own a best) best i =
      (offersTo i as).foldl (Selection.offer Hit.score keep) (best i) := by
  induction as generalizing best with
  | nil => rfl
  | cons a as ih =>
    rw [List.foldl_cons, ih]
    cases a with
    | locked c => rfl
    | offer i' score index =>
      rw [offersTo_cons_offer]
      by_cases hi : i' = i
      · subst hi
        rw [if_pos rfl]
        exact congrArg (List.foldl _ · _) (Function.update_self ..)
      · rw [if_neg hi]
        exact congrArg (List.foldl _ · _) (Function.update_of_ne (Ne.symm hi) ..)

theorem common_foldl (locked : γ → σ → σ) (as : List (Action lists γ)) (common : σ) :
    as.foldl (fun common a => (grindActions locked).common a common) common =
      (lockedSteps as).foldl (fun common c => locked c common) common := by
  induction as generalizing common with
  | nil => rfl
  | cons a as ih =>
    rw [List.foldl_cons, ih]
    cases a <;> rfl

/-- The lists of all threads, merged one after the other. -/
theorem keeps_foldl_merge {ts : List (Fin threads)} {offers own : Fin threads → List Hit}
    (h : ∀ t, Selection.Keeps Hit.score keep (offers t) (own t)) {l out : List Hit}
    (hout : Selection.Keeps Hit.score keep l out) :
    Selection.Keeps Hit.score keep (l ++ ts.flatMap offers)
      (ts.foldl (fun out t => BestList.merge out (own t)) out) := by
  induction ts generalizing l out with
  | nil => rwa [List.flatMap_nil, List.append_nil]
  | cons t ts ih =>
    rw [List.flatMap_cons, ← List.append_assoc, List.foldl_cons]
    exact ih (Selection.keeps_merge Hit.score_monotone hout (h t))

end Lists

/-! ### A search -/

section Search

variable {lists threads count : ℕ} {γ σ : Type} {locked : γ → σ → σ}
  {fn : ℕ → List (Action lists γ)} {common : σ}

/-- All actions of a search, in the order of the candidates. -/
theorem sum_rest_grindStart (hthreads : 0 < threads) (fn : ℕ → List (Action lists γ)) (common : σ) :
    (((List.range count).flatMap fn : List (Action lists γ)) : Multiset (Action lists γ)) =
      ∑ t, ((grindStart count threads fn common).rest t : Multiset (Action lists γ)) := by
  have hperm := (flatMap_candidatesFrom_perm count hthreads).flatMap_right fn
  rw [List.flatMap_assoc] at hperm
  rw [← Multiset.coe_eq_coe.mpr hperm, ← Multiset.coe_bind]
  rfl

/-- What a candidate does to its thread does not touch what is common, and the other way round. -/
theorem rightCommutative_grindActions [hlocked : RightCommutative fun common c => locked c common] :
    RightCommutative fun common (a : Action lists γ) => (grindActions locked).common a common where
  right_comm common a a' := by
    cases a with
    | offer => rfl
    | locked c =>
      cases a' with
      | offer => rfl
      | locked c' => exact hlocked.right_comm common c c'

/-- The list of a thread at the end. -/
theorem own_finished {sched : List (Fin threads)} {as : List (Action lists γ)}
    {s : Threads.State (Fin threads) (Action lists γ) (Fin lists → BestList) σ}
    (h : run (Threads.step (grindActions locked)) (grindStart count threads fn common) sched =
      some (as, s)) (hend : s.Finished) (t : Fin threads) (i : Fin lists) :
    s.own t i = ((candidatesFrom count threads t).flatMap fun j => offersTo i (fn j)).foldl
      (Selection.offer Hit.score keep) [] := by
  obtain ⟨done, hparts, hown, -, -⟩ := Threads.run_spec h
  have hdone : (candidatesFrom count threads t).flatMap fn = done t := by
    refine (hparts t).trans ?_
    rw [hend t, List.append_nil]
  rw [hown t, ← hdone, own_foldl, offersTo_flatMap]
  rfl

/-- **The lists at the end.** -/
theorem keeps_grindResult (hthreads : 0 < threads) {sched : List (Fin threads)}
    {as : List (Action lists γ)}
    {s : Threads.State (Fin threads) (Action lists γ) (Fin lists → BestList) σ}
    (h : run (Threads.step (grindActions locked)) (grindStart count threads fn common) sched =
      some (as, s)) (hend : s.Finished) (i : Fin lists) :
    Selection.Keeps Hit.score keep ((List.range count).flatMap fun j => offersTo i (fn j))
      (grindResult s i) := by
  have hown (t : Fin threads) : Selection.Keeps Hit.score keep
      ((candidatesFrom count threads t).flatMap fun j => offersTo i (fn j)) (s.own t i) := by
    rw [own_finished h hend]
    exact Selection.keeps_foldl_offer Hit.score_monotone _ Selection.keeps_nil
  refine (keeps_foldl_merge hown Selection.keeps_nil).perm ?_
  rw [List.nil_append, ← List.flatMap_assoc]
  exact (flatMap_candidatesFrom_perm count hthreads).flatMap_right _

/-- What the threads share at the end. -/
theorem common_finished [RightCommutative fun common c => locked c common] (hthreads : 0 < threads)
    {sched : List (Fin threads)} {as : List (Action lists γ)}
    {s : Threads.State (Fin threads) (Action lists γ) (Fin lists → BestList) σ}
    (h : run (Threads.step (grindActions locked)) (grindStart count threads fn common) sched =
      some (as, s)) (hend : s.Finished) :
    s.common = ((List.range count).flatMap fun j => lockedSteps (fn j)).foldl
      (fun common c => locked c common) common := by
  have hcommutes : RightCommutative fun common (a : Action lists γ) =>
      (grindActions locked).common a common := rightCommutative_grindActions
  rw [(Threads.run_finished h hend (sum_rest_grindStart hthreads fn common)).2, common_foldl,
    lockedSteps_flatMap]
  rfl

/-- Where every candidate is offered once, the offers come in the order of the candidates. -/
theorem offers_pairwise {i : Fin lists} (hfn : ∀ j, ∃ score, offersTo i (fn j) = [⟨score, j⟩]) :
    ((List.range count).flatMap fun j => offersTo i (fn j)).Pairwise
      fun a b => a.score ≤ b.score → a ≤ b := by
  choose score hscore using hfn
  refine List.pairwise_flatMap.mpr ⟨fun j _ => ?_, ?_⟩
  · rw [hscore]
    exact List.pairwise_singleton ..
  · refine List.pairwise_lt_range.imp fun {j j'} hlt a ha b hb hle => (Hit.le_iff a b).mpr ?_
    rw [hscore, List.mem_singleton] at ha hb
    subst ha hb
    exact hle.lt_or_eq.imp_right fun heq => ⟨heq, hlt.le⟩

/-- **A search.** However the threads interleave, the lists have the least scores that were offered
to them, in order. The interleaving does not show in the lists. If there is one thread, an earlier
candidate goes before a later one with its score. What the threads share is what the steps under the
lock make of it, if the order of these does not matter. -/
theorem grind_exact (hthreads : 0 < threads)
    {sched : List (Fin threads)} {as : List (Action lists γ)}
    {s : Threads.State (Fin threads) (Action lists γ) (Fin lists → BestList) σ}
    (h : run (Threads.step (grindActions locked)) (grindStart count threads fn common) sched =
      some (as, s)) (hend : s.Finished) :
    (∀ i, Selection.Keeps Hit.score keep ((List.range count).flatMap fun j => offersTo i (fn j))
      (grindResult s i)) ∧
    (∀ sched' as' s', run (Threads.step (grindActions locked))
      (grindStart count threads fn common) sched' = some (as', s') → s'.Finished →
      grindResult s' = grindResult s) ∧
    (threads = 1 → ∀ i, (∀ j, ∃ score, offersTo i (fn j) = [⟨score, j⟩]) →
      grindResult s i =
        Selection.least keep ((List.range count).flatMap fun j => offersTo i (fn j))) ∧
    (RightCommutative (fun common c => locked c common) →
      s.common = ((List.range count).flatMap fun j => lockedSteps (fn j)).foldl
        (fun common c => locked c common) common) := by
  refine ⟨keeps_grindResult hthreads h hend, fun sched' as' s' h' hend' => ?_, ?_,
    fun _ => common_finished hthreads h hend⟩
  · funext i
    rw [grindResult, grindResult]
    exact congrArg (fun own : Fin threads → BestList =>
      (List.finRange threads).foldl (fun out t => BestList.merge out (own t)) [])
      (funext fun t => (own_finished h' hend' t i).trans (own_finished h hend t i).symm)
  · rintro rfl i hfn
    have hown : s.own 0 i = Selection.least keep ((List.range count).flatMap fun j =>
        offersTo i (fn j)) := by
      rw [own_finished h hend, ← Selection.foldl_offer_eq_least (offers_pairwise hfn),
        ← candidatesFrom_one]
      rfl
    have hsorted : (s.own 0 i).Pairwise fun a b => a.score ≤ b.score → a ≤ b := by
      rw [hown, Selection.least]
      refine ((List.pairwise_insertionSort (· ≤ ·) _).sublist (List.take_sublist ..)).imp ?_
      exact fun hle _ => hle
    calc grindResult s i = (s.own 0 i).foldl (Selection.offer Hit.score keep) [] := rfl
      _ = Selection.least keep (s.own 0 i) := Selection.foldl_offer_eq_least hsorted
      _ = _ := by rw [hown, Selection.least_least]

/-- Two threads score three candidates and count them. -/
theorem grind_exact_two : ∃ s : Threads.State (Fin 2) (Action 1 ℕ) (Fin 1 → BestList) ℕ,
    s.Finished ∧ s.common = 3 ∧ ((grindResult s 0).map Hit.score).length = 3 := by
  have hright : RightCommutative fun (n c : ℕ) => n + c := ⟨Nat.add_right_comm⟩
  obtain ⟨sched, as, s, hrun, hend⟩ := Threads.exists_run_finished
    (grindActions fun c n : ℕ => n + c)
    (grindStart 3 2 (fun j => [.offer (0 : Fin 1) j j, .locked 1]) 0)
  have hexact := grind_exact (by decide) hrun hend
  refine ⟨s, hend, hexact.2.2.2 hright, ?_⟩
  rw [(hexact.1 0).scores, Selection.length_least]
  rfl

end Search

end Lab

end HumanizedHash
