import HumanizedHash.Foundations.Machines
import Mathlib.Algebra.BigOperators.Group.Finset.Piecewise
import Mathlib.Data.Fintype.Basic

/-!
# Threads

Threads that each run a list of actions, in any interleaving. An action changes what belongs to its
thread and, under a lock, what is common to all of them. What a thread owns at the end does not
depend on the interleaving. What is common does not either, if the actions commute on it.

## Main definitions

* `Threads.Actions`, `Threads.State`, `Threads.step`: a schedule is a list of threads.

## Main results

* `Threads.run_spec`: the state behind any schedule.
* `Threads.run_finished`: the last state.
* `Threads.exists_run_finished`: every state has a schedule to the end.
-/

namespace HumanizedHash

namespace Threads

open Machines

variable {ι β π σ : Type*}

/-- What an action does to what its thread owns, and to what is common. -/
structure Actions (β π σ : Type*) where
  own : β → π → π
  common : β → σ → σ

/-- The actions that are left to each thread, what the threads own and what is common. -/
structure State (ι β π σ : Type*) where
  rest : ι → List β
  own : ι → π
  common : σ

/-- Every thread is at its end. -/
def State.Finished (s : State ι β π σ) : Prop := ∀ i, s.rest i = []

variable [DecidableEq ι] (A : Actions β π σ)

/-- The next action of a thread. -/
def step (s : State ι β π σ) (i : ι) : Option (β × State ι β π σ) :=
  match s.rest i with
  | [] => none
  | b :: bs => some (b, {
      rest := Function.update s.rest i bs
      own := Function.update s.own i (A.own b (s.own i))
      common := A.common b s.common })

variable {A} {s s' : State ι β π σ}

theorem step_eq_some {i : ι} {b : β} : step A s i = some (b, s') ↔
    ∃ bs, s.rest i = b :: bs ∧ s' = {
      rest := Function.update s.rest i bs
      own := Function.update s.own i (A.own b (s.own i))
      common := A.common b s.common } := by
  rw [step]
  cases hrest : s.rest i with
  | nil => exact iff_of_false nofun fun ⟨bs, h, _⟩ => absurd h (List.cons_ne_nil b bs).symm
  | cons c bs =>
    simp only [Option.some.injEq, Prod.mk.injEq, List.cons.injEq]
    constructor
    · rintro ⟨rfl, rfl⟩
      exact ⟨bs, ⟨rfl, rfl⟩, rfl⟩
    · rintro ⟨bs', ⟨rfl, rfl⟩, rfl⟩
      exact ⟨rfl, rfl⟩

section Runs

variable [Fintype ι]

/-- **A schedule.** Behind a schedule each thread has done a first part of its list, and what it
owns is what comes of this part alone. The schedule performs the actions of these parts. -/
theorem run_spec {sched : List ι} {bs : List β} (h : run (step A) s sched = some (bs, s')) :
    ∃ done : ι → List β, (∀ i, s.rest i = done i ++ s'.rest i) ∧
      (∀ i, s'.own i = (done i).foldl (fun p b => A.own b p) (s.own i)) ∧
      s'.common = bs.foldl (fun c b => A.common b c) s.common ∧
      (bs : Multiset β) = ∑ i, (done i : Multiset β) := by
  induction sched generalizing s bs with
  | nil =>
    rw [run_nil, Option.some.injEq, Prod.mk.injEq] at h
    obtain ⟨rfl, rfl⟩ := h
    exact ⟨fun _ => [], fun _ => rfl, fun _ => rfl, rfl, by simp⟩
  | cons i sched ih =>
    obtain ⟨b, t, bs', hstep, hrun, rfl⟩ := run_cons_eq_some.mp h
    obtain ⟨rest, hrest, rfl⟩ := step_eq_some.mp hstep
    obtain ⟨done, hparts, hown, hcommon, hbs⟩ := ih hrun
    dsimp only at hparts hown
    refine ⟨Function.update done i (b :: done i), fun j => ?_, fun j => ?_, hcommon, ?_⟩
    · by_cases hj : j = i
      · subst hj
        have hpart := hparts j
        rw [Function.update_self] at hpart
        rw [Function.update_self, hrest, hpart, List.cons_append]
      · have hpart := hparts j
        rw [Function.update_of_ne hj] at hpart
        rw [Function.update_of_ne hj, hpart]
    · by_cases hj : j = i
      · subst hj
        rw [hown, Function.update_self, Function.update_self, List.foldl_cons]
      · rw [hown, Function.update_of_ne hj, Function.update_of_ne hj]
    · have hterm (j : ι) : ((Function.update done i (b :: done i) j : List β) : Multiset β) =
          (if j = i then {b} else 0) + (done j : Multiset β) := by
        by_cases hj : j = i
        · subst hj
          rw [Function.update_self, if_pos rfl, Multiset.singleton_add, Multiset.cons_coe]
        · rw [Function.update_of_ne hj, if_neg hj, zero_add]
      rw [Finset.sum_congr rfl fun j _ => hterm j, Finset.sum_add_distrib, Finset.sum_ite_eq',
        if_pos (Finset.mem_univ i), ← hbs, Multiset.singleton_add, Multiset.cons_coe]

/-- **The end.** What each thread owns is what comes of its own list, and what is common is what
comes of the actions of all of them, in any order `l`, if they commute. -/
theorem run_finished [RightCommutative fun c b => A.common b c] {sched : List ι} {bs : List β}
    (h : run (step A) s sched = some (bs, s')) (hend : s'.Finished) {l : List β}
    (hl : (l : Multiset β) = ∑ i, (s.rest i : Multiset β)) :
    (∀ i, s'.own i = (s.rest i).foldl (fun p b => A.own b p) (s.own i)) ∧
      s'.common = l.foldl (fun c b => A.common b c) s.common := by
  obtain ⟨done, hparts, hown, hcommon, hbs⟩ := run_spec h
  have hdone (i : ι) : s.rest i = done i := by rw [hparts i, hend i, List.append_nil]
  have hperm : bs.Perm l := by
    rw [← Multiset.coe_eq_coe, hl, hbs]
    exact Finset.sum_congr rfl fun i _ => by rw [hdone]
  exact ⟨fun i => by rw [hown, hdone], by rw [hcommon, hperm.foldl_eq]⟩

/-- Every state has a schedule to the end. -/
theorem exists_run_finished (A : Actions β π σ) (s : State ι β π σ) :
    ∃ sched bs s', run (step A) s sched = some (bs, s') ∧ s'.Finished := by
  induction hn : ∑ i, (s.rest i).length generalizing s with
  | zero =>
    refine ⟨[], [], s, rfl, fun i => List.length_eq_zero_iff.mp ?_⟩
    exact Finset.sum_eq_zero_iff.mp hn i (Finset.mem_univ i)
  | succ n ih =>
    obtain ⟨i, -, hi⟩ := Finset.exists_ne_zero_of_sum_ne_zero (hn.trans_ne (Nat.succ_ne_zero n))
    cases hrest : s.rest i with
    | nil => exact absurd (congrArg List.length hrest) hi
    | cons b bs =>
      obtain ⟨t, hstep, ht⟩ : ∃ t, step A s i = some (b, t) ∧
          t.rest = Function.update s.rest i bs :=
        ⟨_, step_eq_some.mpr ⟨bs, hrest, rfl⟩, rfl⟩
      have hsum : ∑ j, (t.rest j).length = n := by
        have hterm (j : ι) : (s.rest j).length = (if j = i then 1 else 0) + (t.rest j).length := by
          rw [ht]
          by_cases hj : j = i
          · rw [hj, hrest, Function.update_self, if_pos rfl, List.length_cons, Nat.add_comm]
          · rw [Function.update_of_ne hj, if_neg hj, Nat.zero_add]
        rw [Finset.sum_congr rfl fun j _ => hterm j, Finset.sum_add_distrib, Finset.sum_ite_eq',
          if_pos (Finset.mem_univ i)] at hn
        omega
      obtain ⟨sched, bs', s', hrun, hend⟩ := ih t hsum
      exact ⟨i :: sched, b :: bs', s', run_cons_eq_some.mpr ⟨b, t, bs', hstep, hrun, rfl⟩, hend⟩

end Runs

end Threads

end HumanizedHash
