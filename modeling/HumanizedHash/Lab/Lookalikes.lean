import HumanizedHash.Lab.Candidate
import HumanizedHash.Lab.Grinding
import HumanizedHash.Tools.Names
import HumanizedHash.Hashing.Sha256
import Mathlib.Algebra.Order.Floor.Semiring
import Mathlib.Data.Rat.Floor

/-!
# The search for lookalikes

For several targets the lab searches the candidates whose pictures are nearest. The cells of a
picture are compared in the order in which they strike the eye: which cells are empty, then the
colours, then the families of the figures, then the directions of the triangles. One number stands
for the four, the sheets take it apart again, and counters say how many candidates agree with a
target on the first of the four, on the first two, and so on.

## Main definitions

* `Lab.Salience`, `Lab.compareCells`, `Lab.salienceScore`, `Lab.salienceOf`.
* `Lab.hhCandidate`, `Lab.countStages`: what a candidate does.
* `Lab.Salience.Before`: nearer, in the order above.

## Main results

* `Lab.compareCells_eq_zero_iff`: no difference.
* `Lab.grindHh_exact`: the nearest candidates and the counters.

## References

* `src/tools/lab/grinding.cpp`, `src/tools/lab/lab_main.cpp`.
-/

namespace HumanizedHash

namespace Lab

open Machines

/-! ### The code -/

def targetCount : ℕ := 6

/-- `sample_fingerprint`. -/
def sampleFingerprint (label : List UInt8) (index : ℕ) : Vector UInt8 32 :=
  sha256Hash (label ++ Tools.text "/" ++ Numerals.numeral index)

/-- `candidate_bytes`. -/
def candidateBytes (scheme : UInt8) (j : ℕ) : Vector UInt8 32 :=
  sha256Hash (Tools.text "hh-lab/grind" ++ [scheme] ++ ByteOrder.bigEndian 8 j)

/-- The targets of `run_grinding`. -/
def grindTargets (t : Fin targetCount) : Vector Cell 16 :=
  features (sampleFingerprint (Tools.text "hh-lab/grind-target") t)

/-- `salience`. -/
structure Salience where
  empty : ℕ
  colour : ℕ
  family : ℕ
  direction : ℕ
  deriving DecidableEq

/-- The body of the loop of `compare_cells`. -/
def compareCell (s : Salience) (target cand : Cell) : Salience :=
  if (target.figure = .none) ≠ (cand.figure = .none) then
    { s with empty := s.empty + 1 }
  else if target.figure = .none then
    s
  else
    let s := if target.colour ≠ cand.colour then { s with colour := s.colour + 1 } else s
    if figureFamily target.figure ≠ figureFamily cand.figure then
      { s with family := s.family + 1 }
    else if isTriangle target.figure ∧ target.figure ≠ cand.figure then
      { s with direction := s.direction + 1 }
    else
      s

/-- `compare_cells`. -/
def compareCells (target cand : Vector Cell 16) : Salience :=
  (List.finRange 16).foldl (fun s i => compareCell s (target.get i) (cand.get i)) ⟨0, 0, 0, 0⟩

/-- `salience_score`. -/
def salienceScore (s : Salience) : ℚ :=
  ((s.empty * 32 + s.colour) * 32 + s.family) * 32 + s.direction

/-- `salience_of`, of a score that is not negative. -/
def salienceOf (score : ℚ) : Salience :=
  let v := ⌊score⌋₊
  let direction := v % 32
  let v := v / 32
  let family := v % 32
  let v := v / 32
  { empty := v / 32, colour := v % 32, family, direction }

/-- What a candidate does in the search among the library's pictures: for every target an offer to
the list of each score and, under the lock, the counters. `gist` is the score of the second lists,
which is computed with `double`s. -/
def hhCandidate (targets : Fin targetCount → Vector Cell 16)
    (gist : Vector Cell 16 → Vector Cell 16 → ℚ) (j : ℕ) :
    List (Action (targetCount + targetCount) (Fin targetCount × Salience)) :=
  let c := features (candidateBytes 0x68 j)
  (List.finRange targetCount).flatMap fun t =>
    let s := compareCells (targets t) c
    [.offer (Fin.castAdd targetCount t) (salienceScore s) j,
      .offer (Fin.natAdd targetCount t) (gist (targets t) c) j] ++
      if s.empty = 0 then [.locked (t, s)] else []

/-- `++stage_counts[t][k]`. -/
def bump (row : Fin 4 → ℕ) (k : Fin 4) : Fin 4 → ℕ := Function.update row k (row k + 1)

/-- The counters, under the lock. -/
def countStages (c : Fin targetCount × Salience) (counts : Fin targetCount → Fin 4 → ℕ) :
    Fin targetCount → Fin 4 → ℕ :=
  let row := bump (counts c.1) 0
  let row :=
    if c.2.colour = 0 then
      let row := bump row 1
      if c.2.family = 0 then
        let row := bump row 2
        if c.2.direction = 0 then bump row 3 else row
      else
        row
    else
      row
  Function.update counts c.1 row

/-- The search among the library's pictures, when its threads start. -/
def hhStart (targets : Fin targetCount → Vector Cell 16)
    (gist : Vector Cell 16 → Vector Cell 16 → ℚ) (count threads : ℕ) :
    Threads.State (Fin threads) (Action (targetCount + targetCount) (Fin targetCount × Salience))
      (Fin (targetCount + targetCount) → BestList) (Fin targetCount → Fin 4 → ℕ) :=
  grindStart count threads (hhCandidate targets gist) fun _ _ => 0

/-! ### The four differences -/

/-- One of the two cells is empty. -/
def EmptyDiffers (target cand : Cell) : Prop := (target.figure = .none) ≠ (cand.figure = .none)

/-- Neither of the two cells is empty. -/
def BothShow (target cand : Cell) : Prop := target.figure ≠ .none ∧ cand.figure ≠ .none

def ColourDiffers (target cand : Cell) : Prop := BothShow target cand ∧ target.colour ≠ cand.colour

def FamilyDiffers (target cand : Cell) : Prop :=
  BothShow target cand ∧ figureFamily target.figure ≠ figureFamily cand.figure

def DirectionDiffers (target cand : Cell) : Prop :=
  BothShow target cand ∧ figureFamily target.figure = figureFamily cand.figure ∧
    isTriangle target.figure ∧ target.figure ≠ cand.figure

instance (target cand : Cell) : Decidable (EmptyDiffers target cand) :=
  inferInstanceAs (Decidable (_ ≠ _))

instance (target cand : Cell) : Decidable (BothShow target cand) :=
  inferInstanceAs (Decidable (_ ∧ _))

instance (target cand : Cell) : Decidable (ColourDiffers target cand) :=
  inferInstanceAs (Decidable (_ ∧ _))

instance (target cand : Cell) : Decidable (FamilyDiffers target cand) :=
  inferInstanceAs (Decidable (_ ∧ _))

instance (target cand : Cell) : Decidable (DirectionDiffers target cand) :=
  inferInstanceAs (Decidable (_ ∧ _))

/-- A cell adds one to each of its differences. -/
theorem compareCell_eq (s : Salience) (target cand : Cell) : compareCell s target cand =
    { empty := s.empty + if EmptyDiffers target cand then 1 else 0
      colour := s.colour + if ColourDiffers target cand then 1 else 0
      family := s.family + if FamilyDiffers target cand then 1 else 0
      direction := s.direction + if DirectionDiffers target cand then 1 else 0 } := by
  rw [compareCell]
  by_cases hempty : EmptyDiffers target cand
  · have hshow : ¬BothShow target cand := fun h => hempty (propext (iff_of_false h.1 h.2))
    rw [if_pos (show _ ≠ _ from hempty), if_pos hempty, if_neg fun h => hshow h.1,
      if_neg fun h => hshow h.1, if_neg fun h => hshow h.1]
    rfl
  · rw [if_neg (show ¬_ ≠ _ from hempty), if_neg hempty]
    by_cases htarget : target.figure = .none
    · have hshow : ¬BothShow target cand := fun h => h.1 htarget
      rw [if_pos htarget, if_neg fun h => hshow h.1, if_neg fun h => hshow h.1,
        if_neg fun h => hshow h.1]
      rfl
    · have hshow : BothShow target cand :=
        ⟨htarget, fun hcand => htarget ((not_ne_iff.mp hempty).mpr hcand)⟩
      rw [if_neg htarget]
      simp only [ColourDiffers, FamilyDiffers, DirectionDiffers, hshow, true_and]
      split_ifs <;> simp_all

/-- **The differences of two pictures.** -/
theorem compareCells_eq (target cand : Vector Cell 16) : compareCells target cand =
    { empty := (List.finRange 16).countP fun i => EmptyDiffers (target.get i) (cand.get i)
      colour := (List.finRange 16).countP fun i => ColourDiffers (target.get i) (cand.get i)
      family := (List.finRange 16).countP fun i => FamilyDiffers (target.get i) (cand.get i)
      direction := (List.finRange 16).countP fun i =>
        DirectionDiffers (target.get i) (cand.get i) } := by
  have hfold (l : List (Fin 16)) (s : Salience) :
      l.foldl (fun s i => compareCell s (target.get i) (cand.get i)) s =
        { empty := s.empty + l.countP fun i => EmptyDiffers (target.get i) (cand.get i)
          colour := s.colour + l.countP fun i => ColourDiffers (target.get i) (cand.get i)
          family := s.family + l.countP fun i => FamilyDiffers (target.get i) (cand.get i)
          direction := s.direction + l.countP fun i =>
            DirectionDiffers (target.get i) (cand.get i) } := by
    induction l generalizing s with
    | nil => rfl
    | cons i l ih =>
      rw [List.foldl_cons, ih, compareCell_eq]
      simp only [List.countP_cons, decide_eq_true_eq, Salience.mk.injEq]
      omega
  rw [compareCells, hfold]
  simp only [Nat.zero_add]

/-- The numbers that a score is made of. -/
structure Salience.Bounded (s : Salience) : Prop where
  empty_lt : s.empty < 32
  colour_lt : s.colour < 32
  family_lt : s.family < 32
  direction_lt : s.direction < 32

theorem compareCells_bounded (target cand : Vector Cell 16) :
    (compareCells target cand).Bounded := by
  have hcount (p : Fin 16 → Bool) : (List.finRange 16).countP p < 32 :=
    List.countP_le_length.trans_lt (by decide)
  rw [compareCells_eq]
  constructor
  all_goals
    dsimp only
    exact hcount _

instance (c c' : Vector Cell 16) : Decidable (SameCells c c') :=
  inferInstanceAs (Decidable (∀ i : Fin 16, (c.get i).figure = (c'.get i).figure ∧
    ((c.get i).figure ≠ .none → (c.get i).colour = (c'.get i).colour)))

/-- Named figures of one family that are not triangles of two directions. -/
theorem figure_eq_of_family {f g : Figure} (hf : f.Named) (hg : g.Named)
    (hfamily : figureFamily f = figureFamily g) (hdirection : isTriangle f → f = g) : f = g := by
  cases f <;> cases g <;> first
    | rfl
    | exact absurd hfamily (by decide)
    | exact hdirection rfl
    | exact hf.elim
    | exact hg.elim

theorem features_named (fp : Vector UInt8 32) (i : Fin 16) :
    ((features fp).get i).figure.Named := by
  rw [(sameCells_features fp i).1]
  exact (cellsOf_wellFormed fp i).named

/-- **No difference.** The four numbers are zero if the pictures show the same cells. -/
theorem compareCells_eq_zero_iff {target cand : Vector Cell 16}
    (htarget : ∀ i : Fin 16, (target.get i).figure.Named)
    (hcand : ∀ i : Fin 16, (cand.get i).figure.Named) :
    compareCells target cand = ⟨0, 0, 0, 0⟩ ↔ SameCells target cand := by
  rw [compareCells_eq]
  simp only [Salience.mk.injEq, List.countP_eq_zero, decide_eq_true_eq, List.mem_finRange,
    forall_const]
  constructor
  · rintro ⟨hempty, hcolour, hfamily, hdirection⟩ i
    have hnone := not_ne_iff.mp (hempty i)
    by_cases hshow : (target.get i).figure = .none
    · exact ⟨hshow.trans (hnone.mp hshow).symm, fun h => absurd hshow h⟩
    · have hboth : BothShow (target.get i) (cand.get i) := ⟨hshow, fun h => hshow (hnone.mpr h)⟩
      have hsame := not_ne_iff.mp fun h => hfamily i ⟨hboth, h⟩
      refine ⟨figure_eq_of_family (htarget i) (hcand i) hsame fun h => ?_, fun _ => ?_⟩
      · exact not_ne_iff.mp fun hne => hdirection i ⟨hboth, hsame, h, hne⟩
      · exact not_ne_iff.mp fun h => hcolour i ⟨hboth, h⟩
  · intro h
    refine ⟨fun i => ?_, fun i hdiffers => ?_, fun i hdiffers => ?_, fun i hdiffers => ?_⟩
    · rw [EmptyDiffers, (h i).1]
      exact fun hne => hne rfl
    · exact hdiffers.2 ((h i).2 hdiffers.1.1)
    · exact hdiffers.2 (congrArg figureFamily (h i).1)
    · exact hdiffers.2.2.2 (h i).1

/-! ### The score -/

/-- The order of the differences. -/
def Salience.Before (s s' : Salience) : Prop :=
  s.empty < s'.empty ∨ s.empty = s'.empty ∧ (s.colour < s'.colour ∨ s.colour = s'.colour ∧
    (s.family < s'.family ∨ s.family = s'.family ∧ s.direction < s'.direction))

theorem before_of_ne_zero {s : Salience} (h : s ≠ ⟨0, 0, 0, 0⟩) :
    Salience.Before ⟨0, 0, 0, 0⟩ s := by
  cases s
  rw [ne_eq, Salience.mk.injEq] at h
  rw [Salience.Before]
  dsimp only
  omega

/-- The score is a whole number. -/
theorem salienceScore_eq (s : Salience) : salienceScore s =
    ((((s.empty * 32 + s.colour) * 32 + s.family) * 32 + s.direction : ℕ) : ℚ) := by
  rw [salienceScore]
  push_cast
  rfl

/-- **The labels.** The sheets show the numbers that the score was made of. -/
theorem salienceOf_salienceScore {s : Salience} (h : s.Bounded) :
    salienceOf (salienceScore s) = s := by
  obtain ⟨hempty, hcolour, hfamily, hdirection⟩ := h
  rw [salienceScore_eq, salienceOf, Nat.floor_natCast]
  cases s
  simp only [Salience.mk.injEq]
  dsimp only at hempty hcolour hfamily hdirection
  omega

/-- **The order of the scores.** -/
theorem salienceScore_lt_iff {s s' : Salience} (h : s.Bounded) (h' : s'.Bounded) :
    salienceScore s < salienceScore s' ↔ s.Before s' := by
  obtain ⟨hempty, hcolour, hfamily, hdirection⟩ := h
  obtain ⟨hempty', hcolour', hfamily', hdirection'⟩ := h'
  rw [salienceScore_eq, salienceScore_eq, Nat.cast_lt, Salience.Before]
  omega

/-! ### The counters -/

/-- The first `k` numbers behind the first one are zero. -/
def Salience.Reaches (s : Salience) (k : Fin 4) : Prop :=
  ∀ n ∈ [s.colour, s.family, s.direction].take k, n = 0

instance (s : Salience) (k : Fin 4) : Decidable (s.Reaches k) :=
  inferInstanceAs (Decidable (∀ n ∈ [s.colour, s.family, s.direction].take k, n = 0))

theorem Salience.Reaches.mono {s : Salience} {k k' : Fin 4} (h : s.Reaches k') (hk : k ≤ k') :
    s.Reaches k := fun n hn => h n (List.take_subset_take_left _ hk hn)

theorem reaches_three_iff {s : Salience} :
    s.empty = 0 ∧ s.Reaches 3 ↔ s = ⟨0, 0, 0, 0⟩ := by
  cases s
  simp [Salience.Reaches]

/-- **A step under the lock.** -/
theorem countStages_apply (c : Fin targetCount × Salience) (counts : Fin targetCount → Fin 4 → ℕ)
    (t : Fin targetCount) (k : Fin 4) :
    countStages c counts t k = counts t k + if c.1 = t ∧ c.2.Reaches k then 1 else 0 := by
  by_cases ht : c.1 = t
  · subst ht
    simp only [countStages, Function.update_self, true_and, Salience.Reaches]
    match k with
    | 0 | 1 | 2 | 3 => split_ifs <;> simp_all [bump]
  · rw [if_neg (show ¬(c.1 = t ∧ c.2.Reaches k) from fun h => ht h.1), Nat.add_zero]
    exact congrFun (Function.update_of_ne (Ne.symm ht) _ counts) k

theorem foldl_countStages (cs : List (Fin targetCount × Salience))
    (counts : Fin targetCount → Fin 4 → ℕ) (t : Fin targetCount) (k : Fin 4) :
    cs.foldl (fun counts c => countStages c counts) counts t k =
      counts t k + cs.countP fun c => c.1 = t ∧ c.2.Reaches k := by
  induction cs generalizing counts with
  | nil => rfl
  | cons c cs ih =>
    rw [List.foldl_cons, ih, countStages_apply, List.countP_cons]
    simp only [decide_eq_true_eq]
    omega

/-- The counters do not depend on the order of the candidates. -/
instance : RightCommutative fun (counts : Fin targetCount → Fin 4 → ℕ) c =>
    countStages c counts where
  right_comm counts c c' := by
    funext t k
    rw [countStages_apply, countStages_apply, countStages_apply, countStages_apply]
    omega

/-! ### What a candidate does -/

section Candidates

variable {targets : Fin targetCount → Vector Cell 16} {gist : Vector Cell 16 → Vector Cell 16 → ℚ}

/-- The differences of the candidate `j` from a target. -/
def differences (targets : Fin targetCount → Vector Cell 16) (t : Fin targetCount) (j : ℕ) :
    Salience := compareCells (targets t) (features (candidateBytes 0x68 j))

/-- Of lists for every target, what belongs to one. -/
theorem flatMap_target {α : Type*} (t : Fin targetCount) (f : Fin targetCount → List α) :
    ((List.finRange targetCount).flatMap fun t' => if t' = t then f t' else []) = f t := by
  have hfilter (ts : List (Fin targetCount)) :
      (ts.flatMap fun t' => if t' = t then f t' else []) = (ts.filter (· = t)).flatMap f := by
    induction ts with
    | nil => rfl
    | cons t' ts ih => by_cases ht : t' = t <;> simp [ht, ih]
  have hone : (List.finRange targetCount).count t = 1 :=
    List.count_eq_one_of_mem (List.nodup_finRange _) (List.mem_finRange t)
  rw [hfilter, List.filter_eq, hone, List.replicate_one, List.flatMap_singleton]

/-- One offer to each list of a target. -/
theorem offersTo_hhCandidate (t : Fin targetCount) (j : ℕ) :
    offersTo (Fin.castAdd targetCount t) (hhCandidate targets gist j) =
        [⟨salienceScore (differences targets t j), j⟩] ∧
      offersTo (Fin.natAdd targetCount t) (hhCandidate targets gist j) =
        [⟨gist (targets t) (features (candidateBytes 0x68 j)), j⟩] := by
  have hlocked (i : Fin (targetCount + targetCount)) (t' : Fin targetCount) (s : Salience) :
      offersTo i (if s.empty = 0 then [.locked (t', s)] else []) = [] := by
    split_ifs <;> rfl
  have hne (t' : Fin targetCount) : Fin.natAdd targetCount t' ≠ Fin.castAdd targetCount t :=
    fun h => absurd (congrArg Fin.val h) (by rw [Fin.val_natAdd, Fin.val_castAdd]; omega)
  constructor
  · rw [hhCandidate, offersTo_flatMap, ← flatMap_target t fun t' =>
      [Hit.mk (salienceScore (differences targets t' j)) j]]
    refine List.flatMap_congr fun t' _ => ?_
    rw [offersTo_append, offersTo_cons_offer, offersTo_cons_offer, if_neg (hne t'), hlocked]
    simp only [Fin.castAdd_inj, offersTo_nil, List.append_nil]
    rfl
  · rw [hhCandidate, offersTo_flatMap, ← flatMap_target t fun t' =>
      [Hit.mk (gist (targets t') (features (candidateBytes 0x68 j))) j]]
    refine List.flatMap_congr fun t' _ => ?_
    have hne' : Fin.castAdd targetCount t' ≠ Fin.natAdd targetCount t :=
      fun h => absurd (congrArg Fin.val h) (by rw [Fin.val_natAdd, Fin.val_castAdd]; omega)
    rw [offersTo_append, offersTo_cons_offer, offersTo_cons_offer, if_neg hne', hlocked]
    simp only [Fin.natAdd_inj, offersTo_nil, List.append_nil, List.nil_append]

/-- One step under the lock for each target whose empty cells agree. -/
theorem countP_lockedSteps (t : Fin targetCount) (k : Fin 4) (j : ℕ) :
    ((lockedSteps (hhCandidate targets gist j)).countP fun c => c.1 = t ∧ c.2.Reaches k) =
      if (differences targets t j).empty = 0 ∧ (differences targets t j).Reaches k then 1
      else 0 := by
  have hstep (t' : Fin targetCount) (s : Salience) (a a' : Fin (targetCount + targetCount))
      (r r' : ℚ) : (lockedSteps ([.offer a r j, .offer a' r' j] ++
        if s.empty = 0 then [.locked (t', s)] else [])).filter
          (fun c => c.1 = t ∧ c.2.Reaches k) =
      if t' = t then if s.empty = 0 ∧ s.Reaches k then [(t', s)] else [] else [] := by
    by_cases hempty : s.empty = 0
    · by_cases ht : t' = t
      · by_cases hreaches : s.Reaches k <;> simp [hempty, ht, hreaches]
      · simp [hempty, ht]
    · simp [hempty]
  rw [hhCandidate, lockedSteps_flatMap, List.countP_eq_length_filter, List.filter_flatMap]
  simp only [hstep]
  have hone := flatMap_target t fun t' =>
    if (differences targets t' j).empty = 0 ∧ (differences targets t' j).Reaches k then
      [(t', differences targets t' j)]
    else []
  refine (congrArg List.length hone).trans ?_
  split_ifs <;> rfl

/-- What each candidate adds to a count. -/
theorem countP_flatMap {α β : Type*} {p : β → Bool} {q : α → Prop} [DecidablePred q]
    {f : α → List β} (h : ∀ a, (f a).countP p = if q a then 1 else 0) (l : List α) :
    (l.flatMap f).countP p = l.countP fun a => q a := by
  induction l with
  | nil => rfl
  | cons a l ih =>
    rw [List.flatMap_cons, List.countP_append, ih, h, List.countP_cons, Nat.add_comm]
    simp only [decide_eq_true_eq]

/-- The offers of the differences from a target. -/
theorem offers_salience (t : Fin targetCount) (count : ℕ) :
    (List.range count).flatMap (fun j =>
      offersTo (Fin.castAdd targetCount t) (hhCandidate targets gist j)) =
      (List.range count).map fun j => ⟨salienceScore (differences targets t j), j⟩ := by
  rw [List.map_eq_flatMap]
  exact List.flatMap_congr fun j _ => (offersTo_hhCandidate t j).1

theorem offers_gist (t : Fin targetCount) (count : ℕ) :
    (List.range count).flatMap (fun j =>
      offersTo (Fin.natAdd targetCount t) (hhCandidate targets gist j)) =
      (List.range count).map fun j => ⟨gist (targets t) (features (candidateBytes 0x68 j)), j⟩ := by
  rw [List.map_eq_flatMap]
  exact List.flatMap_congr fun j _ => (offersTo_hhCandidate t j).2

end Candidates

/-! ### The search -/

section Search

variable {targets : Fin targetCount → Vector Cell 16} {gist : Vector Cell 16 → Vector Cell 16 → ℚ}
  {count threads : ℕ}

/-- The counters behind any schedule. -/
theorem common_apply {sched : List (Fin threads)} {as s}
    (h : run (Threads.step (grindActions countStages)) (hhStart targets gist count threads) sched =
      some (as, s)) (t : Fin targetCount) (k : Fin 4) :
    s.common t k = (lockedSteps as).countP fun c => c.1 = t ∧ c.2.Reaches k := by
  obtain ⟨-, -, -, hcommon, -⟩ := Threads.run_spec h
  rw [hcommon, common_foldl, foldl_countStages]
  exact Nat.zero_add _

/-- The hits of a target are offers, each of another candidate. -/
theorem hit_of_keeps {t : Fin targetCount} {hits : List Hit}
    (h : Selection.Keeps Hit.score keep ((List.range count).map fun j =>
      ⟨salienceScore (differences targets t j), j⟩) hits) :
    (hits.map Hit.index).Nodup ∧ ∀ hit ∈ hits, hit.index < count ∧
      hit.score = salienceScore (differences targets t hit.index) := by
  constructor
  · obtain ⟨l, hl, hsub⟩ := h.subperm
    refine (hl.map Hit.index).nodup_iff.mp (List.Nodup.sublist (hsub.map Hit.index) ?_)
    rw [List.map_map]
    exact List.nodup_range.map fun _ _ h => h
  · intro hit hhit
    obtain ⟨j, hj, rfl⟩ := List.mem_map.mp (h.subperm.subset hhit)
    exact ⟨List.mem_range.mp hj, rfl⟩

/-- **The search among the library's pictures.** At any moment no counter exceeds the one before
it. When the threads are joined, whatever their number and their interleaving, the lists of a
target have hits of different candidates, in order, as many as there is room for; the label of a hit
has the differences of its candidate; a candidate with smaller differences than a hit is a hit; and
the counters say how many candidates agree on the first numbers. The last one counts the candidates
that show the cells of the target; if there is one, one of them is a hit. -/
theorem grindHh_exact (fps : Fin targetCount → Vector UInt8 32)
    (gist : Vector Cell 16 → Vector Cell 16 → ℚ) (count : ℕ) {threads : ℕ} (hthreads : 0 < threads)
    {sched : List (Fin threads)} {as s}
    (h : run (Threads.step (grindActions countStages))
      (hhStart (fun t => features (fps t)) gist count threads) sched = some (as, s)) :
    (∀ t (k k' : Fin 4), k ≤ k' → s.common t k' ≤ s.common t k) ∧
    (s.Finished → ∀ t,
      let candidate j := features (candidateBytes 0x68 j)
      let d j := compareCells (features (fps t)) (candidate j)
      let hits := grindResult s (Fin.castAdd targetCount t)
      (hits.length = min keep count ∧ hits.Pairwise (· ≤ ·) ∧ (hits.map Hit.index).Nodup) ∧
      (∀ hit ∈ hits, hit.index < count ∧ salienceOf hit.score = d hit.index) ∧
      (∀ hit ∈ hits, ∀ j < count, (d j).Before (d hit.index) → ∃ hit' ∈ hits, hit'.index = j) ∧
      Selection.Keeps Hit.score keep
        ((List.range count).map fun j => ⟨gist (features (fps t)) (candidate j), j⟩)
        (grindResult s (Fin.natAdd targetCount t)) ∧
      (∀ k, s.common t k =
        (List.range count).countP fun j => (d j).empty = 0 ∧ (d j).Reaches k) ∧
      s.common t 3 =
        (List.range count).countP (fun j => SameCells (features (fps t)) (candidate j)) ∧
      ((∃ j < count, SameCells (features (fps t)) (candidate j)) →
        ∃ hit ∈ hits, SameCells (features (fps t)) (candidate hit.index))) := by
  refine ⟨fun t k k' hk => ?_, fun hend t => ?_⟩
  · rw [common_apply h, common_apply h]
    refine List.countP_mono_left fun c _ hc => ?_
    rw [decide_eq_true_eq] at hc ⊢
    exact ⟨hc.1, hc.2.mono hk⟩
  · intro candidate d hits
    have hbounded (j : ℕ) : (d j).Bounded := compareCells_bounded ..
    have hkeeps := keeps_grindResult hthreads h hend (Fin.castAdd targetCount t)
    rw [offers_salience] at hkeeps
    obtain ⟨hnodup, hhits⟩ := hit_of_keeps hkeeps
    have hmissing : ∀ hit ∈ hits, ∀ j < count, (d j).Before (d hit.index) →
        ∃ hit' ∈ hits, hit'.index = j := by
      intro hit hhit j hj hbefore
      refine ⟨_, hkeeps.mem_of_score_lt (List.mem_map_of_mem (List.mem_range.mpr hj)) hhit ?_, rfl⟩
      rw [(hhits hit hhit).2]
      exact (salienceScore_lt_iff (hbounded j) (hbounded hit.index)).mpr hbefore
    have hlength : hits.length = min keep count := by
      rw [hkeeps.length_eq, List.length_map, List.length_range]
    have hcounters (k : Fin 4) : s.common t k =
        (List.range count).countP fun j => (d j).empty = 0 ∧ (d j).Reaches k := by
      rw [common_finished hthreads h hend, foldl_countStages,
        countP_flatMap (countP_lockedSteps t k)]
      exact Nat.zero_add _
    have hsame (j : ℕ) : d j = ⟨0, 0, 0, 0⟩ ↔ SameCells (features (fps t)) (candidate j) :=
      compareCells_eq_zero_iff (features_named _) (features_named _)
    refine ⟨⟨hlength, hkeeps.sorted, hnodup⟩, fun hit hhit => ⟨(hhits hit hhit).1, ?_⟩, hmissing,
      ?_, hcounters, ?_, ?_⟩
    · rw [(hhits hit hhit).2]
      exact salienceOf_salienceScore (hbounded hit.index)
    · have hgist := keeps_grindResult hthreads h hend (Fin.natAdd targetCount t)
      rwa [offers_gist] at hgist
    · rw [hcounters 3]
      refine List.countP_congr fun j _ => ?_
      rw [decide_eq_true_eq, decide_eq_true_eq, ← hsame, reaches_three_iff]
    · rintro ⟨j, hj, hcells⟩
      have hpos : 0 < hits.length := by
        rw [hlength]
        exact lt_min (by decide) (Nat.zero_lt_of_lt hj)
      obtain ⟨hit, hhit⟩ := List.exists_mem_of_length_pos hpos
      by_cases hzero : d hit.index = ⟨0, 0, 0, 0⟩
      · exact ⟨hit, hhit, (hsame hit.index).mp hzero⟩
      · -- a candidate without differences is nearer than any other
        have hbefore : (d j).Before (d hit.index) := by
          rw [(hsame j).mpr hcells]
          exact before_of_ne_zero hzero
        obtain ⟨hit', hhit', rfl⟩ := hmissing hit hhit j hj hbefore
        exact ⟨hit', hhit', hcells⟩

/-- The targets of the lab, two threads and three candidates. -/
theorem grindHh_exact_targets : ∃ sched as, ∃ s : Threads.State (Fin 2)
    (Action (targetCount + targetCount) (Fin targetCount × Salience))
    (Fin (targetCount + targetCount) → BestList) (Fin targetCount → Fin 4 → ℕ),
    run (Threads.step (grindActions countStages)) (hhStart grindTargets (fun _ _ => 0) 3 2) sched =
      some (as, s) ∧ s.Finished ∧ ∀ t, (grindResult s (Fin.castAdd targetCount t)).length = 3 ∧
        s.common t 3 ≤ s.common t 0 := by
  obtain ⟨sched, as, s, hrun, hend⟩ := Threads.exists_run_finished (grindActions countStages)
    (hhStart grindTargets (fun _ _ => 0) 3 2)
  have hexact := grindHh_exact (fun t => sampleFingerprint (Tools.text "hh-lab/grind-target") t)
    (fun _ _ => 0) 3 (by decide) hrun
  exact ⟨sched, as, s, hrun, hend, fun t =>
    ⟨(hexact.2 hend t).1.1, hexact.1 t 0 3 (by decide)⟩⟩

end Search

end Lab

end HumanizedHash
