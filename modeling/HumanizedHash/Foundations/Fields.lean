import Mathlib.Data.List.Basic
import Mathlib.Data.List.TakeWhile

/-!
# Words and lines

A text is read as words between separators, or line by line. Both readings are functions of the
text; the other way round a list of words or of lines has many texts, which are described here by
relations, and a function that reads is characterised by the relation that it inverts.

## Main definitions

* `Fields.IsWord`, `Fields.Spaced`: the texts that hold given words.
* `Fields.getline`, `Fields.lines`: the lines of a text, without their ends.
* `Fields.Lined`: the texts that hold given lines.

## Main results

* `Fields.Spaced.unique`: a text holds one list of words.
* `Fields.spaced_dropWhile_iff`, `Fields.Spaced.split`: the first word of a text and the rest.
* `Fields.lines_eq_iff`: the lines of a text.
-/

namespace HumanizedHash

namespace Fields

variable {α : Type*}

/-! ### Words -/

section Words

variable (sep : α → Bool)

/-- A word is not empty and has no separator in it. -/
def IsWord (w : List α) : Prop := w ≠ [] ∧ ∀ a ∈ w, sep a = false

/-- A text that is empty or starts with a separator. -/
def Ends (l : List α) : Prop := ∀ a ∈ l.head?, sep a = true

/-- The texts that hold the words of a list, one after the other: at least one separator between two
words, and any number in front of the first one and behind the last one. -/
inductive Spaced : List (List α) → List α → Prop
  | nil : Spaced [] []
  | sep {a : α} {ws : List (List α)} {l : List α} (ha : sep a = true) (hl : Spaced ws l) :
    Spaced ws (a :: l)
  | word {w : List α} {ws : List (List α)} {l : List α} (hw : IsWord sep w) (hend : Ends sep l)
    (hl : Spaced ws l) : Spaced (w :: ws) (w ++ l)

variable {sep} {w w' l l' : List α} {ws ws' : List (List α)}

theorem IsWord.takeWhile_append (hw : IsWord sep w) (hend : Ends sep l) :
    (w ++ l).takeWhile (fun a => !sep a) = w := by
  have hall (a : α) (ha : a ∈ w) : (!sep a) = true := by rw [hw.2 a ha, Bool.not_false]
  rw [List.takeWhile_append_of_pos hall]
  cases l with
  | nil => rw [List.takeWhile_nil, List.append_nil]
  | cons a l =>
    have ha : ¬(!sep a) = true := by rw [hend a rfl, Bool.not_true]; exact Bool.false_ne_true
    rw [List.takeWhile_cons_of_neg (p := fun a => !sep a) ha, List.append_nil]

theorem IsWord.dropWhile_append (hw : IsWord sep w) (hend : Ends sep l) :
    (w ++ l).dropWhile (fun a => !sep a) = l := by
  have hsplit := List.takeWhile_append_dropWhile (p := fun a => !sep a) (l := w ++ l)
  rw [hw.takeWhile_append hend] at hsplit
  exact List.append_cancel_left hsplit

/-- Separators in front of a text do not matter. -/
theorem spaced_dropWhile_iff : Spaced sep ws (l.dropWhile sep) ↔ Spaced sep ws l := by
  induction l with
  | nil => rfl
  | cons a l ih =>
    by_cases ha : sep a = true
    · rw [List.dropWhile_cons_of_pos ha, ih]
      refine ⟨.sep ha, fun h => ?_⟩
      generalize hl : a :: l = text at h
      cases h with
      | nil => exact List.noConfusion rfl (heq_of_eq hl)
      | sep _ h =>
        rw [List.cons.injEq] at hl
        exact hl.2 ▸ h
      | @word w _ _ hw _ _ =>
        cases w with
        | nil => exact absurd rfl hw.1
        | cons b w =>
          rw [List.cons_append, List.cons.injEq] at hl
          rw [hl.1, hw.2 b List.mem_cons_self] at ha
          exact Bool.noConfusion ha
    · rw [List.dropWhile_cons_of_neg ha]

/-- **The first word and the rest.** A text that starts with a character that is no separator holds
the word up to the next separator, and the words behind it. -/
theorem Spaced.split {a : α} (ha : sep a = false)
    (h : Spaced sep ws ((a :: l).dropWhile fun a => !sep a)) :
    Spaced sep ((a :: l).takeWhile (fun a => !sep a) :: ws) (a :: l) := by
  have hfirst : (!sep a) = true := by rw [ha, Bool.not_false]
  have hword : IsWord sep ((a :: l).takeWhile fun a => !sep a) := by
    refine ⟨?_, fun b hb => ?_⟩
    · rw [List.takeWhile_cons_of_pos (p := fun a => !sep a) hfirst]
      exact List.cons_ne_nil a _
    · have hall := List.all_eq_true.mp (List.all_takeWhile (l := a :: l) (p := fun a => !sep a)) b hb
      exact Bool.not_eq_true' _ ▸ hall
  have hend : Ends sep ((a :: l).dropWhile fun a => !sep a) := by
    intro b hb
    have hnot := List.head?_dropWhile_not (fun a => !sep a) (a :: l)
    rw [Option.mem_def.mp hb] at hnot
    exact Bool.not_eq_false' _ ▸ hnot
  have hspaced := Spaced.word hword hend h
  rwa [List.takeWhile_append_dropWhile] at hspaced

/-- **A text holds one list of words.** -/
theorem Spaced.unique (h : Spaced sep ws l) (h' : Spaced sep ws' l) : ws = ws' := by
  induction h generalizing ws' with
  | nil =>
    generalize hl : ([] : List α) = text at h'
    cases h' with
    | nil => rfl
    | sep _ _ => exact List.noConfusion rfl (heq_of_eq hl)
    | word hw _ _ => exact absurd (List.append_eq_nil_iff.mp hl.symm).1 hw.1
  | @sep a ws l ha hl ih =>
    refine ih ?_
    rwa [← spaced_dropWhile_iff, List.dropWhile_cons_of_pos ha, spaced_dropWhile_iff] at h'
  | @word w ws l hw hend hl ih =>
    obtain ⟨a, w, rfl⟩ := List.exists_cons_of_ne_nil hw.1
    generalize htext : a :: w ++ l = text at h'
    cases h' with
    | nil => exact List.noConfusion rfl (heq_of_eq htext)
    | @sep b _ _ hb _ =>
      rw [List.cons_append, List.cons.injEq] at htext
      rw [← htext.1, hw.2 a List.mem_cons_self] at hb
      exact Bool.noConfusion hb
    | @word w' ws' l' hw' hend' hl' =>
      have htake := congrArg (List.takeWhile fun a => !sep a) htext
      have hdrop := congrArg (List.dropWhile fun a => !sep a) htext
      rw [hw.takeWhile_append hend, hw'.takeWhile_append hend'] at htake
      rw [hw.dropWhile_append hend, hw'.dropWhile_append hend'] at hdrop
      rw [htake, ih (hdrop ▸ hl')]

/-- Every word of a text is a word. -/
theorem Spaced.isWord (h : Spaced sep ws l) : ∀ w ∈ ws, IsWord sep w := by
  induction h with
  | nil => exact fun w hw => absurd hw List.not_mem_nil
  | sep _ _ ih => exact ih
  | word hw _ _ ih => exact List.forall_mem_cons.mpr ⟨hw, ih⟩

theorem Spaced.eq_nil (h : Spaced sep ws []) : ws = [] := (Spaced.unique .nil h).symm

/-- How a text starts. -/
theorem Spaced.of_head? (h : Spaced sep ws l) {a : α} (ha : l.head? = some a) :
    sep a = true ∨ ∃ w ∈ ws.head?, w.head? = some a := by
  cases h with
  | nil => exact Option.noConfusion rfl (heq_of_eq ha)
  | sep hb _ => exact Or.inl (Option.some.inj ha ▸ hb)
  | @word w _ _ hw _ _ =>
    obtain ⟨b, w, rfl⟩ := List.exists_cons_of_ne_nil hw.1
    exact Or.inr ⟨b :: w, rfl, ha⟩

/-- How a text ends. -/
theorem Spaced.of_getLast? (h : Spaced sep ws l) {a : α} (ha : l.getLast? = some a) :
    sep a = true ∨ ∃ w ∈ ws.getLast?, w.getLast? = some a := by
  induction h with
  | nil => exact Option.noConfusion rfl (heq_of_eq ha)
  | @sep b ws l hb hl ih =>
    cases l with
    | nil => exact Or.inl (Option.some.inj ha ▸ hb)
    | cons c l => exact ih (by rwa [List.getLast?_cons_cons] at ha)
  | @word w ws l hw hend hl ih =>
    cases l with
    | nil =>
      rw [List.append_nil] at ha
      rw [hl.eq_nil]
      exact Or.inr ⟨w, rfl, ha⟩
    | cons c l =>
      have hlast : (c :: l).getLast? = some a := by
        rwa [List.getLast?_append_of_ne_nil _ (List.cons_ne_nil c l)] at ha
      rcases ih hlast with hsep | ⟨w', hw', hlast'⟩
      · exact Or.inl hsep
      · cases ws with
        | nil => exact absurd hw' (Option.not_mem_none w')
        | cons v ws =>
          rw [List.getLast?_cons_cons]
          exact Or.inr ⟨w', hw', hlast'⟩

end Words

/-! ### Lines -/

section Lines

variable [DecidableEq α] (nl : α)

/-- A line is taken off the front of a text, and the character that ends it, if there is one, is
dropped. There is no line at the end of the text. -/
def getline : List α → Option (List α × List α)
  | [] => none
  | a :: l => some ((a :: l).takeWhile (· ≠ nl), ((a :: l).dropWhile (· ≠ nl)).tail)

theorem length_of_getline {l line rest : List α} (h : getline nl l = some (line, rest)) :
    rest.length < l.length := by
  cases l with
  | nil => exact Option.noConfusion rfl (heq_of_eq h)
  | cons a l =>
    rw [getline, Option.some.injEq, Prod.mk.injEq] at h
    have hle := List.length_dropWhile_le (fun b => decide (b ≠ nl)) l
    rw [← h.2, List.length_tail, List.length_cons, List.dropWhile_cons]
    split
    · omega
    · rw [List.length_cons]
      omega

/-- The lines of a text. -/
def lines (l : List α) : List (List α) :=
  match _h : getline nl l with
  | none => []
  | some (line, rest) => line :: lines rest
termination_by l.length
decreasing_by exact length_of_getline nl _h

/-- The texts that hold the lines of a list: each line is ended, but the end may be missing behind a
last line that is not empty. -/
inductive Lined : List (List α) → List α → Prop
  | nil : Lined [] []
  | last {line : List α} (hne : line ≠ []) (hline : nl ∉ line) : Lined [line] line
  | line {line : List α} {ls : List (List α)} {l : List α} (hline : nl ∉ line) (hl : Lined ls l) :
    Lined (line :: ls) (line ++ nl :: l)

variable {nl} {line l : List α} {ls ls' : List (List α)}

theorem takeWhile_ne (h : nl ∉ line) : line.takeWhile (· ≠ nl) = line ∧
    line.dropWhile (· ≠ nl) = [] := by
  have hall (a : α) (ha : a ∈ line) : decide (a ≠ nl) = true :=
    decide_eq_true fun heq => h (heq ▸ ha)
  exact ⟨List.takeWhile_eq_self_iff.mpr hall, List.dropWhile_eq_nil_iff.mpr hall⟩

theorem getline_of_ne_nil (h : l ≠ []) :
    getline nl l = some (l.takeWhile (· ≠ nl), (l.dropWhile (· ≠ nl)).tail) := by
  cases l with
  | nil => exact absurd rfl h
  | cons a l => rfl

theorem getline_line (h : nl ∉ line) (l : List α) :
    getline nl (line ++ nl :: l) = some (line, l) := by
  have hall (a : α) (ha : a ∈ line) : decide (a ≠ nl) = true :=
    decide_eq_true fun heq => h (heq ▸ ha)
  have hnl : ¬decide (nl ≠ nl) = true := fun hd => of_decide_eq_true hd rfl
  rw [getline_of_ne_nil (List.append_ne_nil_of_right_ne_nil line (List.cons_ne_nil nl l)),
    List.takeWhile_append_of_pos hall, List.dropWhile_append_of_pos hall,
    List.takeWhile_cons_of_neg (p := fun a => decide (a ≠ nl)) hnl,
    List.dropWhile_cons_of_neg (p := fun a => decide (a ≠ nl)) hnl, List.append_nil, List.tail_cons]

/-- A text that starts with a whole line and more. -/
theorem getline_append (h : nl ∈ line) (l : List α) : getline nl (line ++ l) =
    some (line.takeWhile (· ≠ nl), (line.dropWhile (· ≠ nl)).tail ++ l) := by
  obtain ⟨first, more, rfl, hnot⟩ := List.eq_append_cons_of_mem h
  have hfirst := getline_line hnot more
  rw [getline_of_ne_nil (List.ne_nil_of_mem h), Option.some.injEq, Prod.mk.injEq] at hfirst
  rw [List.append_assoc, List.cons_append, getline_line hnot, hfirst.1, hfirst.2]

theorem getline_last (hne : line ≠ []) (h : nl ∉ line) : getline nl line = some (line, []) := by
  obtain ⟨htake, hdrop⟩ := takeWhile_ne h
  rw [getline_of_ne_nil hne, htake, hdrop, List.tail_nil]

theorem lines_of_getline {rest : List α} (h : getline nl l = some (line, rest)) :
    lines nl l = line :: lines nl rest := by
  rw [lines]
  split
  · next hnone => exact Option.noConfusion rfl (heq_of_eq (hnone.symm.trans h))
  · next line' rest' hsome =>
    have heq := Option.some.inj (hsome.symm.trans h)
    rw [Prod.mk.injEq] at heq
    rw [heq.1, heq.2]

@[simp] theorem lines_nil : lines nl ([] : List α) = [] := by
  rw [lines]
  rfl

theorem lines_line (h : nl ∉ line) (l : List α) :
    lines nl (line ++ nl :: l) = line :: lines nl l :=
  lines_of_getline (getline_line h l)

/-- **Lines are read back.** -/
theorem Lined.lines_eq (h : Lined nl ls l) : lines nl l = ls := by
  induction h with
  | nil => exact lines_nil
  | last hne hline => rw [lines_of_getline (getline_last hne hline), lines_nil]
  | line hline _ ih => rw [lines_line hline, ih]

/-- Every text holds its lines. -/
theorem lined_lines (l : List α) : Lined nl (lines nl l) l := by
  fun_induction lines nl l with
  | case1 l h =>
    cases l with
    | nil => exact .nil
    | cons a l => exact Option.noConfusion rfl (heq_of_eq h)
  | case2 l line rest h ih =>
    cases l with
    | nil => exact Option.noConfusion rfl (heq_of_eq h)
    | cons a l =>
      rw [getline, Option.some.injEq, Prod.mk.injEq] at h
      obtain ⟨hline, hrest⟩ := h
      have hsplit := List.takeWhile_append_dropWhile (p := (· ≠ nl)) (l := a :: l)
      have hnot : nl ∉ line := by
        intro hmem
        rw [← hline] at hmem
        have hall := List.all_eq_true.mp (List.all_takeWhile (l := a :: l) (p := (· ≠ nl))) nl hmem
        exact of_decide_eq_true hall rfl
      rw [hline] at hsplit
      cases hdrop : (a :: l).dropWhile (· ≠ nl) with
      | nil =>
        rw [hdrop, List.append_nil] at hsplit
        rw [hdrop, List.tail_nil] at hrest
        subst hrest
        rw [lines_nil, ← hsplit]
        exact .last (hsplit ▸ List.cons_ne_nil a l) hnot
      | cons b tail =>
        have hb : b = nl := by
          have hhead := List.head?_dropWhile_not (· ≠ nl) (a :: l)
          rw [hdrop, List.head?_cons] at hhead
          exact not_not.mp (of_decide_eq_false hhead)
        rw [hdrop, hb] at hsplit
        rw [hdrop, List.tail_cons] at hrest
        subst hrest
        rw [← hsplit]
        exact .line hnot ih

/-- **The lines of a text.** -/
theorem lines_eq_iff : lines nl l = ls ↔ Lined nl ls l :=
  ⟨fun h => h ▸ lined_lines l, Lined.lines_eq⟩

end Lines

end Fields

end HumanizedHash
