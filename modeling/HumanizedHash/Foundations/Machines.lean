import Mathlib.Data.List.Basic
import Mathlib.Logic.Function.Basic

/-!
# Partial machines and collections of objects

A machine is a partial step function: in a state, a call either is not allowed or gives an answer
and the next state. A run feeds it a list of calls. An invariant of the step is an invariant of
the runs, and a machine whose steps follow those of a specification answers every run that the
specification allows in the same way.

The second part builds such a machine from a class of objects: a collection of objects of the
class under names, where a call creates an object, copies one object to a name or calls a member
of one object. Copies share nothing. A simulation between two classes, object by object, is
one between the collections, whatever the interleaving of the calls.

## Main definitions

* `Machines.run`: a run of a machine.
* `Machines.ObjectClass`, `Machines.ObjectCall`, `Machines.stepObjects`.
* `Machines.Simulates`: one class of objects follows another.

## Main results

* `Machines.run_invariant`, `Machines.run_simulates`.
* `Machines.Simulates.runObjects`.
-/

namespace HumanizedHash

namespace Machines

section Runs

variable {σ τ γ ρ : Type*}

/-- A run: the answers and the last state, unless some call is not allowed. -/
def run (step : σ → γ → Option (ρ × σ)) : σ → List γ → Option (List ρ × σ)
  | s, [] => some ([], s)
  | s, c :: cs =>
    (step s c).bind fun (r, s) => (run step s cs).map fun (rs, s) => (r :: rs, s)

variable {step : σ → γ → Option (ρ × σ)}

@[simp] theorem run_nil (s : σ) : run step s [] = some ([], s) := rfl

/-- The first step of a run and the rest of it. -/
theorem run_cons_eq_some {s s'' : σ} {c : γ} {cs : List γ} {rs : List ρ} :
    run step s (c :: cs) = some (rs, s'') ↔
      ∃ r s' rs', step s c = some (r, s') ∧ run step s' cs = some (rs', s'') ∧ rs = r :: rs' := by
  simp only [run, Option.bind_eq_some_iff, Option.map_eq_some_iff, Prod.exists, Prod.mk.injEq]
  constructor
  · rintro ⟨r, s', hstep, rs', t, hrun, rfl, rfl⟩
    exact ⟨r, s', rs', hstep, hrun, rfl⟩
  · rintro ⟨r, s', rs', hstep, hrun, rfl⟩
    exact ⟨r, s', hstep, rs', s'', hrun, rfl, rfl⟩

/-- **Invariants.** What every step keeps, every run keeps. -/
theorem run_invariant {P : σ → Prop}
    (hstep : ∀ s c r s', P s → step s c = some (r, s') → P s') {s s' : σ} {cs : List γ}
    {rs : List ρ} (hs : P s) (hrun : run step s cs = some (rs, s')) : P s' := by
  induction cs generalizing s rs with
  | nil =>
    rw [run_nil, Option.some.injEq, Prod.mk.injEq] at hrun
    exact hrun.2 ▸ hs
  | cons c cs ih =>
    obtain ⟨r, t, rs', hfirst, hrest, -⟩ := run_cons_eq_some.mp hrun
    exact ih (hstep s c r t hs hfirst) hrest

/-- **Simulation.** Where each step of a specification is followed with the same answer, each run
of it is. -/
theorem run_simulates {spec : τ → γ → Option (ρ × τ)} {R : τ → σ → Prop}
    (hstep : ∀ t s c r t', R t s → spec t c = some (r, t') →
      ∃ s', step s c = some (r, s') ∧ R t' s')
    {t t' : τ} {s : σ} {cs : List γ} {rs : List ρ} (hs : R t s)
    (hrun : run spec t cs = some (rs, t')) :
    ∃ s', run step s cs = some (rs, s') ∧ R t' s' := by
  induction cs generalizing t s rs with
  | nil =>
    rw [run_nil, Option.some.injEq, Prod.mk.injEq] at hrun
    obtain ⟨rfl, rfl⟩ := hrun
    exact ⟨s, rfl, hs⟩
  | cons c cs ih =>
    obtain ⟨r, u, rs', hfirst, hrest, rfl⟩ := run_cons_eq_some.mp hrun
    obtain ⟨v, hv, huv⟩ := hstep t s c r u hs hfirst
    obtain ⟨s', hs', hlast⟩ := ih huv hrest
    exact ⟨s', run_cons_eq_some.mpr ⟨r, v, rs', hv, hs', rfl⟩, hlast⟩

end Runs

section Objects

variable {ι κ β ρ α τ : Type*}

/-- A class of objects: what creates one, and what a call of a member answers and leaves. -/
structure ObjectClass (κ β ρ α : Type*) where
  create : κ → Option α
  call : β → α → Option (ρ × α)

/-- A call on a collection of objects with names in `ι`. -/
inductive ObjectCall (ι κ β : Type*)
  | create (i : ι) (c : κ)
  | copy (source target : ι)
  | call (i : ι) (b : β)

variable [DecidableEq ι]

/-- One call. Only a call of a member has an answer. -/
def stepObjects (C : ObjectClass κ β ρ α) (objects : ι → Option α) :
    ObjectCall ι κ β → Option (Option ρ × (ι → Option α))
  | .create i c => (C.create c).map fun a => (none, Function.update objects i (some a))
  | .copy source target =>
    (objects source).map fun a => (none, Function.update objects target (some a))
  | .call i b =>
    (objects i).bind fun a =>
      (C.call b a).map fun (r, a) => (some r, Function.update objects i (some a))

/-- The objects of `impl` follow those of `spec`: they are created alike, and a call that `spec`
allows has the same answer. -/
structure Simulates (spec : ObjectClass κ β ρ τ) (impl : ObjectClass κ β ρ α)
    (R : τ → α → Prop) : Prop where
  create : ∀ c t, spec.create c = some t → ∃ a, impl.create c = some a ∧ R t a
  call : ∀ t a b r t', R t a → spec.call b t = some (r, t') →
    ∃ a', impl.call b a = some (r, a') ∧ R t' a'

/-- Two collections that agree on the names in use, with related objects under each name. -/
def Related (R : τ → α → Prop) (spec : ι → Option τ) (impl : ι → Option α) : Prop :=
  ∀ i t, spec i = some t → ∃ a, impl i = some a ∧ R t a

omit [DecidableEq ι] in
theorem related_empty (R : τ → α → Prop) : Related R (fun _ : ι => none) fun _ => none := by
  intro i t h
  exact absurd h (by simp)

/-- A related pair of objects may be put under any name. -/
theorem Related.update {R : τ → α → Prop} {spec : ι → Option τ} {impl : ι → Option α}
    (h : Related R spec impl) (i : ι) {t : τ} {a : α} (hta : R t a) :
    Related R (Function.update spec i (some t)) (Function.update impl i (some a)) := by
  intro j u hu
  by_cases hj : j = i
  · subst hj
    rw [Function.update_self, Option.some.injEq] at hu
    exact ⟨a, Function.update_self .., hu ▸ hta⟩
  · rw [Function.update_of_ne hj] at hu ⊢
    exact h j u hu

variable {spec : ObjectClass κ β ρ τ} {impl : ObjectClass κ β ρ α} {R : τ → α → Prop}

/-- One call on two related collections. -/
theorem Simulates.stepObjects (h : Simulates spec impl R) (objects : ι → Option τ)
    (objects' : ι → Option α) (c : ObjectCall ι κ β) (r : Option ρ) (next : ι → Option τ)
    (hrel : Related R objects objects')
    (hstep : Machines.stepObjects spec objects c = some (r, next)) :
    ∃ next', Machines.stepObjects impl objects' c = some (r, next') ∧ Related R next next' := by
  cases c with
  | create i c =>
    simp only [Machines.stepObjects, Option.map_eq_some_iff, Prod.mk.injEq] at hstep ⊢
    obtain ⟨t, ht, rfl, rfl⟩ := hstep
    obtain ⟨a, ha, hta⟩ := h.create c t ht
    exact ⟨_, ⟨a, ha, rfl, rfl⟩, hrel.update i hta⟩
  | copy source target =>
    simp only [Machines.stepObjects, Option.map_eq_some_iff, Prod.mk.injEq] at hstep ⊢
    obtain ⟨t, ht, rfl, rfl⟩ := hstep
    obtain ⟨a, ha, hta⟩ := hrel source t ht
    exact ⟨_, ⟨a, ha, rfl, rfl⟩, hrel.update target hta⟩
  | call i b =>
    simp only [Machines.stepObjects, Option.bind_eq_some_iff, Option.map_eq_some_iff, Prod.exists,
      Prod.mk.injEq] at hstep ⊢
    obtain ⟨t, ht, r', t', hcall, rfl, rfl⟩ := hstep
    obtain ⟨a, ha, hta⟩ := hrel i t ht
    obtain ⟨a', ha', hta'⟩ := h.call t a b r' t' hta hcall
    exact ⟨_, ⟨a, ha, r', a', ha', rfl, rfl⟩, hrel.update i hta'⟩

/-- **Collections of objects.** A run that the specification allows, whatever the interleaving of
the calls and of the copies, has the same answers. -/
theorem Simulates.runObjects (h : Simulates spec impl R) {cs : List (ObjectCall ι κ β)}
    {rs : List (Option ρ)} {objects : ι → Option τ}
    (hrun : run (Machines.stepObjects spec) (fun _ => none) cs = some (rs, objects)) :
    ∃ objects', run (Machines.stepObjects impl) (fun _ => none) cs = some (rs, objects') ∧
      Related R objects objects' :=
  run_simulates h.stepObjects (related_empty R) hrun

end Objects

end Machines

end HumanizedHash
