import Mathlib.Data.List.Basic
import Mathlib.Data.Prod.Basic
import Mathlib.Order.Interval.Finset.Defs
import Mathlib.Tactic.Linarith

/-!
# Counted loops and painting

A picture is produced by loops over rows and columns whose body overwrites one place of a store.
This file has the two halves of that pattern. `Loop.upTo` is the counted loop over integers;
two of them nested visit the places of a rectangle in row-major order (`Loop.upTo_upTo`), and a
nested loop that counts is the number of places with the property (`Loop.upTo_count`). A
`Surface` is a store with places that can be overwritten independently; painting a list of places
leaves the new value on the places of the list and the old one elsewhere, and painting several
layers that do not overlap leaves on every place the value of its own layer.

## Main definitions

* `Loop.upTo`, `Loop.places`.
* `Surface`, `Surface.paint`, `Surface.paintLayers`.

## Main results

* `Loop.upTo_upTo`, `Loop.upTo_count`.
* `Surface.get_paint`, `Surface.get_paintLayers_of_mem`, `Surface.get_paintLayers_of_notMem`.
* `Surface.paint_induction`, `Surface.paintLayers_induction`: what every overwriting preserves.
-/

namespace Loop

variable {σ τ : Type*}

/-- `for (i = 0; i < n; ++i) s = body(i, s)`. -/
def upTo (n : Int) (body : Int → σ → σ) (s : σ) : σ :=
  (List.range n.toNat).foldl (fun s (i : ℕ) => body i s) s

/-- The places of a rectangle, row by row. -/
def places (w h : Int) : List (Int × Int) :=
  (List.range h.toNat).flatMap fun y : ℕ =>
    (List.range w.toNat).map fun x : ℕ => ((x : Int), (y : Int))

theorem mem_places {w h : Int} {k : Int × Int} :
    k ∈ places w h ↔ (0 ≤ k.1 ∧ k.1 < w) ∧ 0 ≤ k.2 ∧ k.2 < h := by
  obtain ⟨x, y⟩ := k
  simp only [places, List.mem_flatMap, List.mem_map, List.mem_range, Prod.mk.injEq]
  constructor
  · rintro ⟨j, hj, i, hi, rfl, rfl⟩
    omega
  · rintro ⟨⟨hx, hxw⟩, hy, hyh⟩
    exact ⟨y.toNat, by omega, x.toNat, by omega, by omega, by omega⟩

/-- Two nested loops visit the places of a rectangle in row-major order. -/
theorem upTo_upTo (w h : Int) (body : Int × Int → σ → σ) (s : σ) :
    upTo h (fun y s => upTo w (fun x s => body (x, y) s) s) s =
      (places w h).foldl (fun s k => body k s) s := by
  rw [places, List.foldl_flatMap]
  simp only [upTo, List.foldl_map]

/-- A fold that counts. -/
theorem foldl_count {ι : Type*} (p : ι → Bool) (l : List ι) (n : ℕ) :
    l.foldl (fun n k => if p k then n + 1 else n) n = n + l.countP p := by
  induction l generalizing n with
  | nil => rfl
  | cons k l ih =>
    rw [List.foldl_cons, ih, List.countP_cons]
    split <;> omega

/-- A nested loop that counts. -/
theorem upTo_count (w h : Int) (p : Int × Int → Bool) :
    upTo h (fun y n => upTo w (fun x n => if p (x, y) then n + 1 else n) n) 0 =
      (places w h).countP p := by
  rw [upTo_upTo w h (fun k n => if p k then n + 1 else n) 0, foldl_count, Nat.zero_add]

/-- A nested loop that counts the places with a property, and those of them with a second one. -/
theorem upTo_count₂ (w h : Int) (p q : Int × Int → Bool) :
    upTo h (fun y (n : ℕ × ℕ) => upTo w (fun x (n : ℕ × ℕ) =>
      if p (x, y) then (n.1 + 1, if q (x, y) then n.2 + 1 else n.2) else n) n) (0, 0) =
      ((places w h).countP p, (places w h).countP fun k => p k && q k) := by
  rw [upTo_upTo w h
    (fun k (n : ℕ × ℕ) => if p k then (n.1 + 1, if q k then n.2 + 1 else n.2) else n) (0, 0)]
  have hcount (l : List (Int × Int)) (n : ℕ × ℕ) :
      l.foldl (fun (n : ℕ × ℕ) k =>
          if p k then (n.1 + 1, if q k then n.2 + 1 else n.2) else n) n =
        (n.1 + l.countP p, n.2 + l.countP fun k => p k && q k) := by
    induction l generalizing n with
    | nil => rfl
    | cons k l ih =>
      rw [List.foldl_cons, ih, List.countP_cons, List.countP_cons]
      cases p k <;> cases q k <;> simp <;> omega
  rw [hcount, Nat.zero_add, Nat.zero_add]

/-- Two folds over the same list stay related. -/
theorem foldl_rel {ι : Type*} (R : σ → τ → Prop) {f : σ → ι → σ} {g : τ → ι → τ} {l : List ι}
    {s : σ} {t : τ} (h₀ : R s t) (hstep : ∀ i ∈ l, ∀ s t, R s t → R (f s i) (g t i)) :
    R (l.foldl f s) (l.foldl g t) := by
  induction l generalizing s t with
  | nil => exact h₀
  | cons i l ih =>
    rw [List.foldl_cons, List.foldl_cons]
    exact ih (hstep i List.mem_cons_self s t h₀)
      fun j hj => hstep j (List.mem_cons_of_mem i hj)

end Loop

/-- A store `σ` with places `κ` that hold values `α`: what is set at a valid place is found
there, and no other valid place changes. -/
structure Surface (σ κ α : Type*) where
  get : σ → κ → α
  set : κ → α → σ → σ
  Valid : κ → Prop
  get_set_self : ∀ k v s, Valid k → get (set k v s) k = v
  get_set_of_ne : ∀ k k' v s, Valid k → Valid k' → k' ≠ k → get (set k v s) k' = get s k'

namespace Surface

variable {σ κ α : Type*} (S : Surface σ κ α)

/-- Sets every place of `l` to its value under `f`. -/
def paint (f : κ → α) (l : List κ) (s : σ) : σ :=
  l.foldl (fun s k => S.set k (f k) s) s

/-- Paints one list of places after another. -/
def paintLayers (layers : List (List κ × (κ → α))) (s : σ) : σ :=
  layers.foldl (fun s layer => S.paint layer.2 layer.1 s) s

variable {S}

/-- A place of the list holds its new value, any other place its old one. -/
theorem get_paint [DecidableEq κ] {f : κ → α} {l : List κ} (hl : ∀ k ∈ l, S.Valid k) {k : κ}
    (hk : S.Valid k) (s : σ) :
    S.get (S.paint f l s) k = if k ∈ l then f k else S.get s k := by
  induction l generalizing s with
  | nil => rw [if_neg List.not_mem_nil]; rfl
  | cons i l ih =>
    have hi := hl i List.mem_cons_self
    have hrest := ih (fun j hj => hl j (List.mem_cons_of_mem i hj)) (S.set i (f i) s)
    rw [paint, List.foldl_cons]
    rw [paint] at hrest
    rw [hrest]
    by_cases hmem : k ∈ l
    · rw [if_pos hmem, if_pos (List.mem_cons_of_mem i hmem)]
    · rw [if_neg hmem]
      by_cases hki : k = i
      · rw [hki, S.get_set_self i _ s hi, if_pos List.mem_cons_self]
      · rw [S.get_set_of_ne i k _ s hi hk hki, if_neg (by simp [hki, hmem])]

/-- Painting is a sequence of settings of valid places. -/
theorem paint_induction {f : κ → α} {l : List κ} (hl : ∀ k ∈ l, S.Valid k) {P : σ → Prop}
    (hset : ∀ k v s, S.Valid k → P s → P (S.set k v s)) {s : σ} (hs : P s) :
    P (S.paint f l s) :=
  Loop.foldl_rel (fun s (_ : Unit) => P s) (g := fun t _ => t) (t := ()) hs
    fun k hk s _ h => hset k (f k) s (hl k hk) h

variable {layers : List (List κ × (κ → α))}

theorem paintLayers_induction (hl : ∀ layer ∈ layers, ∀ k ∈ layer.1, S.Valid k) {P : σ → Prop}
    (hset : ∀ k v s, S.Valid k → P s → P (S.set k v s)) {s : σ} (hs : P s) :
    P (S.paintLayers layers s) :=
  Loop.foldl_rel (fun s (_ : Unit) => P s) (g := fun t _ => t) (t := ()) hs
    fun layer hlayer _ _ h => paint_induction (hl layer hlayer) hset h

/-- A place of no layer keeps its value. -/
theorem get_paintLayers_of_notMem [DecidableEq κ]
    (hl : ∀ layer ∈ layers, ∀ k ∈ layer.1, S.Valid k) {k : κ} (hk : S.Valid k)
    (h : ∀ layer ∈ layers, k ∉ layer.1) (s : σ) :
    S.get (S.paintLayers layers s) k = S.get s k := by
  induction layers generalizing s with
  | nil => rfl
  | cons layer layers ih =>
    rw [paintLayers, List.foldl_cons]
    rw [← paintLayers, ih (fun l hl' => hl l (List.mem_cons_of_mem layer hl'))
      (fun l hl' => h l (List.mem_cons_of_mem layer hl')),
      get_paint (hl layer List.mem_cons_self) hk, if_neg (h layer List.mem_cons_self)]

/-- Where the layers do not overlap, a place holds the value of its own layer. -/
theorem get_paintLayers_of_mem [DecidableEq κ]
    (hl : ∀ layer ∈ layers, ∀ k ∈ layer.1, S.Valid k)
    (hdisj : layers.Pairwise fun a b => ∀ k ∈ a.1, k ∉ b.1) {layer : List κ × (κ → α)}
    (hlayer : layer ∈ layers) {k : κ} (hk : k ∈ layer.1) (s : σ) :
    S.get (S.paintLayers layers s) k = layer.2 k := by
  induction layers generalizing s with
  | nil => exact absurd hlayer List.not_mem_nil
  | cons first layers ih =>
    have hvalid := hl layer hlayer k hk
    rw [List.pairwise_cons] at hdisj
    rw [paintLayers, List.foldl_cons, ← paintLayers]
    rcases List.mem_cons.mp hlayer with rfl | hrest
    · rw [get_paintLayers_of_notMem (fun l hl' => hl l (List.mem_cons_of_mem _ hl')) hvalid
        (fun l hl' => hdisj.1 l hl' k hk), get_paint (hl _ List.mem_cons_self) hvalid, if_pos hk]
    · exact ih (fun l hl' => hl l (List.mem_cons_of_mem _ hl')) hdisj.2 hrest _

end Surface
