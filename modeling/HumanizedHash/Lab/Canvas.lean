import HumanizedHash.Encoding.Pixels
import HumanizedHash.Foundations.Painting
import Mathlib.Data.Int.Range

/-!
# The canvas of the lab

`class canvas` of `tools/lab`: a picture with straight alpha whose drawing operations clip. An
operation is given by what it makes of a pixel, and a loop of operations by what they make of it one
after the other.

## Main definitions

* `Canvas`: the dimensions and the bytes, as many as the dimensions ask for.
* `Canvas.set`, `Canvas.fillRect`, `Canvas.draw`.
* `overlay`: a pixel composited over another one.

## Main results

* `Canvas.acts_foldl`: a loop of operations.
* `Canvas.get_fillRect`, `Canvas.get_draw`: what the operations leave.
* `overlay_of_solid`: over an opaque pixel, compositing is flattening.

## References

* `src/tools/lab/canvas.cpp`.
-/

namespace HumanizedHash

/-- A colour as an opaque pixel. -/
def Rgb.toPixel (c : Rgb) : Pixel := ⟨c.r, c.g, c.b, 255⟩

def Pixel.toRgb (p : Pixel) : Rgb := ⟨p.r, p.g, p.b⟩

namespace Lab

/-! ### The code -/

/-- `blend`. -/
def blend (src dst : UInt8) (alpha : ℕ) : UInt8 :=
  UInt8.ofNat ((src.toNat * alpha + dst.toNat * (255 - alpha) + 127) / 255)

/-- The pixel that `draw` sets where `s` is neither opaque nor clear. -/
def blendPixels (s d : Pixel) : Pixel :=
  let a := s.a.toNat
  let outA := a + d.a.toNat * (255 - a) / 255
  ⟨blend s.r d.r a, blend s.g d.g a, blend s.b d.b a, UInt8.ofNat outA⟩

/-- `class canvas`. -/
structure Canvas where
  width : ℕ
  height : ℕ
  rgba : List UInt8
  length_rgba : rgba.length = width * height * 4

namespace Canvas

/-- The constructor. -/
def new (width height : ℕ) (fill : Pixel) : Canvas where
  width := width
  height := height
  rgba := Tables.rows (width * height) fun _ => fill.bytes
  length_rgba := Tables.length_rows (fun _ => rfl) _

variable (c : Canvas)

def index (x y : ℕ) : ℕ := (y * c.width + x) * 4

def get (x y : ℕ) : Pixel :=
  let i := c.index x y
  ⟨c.rgba.getD i 0, c.rgba.getD (i + 1) 0, c.rgba.getD (i + 2) 0, c.rgba.getD (i + 3) 0⟩

/-- The assignments of `set`. -/
def setAt (i : ℕ) (p : Pixel) : Canvas where
  width := c.width
  height := c.height
  rgba := (((c.rgba.set i p.r).set (i + 1) p.g).set (i + 2) p.b).set (i + 3) p.a
  length_rgba := by simp only [List.length_set, c.length_rgba]

def set (x y : ℤ) (p : Pixel) : Canvas :=
  if x < 0 ∨ y < 0 ∨ c.width ≤ x ∨ c.height ≤ y then c
  else c.setAt (c.index x.toNat y.toNat) p

/-- `fill_rect`. -/
def fillRect (x y w h : ℤ) (p : Pixel) : Canvas :=
  (Int.range (max 0 y) (min c.height (y + h))).foldl (fun out yy =>
    (Int.range (max 0 x) (min c.width (x + w))).foldl (fun out xx => out.set xx yy p) out) c

/-- The body of the inner loop of `draw`. -/
def drawAt (src c : Canvas) (x y : ℤ) (sx sy : ℕ) : Canvas :=
  let dx := x + sx
  let dy := y + sy
  if dx < 0 ∨ c.width ≤ dx then c
  else
    let s := src.get sx sy
    if s.a = 255 then c.set dx dy s
    else if s.a = 0 then c
    else c.set dx dy (blendPixels s (c.get dx.toNat dy.toNat))

/-- `draw`. -/
def draw (src : Canvas) (x y : ℤ) : Canvas :=
  (List.range src.height).foldl (fun out (sy : ℕ) =>
    if y + sy < 0 ∨ c.height ≤ y + sy then out
    else (List.range src.width).foldl (fun out (sx : ℕ) => drawAt src out x y sx sy) out) c

end Canvas

/-! ### Pixels -/

namespace Canvas

variable {c : Canvas}

/-- The pixel in column `x` and row `y` is on the canvas. -/
def Holds (c : Canvas) (x y : ℕ) : Prop := x < c.width ∧ y < c.height

theorem index_add_lt {x y i : ℕ} (h : c.Holds x y) (hi : i < 4) :
    c.index x y + i < c.rgba.length := by
  rw [c.length_rgba, index]
  exact place_lt h.1 h.2 hi

/-- Different pixels have different places. -/
theorem index_ne {x y x' y' i j : ℕ} (hx : x < c.width) (hx' : x' < c.width) (hi : i < 4)
    (hj : j < 4) (hne : ¬(x = x' ∧ y = y')) : c.index x y + i ≠ c.index x' y' + j := by
  intro heq
  have hplace : y * c.width + x = y' * c.width + x' := by
    rw [index, index] at heq
    omega
  have hrow : y = y' := by
    have hdiv := congrArg (· / c.width) hplace
    simp only [Nat.mul_comm _ c.width, Nat.mul_add_div (Nat.zero_lt_of_lt hx),
      Nat.div_eq_of_lt hx, Nat.div_eq_of_lt hx'] at hdiv
    omega
  subst hrow
  exact hne ⟨Nat.add_left_cancel hplace, rfl⟩

@[simp] theorem width_set (x y : ℤ) (p : Pixel) : (c.set x y p).width = c.width := by
  rw [set]
  split_ifs <;> rfl

@[simp] theorem height_set (x y : ℤ) (p : Pixel) : (c.set x y p).height = c.height := by
  rw [set]
  split_ifs <;> rfl

/-- The bytes of the pixel that is set. -/
theorem getD_setAt_self {i j : ℕ} (hj : j < 4) (h : i + 3 < c.rgba.length) (p : Pixel) :
    (c.setAt i p).rgba.getD (i + j) 0 = p.bytes.getD j 0 := by
  simp only [setAt, Pixel.bytes, List.getD_eq_getElem?_getD, List.getElem?_set, List.length_set]
  interval_cases j <;> simp <;> grind

/-- The other bytes. -/
theorem getD_setAt_of_ne {i k : ℕ} (hk : ∀ j < 4, i + j ≠ k) (p : Pixel) :
    (c.setAt i p).rgba.getD k 0 = c.rgba.getD k 0 := by
  have h (j : ℕ) (hj : j < 4) : ¬i + j = k := hk j hj
  simp only [setAt, List.getD_eq_getElem?_getD, List.getElem?_set, h 1 (by decide),
    h 2 (by decide), h 3 (by decide), if_false, show ¬i = k from h 0 (by decide)]

theorem get_eq_iff {x y : ℕ} {p : Pixel} :
    c.get x y = p ↔ ∀ j < 4, c.rgba.getD (c.index x y + j) 0 = p.bytes.getD j 0 := by
  constructor
  · rintro rfl j hj
    interval_cases j <;> rfl
  · intro h
    rw [get, h 1 (by decide), h 2 (by decide), h 3 (by decide)]
    exact congrArg (Pixel.mk · _ _ _) (h 0 (by decide))

/-- A new canvas has one colour. -/
theorem get_new {w h x y : ℕ} (hx : x < w) (hy : y < h) (fill : Pixel) :
    (new w h fill).get x y = fill := by
  have hplace : y * w + x < w * h := by
    have hrow : (y + 1) * w ≤ h * w := Nat.mul_le_mul_right w hy
    rw [Nat.succ_mul, Nat.mul_comm h w] at hrow
    omega
  exact get_eq_iff.mpr fun j hj => Tables.getD_rows (fun _ => rfl) hplace hj 0

/-- **What is set is found**, and no other pixel changes. -/
theorem get_set {x y : ℕ} (h : c.Holds x y) (x' y' : ℤ) (p : Pixel) :
    (c.set x' y' p).get x y = if x' = x ∧ y' = y then p else c.get x y := by
  rw [set]
  split_ifs with hclip heq heq
  · obtain ⟨rfl, rfl⟩ := heq
    obtain ⟨hx, hy⟩ := h
    omega
  · rfl
  · obtain ⟨rfl, rfl⟩ := heq
    rw [Int.toNat_natCast, Int.toNat_natCast, get_eq_iff]
    exact fun j hj => getD_setAt_self hj (index_add_lt h (show 3 < 4 by decide)) p
  · rw [get_eq_iff]
    intro j hj
    exact (getD_setAt_of_ne (fun i hi => index_ne (by omega) h.1 hi hj (by omega)) p).trans
      (get_eq_iff.mp rfl j hj)

/-! ### Operations by what they make of a pixel -/

/-- An operation that keeps the dimensions and makes `f x y p` of the pixel `p` in column `x` and
row `y`. -/
def Acts (step : Canvas → Canvas) (f : ℕ → ℕ → Pixel → Pixel) : Prop :=
  ∀ c, (step c).width = c.width ∧ (step c).height = c.height ∧
    ∀ x y, c.Holds x y → (step c).get x y = f x y (c.get x y)

theorem acts_id : Acts id fun _ _ p => p := fun _ => ⟨rfl, rfl, fun _ _ _ => rfl⟩

theorem acts_set (x' y' : ℤ) (p : Pixel) :
    Acts (fun c => c.set x' y' p) fun x y q => if x' = x ∧ y' = y then p else q :=
  fun _ => ⟨width_set x' y' p, height_set x' y' p, fun _ _ h => get_set h x' y' p⟩

/-- **A loop of operations** makes of a pixel what its steps make of it one after the other. -/
theorem acts_foldl {ι : Type*} (step : Canvas → ι → Canvas) {f : ι → ℕ → ℕ → Pixel → Pixel}
    (l : List ι) (h : ∀ i ∈ l, Acts (step · i) (f i)) :
    Acts (fun c => l.foldl step c) fun x y p => l.foldl (fun p i => f i x y p) p := by
  induction l with
  | nil => exact acts_id
  | cons i l ih =>
    intro c
    obtain ⟨hwidth, hheight, hget⟩ := h i List.mem_cons_self c
    obtain ⟨hwidth', hheight', hget'⟩ := ih (fun j hj => h j (List.mem_cons_of_mem i hj)) (step c i)
    refine ⟨hwidth'.trans hwidth, hheight'.trans hheight, fun x y hxy => ?_⟩
    have hstep : (step c i).Holds x y := ⟨hwidth ▸ hxy.1, hheight ▸ hxy.2⟩
    exact (hget' x y hstep).trans
      (congrArg (fun p => l.foldl (fun p i => f i x y p) p) (hget x y hxy))

/-- A loop of which one step at most changes a value. -/
theorem foldl_range_ite {α : Type*} (n : ℕ) (k : ℤ) (g : α → α) (a : α) :
    (List.range n).foldl (fun a (i : ℕ) => if k = i then g a else a) a =
      if 0 ≤ k ∧ k < n then g a else a := by
  induction n with
  | zero =>
    rw [if_neg (by omega)]
    rfl
  | succ n ih =>
    rw [List.range_succ, List.foldl_append, ih, List.foldl_cons, List.foldl_nil]
    split_ifs <;> first | rfl | omega

/-- A loop that overwrites a value. -/
theorem foldl_ite_const {ι α : Type*} (l : List ι) (P : ι → Prop) [DecidablePred P] (p a : α) :
    l.foldl (fun a i => if P i then p else a) a = if ∃ i ∈ l, P i then p else a := by
  induction l generalizing a with
  | nil => simp
  | cons i l ih =>
    rw [List.foldl_cons, ih]
    by_cases hi : P i <;> simp [hi]

/-- **`fill_rect`** sets the pixels of the rectangle that are on the canvas. -/
theorem acts_fillRect (x' y' w h : ℤ) (p : Pixel) :
    Acts (fun c => c.fillRect x' y' w h p)
      fun x y q => if (x' ≤ x ∧ x < x' + w) ∧ y' ≤ y ∧ y < y' + h then p else q := by
  intro c
  have hrow (yy : ℤ) := acts_foldl (fun c xx => c.set xx yy p)
    (Int.range (max 0 x') (min c.width (x' + w))) fun xx _ => acts_set xx yy p
  obtain ⟨hwidth, hheight, hget⟩ := acts_foldl (fun out yy =>
    (Int.range (max 0 x') (min c.width (x' + w))).foldl (fun out xx => out.set xx yy p) out)
    (Int.range (max 0 y') (min c.height (y' + h))) (fun yy _ => hrow yy) c
  refine ⟨hwidth, hheight, fun x y hxy => (hget x y hxy).trans ?_⟩
  obtain ⟨hx, hy⟩ := hxy
  have hcolumns (yy : ℤ) (q : Pixel) : (Int.range (max 0 x') (min c.width (x' + w))).foldl
      (fun q (xx : ℤ) => if xx = x ∧ yy = y then p else q) q =
        if (x' ≤ x ∧ x < x' + w) ∧ yy = y then p else q := by
    rw [foldl_ite_const]
    refine if_congr ⟨?_, fun hq => ⟨x, ?_, rfl, hq.2⟩⟩ rfl rfl
    · rintro ⟨xx, hxx, rfl, rfl⟩
      rw [Int.mem_range_iff] at hxx
      omega
    · rw [Int.mem_range_iff]
      omega
  simp only [hcolumns, foldl_ite_const]
  refine if_congr ⟨?_, fun hq => ⟨y, ?_, hq.1, rfl⟩⟩ rfl rfl
  · rintro ⟨yy, hyy, hq, rfl⟩
    rw [Int.mem_range_iff] at hyy
    exact ⟨hq, by omega⟩
  · rw [Int.mem_range_iff]
    omega

end Canvas

/-! ### Drawing -/

/-- The pixel `s` composited over `d`. -/
def overlay (s d : Pixel) : Pixel :=
  if s.a = 255 then s else if s.a = 0 then d else blendPixels s d

/-- **Over an opaque pixel, compositing is flattening.** -/
theorem overlay_of_solid (s : Pixel) {d : Pixel} (hd : d.a = 255) :
    overlay s d = (s.flatten d.toRgb).toPixel := by
  rw [overlay]
  split_ifs with hsolid hclear
  · rw [Pixel.flatten_of_solid hsolid, Rgb.toPixel, ← hsolid]
  · have hchannel (v m : UInt8) : HumanizedHash.flatten v 0 m = m := by
      have hfull : (0 : UInt8).toNat = 0 := rfl
      rw [← UInt8.toNat_inj, toNat_flatten, hfull]
      omega
    rw [Pixel.flatten, hclear, hchannel, hchannel, hchannel, Rgb.toPixel, ← hd]
    rfl
  · have hblend (v m : UInt8) : blend v m s.a.toNat = HumanizedHash.flatten v s.a m := by
      rw [blend, HumanizedHash.flatten, Nat.mul_comm v.toNat, Nat.mul_comm m.toNat]
    have halpha : s.a.toNat + d.a.toNat * (255 - s.a.toNat) / 255 = 255 := by
      have hfull : (255 : UInt8).toNat = 255 := rfl
      have ha := s.a.toNat_lt
      rw [hd, hfull, Nat.mul_div_cancel_left _ (by decide)]
      omega
    simp only [blendPixels, halpha, hblend]
    rfl

namespace Canvas

theorem acts_drawAt (src : Canvas) (x' y' : ℤ) (sx sy : ℕ) :
    Acts (fun c => drawAt src c x' y' sx sy) fun x y p =>
      if x' + sx = x ∧ y' + sy = y then overlay (src.get sx sy) p else p := by
  intro c
  simp only [drawAt]
  split_ifs with hclip hsolid hclear
  · refine ⟨rfl, rfl, fun x y h => (if_neg ?_).symm⟩
    obtain ⟨hx, -⟩ := h
    omega
  · refine ⟨width_set .., height_set .., fun x y h => ?_⟩
    rw [get_set h, overlay, if_pos hsolid]
  · refine ⟨rfl, rfl, fun x y h => ?_⟩
    rw [overlay, if_neg hsolid, if_pos hclear, ite_self]
  · refine ⟨width_set .., height_set .., fun x y h => ?_⟩
    rw [get_set h, overlay, if_neg hsolid, if_neg hclear]
    refine if_ctx_congr Iff.rfl (fun heq => ?_) fun _ => rfl
    rw [heq.1, heq.2, Int.toNat_natCast, Int.toNat_natCast]

/-- A row of `draw`. -/
theorem acts_drawRow (src : Canvas) (x' y' : ℤ) (sy : ℕ) :
    Acts (fun c => (List.range src.width).foldl (fun c (sx : ℕ) => drawAt src c x' y' sx sy) c)
      fun x y p => if (0 ≤ x - x' ∧ x - x' < src.width) ∧ y - y' = sy then
        overlay (src.get (x - x').toNat sy) p else p := by
  intro c
  obtain ⟨hwidth, hheight, hget⟩ := acts_foldl (fun c (sx : ℕ) => drawAt src c x' y' sx sy)
    (List.range src.width) (fun sx _ => acts_drawAt src x' y' sx sy) c
  refine ⟨hwidth, hheight, fun x y h => (hget x y h).trans ?_⟩
  by_cases hy : y - y' = sy
  · simp only [hy, and_true]
    rw [← foldl_range_ite]
    refine congrArg (fun f => (List.range src.width).foldl f _) (funext₂ fun p sx => ?_)
    refine if_ctx_congr (by omega) (fun heq => ?_) fun _ => rfl
    rw [heq, Int.toNat_natCast]
  · have hnone (sx : ℕ) : ¬(x' + sx = x ∧ y' + sy = y) := by omega
    simp only [hnone, hy, and_false, if_false, List.foldl_fixed]

/-- **`draw`** composites the pixels of the picture that lie on the canvas. -/
theorem acts_draw (src : Canvas) (x' y' : ℤ) :
    Acts (fun c => c.draw src x' y') fun x y p =>
      if (0 ≤ x - x' ∧ x - x' < src.width) ∧ 0 ≤ y - y' ∧ y - y' < src.height then
        overlay (src.get (x - x').toNat (y - y').toNat) p
      else p := by
  intro c
  have hrow (sy : ℕ) : Acts (fun out => if y' + sy < 0 ∨ c.height ≤ y' + sy then out
      else (List.range src.width).foldl (fun out (sx : ℕ) => drawAt src out x' y' sx sy) out)
      fun x y p => if 0 ≤ y' + sy ∧ y' + sy < c.height then
        if (0 ≤ x - x' ∧ x - x' < src.width) ∧ y - y' = sy then
          overlay (src.get (x - x').toNat sy) p else p
      else p := by
    by_cases hclip : y' + sy < 0 ∨ c.height ≤ y' + sy
    · simp only [if_pos hclip, if_neg (show ¬(0 ≤ y' + sy ∧ y' + sy < c.height) by omega)]
      exact acts_id
    · simp only [if_neg hclip, if_pos (show 0 ≤ y' + sy ∧ y' + sy < c.height by omega)]
      exact acts_drawRow src x' y' sy
  obtain ⟨hwidth, hheight, hget⟩ := acts_foldl _ (List.range src.height) (fun sy _ => hrow sy) c
  refine ⟨hwidth, hheight, fun x y h => (hget x y h).trans ?_⟩
  obtain ⟨-, hy⟩ := h
  by_cases hx : 0 ≤ x - x' ∧ x - x' < src.width
  · simp only [hx, true_and]
    rw [← foldl_range_ite]
    refine congrArg (fun f => (List.range src.height).foldl f _) (funext₂ fun p sy => ?_)
    by_cases hrow : y - y' = sy
    · rw [if_pos (by omega), if_pos hrow, if_pos hrow, hrow, Int.toNat_natCast]
    · rw [if_neg hrow, if_neg hrow, ite_self]
  · simp only [hx, false_and, if_false, ite_self, List.foldl_fixed]

/-- A loop that sets the pixels of a row. -/
theorem acts_setRow (w yy : ℕ) (f : ℕ → Pixel) :
    Acts (fun c => (List.range w).foldl (fun c (xx : ℕ) => c.set xx yy (f xx)) c)
      fun x y p => if (y : ℤ) = yy then if x < w then f x else p else p := by
  intro c
  obtain ⟨hwidth, hheight, hget⟩ := acts_foldl (fun c (xx : ℕ) => c.set xx yy (f xx))
    (List.range w) (fun xx _ => acts_set xx yy (f xx)) c
  refine ⟨hwidth, hheight, fun x y h => (hget x y h).trans ?_⟩
  by_cases hy : (y : ℤ) = yy
  · have hcolumn (p : Pixel) (xx : ℕ) :
        (if (xx : ℤ) = x ∧ (yy : ℤ) = y then f xx else p) = if (x : ℤ) = xx then f x else p := by
      refine if_ctx_congr (by omega) (fun heq => ?_) fun _ => rfl
      rw [Int.ofNat_inj.mp heq]
    dsimp only
    rw [if_pos hy]
    simp only [hcolumn, foldl_range_ite]
    exact if_congr (by omega) rfl rfl
  · have hnone (xx : ℕ) : ¬((xx : ℤ) = x ∧ (yy : ℤ) = y) := by omega
    simp only [hnone, hy, if_false, List.foldl_fixed]

/-- **A loop that sets every pixel** of a rectangle at the upper left corner. -/
theorem acts_setEach (w h : ℕ) (f : ℕ → ℕ → Pixel) :
    Acts (fun c => (List.range h).foldl (fun out (yy : ℕ) =>
      (List.range w).foldl (fun out (xx : ℕ) => out.set xx yy (f xx yy)) out) c)
      fun x y p => if x < w ∧ y < h then f x y else p := by
  intro c
  obtain ⟨hwidth, hheight, hget⟩ := acts_foldl _ (List.range h)
    (fun yy _ => acts_setRow w yy fun xx => f xx yy) c
  refine ⟨hwidth, hheight, fun x y hxy => (hget x y hxy).trans ?_⟩
  have hrow (p : Pixel) (yy : ℕ) : (if (y : ℤ) = yy then if x < w then f x yy else p else p) =
      if (y : ℤ) = yy then if x < w then f x y else p else p := by
    refine if_ctx_congr Iff.rfl (fun heq => ?_) fun _ => rfl
    rw [Int.ofNat_inj.mp heq]
  simp only [hrow]
  rw [foldl_range_ite]
  split_ifs <;> first | rfl | omega

end Canvas

end Lab

end HumanizedHash
