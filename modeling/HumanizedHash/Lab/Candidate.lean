import HumanizedHash.Lab.Canvas
import HumanizedHash.Raster.Render

/-!
# The lab's pictures

The lab draws through the library: it fills in a job of its own and copies the pixels of `rasterise`
to a canvas. Its cells keep the colour bits of empty cells, and the rules of `render` for modes and
contrast do not apply. Where `render` accepts a fingerprint, the lab has a frame style for its shape
and its frame, and the picture that it draws of the cells with that style is the one of `render`.

## Main definitions

* `Lab.features`, `Lab.libraryStyle`, `Lab.libraryShape`, `Lab.render`.

## Main results

* `Lab.render_exact`: the pictures of the library.

## References

* `src/tools/lab/candidate.cpp`, `src/tools/lab/candidate.hpp`.
-/

namespace HumanizedHash

namespace Lab

/-! ### The code -/

/-- `is_triangle`. -/
def isTriangle (f : Figure) : Bool :=
  f = .triangleUp || f = .triangleRight || f = .triangleDown || f = .triangleLeft

/-- `figure_family`. -/
def figureFamily : Figure → ℕ
  | .none => 0
  | .square => 1
  | .circle => 2
  | _ => 3

/-- `features`: the cells of the library, with the colour bits of empty cells. -/
def features (fp : Vector UInt8 32) : Vector Cell 16 :=
  Vector.ofFn fun i =>
    { figure := ((cellsOf fp).get i).figure, colour := (fp.get (Fin.castAdd 16 i) >>> 3) &&& 3 }

/-- `frame_style`. -/
inductive FrameStyle
  | none
  | single
  | doubleLine
  | octagon
  | rounded
  | brackets
  | thick
  | disc
  | ring
  | ringDouble
  | ringThick
  | ringGapped
  | ringTicks
  deriving DecidableEq

/-- `library_style`. -/
def libraryStyle : FrameStyle → HumanizedHash.FrameStyle
  | .none | .disc => .none
  | .single | .ring => .plain
  | .doubleLine | .ringDouble => .doubleLine
  | .thick | .ringThick => .thick
  | .octagon => .chamfered
  | .rounded => .rounded
  | .brackets => .brackets
  | .ringGapped => .gaps
  | .ringTicks => .ticks

/-- `is_round`. -/
def isRound : FrameStyle → Bool
  | .disc | .ring | .ringDouble | .ringThick | .ringGapped | .ringTicks => true
  | _ => false

/-- `library_shape`. -/
def libraryShape (s : FrameStyle) : ImageShape := if isRound s then .round else .square

/-- `struct design`, without the directions. -/
structure Design where
  palette : Vector Rgb 4
  frameColour : Rgb
  frameAlpha : UInt8 := 255

/-- The colours of `proposed_design`. -/
def proposedColours : Array Rgb :=
  #[⟨0x7A, 0x96, 0xC5⟩, ⟨0x89, 0x0A, 0xF0⟩, ⟨0xC1, 0x04, 0x45⟩, ⟨0xD4, 0x82, 0x00⟩]

theorem size_proposedColours : proposedColours.size = 4 := rfl

/-- `proposed_design`. -/
def proposedDesign : Design where
  palette := ⟨proposedColours, size_proposedColours⟩
  frameColour := ⟨0x80, 0x80, 0x80⟩

/-- `struct surface`. -/
structure Surface where
  colour : Rgb
  alpha : UInt8

/-- The job of `render`. -/
def jobOf (c : Vector Cell 16) (d : Design) (bg : Surface) (frame : FrameStyle) : RasterJob where
  cells := c
  palette := d.palette
  frameRgb := d.frameColour
  shape := libraryShape frame
  frame := libraryStyle frame
  background := bg.colour
  backgroundAlpha := bg.alpha
  frameAlpha := d.frameAlpha

/-- The pixel at a place of a buffer. -/
def pixelOf (rgba : List UInt8) (p : ℕ) : Pixel :=
  ⟨rgba.getD p 0, rgba.getD (p + 1) 0, rgba.getD (p + 2) 0, rgba.getD (p + 3) 0⟩

/-- The copy loop of `render`. -/
def copyPixels (size : ℕ) (rgba : List UInt8) (out : Canvas) : Canvas :=
  (List.range size).foldl (fun out (y : ℕ) =>
    (List.range size).foldl (fun out (x : ℕ) =>
      out.set x y (pixelOf rgba ((y * size + x) * 4))) out) out

/-- `render`. -/
def render (c : Vector Cell 16) (d : Design) (size : UInt32) (bg : Surface) (frame : FrameStyle) :
    Canvas :=
  let out := Canvas.new size.toNat size.toNat ⟨0, 0, 0, 0⟩
  match rasterise (jobOf c d bg frame) size (some 0) fun _ => 0 with
  | (.ok, mem) => copyPixels size.toNat (mem.read 0 (imageBytes size)) out
  | _ => out

/-! ### The copy -/

theorem getD_bytes_pixelOf (rgba : List UInt8) (p : ℕ) {j : ℕ} (hj : j < 4) :
    (pixelOf rgba p).bytes.getD j 0 = rgba.getD (p + j) 0 := by
  interval_cases j <;> rfl

/-- Canvases with the same pixels have the same bytes. -/
theorem Canvas.rgba_eq_of_get {c : Canvas} {rgba : List UInt8}
    (hlength : rgba.length = c.width * c.height * 4)
    (h : ∀ x y, c.Holds x y → c.get x y = pixelOf rgba (c.index x y)) : c.rgba = rgba := by
  refine List.ext_getElem (c.length_rgba.trans hlength.symm) fun i hi hi' => ?_
  rw [c.length_rgba] at hi
  have hwidth : 0 < c.width := Nat.pos_of_ne_zero fun hzero => by
    rw [hzero, Nat.zero_mul, Nat.zero_mul] at hi
    exact absurd hi (Nat.not_lt_zero i)
  have hrow : i / 4 / c.width < c.height := Nat.div_lt_of_lt_mul (by omega)
  have hcolumn : i / 4 % c.width < c.width := Nat.mod_lt _ hwidth
  have hplace : c.index (i / 4 % c.width) (i / 4 / c.width) + i % 4 = i := by
    rw [Canvas.index, Nat.div_add_mod']
    omega
  have hrest := Nat.mod_lt i (show 0 < 4 by decide)
  have hpixel := Canvas.get_eq_iff.mp (h _ _ ⟨hcolumn, hrow⟩) (i % 4) hrest
  rw [getD_bytes_pixelOf _ _ hrest, hplace, List.getD_eq_getElem _ _ (by rwa [c.length_rgba]),
    List.getD_eq_getElem _ _ hi'] at hpixel
  exact hpixel

/-- **The copy.** -/
theorem rgba_copyPixels {size : ℕ} {rgba : List UInt8} (hlength : rgba.length = size * size * 4)
    (fill : Pixel) : (copyPixels size rgba (Canvas.new size size fill)).width = size ∧
      (copyPixels size rgba (Canvas.new size size fill)).height = size ∧
      (copyPixels size rgba (Canvas.new size size fill)).rgba = rgba := by
  obtain ⟨hwidth, hheight, hget⟩ := Canvas.acts_setEach size size
    (fun x y => pixelOf rgba ((y * size + x) * 4)) (Canvas.new size size fill)
  refine ⟨hwidth, hheight, Canvas.rgba_eq_of_get ?_ fun x y hxy => ?_⟩
  · rw [hlength]
    exact congrArg₂ (fun w h => w * h * 4) hwidth.symm hheight.symm
  · have hx : x < size := hxy.1.trans_eq hwidth
    have hy : y < size := hxy.2.trans_eq hheight
    refine (hget x y ⟨hx, hy⟩).trans ((if_pos ⟨hx, hy⟩).trans ?_)
    rw [Canvas.index]
    exact congrArg (fun w => pixelOf rgba ((y * w + x) * 4)) hwidth.symm

/-! ### The job -/

/-- Cells that show the same: the colour of an empty cell does not matter. -/
def SameCells (c c' : Vector Cell 16) : Prop :=
  ∀ i : Fin 16, (c.get i).figure = (c'.get i).figure ∧
    ((c.get i).figure ≠ .none → (c.get i).colour = (c'.get i).colour)

theorem sameCells_features (fp : Vector UInt8 32) : SameCells (features fp) (cellsOf fp) := by
  intro i
  have hcell : (features fp).get i =
      { figure := ((cellsOf fp).get i).figure
        colour := (fp.get (Fin.castAdd 16 i) >>> 3) &&& 3 } :=
    Vector.getElem_ofFn ..
  have hcell' : (cellsOf fp).get i = cellOf fp[i] := Vector.getElem_ofFn ..
  rw [hcell]
  refine ⟨rfl, fun hfigure => ?_⟩
  rw [hcell'] at hfigure ⊢
  exact (if_neg hfigure).symm

/-- The first pass does not look at the cells, and the second one only at what they show. -/
theorem rasterise_of_sameCells {c c' : Vector Cell 16} (h : SameCells c c') (d : Design)
    (bg : Surface) (frame : FrameStyle) (size : UInt32) (rgba : Option ℕ) (mem : Memory UInt8) :
    rasterise (jobOf c d bg frame) size rgba mem =
      rasterise (jobOf c' d bg frame) size rgba mem := by
  have hcell (g : Geometry) (p : ℕ) (i : Fin 16) :
      paintCell (jobOf c d bg frame) g p i (c.get i) =
        paintCell (jobOf c' d bg frame) g p i (c'.get i) := by
    obtain ⟨hfigure, hcolour⟩ := h i
    funext mem
    by_cases hnone : (c.get i).figure = .none
    · rw [paintCell, paintCell, if_pos hnone, if_pos (hfigure ▸ hnone)]
    · have heq : c.get i = c'.get i := by
        cases hc : c.get i
        cases hc' : c'.get i
        rw [hc, hc'] at hfigure hcolour
        rw [hc] at hnone
        exact congrArg₂ Cell.mk hfigure (hcolour hnone)
      rw [heq]
      rfl
  have hlist (c : Vector Cell 16) :
      c.toList.zipIdx = (List.finRange 16).map fun i => (c.get i, i.val) := by
    refine List.ext_getElem (by simp) fun i hi hi' => ?_
    rw [List.getElem_zipIdx, List.getElem_map, List.getElem_finRange, Nat.zero_add]
    rfl
  have hfigures (g : Geometry) (p : ℕ) (mem : Memory UInt8) :
      paintFigures (jobOf c d bg frame) g p mem = paintFigures (jobOf c' d bg frame) g p mem := by
    rw [paintFigures, paintFigures, jobOf, jobOf, hlist c, hlist c', List.foldl_map, List.foldl_map]
    exact congrArg (fun f => (List.finRange 16).foldl f mem)
      (funext₂ fun mem i => congrFun (hcell g p i) mem)
  cases rgba with
  | none => rfl
  | some p =>
    simp only [rasterise, hfigures]
    rfl

/-! ### The pictures of the library -/

/-- The lab has a frame style for every frame of a shape. -/
theorem exists_frameStyle {shape : ImageShape} {style : HumanizedHash.FrameStyle}
    (hshape : validShape shape = true) (h : frameAllowed style shape = true) :
    ∃ s, libraryShape s = shape ∧ libraryStyle s = style := by
  rw [frameAllowed_iff] at h
  cases shape with
  | square =>
    cases style with
    | none => exact ⟨.none, rfl, rfl⟩
    | plain => exact ⟨.single, rfl, rfl⟩
    | rounded => exact ⟨.rounded, rfl, rfl⟩
    | chamfered => exact ⟨.octagon, rfl, rfl⟩
    | doubleLine => exact ⟨.doubleLine, rfl, rfl⟩
    | thick => exact ⟨.thick, rfl, rfl⟩
    | brackets => exact ⟨.brackets, rfl, rfl⟩
    | _ => exact h.elim
  | round =>
    cases style with
    | none => exact ⟨.disc, rfl, rfl⟩
    | plain => exact ⟨.ring, rfl, rfl⟩
    | doubleLine => exact ⟨.ringDouble, rfl, rfl⟩
    | thick => exact ⟨.ringThick, rfl, rfl⟩
    | ticks => exact ⟨.ringTicks, rfl, rfl⟩
    | gaps => exact ⟨.ringGapped, rfl, rfl⟩
    | _ => exact h.elim
  | unknown b hb => exact absurd hshape (by simp [validShape])

theorem frameAllowed_of_prepare {fp : Fingerprint} {size : UInt32} {options : RenderOptions}
    {job : RasterJob} (h : prepare fp size options = .ok job) :
    frameAllowed (resolveFrame options.frame fp.mode options.shape) options.shape = true := by
  rw [prepare] at h
  dsimp only at h
  split_ifs at h with hempty hargs hsize hframe
  all_goals simpa using hframe

/-- **The lab draws what the library renders.** Where `render` accepts a fingerprint, the lab has a
frame style for the shape and the frame, and with every such style it draws the same picture. -/
theorem render_exact {fp : Fingerprint} {size : UInt32} {options : RenderOptions} {img : Image}
    (h : HumanizedHash.render fp size options .empty = (.ok, img)) :
    (∃ s, libraryShape s = options.shape ∧
      libraryStyle s = resolveFrame options.frame fp.mode options.shape) ∧
    ∀ s, libraryShape s = options.shape →
      libraryStyle s = resolveFrame options.frame fp.mode options.shape →
        let c := render (features fp.bytes) { proposedDesign with frameAlpha := options.frameAlpha }
          size ⟨options.background, options.backgroundAlpha⟩ s
        c.width = img.width.toNat ∧ c.height = img.height.toNat ∧ c.rgba = img.rgba := by
  cases hprepare : prepare fp size options with
  | error ec =>
    rw [render_of_error hprepare, Prod.mk.injEq] at h
    exact absurd h.1 (ne_ok_of_prepare hprepare)
  | ok job =>
    have hprepared := prepared_of_prepare hprepare
    rw [render_of_ok hprepare, Prod.mk.injEq] at h
    obtain ⟨-, rfl⟩ := h
    have hshape : validShape options.shape = true := by
      have hvalid := hprepared.shape_valid
      rwa [hprepared.job_eq] at hvalid
    refine ⟨exists_frameStyle hshape (frameAllowed_of_prepare hprepare), fun s hs hstyle => ?_⟩
    have hjob : jobOf (cellsOf fp.bytes) { proposedDesign with frameAlpha := options.frameAlpha }
        ⟨options.background, options.backgroundAlpha⟩ s = job := by
      rw [hprepared.job_eq, HumanizedHash.jobOf, jobOf, hs, hstyle]
      rfl
    dsimp only
    rw [render, rasterise_of_sameCells (sameCells_features fp.bytes), hjob,
      hprepared.rasterise_eq 0 (fun _ => 0) false]
    exact rgba_copyPixels (Memory.length_read ..) ⟨0, 0, 0, 0⟩

/-- The picture of a keyed fingerprint with the default frame. -/
theorem render_exact_keyed :
    let fp : Fingerprint := ⟨Vector.replicate 32 0x55, .keyed, true⟩
    (render (features fp.bytes) proposedDesign 16 ⟨⟨255, 255, 255⟩, 255⟩ .rounded).rgba =
      (HumanizedHash.render fp 16 {} .empty).2.rgba := by
  intro fp
  have hverdict : verdict frameColour fp 16 {} = .ok := by decide +kernel
  have himg := render_of_ok ((prepare_eq frameColour fp 16 {}).trans (if_pos hverdict)) .empty
  rw [himg]
  exact ((render_exact himg).2 .rounded rfl rfl).2.2

end Lab

end HumanizedHash
