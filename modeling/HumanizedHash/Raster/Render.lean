import HumanizedHash.Raster.Picture

/-!
# Rendering

The verdict and the result of `render` and `render_into`. The checks are made three times, in
`prepare`, in `make_geometry` and in `rasterise`; together they give the first fault of one ordered
list (`verdict`), and nothing fails after `prepare`. A picture that is rendered is the declared
one, in the first `size * size * 4` bytes of the buffer and nowhere else.

## Main definitions

* `StyleFits`, `verdict`: the list of faults.
* `IsPicture`: the pixels of a rendered picture, from the fingerprint and the options.

## Main results

* `prepare_eq`: `prepare` reports the first fault.
* `rasterise_of_prepare`: after `prepare` nothing fails.
* `render_eq_verdict`: the verdict of `render`.
* `renderInto_isPicture`: the result of `render_into` and of `render`.

## References

* `src/src/raster.cpp`, `src/docs/SPEC.md` sections 6 to 9.
-/

namespace HumanizedHash

/-! ### The list of faults -/

/-- Which styles a shape has. -/
def StyleFits : FrameStyle → ImageShape → Prop
  | .none, _ | .plain, _ | .doubleLine, _ | .thick, _ => True
  | .rounded, .square | .chamfered, .square | .brackets, .square => True
  | .ticks, .round | .gaps, .round => True
  | _, _ => False

theorem frameAllowed_iff (style : FrameStyle) (shape : ImageShape) :
    frameAllowed style shape = true ↔ StyleFits style shape := by
  cases style <;> cases shape <;> simp [frameAllowed, StyleFits]

instance (style : FrameStyle) (shape : ImageShape) : Decidable (StyleFits style shape) :=
  decidable_of_iff _ (frameAllowed_iff style shape)

/-- The style that `automatic` stands for: rounded corners for a keyed square picture, otherwise
no frame. -/
def resolvedStyle (style : FrameStyle) (m : Mode) (shape : ImageShape) : FrameStyle :=
  match style, m, shape with
  | .automatic, .keyed, .square => .rounded
  | .automatic, _, _ => .none
  | style, _, _ => style

/-- The first fault of a call of `render`, seen on a page of the colour `page`; `ok` if there is
none. -/
def verdict (page : Rgb) (fp : Fingerprint) (size : UInt32) (options : RenderOptions) :
    ErrorCode :=
  let resolved := resolvedStyle options.frame fp.mode options.shape
  if fp.set = false then .invalidFingerprint
  else if 1 < options.shape.toByte ∨ 9 < options.frame.toByte then .invalidArgument
  else if size.toNat < 16 ∨ 1024 < size.toNat then .invalidSize
  else if ¬ StyleFits resolved options.shape then .invalidFrame
  else if options.backgroundAlpha = 255 ∧ (measureContrast options page).figuresX100 < 200 then
    .lowContrast
  else if options.shape = .round ∧ (resolved = .doubleLine ∨ resolved = .thick) ∧
      size.toNat < 18 then
    .invalidSize
  else .ok

theorem resolveFrame_eq (style : FrameStyle) (m : Mode) (shape : ImageShape) :
    resolveFrame style m shape = resolvedStyle style m shape := by
  cases style <;> cases m <;> cases shape <;> rfl

theorem validShape_iff (shape : ImageShape) : validShape shape = true ↔ ¬ 1 < shape.toByte := by
  cases shape with
  | square => decide
  | round => decide
  | unknown b h => simp [validShape, ImageShape.toByte, h]

theorem validStyle_iff (style : FrameStyle) : validStyle style = true ↔ ¬ 9 < style.toByte := by
  rw [validStyle, decide_eq_true_iff, UInt8.not_lt]
  rfl

/-- An opaque background is seen as it is on every page. -/
theorem figuresX100_of_solid {options : RenderOptions} (h : options.backgroundAlpha = 255)
    (page : Rgb) :
    (measureContrast options page).figuresX100 = figuresContrastX100 options.background := by
  rw [measureContrast, h, Rgb.over_solid]

/-- The sizes outside the range. -/
theorem size_out_iff (size : UInt32) :
    (size < minImageSize ∨ maxImageSize < size) ↔ size.toNat < 16 ∨ 1024 < size.toNat := by
  rw [UInt32.lt_iff_toNat_lt, UInt32.lt_iff_toNat_lt]
  rfl

/-- **`prepare` reports the first fault**, or gives the job. -/
theorem prepare_eq (page : Rgb) (fp : Fingerprint) (size : UInt32) (options : RenderOptions) :
    prepare fp size options =
      if verdict page fp size options = .ok then .ok (jobOf fp options)
      else .error (verdict page fp size options) := by
  have hset : fp.empty = true ↔ fp.set = false := by rw [Fingerprint.empty, Bool.not_eq_true']
  have hargs : (!validShape options.shape || !validStyle options.frame) = true ↔
      1 < options.shape.toByte ∨ 9 < options.frame.toByte := by
    rw [Bool.or_eq_true, Bool.not_eq_true', Bool.not_eq_true', ← Bool.not_eq_true,
      ← Bool.not_eq_true, validShape_iff, validStyle_iff, not_not, not_not]
  have hframe (resolved : FrameStyle) : (!frameAllowed resolved options.shape) = true ↔
      ¬ StyleFits resolved options.shape := by
    rw [Bool.not_eq_true', ← Bool.not_eq_true, frameAllowed_iff]
  have hcontrast : (options.backgroundAlpha = 255 ∧ figuresContrastX100 options.background < 200) ↔
      options.backgroundAlpha = 255 ∧ (measureContrast options page).figuresX100 < 200 :=
    and_congr_right fun h => by rw [figuresX100_of_solid h]
  simp only [prepare, verdict, resolveFrame_eq, hset, hargs, size_out_iff, hframe, hcontrast]
  by_cases hsize : size.toNat < 16 ∨ 1024 < size.toNat
  · simp only [if_pos hsize]
    split_ifs <;> first | rfl | contradiction
  · have hmem := not_or.mp ((not_congr (size_out_iff size)).mpr hsize)
    have hcells (resolved : FrameStyle) :
        (!(makeGeometry size options.shape resolved).1) = true ↔
          options.shape = .round ∧ (resolved = .doubleLine ∨ resolved = .thick) ∧
            size.toNat < 18 := by
      rw [Bool.not_eq_true', makeGeometry_fst_eq_false_iff (UInt32.not_lt.mp hmem.1)
        (UInt32.not_lt.mp hmem.2), UInt32.lt_iff_toNat_lt]
      rfl
    simp only [hcells]
    split_ifs <;> first | rfl | contradiction

/-- An error of `prepare` is not `ok`. -/
theorem ne_ok_of_prepare {fp : Fingerprint} {size : UInt32} {options : RenderOptions}
    {ec : ErrorCode} (h : prepare fp size options = .error ec) : ec ≠ .ok := by
  rw [prepare_eq frameColour] at h
  split_ifs at h with hok
  exact Except.error.inj h ▸ hok

/-! ### Nothing fails after `prepare` -/

/-- A style that is allowed has a name and is not `automatic`. -/
theorem validStyle_of_frameAllowed {style : FrameStyle} {shape : ImageShape}
    (h : frameAllowed style shape = true) : validStyle style = true ∧ style ≠ .automatic := by
  cases style with
  | automatic => exact absurd h Bool.false_ne_true
  | unknown b hb => exact absurd h Bool.false_ne_true
  | _ => exact ⟨by decide, by decide⟩

/-- What `prepare` has checked when it gives a job. -/
structure Prepared (fp : Fingerprint) (size : UInt32) (options : RenderOptions)
    (job : RasterJob) : Prop where
  job_eq : job = jobOf fp options
  size_mem : minImageSize ≤ size ∧ size ≤ maxImageSize
  shape_valid : validShape job.shape = true
  frame_valid : validStyle job.frame = true ∧ job.frame ≠ .automatic
  contrast : options.backgroundAlpha = 255 → 200 ≤ figuresContrastX100 options.background
  cells_fit : (makeGeometry size job.shape job.frame).1 = true

theorem prepared_of_prepare {fp : Fingerprint} {size : UInt32} {options : RenderOptions}
    {job : RasterJob} (h : prepare fp size options = .ok job) :
    Prepared fp size options job := by
  rw [prepare] at h
  dsimp only at h
  split_ifs at h with hempty hargs hsize hframe hcontrast hcells
  obtain rfl := Except.ok.inj h
  simp only [Bool.or_eq_true, Bool.not_eq_true', not_or, Bool.not_eq_false] at hargs
  simp only [Bool.not_eq_true', Bool.not_eq_false] at hframe hcells
  simp only [not_or, UInt32.not_lt] at hsize
  exact
    { job_eq := rfl
      size_mem := hsize
      shape_valid := hargs.1
      frame_valid := validStyle_of_frameAllowed hframe
      contrast := fun hsolid => not_lt.mp fun hlow => hcontrast ⟨hsolid, hlow⟩
      cells_fit := hcells }

/-- The geometry of a job. -/
def RasterJob.geometry (job : RasterJob) (size : UInt32) : Geometry :=
  (makeGeometry size job.shape job.frame).2

section Prepared

variable {fp : Fingerprint} {size : UInt32} {options : RenderOptions} {job : RasterJob}

theorem Prepared.consistent (h : Prepared fp size options job) :
    (job.geometry size).Consistent size job.shape job.frame :=
  makeGeometry_consistent h.size_mem.1 h.size_mem.2 job.shape job.frame

/-- **Nothing fails after `prepare`.** The second round of checks passes. -/
theorem Prepared.rasterise_eq (h : Prepared fp size options job) (p : ℕ) (mem : Memory UInt8)
    (reference : Bool) : rasterise job size (some p) mem reference =
      (.ok, paintFigures job (job.geometry size) p
        (paintFrame job (job.geometry size) p reference mem)) := by
  have hargs : (!validShape job.shape || !validStyle job.frame ||
      decide (job.frame = .automatic)) = false := by
    rw [h.shape_valid, h.frame_valid.1, decide_eq_false h.frame_valid.2]
    rfl
  have hsize : ¬ (size < minImageSize ∨ maxImageSize < size) :=
    not_or.mpr ⟨UInt32.not_lt.mpr h.size_mem.1, UInt32.not_lt.mpr h.size_mem.2⟩
  have hfit := h.cells_fit
  rw [rasterise, hargs, if_neg Bool.false_ne_true, if_neg hsize, RasterJob.geometry]
  generalize makeGeometry size job.shape job.frame = result at hfit
  obtain ⟨fits, g⟩ := result
  subst hfit
  rfl

/-- A job of `prepare` is painted into the buffer, whatever it held. -/
theorem Prepared.shows (h : Prepared fp size options job) (p : ℕ) (mem : Memory UInt8) :
    job.Shows (job.geometry size) p (rasterise job size (some p) mem).2 := by
  rw [h.rasterise_eq p mem]
  exact RasterJob.shows_paint h.consistent p false mem

/-- Two buffers hold the same bytes after a job of `prepare`. -/
theorem Prepared.read_eq (h : Prepared fp size options job) (p q : ℕ) (mem mem' : Memory UInt8) :
    (rasterise job size (some p) mem).2.read p (imageBytes size) =
      (rasterise job size (some q) mem').2.read q (imageBytes size) := by
  rw [imageBytes, read_eq_iff_pixelAt_eq, ← h.consistent.size_eq]
  exact fun k hk => (h.shows p mem).pixelAt_eq (h.shows q mem') hk

/-- No byte outside the buffer changes. -/
theorem Prepared.apply_of_notMem (h : Prepared fp size options job) (p : ℕ) (mem : Memory UInt8)
    {a : ℕ} (ha : a < p ∨ p + imageBytes size ≤ a) :
    (rasterise job size (some p) mem).2 a = mem a := by
  have hsize := h.consistent.size_eq
  rw [h.rasterise_eq p mem]
  refine paint_apply_of_notMem h.consistent p false mem ?_
  rwa [hsize]

end Prepared

/-! ### The entry points -/

section EntryPoints

variable {fp : Fingerprint} {size : UInt32} {options : RenderOptions} {job : RasterJob}

theorem render_of_error {ec : ErrorCode} (h : prepare fp size options = .error ec) (out : Image) :
    render fp size options out = (ec, .empty) := by
  rw [render, h]

theorem render_of_ok (h : prepare fp size options = .ok job) (out : Image) :
    render fp size options out =
      (.ok, ⟨size, size, (rasterise job size (some 0) fun _ => 0).2.read 0 (imageBytes size)⟩) := by
  have hpaint := (prepared_of_prepare h).rasterise_eq 0 (fun _ => 0) false
  rw [render, h]
  dsimp only
  rw [hpaint]
  rfl

theorem renderInto_of_error {ec : ErrorCode} (h : prepare fp size options = .error ec) (p : ℕ)
    (capacity : ℕ) (mem : Memory UInt8) :
    renderInto fp size options (some p) capacity mem = (ec, mem) := by
  rw [renderInto, if_neg (Option.some_ne_none p), h]

theorem renderInto_of_ok (h : prepare fp size options = .ok job) (p : ℕ) (capacity : ℕ)
    (mem : Memory UInt8) :
    renderInto fp size options (some p) capacity mem =
      if capacity < imageBytes size then (.bufferTooSmall, mem)
      else rasterise job size (some p) mem := by
  rw [renderInto, if_neg (Option.some_ne_none p), h]

end EntryPoints

/-- **The verdict of `render`.** It is the first fault of the list, seen on any page; the contrast
of an opaque background is too low on one page exactly if it is on every page; and where the list
has no fault, nothing fails after `prepare`. -/
theorem render_eq_verdict (fp : Fingerprint) (size : UInt32) (options : RenderOptions)
    (out : Image) :
    (∀ page, (render fp size options out).1 = verdict page fp size options) ∧
      (options.backgroundAlpha = 255 →
        ((∃ page, (measureContrast options page).figuresX100 < 200) ↔
          ∀ page, (measureContrast options page).figuresX100 < 200)) ∧
      ∀ page, verdict page fp size options = .ok → ∃ job, prepare fp size options = .ok job ∧
        ∀ p mem reference, (rasterise job size (some p) mem reference).1 = .ok := by
  refine ⟨fun page => ?_, fun hsolid => ?_, fun page hok => ?_⟩
  · have hprepare := prepare_eq page fp size options
    by_cases hok : verdict page fp size options = .ok
    · rw [if_pos hok] at hprepare
      rw [render_of_ok hprepare, hok]
    · rw [if_neg hok] at hprepare
      rw [render_of_error hprepare]
  · simp only [figuresX100_of_solid hsolid]
    exact ⟨fun ⟨_, h⟩ _ => h, fun h => ⟨frameColour, h frameColour⟩⟩
  · have hprepare := prepare_eq page fp size options
    rw [if_pos hok] at hprepare
    refine ⟨jobOf fp options, hprepare, fun p mem reference => ?_⟩
    rw [(prepared_of_prepare hprepare).rasterise_eq]

/-! ### The picture -/

/-- The buffer at `p` holds the picture of a fingerprint: the pixels of the cells with a figure,
and all other pixels. -/
structure IsPicture (fp : Fingerprint) (size : UInt32) (options : RenderOptions) (p : ℕ)
    (mem : Memory UInt8) : Prop where
  cell : let g := (jobOf fp options).geometry size
    ∀ i : Fin 16, ((cellsOf fp.bytes).get i).figure ≠ .none → ∀ x y, g.InCell i (x, y) →
      let c := ((cellsOf fp.bytes).get i)
      let nc := (samplesOf (x - g.cellX i) (y - g.cellY i)).countP fun s =>
        inFigure c.figure s.1 s.2 (4 * g.cell)
      pixelAt p size.toNat mem (x, y) =
        mix (palette.get ⟨(c.colour &&& 3).toNat, and_three_lt c.colour⟩) 255 nc
          options.background options.backgroundAlpha.toNat (16 - nc)
  other : let g := (jobOf fp options).geometry size
    let tester := FrameTester.new g options.shape
      (resolveFrame options.frame fp.mode options.shape)
    ∀ x y, InCanvas size.toNat (x, y) →
      (∀ i : Fin 16, ((cellsOf fp.bytes).get i).figure ≠ .none → ¬ g.InCell i (x, y)) →
      let nin := (samplesOf x y).countP fun s => tester.inOutline s.1 s.2
      let nfr := (samplesOf x y).countP fun s => tester.inOutline s.1 s.2 && tester.onFrame s.1 s.2
      pixelAt p size.toNat mem (x, y) =
        mix frameColour options.frameAlpha.toNat nfr options.background
          options.backgroundAlpha.toNat (nin - nfr)

/-- The cells lie on the canvas and are disjoint. -/
def CellsApart (g : Geometry) (size : UInt32) : Prop :=
  (∀ i : Fin 16, ∀ k, g.InCell i k → InCanvas size.toNat k) ∧
    ∀ i j : Fin 16, i ≠ j → ∀ k, g.InCell i k → ¬ g.InCell j k

theorem Prepared.cellsApart {fp : Fingerprint} {size : UInt32} {options : RenderOptions}
    {job : RasterJob} (h : Prepared fp size options job) :
    CellsApart (job.geometry size) size := by
  refine ⟨fun i k hk => ?_, fun i j hij k hk => ?_⟩
  · rw [← h.consistent.size_eq]
    exact h.consistent.inCanvas_of_inCell i.isLt hk
  · exact h.consistent.not_inCell_of_ne (fun heq => hij (Fin.ext heq)) hk

theorem Prepared.isPicture {fp : Fingerprint} {size : UInt32} {options : RenderOptions}
    {job : RasterJob} (h : Prepared fp size options job) (p : ℕ) (mem : Memory UInt8) :
    IsPicture fp size options p (rasterise job size (some p) mem).2 := by
  have hshows := h.shows p mem
  have hsize := h.consistent.size_eq
  obtain rfl := h.job_eq
  constructor
  · intro g i hfigure x y hk
    rw [← hsize]
    exact hshows.cell i hfigure (x, y) hk
  · intro g tester x y hk hout
    rw [← hsize] at hk ⊢
    exact hshows.surface (x, y) hk hout

/-- **The picture of `render_into` and of `render`.** On `ok` the buffer holds the declared
picture, whatever it held before, and no byte beyond it changes; on an error no byte changes.
`render` gives the same code and the same bytes. -/
theorem renderInto_isPicture (fp : Fingerprint) (size : UInt32) (options : RenderOptions)
    (rgba : Option ℕ) (capacity : ℕ) (mem : Memory UInt8) :
    let result := renderInto fp size options rgba capacity mem
    (result.1 ≠ .ok → result.2 = mem) ∧
      (result.1 = .ok → ∃ p, rgba = some p ∧ imageBytes size ≤ capacity ∧
        CellsApart ((jobOf fp options).geometry size) size ∧
        IsPicture fp size options p result.2 ∧
        (∀ mem', (renderInto fp size options rgba capacity mem').2.read p (imageBytes size) =
          result.2.read p (imageBytes size)) ∧
        ∀ a, a < p ∨ p + imageBytes size ≤ a → result.2 a = mem a) ∧
      ∀ p, rgba = some p → imageBytes size ≤ capacity → ∀ out,
        (render fp size options out).1 = result.1 ∧
        (result.1 = .ok → (render fp size options out).2 =
          ⟨size, size, result.2.read p (imageBytes size)⟩) ∧
        (result.1 ≠ .ok → (render fp size options out).2 = ⟨0, 0, []⟩) := by
  cases rgba with
  | none => exact ⟨fun _ => rfl, nofun, nofun⟩
  | some p =>
    cases hprepare : prepare fp size options with
    | error ec =>
      have hec := ne_ok_of_prepare hprepare
      simp only [renderInto_of_error hprepare]
      refine ⟨fun _ => trivial, fun h => absurd h hec, fun _ _ _ out => ?_⟩
      rw [render_of_error hprepare]
      exact ⟨rfl, fun h => absurd h hec, fun _ => rfl⟩
    | ok job =>
      have hjob := prepared_of_prepare hprepare
      simp only [renderInto_of_ok hprepare]
      by_cases hcapacity : capacity < imageBytes size
      · simp only [if_pos hcapacity]
        exact ⟨fun _ => trivial, nofun, fun _ _ h => absurd hcapacity (not_lt.mpr h)⟩
      · simp only [if_neg hcapacity]
        have hok : (rasterise job size (some p) mem).1 = .ok := by rw [hjob.rasterise_eq]
        refine ⟨fun h => absurd hok h, fun _ => ⟨p, rfl, not_lt.mp hcapacity, ?_,
          hjob.isPicture p mem, fun mem' => hjob.read_eq p p mem' mem,
          fun a ha => hjob.apply_of_notMem p mem ha⟩, ?_⟩
        · exact hjob.job_eq ▸ hjob.cellsApart
        · rintro q hq - out
          obtain rfl := Option.some.inj hq
          rw [render_of_ok hprepare]
          refine ⟨hok.symm, fun _ => ?_, fun h => absurd hok h⟩
          rw [hjob.read_eq 0 p (fun _ => 0) mem]

end HumanizedHash
