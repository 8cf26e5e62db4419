import HumanizedHash.Lab.Page

/-!
# Sheets

The title, the labels and the pictures of a sheet are drawn one after the other on one canvas. No
two of them meet, so every picture stands on the page as it was given, composited over the colour
of the page.

## Main definitions

* `Lab.Canvas.Spares`: an operation leaves a pixel alone.

## Main results

* `Lab.Canvas.spares_paintText`: what a text does not touch.
* `Lab.get_paintSheet`: the page on exact integers.
* `Lab.gridSheet_exact`: the pixels of a picture on the page.

## References

* `src/tools/lab/canvas.cpp`, `src/tools/lab/sheet.cpp`.
-/

namespace HumanizedHash

namespace Lab

open Canvas

/-! ### What an operation leaves alone -/

namespace Canvas

/-- An operation that keeps the dimensions and the pixel in column `x` and row `y`. -/
def Spares (step : Canvas → Canvas) (x y : ℕ) : Prop :=
  ∀ c, (step c).width = c.width ∧ (step c).height = c.height ∧
    (c.Holds x y → (step c).get x y = c.get x y)

variable {x y : ℕ}

theorem Acts.spares {step : Canvas → Canvas} {f : ℕ → ℕ → Pixel → Pixel} (h : Acts step f)
    (hf : ∀ p, f x y p = p) : Spares step x y :=
  fun c => ⟨(h c).1, (h c).2.1, fun hxy => ((h c).2.2 x y hxy).trans (hf _)⟩

theorem spares_id : Spares id x y := fun _ => ⟨rfl, rfl, fun _ => rfl⟩

theorem Spares.comp {step step' : Canvas → Canvas} (h' : Spares step' x y) (h : Spares step x y) :
    Spares (fun c => step' (step c)) x y := by
  intro c
  obtain ⟨hwidth, hheight, hget⟩ := h c
  obtain ⟨hwidth', hheight', hget'⟩ := h' (step c)
  refine ⟨hwidth'.trans hwidth, hheight'.trans hheight, fun hxy => ?_⟩
  exact (hget' ⟨hwidth ▸ hxy.1, hheight ▸ hxy.2⟩).trans (hget hxy)

theorem spares_foldl {ι : Type*} (step : Canvas → ι → Canvas) (l : List ι)
    (h : ∀ i ∈ l, Spares (step · i) x y) : Spares (fun c => l.foldl step c) x y := by
  induction l with
  | nil => exact spares_id
  | cons i l ih =>
    exact (ih fun j hj => h j (List.mem_cons_of_mem i hj)).comp (h i List.mem_cons_self)

/-! ### Texts -/

theorem spares_paintGlyph {cx y' scale : ℤ} (hscale : 0 ≤ scale) (ch : UInt8) (colour : Pixel)
    (h : ¬((cx ≤ x ∧ x < cx + 5 * scale) ∧ y' ≤ y ∧ y < y' + 7 * scale)) :
    Spares (paintGlyph cx y' ch scale colour) x y := by
  refine spares_foldl _ _ fun row hrow => spares_foldl _ _ fun col hcol => ?_
  obtain ⟨hrow0, hrow7⟩ := part_mem hscale (List.mem_range.mp hrow)
  obtain ⟨hcol0, hcol5⟩ := part_mem hscale (List.mem_range.mp hcol)
  rw [Nat.cast_ofNat] at hrow7 hcol5
  by_cases hdot : (((findGlyph ch).getD row 0).toNat >>> (4 - col) &&& 1) ≠ 0
  · simp only [paintDot, if_pos hdot]
    exact (acts_fillRect _ _ _ _ colour).spares fun p => if_neg (by omega)
  · simp only [paintDot, if_neg hdot]
    exact spares_id

/-- **A text** does not touch what is outside its box. -/
theorem spares_paintText {cx y' scale : ℤ} (hscale : 0 ≤ scale) (s : List UInt8) (colour : Pixel)
    (h : ¬((cx ≤ x ∧ x < cx + widthOf s scale) ∧ y' ≤ y ∧ y < y' + 7 * scale)) :
    Spares (paintText y' scale colour s cx) x y := by
  induction s generalizing cx with
  | nil => exact spares_id
  | cons ch s ih =>
    have hwidth : widthOf (ch :: s) scale = 6 * scale + s.length * 6 * scale - scale := by
      rw [widthOf, if_neg (List.cons_ne_nil ch s), List.length_cons]
      push_cast
      ring
    have hrest : widthOf s scale ≤ s.length * 6 * scale - scale ∨ s = [] := by
      rw [widthOf]
      split_ifs with hnil
      · exact Or.inr hnil
      · exact Or.inl le_rfl
    have hlength : 0 ≤ (s.length : ℤ) * 6 * scale := by positivity
    have htail : ¬((cx + 6 * scale ≤ x ∧ x < cx + 6 * scale + widthOf s scale) ∧
        y' ≤ y ∧ y < y' + 7 * scale) := by
      rcases hrest with hle | rfl
      · omega
      · rw [widthOf, if_pos rfl]
        omega
    have hhead : Spares (paintGlyph cx y' ch scale colour) x y :=
      spares_paintGlyph hscale ch colour (by omega)
    exact (ih htail).comp hhead

end Canvas

/-! ### The page -/

section Page

variable {x y : ℕ} {style : PageStyle}

/-- Lines one under the other. -/
theorem spares_paintLines (hscale : 0 ≤ style.textScale) (pad : ℤ) (title : List (List UInt8))
    (y' : ℤ) (h : y < y' ∨ y' + title.length * style.line ≤ y) :
    Spares (paintLines style pad title y') x y := by
  have hline : style.line = 7 * style.textScale + 4 * style.textScale := rfl
  induction title generalizing y' with
  | nil => exact spares_id
  | cons line title ih =>
    have hlength : ((line :: title).length : ℤ) * style.line =
        style.line + title.length * style.line := by
      rw [List.length_cons]
      push_cast
      ring
    have hpos : 0 ≤ (title.length : ℤ) * style.line := by
      rw [hline]
      positivity
    have hfirst : Spares (paintText y' style.textScale style.ink line pad) x y :=
      spares_paintText hscale line style.ink (by omega)
    exact (ih (y' + style.line) (by omega)).comp hfirst

/-- The title ends above the grid. -/
theorem spares_title (hscale : 0 ≤ style.textScale) {pad : ℤ} (hpad : 0 ≤ pad)
    (title : List (List UInt8)) (h : pad + heightOfTitle title style pad ≤ y) :
    Spares (paintLines style pad title pad) x y := by
  refine spares_paintLines hscale pad title pad ?_
  rw [heightOfTitle] at h
  split_ifs at h with hnil
  · rw [hnil, List.length_nil, Nat.cast_zero, zero_mul]
    exact Or.inr h
  · omega

/-- Bands of one pitch do not meet. -/
theorem band_unique {pitch a b u : ℤ} (ha : a * pitch ≤ u ∧ u < a * pitch + pitch)
    (hb : b * pitch ≤ u ∧ u < b * pitch + pitch) : a = b := by
  have hpitch : 0 ≤ pitch := by omega
  rcases lt_trichotomy a b with hlt | heq | hgt
  · have hstep : (a + 1) * pitch ≤ b * pitch := mul_le_mul_of_nonneg_right (by omega) hpitch
    rw [add_mul, one_mul] at hstep
    omega
  · exact heq
  · have hstep : (b + 1) * pitch ≤ a * pitch := mul_le_mul_of_nonneg_right (by omega) hpitch
    rw [add_mul, one_mul] at hstep
    omega

section Grid

variable {title : List (List UInt8)} {tiles : List Tile} {columns cellW cellH pad : ℤ}
  (h : Fits tiles columns cellW cellH pad style)
include h

/-- **The picture of one cell** is not touched by the picture and the label of another. -/
theorem spares_paintTile {t : Tile} (ht : t ∈ tiles) {i j : ℕ} (hij : i ≠ j)
    (hx : (placesOf title tiles columns cellW cellH pad style).tileX columns pad j ≤ x ∧
      x < (placesOf title tiles columns cellW cellH pad style).tileX columns pad j + cellW)
    (hy : (placesOf title tiles columns cellW cellH pad style).tileY columns j ≤ y ∧
      y < (placesOf title tiles columns cellW cellH pad style).tileY columns j + cellH) :
    Spares (paintTile (placesOf title tiles columns cellW cellH pad style) columns cellH pad style ·
      (t, i)) x y := by
  obtain ⟨⟨hpitchW, hlabelW, -⟩, hpitchH, hlabelH, -⟩ := pitch_mem title h ht
  have hwidth := h.width_le t ht
  have hheight := h.height_le t ht
  have hpad := h.pad_nonneg
  generalize placesOf title tiles columns cellW cellH pad style = g at *
  have hcell : ¬((g.tileX columns pad i ≤ x ∧ x < g.tileX columns pad i + g.pitchW) ∧
      g.tileY columns i ≤ y ∧ y < g.tileY columns i + g.pitchH) := by
    rintro ⟨hcolumn, hrow⟩
    rw [Grid.tileX] at hcolumn hx
    rw [Grid.tileY] at hrow hy
    have hcolumns : (i : ℤ) % columns = j % columns := by
      have hu : (i : ℤ) % columns * g.pitchW ≤ x - pad ∧
          x - pad < (i : ℤ) % columns * g.pitchW + g.pitchW := by omega
      exact band_unique hu ⟨by omega, by omega⟩
    have hrows : (i : ℤ) / columns = j / columns := by
      have hu : (i : ℤ) / columns * g.pitchH ≤ y - g.top ∧
          y - g.top < (i : ℤ) / columns * g.pitchH + g.pitchH := by omega
      exact band_unique hu ⟨by omega, by omega⟩
    have hi := Int.mul_ediv_add_emod (i : ℤ) columns
    have hj := Int.mul_ediv_add_emod (j : ℤ) columns
    rw [hcolumns, hrows, hj] at hi
    exact hij (Int.ofNat_inj.mp hi).symm
  have hdraw : Spares (fun c => c.draw t.image (g.tileX columns pad i) (g.tileY columns i)) x y :=
    (acts_draw t.image _ _).spares fun p => if_neg (by omega)
  by_cases hlabels : t.label ≠ []
  · simp only [paintTile, if_pos hlabels]
    have hbelow := hlabelH hlabels
    exact Spares.comp (spares_paintText zero_le_one t.label style.ink (by omega)) hdraw
  · simp only [paintTile, if_neg hlabels]
    exact hdraw

/-- The picture of a cell, drawn by its own step. -/
theorem get_paintTile {t : Tile} (ht : t ∈ tiles) (i : ℕ) {sx sy : ℕ} (hs : t.image.Holds sx sy)
    {c : Canvas} (hc : c.Holds x y)
    (hx : (x : ℤ) = (placesOf title tiles columns cellW cellH pad style).tileX columns pad i + sx)
    (hy : (y : ℤ) = (placesOf title tiles columns cellW cellH pad style).tileY columns i + sy) :
    let c' := paintTile (placesOf title tiles columns cellW cellH pad style) columns cellH pad style
      c (t, i)
    c'.width = c.width ∧ c'.height = c.height ∧
      c'.get x y = overlay (t.image.get sx sy) (c.get x y) := by
  have hheight := h.height_le t ht
  obtain ⟨hsx, hsy⟩ := hs
  generalize placesOf title tiles columns cellW cellH pad style = g at *
  obtain ⟨hw, hh, hget⟩ := acts_draw t.image (g.tileX columns pad i) (g.tileY columns i) c
  have hdraw : (c.draw t.image (g.tileX columns pad i) (g.tileY columns i)).get x y =
      overlay (t.image.get sx sy) (c.get x y) := by
    refine (hget x y hc).trans ((if_pos (by omega)).trans ?_)
    rw [show ((x : ℤ) - g.tileX columns pad i).toNat = sx by omega,
      show ((y : ℤ) - g.tileY columns i).toNat = sy by omega]
  by_cases hlabels : t.label ≠ []
  · simp only [paintTile, if_pos hlabels]
    have htext : Spares (paintText (g.tileY columns i + cellH + 3) 1 style.ink t.label
        (g.tileX columns pad i)) x y :=
      spares_paintText zero_le_one t.label style.ink (by omega)
    obtain ⟨hw', hh', hget'⟩ := htext (c.draw t.image (g.tileX columns pad i) (g.tileY columns i))
    exact ⟨hw'.trans hw, hh'.trans hh, (hget' ⟨hw ▸ hc.1, hh ▸ hc.2⟩).trans hdraw⟩
  · simp only [paintTile, if_neg hlabels]
    exact ⟨hw, hh, hdraw⟩

omit h in
/-- A loop of which one step alone touches a pixel. -/
theorem get_foldl_zipIdx {α : Type*} {step : Canvas → α × ℕ → Canvas} {l : List α} {i : ℕ} {a : α}
    (ha : l[i]? = some a) (hspares : ∀ b ∈ l, ∀ j, j ≠ i → Spares (step · (b, j)) x y)
    {p : Pixel → Pixel} (hstep : ∀ c : Canvas, c.Holds x y → (step c (a, i)).width = c.width ∧
      (step c (a, i)).height = c.height ∧ (step c (a, i)).get x y = p (c.get x y))
    {c : Canvas} (hc : c.Holds x y) :
    (l.zipIdx.foldl step c).width = c.width ∧ (l.zipIdx.foldl step c).height = c.height ∧
      (l.zipIdx.foldl step c).get x y = p (c.get x y) := by
  obtain ⟨hi, rfl⟩ := List.getElem?_eq_some_iff.mp ha
  have hsplit : l.zipIdx = (l.take i).zipIdx ++ (l[i], i) :: (l.drop (i + 1)).zipIdx (i + 1) := by
    conv_lhs => rw [← List.take_append_drop i l, List.drop_eq_getElem_cons hi]
    rw [List.zipIdx_append, List.zipIdx_cons, List.length_take, Nat.min_eq_left hi.le, Nat.zero_add]
  have hfront : Spares (fun c => (l.take i).zipIdx.foldl step c) x y := by
    refine spares_foldl step _ fun b hb => ?_
    obtain ⟨-, hlt, hmem⟩ := List.mem_zipIdx hb
    rw [List.length_take] at hlt
    exact hspares b.1 (hmem ▸ List.mem_of_mem_take (List.getElem_mem _)) b.2 (by omega)
  have hback : Spares (fun c => ((l.drop (i + 1)).zipIdx (i + 1)).foldl step c) x y := by
    refine spares_foldl step _ fun b hb => ?_
    obtain ⟨hle, -, hmem⟩ := List.mem_zipIdx hb
    exact hspares b.1 (hmem ▸ List.mem_of_mem_drop (List.getElem_mem _)) b.2 (by omega)
  obtain ⟨hw, hh, hget⟩ := hfront c
  obtain ⟨hw', hh', hget'⟩ := hstep _ (show Canvas.Holds _ x y from ⟨hw ▸ hc.1, hh ▸ hc.2⟩)
  obtain ⟨hw'', hh'', hget''⟩ := hback (step ((l.take i).zipIdx.foldl step c) (l[i], i))
  rw [hsplit, List.foldl_append, List.foldl_cons]
  refine ⟨hw''.trans (hw'.trans hw), hh''.trans (hh'.trans hh), ?_⟩
  rw [hget hc] at hget'
  exact (hget'' ⟨(hw'.trans hw) ▸ hc.1, (hh'.trans hh) ▸ hc.2⟩).trans hget'

/-- The page on exact integers. -/
theorem get_paintSheet {i : ℕ} {t : Tile} (ht : tiles[i]? = some t) {sx sy : ℕ}
    (hs : t.image.Holds sx sy)
    (hx : (x : ℤ) = (placesOf title tiles columns cellW cellH pad style).tileX columns pad i + sx)
    (hy : (y : ℤ) = (placesOf title tiles columns cellW cellH pad style).tileY columns i + sy) :
    (paintSheet title tiles columns cellW cellH pad style).Holds x y ∧
      (paintSheet title tiles columns cellW cellH pad style).get x y =
        overlay (t.image.get sx sy) style.page := by
  have hi := (List.getElem?_eq_some_iff.mp ht).1
  have hmem : t ∈ tiles := List.mem_of_getElem? ht
  obtain ⟨⟨hX, hX'⟩, hY, hY'⟩ := tile_mem title h hi
  obtain ⟨⟨hpitchW, -, -⟩, hpitchH, -, -⟩ := pitch_mem title h hmem
  have hwidth := h.width_le t hmem
  have hheight := h.height_le t hmem
  have hpad := h.pad_nonneg
  obtain ⟨hsx, hsy⟩ := hs
  set g := placesOf title tiles columns cellW cellH pad style
  have htop : g.top = pad + heightOfTitle title style pad := rfl
  have hxcell : g.tileX columns pad i ≤ x ∧ x < g.tileX columns pad i + cellW := by omega
  have hycell : g.tileY columns i ≤ y ∧ y < g.tileY columns i + cellH := by omega
  have hbelow : pad + heightOfTitle title style pad ≤ y := by
    rw [Grid.tileY] at hy
    omega
  have hxpage : x < g.width.toNat := by omega
  have hypage : y < g.height.toNat := by omega
  have hnew : (Canvas.new g.width.toNat g.height.toNat style.page).Holds x y := ⟨hxpage, hypage⟩
  obtain ⟨hw, hh, hget⟩ := spares_title (x := x) h.scale_nonneg hpad title hbelow
    (Canvas.new g.width.toNat g.height.toNat style.page)
  have hhead : (paintLines style pad title pad (Canvas.new g.width.toNat g.height.toNat
      style.page)).Holds x y := ⟨hw ▸ hnew.1, hh ▸ hnew.2⟩
  obtain ⟨hw', hh', hget'⟩ := get_foldl_zipIdx ht
    (fun b hb j hj => spares_paintTile h hb hj hxcell hycell)
    (fun c hc => get_paintTile h hmem i ⟨hsx, hsy⟩ hc hx hy) hhead
  refine ⟨⟨hw' ▸ hhead.1, hh' ▸ hhead.2⟩, hget'.trans ?_⟩
  rw [hget hnew, get_new hxpage hypage]

end Grid

end Page

end Lab

end HumanizedHash
