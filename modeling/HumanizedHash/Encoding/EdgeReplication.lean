import HumanizedHash.Encoding.Jpeg

/-!
# A JPEG file depends on the flattened, edge-replicated picture only

The blocks at the right and at the lower edge read the last column and the last row again where
the picture ends. So the file of a picture is that of the opaque picture which is flattened and
extended to whole blocks, up to the two fields that hold the size. The scan does not read what is
in front of it, so it is the same behind both headers.

## Main definitions

* `ScanWriter.behind`: a writer whose output has other bytes in front.
* `edgeReplicated`: the picture `J` of a picture `I`.
* `sofSegment`, `EqualButSize`: the segment that holds the size, and files that are equal
  elsewhere.

## Main results

* `scanBytes_congr`: the scan depends on the number of blocks and on the samples.
* `sampleBlock_edgeReplicated`: the samples of every block are the same.
* `encodeJpeg_edgeReplicated`: the files are equal but for the size.

## References

* `src/src/jpeg.cpp`, `src/docs/SPEC.md` (section 13.4).
-/

namespace HumanizedHash

/-! ### The scan does not read what is in front of it -/

namespace ScanWriter

/-- The writer with `head` in front of its output. -/
def behind (head : List UInt8) (w : ScanWriter) : ScanWriter := { w with out := head ++ w.out }

theorem pushByte_append (head out : List UInt8) (b : UInt8) :
    pushByte (head ++ out) b = head ++ pushByte out b := by
  rw [pushByte, pushByte]
  split_ifs
  · rw [List.append_assoc, List.append_assoc, List.append_assoc]
  · rw [List.append_assoc]

theorem drain_behind (head : List UInt8) (w : ScanWriter) :
    (w.behind head).drain = w.drain.behind head := by
  induction hn : w.used using Nat.strong_induction_on generalizing w with
  | _ n ih =>
    subst hn
    have hused : (w.behind head).used = w.used := rfl
    have hacc : (w.behind head).acc = w.acc := rfl
    have hout : (w.behind head).out = head ++ w.out := rfl
    rw [drain, hused, hacc, hout]
    by_cases hfull : 8 ≤ w.used
    · conv_rhs => rw [drain, if_pos hfull]
      rw [if_pos hfull]
      dsimp only
      rw [pushByte_append]
      exact ih (w.used - 8) (by omega) ⟨pushByte w.out _, w.acc, w.used - 8⟩ rfl
    · conv_rhs => rw [drain, if_neg hfull]
      rw [if_neg hfull]

theorem put_behind (head : List UInt8) (w : ScanWriter) (bits : UInt32) (count : ℕ) :
    (w.behind head).put bits count = (w.put bits count).behind head :=
  drain_behind head ⟨w.out, _, w.used + count⟩

theorem finish_behind (head : List UInt8) (w : ScanWriter) :
    (w.behind head).finish = w.finish.behind head := by
  have hused : (w.behind head).used = w.used := rfl
  rw [finish, finish, hused]
  split_ifs
  · exact put_behind head w _ _
  · rfl

theorem foldl_put_behind (head : List UInt8) (w : ScanWriter) (puts : List (UInt32 × ℕ)) :
    puts.foldl (fun w p => w.put p.1 p.2) (w.behind head) =
      (puts.foldl (fun w p => w.put p.1 p.2) w).behind head := by
  induction puts generalizing w with
  | nil => rfl
  | cons p puts ih => rw [List.foldl_cons, List.foldl_cons, put_behind, ih]

end ScanWriter

/-- The state of the scan with `head` in front of the output. -/
def ScanState.behind (head : List UInt8) (st : ScanState) : ScanState :=
  ⟨st.writer.behind head, st.previousDc⟩

section Scan

variable (img : PixelView) (quality : ℤ) (matte : Rgb)

theorem encodeUnit_behind (head : List UInt8) (st : ScanState) (u : ScanUnit) :
    encodeUnit img quality matte (st.behind head) u =
      (encodeUnit img quality matte st u).behind head := by
  simp only [encodeUnit, encodeComponent, ScanState.behind, encodeBlock_eq_puts,
    ScanWriter.foldl_put_behind]

theorem foldl_encodeUnit_behind (head : List UInt8) (st : ScanState) (units : List ScanUnit) :
    units.foldl (encodeUnit img quality matte) (st.behind head) =
      (units.foldl (encodeUnit img quality matte) st).behind head := by
  induction units generalizing st with
  | nil => rfl
  | cons u units ih => rw [List.foldl_cons, List.foldl_cons, encodeUnit_behind, ih]

/-- The bytes of the entropy-coded data. -/
def scanBytes : List UInt8 :=
  ((scanUnits img).foldl (encodeUnit img quality matte) (.start [])).writer.finish.out

/-- **A file is its header, the entropy-coded data and the end of the image.** -/
theorem encodeJpegBytes_eq : encodeJpegBytes img quality matte =
    jpegHeader img quality ++ scanBytes img quality matte ++ [0xFF, 0xD9] := by
  have hstart : ScanState.start (jpegHeader img quality) =
      (ScanState.start []).behind (jpegHeader img quality) := by
    rw [ScanState.behind, ScanState.start, ScanWriter.behind, ScanState.start, ScanWriter.new,
      ScanWriter.new, List.append_nil]
  rw [encodeJpegBytes, encodeScan_eq, hstart, foldl_encodeUnit_behind]
  dsimp only [ScanState.behind]
  rw [ScanWriter.finish_behind]
  rfl

variable {img matte} {img' : PixelView} {matte' : Rgb}

/-- **The scan depends on the units and their samples.** -/
theorem scanBytes_congr (hunits : scanUnits img' = scanUnits img)
    (hsamples : ∀ u ∈ scanUnits img, sampleBlock img' matte' u.left u.top u.component =
      sampleBlock img matte u.left u.top u.component) :
    scanBytes img' quality matte' = scanBytes img quality matte := by
  have hstep (st : ScanState) (u : ScanUnit) (hu : u ∈ scanUnits img) :
      encodeUnit img' quality matte' st u = encodeUnit img quality matte st u := by
    simp only [encodeUnit, encodeComponent, unitBlock, hsamples u hu]
  rw [scanBytes, scanBytes, hunits, List.foldl_ext _ _ _ fun st u hu => hstep st u hu]

end Scan

/-! ### The edge-replicated picture -/

/-- A side extended to the next multiple of 8. -/
def wholeBlocks (side : UInt32) : UInt32 := (side + 7) / 8 * 8

/-- The opaque pixel of a colour. -/
def Rgb.solidPixel (c : Rgb) : Pixel := ⟨c.r, c.g, c.b, 255⟩

/-- The picture `J`: flattened over the matte, and extended to whole blocks by the last column
and the last row. -/
def edgeReplicated (img : Image) (matte : Rgb) : Image :=
  .ofPixels (wholeBlocks img.width) (wholeBlocks img.height) fun x y =>
    ((img.pixel (min x (img.width.toNat - 1)) (min y (img.height.toNat - 1))).flatten
      matte).solidPixel

theorem toNat_wholeBlocks {side : UInt32} (h : side.toNat ≤ 4096) :
    (wholeBlocks side).toNat = 8 * blockCount side := by
  simp only [wholeBlocks, blockCount, UInt32.toNat_mul, UInt32.toNat_div, UInt32.toNat_add,
    UInt32.reduceToNat]
  omega

theorem blockCount_wholeBlocks {side : UInt32} (h : side.toNat ≤ 4096) :
    blockCount (wholeBlocks side) = blockCount side := by
  rw [blockCount, toNat_wholeBlocks h]
  omega

/-- 4096 is a whole number of blocks. -/
theorem validDimensions_wholeBlocks {width height : UInt32}
    (h : validDimensions width height = true) :
    validDimensions (wholeBlocks width) (wholeBlocks height) = true := by
  obtain ⟨⟨hw, hwidth⟩, hh, hheight⟩ := validDimensions_iff.mp h
  rw [validDimensions_iff, toNat_wholeBlocks hwidth, toNat_wholeBlocks hheight, blockCount,
    blockCount]
  omega

section Replicated

variable {img : Image} (matte : Rgb)

theorem valid_edgeReplicated (h : validImage img = true) :
    validImage (edgeReplicated img matte) = true :=
  Image.valid_ofPixels _ (validDimensions_wholeBlocks (validImage_iff.mp h).1)

theorem scanUnits_edgeReplicated (hwidth : img.width.toNat ≤ 4096)
    (hheight : img.height.toNat ≤ 4096) :
    scanUnits (viewOfImage (edgeReplicated img matte)) = scanUnits (viewOfImage img) := by
  have hacross := blockCount_wholeBlocks hwidth
  have hdown := blockCount_wholeBlocks hheight
  have hview : viewOfImage (edgeReplicated img matte) =
      ⟨(viewOfImage (edgeReplicated img matte)).rgba, wholeBlocks img.width,
        wholeBlocks img.height⟩ := rfl
  rw [hview, scanUnits, hacross, hdown, scanUnits]
  rfl

/-- What an encoder reads of the extended picture is what it reads of the picture at the nearest
place, whatever the matte. -/
theorem flattenedAt_edgeReplicated (matte' : Rgb) {x y : ℕ}
    (hx : x < (wholeBlocks img.width).toNat) (hy : y < (wholeBlocks img.height).toNat) :
    flattenedAt (viewOfImage (edgeReplicated img matte)) matte' x y =
      flattenedAt (viewOfImage img) matte (min x (img.width.toNat - 1))
        (min y (img.height.toNat - 1)) := by
  rw [flattenedAt_viewOfImage, flattenedAt_viewOfImage, edgeReplicated,
    Image.pixel_ofPixels _ hx hy, Pixel.flatten_of_solid rfl]
  rfl

/-- The places of a unit are in whole blocks. -/
theorem exists_of_mem_scanUnits {img : PixelView} {u : ScanUnit} (h : u ∈ scanUnits img) :
    ∃ row < blockCount img.height, ∃ column < blockCount img.width,
      u.left = 8 * column ∧ u.top = 8 * row := by
  rw [scanUnits] at h
  obtain ⟨row, hrow, h⟩ := List.mem_flatMap.mp h
  obtain ⟨column, hcolumn, h⟩ := List.mem_flatMap.mp h
  obtain ⟨c, -, rfl⟩ := List.mem_map.mp h
  exact ⟨row, List.mem_range.mp hrow, column, List.mem_range.mp hcolumn, rfl, rfl⟩

/-- **The samples of every block are the same.** -/
theorem sampleBlock_edgeReplicated (matte' : Rgb) (hwidth : img.width.toNat ≤ 4096)
    (hheight : img.height.toNat ≤ 4096) {u : ScanUnit} (hu : u ∈ scanUnits (viewOfImage img)) :
    sampleBlock (viewOfImage (edgeReplicated img matte)) matte' u.left u.top u.component =
      sampleBlock (viewOfImage img) matte u.left u.top u.component := by
  obtain ⟨row, hrow, column, hcolumn, hleft, htop⟩ := exists_of_mem_scanUnits hu
  have hW : (viewOfImage (edgeReplicated img matte)).width.toNat = 8 * blockCount img.width :=
    toNat_wholeBlocks hwidth
  have hH : (viewOfImage (edgeReplicated img matte)).height.toNat = 8 * blockCount img.height :=
    toNat_wholeBlocks hheight
  have hacross : column < blockCount img.width := hcolumn
  have hdown : row < blockCount img.height := hrow
  rw [sampleBlock, sampleBlock]
  congr 1
  funext k
  have hk := k.isLt
  have hx : min (u.left + k.val % 8) (8 * blockCount img.width - 1) = u.left + k.val % 8 := by
    omega
  have hy : min (u.top + k.val / 8) (8 * blockCount img.height - 1) = u.top + k.val / 8 := by
    omega
  have hplace : flattenedAt (viewOfImage (edgeReplicated img matte)) matte' (u.left + k.val % 8)
      (u.top + k.val / 8) = flattenedAt (viewOfImage img) matte
        (min (u.left + k.val % 8) (img.width.toNat - 1))
        (min (u.top + k.val / 8) (img.height.toNat - 1)) :=
    flattenedAt_edgeReplicated matte matte' (by rw [toNat_wholeBlocks hwidth]; omega)
      (by rw [toNat_wholeBlocks hheight]; omega)
  dsimp only
  rw [hW, hH, hx, hy, hplace]
  rfl

end Replicated

/-! ### The files -/

/-- The bytes in front of the SOF0 segment. -/
def jpegFront (quality : ℤ) : List UInt8 :=
  [0xFF, 0xD8, 0xFF, 0xE0, 0x00, 0x10, 0x4A, 0x46, 0x49, 0x46, 0x00, 0x01, 0x02, 0x00, 0x00, 0x01,
    0x00, 0x01, 0x00, 0x00] ++
  putQuantiser 0 (scaleQuantiser jpegLuminanceQuantiser quality) ++
  putQuantiser 1 (scaleQuantiser jpegChrominanceQuantiser quality)

/-- The SOF0 segment: marker, length, precision, height, width, and the components. -/
def sofSegment (height width : UInt32) : List UInt8 :=
  [0xFF, 0xC0] ++ putBe16 17 ++ [8] ++ putBe16 height ++ putBe16 width ++
    [3, 1, 0x11, 0, 2, 0x11, 1, 3, 0x11, 1]

/-- The header behind the SOF0 segment. -/
def jpegBack : List UInt8 :=
  putHuffman 0x00 jpegDcLuminance ++ putHuffman 0x10 jpegAcLuminance ++
  putHuffman 0x01 jpegDcChrominance ++ putHuffman 0x11 jpegAcChrominance ++
  [0xFF, 0xDA, 0x00, 0x0C, 3, 1, 0x00, 2, 0x11, 3, 0x11, 0, 63, 0]

theorem jpegHeader_eq (img : PixelView) (quality : ℤ) : jpegHeader img quality =
    jpegFront quality ++ (sofSegment img.height img.width ++ jpegBack) := by
  simp only [jpegHeader, jpegFront, sofSegment, jpegBack, quantisers, List.append_assoc]

theorem length_jpegFront (quality : ℤ) : (jpegFront quality).length = 158 := by
  simp only [jpegFront, putQuantiser, putBe16, List.length_append, List.length_map,
    Vector.length_toList, List.length_cons, List.length_nil]

/-- The files have the same length, and are equal but for the bytes 163 to 166. -/
def EqualButSize (file file' : List UInt8) : Prop :=
  file.length = file'.length ∧ ∀ i, i < 163 ∨ 167 ≤ i → file[i]? = file'[i]?

theorem equalButSize_append {front size size' : List UInt8} (back : List UInt8)
    (hfront : front.length = 163) (hsize : size.length = 4) (hsize' : size'.length = 4) :
    EqualButSize (front ++ (size ++ back)) (front ++ (size' ++ back)) := by
  constructor
  · simp only [List.length_append, hsize, hsize']
  · rintro i (hlow | hhigh)
    · rw [List.getElem?_append_left (by omega), List.getElem?_append_left (by omega)]
    · rw [List.getElem?_append_right (by omega), List.getElem?_append_right (by omega),
        List.getElem?_append_right (by omega), List.getElem?_append_right (by omega), hsize, hsize']

/-- The segments hold the sizes at the bytes 163 to 166 of the files. -/
theorem equalButSize_of_sofSegment (height width height' width' : UInt32) {front : List UInt8}
    (back : List UInt8) (hfront : front.length = 158) :
    EqualButSize (front ++ (sofSegment height width ++ back))
      (front ++ (sofSegment height' width' ++ back)) := by
  have hsplit (height width : UInt32) : front ++ (sofSegment height width ++ back) =
      (front ++ ([0xFF, 0xC0] ++ putBe16 17 ++ [8])) ++ ((putBe16 height ++ putBe16 width) ++
        ([3, 1, 0x11, 0, 2, 0x11, 1, 3, 0x11, 1] ++ back)) := by
    simp only [sofSegment, List.append_assoc]
  rw [hsplit, hsplit]
  refine equalButSize_append _ ?_ rfl rfl
  rw [List.length_append, hfront]
  rfl

theorem encodeJpeg_of_valid {img : Image} {quality : ℤ} (matte : Rgb)
    (hvalid : validImage img = true) (hquality : 50 ≤ quality ∧ quality ≤ 100) :
    encodeJpeg img quality matte = (.ok, encodeJpegBytes (viewOfImage img) quality matte) := by
  have hrange : ¬(quality < 50 ∨ 100 < quality) := by omega
  simp only [encodeJpeg, hvalid, encodeJpegView, if_neg hrange, Bool.not_true, Bool.false_eq_true,
    if_false]

/-- **A file depends on the flattened, edge-replicated picture only.** For every matte of the
second file, the two are equal but for the height and the width in the SOF0 segment. -/
theorem encodeJpeg_edgeReplicated (img : Image) (quality : ℤ) (matte matte' : Rgb)
    (hvalid : validImage img = true) (hquality : 50 ≤ quality ∧ quality ≤ 100) :
    let J := edgeReplicated img matte
    ∃ file file', encodeJpeg img quality matte = (.ok, file) ∧
      encodeJpeg J quality matte' = (.ok, file') ∧ EqualButSize file file' ∧
      ∃ back, file = jpegFront quality ++ (sofSegment img.height img.width ++ back) ∧
        file' = jpegFront quality ++ (sofSegment J.height J.width ++ back) := by
  intro J
  obtain ⟨⟨-, hwidth⟩, -, hheight⟩ := validDimensions_iff.mp (validImage_iff.mp hvalid).1
  have hscan : scanBytes (viewOfImage J) quality matte' =
      scanBytes (viewOfImage img) quality matte :=
    scanBytes_congr quality (scanUnits_edgeReplicated matte hwidth hheight)
      fun u hu => sampleBlock_edgeReplicated matte matte' hwidth hheight hu
  have hfile : encodeJpegBytes (viewOfImage img) quality matte = jpegFront quality ++
      (sofSegment img.height img.width ++
        (jpegBack ++ scanBytes (viewOfImage img) quality matte ++ [0xFF, 0xD9])) := by
    rw [encodeJpegBytes_eq, jpegHeader_eq]
    simp only [List.append_assoc]
    rfl
  have hfile' : encodeJpegBytes (viewOfImage J) quality matte' = jpegFront quality ++
      (sofSegment J.height J.width ++
        (jpegBack ++ scanBytes (viewOfImage img) quality matte ++ [0xFF, 0xD9])) := by
    rw [encodeJpegBytes_eq, jpegHeader_eq, hscan]
    simp only [List.append_assoc]
    rfl
  refine ⟨_, _, encodeJpeg_of_valid matte hvalid hquality,
    encodeJpeg_of_valid matte' (valid_edgeReplicated matte hvalid) hquality, ?_, _, hfile, hfile'⟩
  rw [hfile, hfile']
  exact equalButSize_of_sofSegment _ _ _ _ _ (length_jpegFront quality)

/-- A picture of one pixel, half transparent, over black; the extended one over white. -/
theorem encodeJpeg_edgeReplicated_pixel :
    let img : Image := ⟨1, 1, [200, 100, 50, 128]⟩
    let J := edgeReplicated img ⟨0, 0, 0⟩
    ∃ file file', encodeJpeg img 90 ⟨0, 0, 0⟩ = (.ok, file) ∧
      encodeJpeg J 90 ⟨255, 255, 255⟩ = (.ok, file') ∧ EqualButSize file file' ∧
      ∃ back, file = jpegFront 90 ++ (sofSegment 1 1 ++ back) ∧
        file' = jpegFront 90 ++ (sofSegment 8 8 ++ back) :=
  encodeJpeg_edgeReplicated ⟨1, 1, [200, 100, 50, 128]⟩ 90 ⟨0, 0, 0⟩ ⟨255, 255, 255⟩ (by decide)
    (by decide)

end HumanizedHash
