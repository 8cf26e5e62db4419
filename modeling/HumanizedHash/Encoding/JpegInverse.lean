import HumanizedHash.Encoding.EdgeReplication
import HumanizedHash.Encoding.ScanInverse
import HumanizedHash.Formats.Jfif

/-!
# Decoding undoes the JPEG encoder

The file of a valid image is read back by a decoder that takes the quantisers, the frame and the
codes from the segments of the file: the quantised values of every block, and the quantisers that
were divided by.

## Main definitions

* `jpegSegments`: the segments of a file.
* `jpegDefined`: what they define.
* `jpegContents`: what a file holds.

## Main results

* `jpegHeader_eq_segments`: the header is a list of segments.
* `foldlM_define_jpegSegments`: what the segments define.
* `encodeJpeg_decodes`: decoding undoes encoding.

## References

* `src/src/jpeg.cpp`, `src/docs/SPEC.md` (section 13).
-/

namespace HumanizedHash

open Bits ByteOrder

/-! ### The segments of a file -/

theorem putBe16_eq (v : UInt32) : putBe16 v = bigEndian 2 v.toNat := by
  have hhigh := toUInt8_shiftRight_uint32 v.toNat 8 (by decide)
  rw [UInt32.ofNat_toNat] at hhigh
  have hlow : v.toUInt8 = UInt8.ofNat v.toNat := by
    rw [← UInt8.toNat_inj, UInt32.toNat_toUInt8, toNat_byte]
  rw [putBe16, hhigh, hlow]
  rfl

/-- The elements of a quantiser in the order of the file. -/
def zigzagOf (table : Vector UInt8 64) : List UInt8 := jpegZigzag.toList.map fun k => table.get k

theorem length_zigzagOf (table : Vector UInt8 64) : (zigzagOf table).length = 64 := by
  rw [zigzagOf, List.length_map, Vector.length_toList]

/-- The bytes of a code. -/
def codeEntry (id : UInt8) (spec : JpegHuffmanSpec) : UInt8 × List UInt8 × List UInt8 :=
  (id, spec.counts.toList, spec.symbols)

theorem putQuantiser_eq (id : UInt8) (table : Vector UInt8 64) : putQuantiser id table =
    Jfif.segment (0xDB, [(id, zigzagOf table)].flatMap Jfif.quantiserBytes) := by
  rw [putQuantiser, ← zigzagOf, putBe16_eq, Jfif.segment, List.flatMap_singleton,
    Jfif.quantiserBytes, List.length_cons, length_zigzagOf]
  simp only [List.append_assoc, List.singleton_append]
  rfl

theorem putHuffman_eq (id : UInt8) {spec : JpegHuffmanSpec} (h : spec.Valid)
    (hsum : spec.lengthCounts.sum < 256) : putHuffman id spec =
      Jfif.segment (0xC4, [codeEntry id spec].flatMap Jfif.codeBytes) := by
  rw [← h.length_eq] at hsum
  have hlength : (2 + 1 + 16 + UInt32.ofNat spec.symbols.length).toNat =
      (id :: (spec.counts.toList ++ spec.symbols)).length + 2 := by
    have hcount : (2 + 1 + 16 : UInt32).toNat = 19 := rfl
    rw [UInt32.toNat_add, hcount, UInt32.toNat_ofNat', List.length_cons, List.length_append,
      Vector.length_toList]
    omega
  rw [putHuffman, putBe16_eq, hlength, Jfif.segment, List.flatMap_singleton, Jfif.codeBytes,
    codeEntry]
  simp only [List.append_assoc, List.cons_append, List.nil_append]

/-- The frame of a picture. -/
def jpegFrame (img : PixelView) : Jfif.Frame :=
  ⟨img.height.toNat, img.width.toNat, [⟨1, 0x11, 0⟩, ⟨2, 0x11, 1⟩, ⟨3, 0x11, 1⟩]⟩

theorem sofSegment_eq (img : PixelView) : sofSegment img.height img.width =
    Jfif.segment (0xC0, Jfif.frameBytes (jpegFrame img)) := by
  rw [sofSegment, putBe16_eq, putBe16_eq, putBe16_eq, Jfif.segment, Jfif.frameBytes]
  simp only [List.append_assoc, List.length_cons, List.length_append, length_bigEndian]
  rfl

/-- The segments in front of the scan header. -/
def jpegSegments (img : PixelView) (quality : ℤ) : List (UInt8 × List UInt8) :=
  [(0xE0, [0x4A, 0x46, 0x49, 0x46, 0x00, 0x01, 0x02, 0x00, 0x00, 0x01, 0x00, 0x01, 0x00, 0x00]),
    (0xDB, [(0, zigzagOf (scaleQuantiser jpegLuminanceQuantiser quality))].flatMap
      Jfif.quantiserBytes),
    (0xDB, [(1, zigzagOf (scaleQuantiser jpegChrominanceQuantiser quality))].flatMap
      Jfif.quantiserBytes),
    (0xC0, Jfif.frameBytes (jpegFrame img)),
    (0xC4, [codeEntry 0x00 jpegDcLuminance].flatMap Jfif.codeBytes),
    (0xC4, [codeEntry 0x10 jpegAcLuminance].flatMap Jfif.codeBytes),
    (0xC4, [codeEntry 0x01 jpegDcChrominance].flatMap Jfif.codeBytes),
    (0xC4, [codeEntry 0x11 jpegAcChrominance].flatMap Jfif.codeBytes)]

/-- The segments are short, and none of them is a scan header. -/
theorem length_of_mem_jpegSegments (img : PixelView) (quality : ℤ) :
    ∀ s ∈ jpegSegments img quality, s.1 ≠ 0xDA ∧ s.2.length + 2 < 256 ^ 2 := by
  have hquantiser (id : UInt8) (table : Vector UInt8 64) :
      ([(id, zigzagOf table)].flatMap Jfif.quantiserBytes).length + 2 < 256 ^ 2 := by
    rw [List.flatMap_singleton, Jfif.quantiserBytes, List.length_cons, length_zigzagOf]
    decide
  have hcode (id : UInt8) {spec : JpegHuffmanSpec} (h : spec.Valid)
      (hsum : spec.lengthCounts.sum < 256) :
      ([codeEntry id spec].flatMap Jfif.codeBytes).length + 2 < 256 ^ 2 := by
    have hpow : (256 : ℕ) ^ 2 = 65536 := rfl
    rw [List.flatMap_singleton, Jfif.codeBytes, codeEntry, List.length_cons, List.length_append,
      Vector.length_toList, h.length_eq]
    omega
  have hdqt : (0xDB : UInt8) ≠ 0xDA := by decide
  have hsof : (0xC0 : UInt8) ≠ 0xDA := by decide
  have hdht : (0xC4 : UInt8) ≠ 0xDA := by decide
  intro s hs
  rw [jpegSegments] at hs
  simp only [List.mem_cons, List.not_mem_nil, or_false] at hs
  rcases hs with rfl | rfl | rfl | rfl | rfl | rfl | rfl | rfl
  · exact ⟨by decide, by decide⟩
  · exact ⟨hdqt, hquantiser _ _⟩
  · exact ⟨hdqt, hquantiser _ _⟩
  · exact ⟨hsof, show 15 + 2 < 256 ^ 2 by decide⟩
  · exact ⟨hdht, hcode _ jpegDcLuminance_valid (by decide)⟩
  · exact ⟨hdht, hcode _ jpegAcLuminance_valid (by decide)⟩
  · exact ⟨hdht, hcode _ jpegDcChrominance_valid (by decide)⟩
  · exact ⟨hdht, hcode _ jpegAcChrominance_valid (by decide)⟩

/-- What the scan header holds. -/
def jpegScanHeader : List UInt8 := [3, 1, 0x00, 2, 0x11, 3, 0x11, 0, 63, 0]

/-- **The header is a list of segments.** -/
theorem jpegHeader_eq_segments (img : PixelView) (quality : ℤ) : jpegHeader img quality =
    [0xFF, 0xD8] ++ ((jpegSegments img quality).flatMap Jfif.segment ++
      Jfif.segment (0xDA, jpegScanHeader)) := by
  rw [jpegHeader_eq, jpegFront, jpegBack, sofSegment_eq, putQuantiser_eq, putQuantiser_eq,
    putHuffman_eq _ jpegDcLuminance_valid (by decide),
    putHuffman_eq _ jpegAcLuminance_valid (by decide),
    putHuffman_eq _ jpegDcChrominance_valid (by decide),
    putHuffman_eq _ jpegAcChrominance_valid (by decide), jpegSegments]
  simp only [List.flatMap_cons, List.flatMap_nil, List.append_assoc, List.append_nil]
  rfl

/-! ### What the segments define -/

/-- What the segments define. -/
def jpegDefined (img : PixelView) (quality : ℤ) : Jfif.Tables :=
  let t := [(0, zigzagOf (scaleQuantiser jpegLuminanceQuantiser quality)),
    (1, zigzagOf (scaleQuantiser jpegChrominanceQuantiser quality))].foldl
      Jfif.Tables.setQuantiser .empty
  [codeEntry 0x00 jpegDcLuminance, codeEntry 0x10 jpegAcLuminance,
    codeEntry 0x01 jpegDcChrominance, codeEntry 0x11 jpegAcChrominance].foldl
      (fun t c => t.setCode (Jfif.codeOf c)) { t with frame := some (jpegFrame img) }

/-- One quantiser in a segment. -/
theorem define_quantiser (t : Jfif.Tables) {id : UInt8} (hid : id < 4) (table : Vector UInt8 64) :
    Jfif.define t (0xDB, [(id, zigzagOf table)].flatMap Jfif.quantiserBytes) =
      some (t.setQuantiser (id, zigzagOf table)) := by
  refine Jfif.define_quantisers t _ fun q hq => ?_
  obtain rfl := List.mem_singleton.mp hq
  exact ⟨hid, length_zigzagOf table⟩

/-- One code in a segment. -/
theorem define_code (t : Jfif.Tables) {id : UInt8} (hid : id / 16 < 2 ∧ id % 16 < 2)
    {spec : JpegHuffmanSpec} (h : spec.Valid)
    (hweight : Canonical.weight spec.lengthCounts < 2 ^ 16) :
    Jfif.define t (0xC4, [codeEntry id spec].flatMap Jfif.codeBytes) =
      some (t.setCode (Jfif.codeOf (codeEntry id spec))) := by
  refine Jfif.define_codes t _ fun c hc => ?_
  obtain rfl := List.mem_singleton.mp hc
  exact ⟨hid, Vector.length_toList, h.length_eq, hweight⟩

/-- **What the segments define.** -/
theorem foldlM_define_jpegSegments (img : PixelView) (quality : ℤ)
    (hvalid : validDimensions img.width img.height = true) :
    (jpegSegments img quality).foldlM Jfif.define .empty = some (jpegDefined img quality) := by
  obtain ⟨⟨hw, hwidth⟩, hh, hheight⟩ := validDimensions_iff.mp hvalid
  have hframe (t : Jfif.Tables) (ht : t.frame = none) :
      Jfif.define t (0xC0, Jfif.frameBytes (jpegFrame img)) =
        some { t with frame := some (jpegFrame img) } :=
    Jfif.define_frame t ht ⟨hh, show img.height.toNat < 65536 by omega⟩
      ⟨hw, show img.width.toNat < 65536 by omega⟩
      (show 0 < 3 ∧ 3 < 256 by decide)
  rw [jpegSegments]
  simp only [List.foldlM_cons, List.foldlM_nil, Option.bind_eq_bind, Option.bind_some,
    Jfif.define_application _ _ (show (0xE0 : UInt8) ≤ 0xE0 ∧ (0xE0 : UInt8) ≤ 0xEF by decide),
    define_quantiser _ (show (0 : UInt8) < 4 by decide),
    define_quantiser _ (show (1 : UInt8) < 4 by decide)]
  rw [hframe _ rfl]
  simp only [Option.bind_some,
    define_code _ (show (0x00 : UInt8) / 16 < 2 ∧ (0x00 : UInt8) % 16 < 2 by decide)
      jpegDcLuminance_valid (by decide),
    define_code _ (show (0x10 : UInt8) / 16 < 2 ∧ (0x10 : UInt8) % 16 < 2 by decide)
      jpegAcLuminance_valid (by decide),
    define_code _ (show (0x01 : UInt8) / 16 < 2 ∧ (0x01 : UInt8) % 16 < 2 by decide)
      jpegDcChrominance_valid (by decide),
    define_code _ (show (0x11 : UInt8) / 16 < 2 ∧ (0x11 : UInt8) % 16 < 2 by decide)
      jpegAcChrominance_valid (by decide)]
  rfl

/-- What is defined for a component. -/
def jpegComponent (quality : ℤ) (c : Fin 3) : Jfif.ScanComponent :=
  ⟨zigzagOf (quantisers quality (tableOf c)), codingOf c⟩

/-- The components of the scan are Y, Cb and Cr. -/
theorem resolveAll_jpegDefined (img : PixelView) (quality : ℤ) :
    Jfif.resolveAll (jpegDefined img quality) (jpegFrame img).components
        [(1, 0x00), (2, 0x11), (3, 0x11)] =
      some ((List.finRange 3).map (jpegComponent quality)) := by
  rfl

/-! ### Decoding undoes encoding -/

/-- What the file of an image holds: the dimensions, the quantisers that were divided by, and the
quantised values of Y, Cb and Cr of every block position. -/
def jpegContents (img : Image) (quality : ℤ) (matte : Rgb) : Jfif.Decoded :=
  ⟨img.width.toNat, img.height.toNat,
    (List.finRange 3).map fun c => zigzagOf (quantisers quality (tableOf c)),
    (scanUnits (viewOfImage img)).map fun u =>
      (unitBlock (viewOfImage img) quality matte u).toList⟩

/-- The blocks of the file are those of the units of the scan. -/
theorem blockOrder_eq (img : PixelView) (quality : ℤ) :
    Jfif.blockOrder img.width.toNat img.height.toNat
        ((List.finRange 3).map (jpegComponent quality)) =
      (scanUnits img).map fun u => (codingOf u.component, u.component.val) := by
  simp only [Jfif.blockOrder, scanUnits, List.map_flatMap, List.map_map]
  rfl

/-- The entropy-coded data: the bits of the scan, filled with ones to whole bytes. -/
theorem exists_scanBytes_eq (img : PixelView) (quality : ℤ) (matte : Rgb) :
    ∃ data pad, scanBytes img quality matte = EntropyCode.stuff data ∧ pad < 8 ∧
      msbOf data = scanBits img quality matte (.start []) (scanUnits img) ++
        List.replicate pad true := by
  have hstart := ScanState.sound_start []
  have hholds := holds_scanBits img quality matte hstart (ScanWriter.holds_new []) (scanUnits img)
  exact hholds.finish (hstart.foldl img quality matte (scanUnits img)).used_lt

/-- **Decoding undoes encoding.** The file of a valid image is read back to the quantisers that were
divided by and the quantised values of all blocks. Behind the header it is entropy-coded data, in
which every `FF` is followed by `00` and the unused bits of the last byte are ones, and the end of
the image. -/
theorem encodeJpeg_decodes (img : Image) (quality : ℤ) (matte : Rgb)
    (hvalid : validImage img = true) (hquality : 50 ≤ quality ∧ quality ≤ 100) :
    ∃ file, encodeJpeg img quality matte = (.ok, file) ∧
      Jfif.parse file = some (jpegContents img quality matte) ∧
      ∃ entropy data pad,
        file = jpegHeader (viewOfImage img) quality ++ entropy ++ [0xFF, 0xD9] ∧
        (∀ i : ℕ, entropy[i]? = some 0xFF → entropy[i + 1]? = some 0x00) ∧
        entropy = EntropyCode.stuff data ∧ pad < 8 ∧
        msbOf data = scanBits (viewOfImage img) quality matte (.start [])
          (scanUnits (viewOfImage img)) ++ List.replicate pad true := by
  obtain ⟨data, pad, hscan, hpad, hbits⟩ := exists_scanBytes_eq (viewOfImage img) quality matte
  have hdimensions := (validImage_iff.mp hvalid).1
  have hblocks := readBlocks_scanBits (viewOfImage img) quality matte
    (ScanState.sound_start []) (fun _ => 0) (fun _ => rfl) (scanUnits (viewOfImage img))
    (List.replicate pad true)
  rw [← hbits, ← blockOrder_eq (viewOfImage img) quality] at hblocks
  have hparse := Jfif.parse_eq (length_of_mem_jpegSegments (viewOfImage img) quality)
    (foldlM_define_jpegSegments (viewOfImage img) quality hdimensions) rfl
    (show jpegScanHeader.length + 2 < 256 ^ 2 by decide) rfl
    (resolveAll_jpegDefined (viewOfImage img) quality) hblocks hpad
  refine ⟨_, encodeJpeg_of_valid matte hvalid hquality, ?_, EntropyCode.stuff data, data, pad, ?_,
    fun i => EntropyCode.getElem?_stuff data, rfl, hpad, hbits⟩
  · rw [encodeJpegBytes_eq, jpegHeader_eq_segments, hscan, List.append_assoc, List.append_assoc,
      List.append_assoc, hparse, List.map_map]
    rfl
  · rw [encodeJpegBytes_eq, hscan]

/-- A picture of one pixel. -/
theorem encodeJpeg_decodes_pixel :
    let img : Image := ⟨1, 1, [200, 100, 50, 255]⟩
    let matte : Rgb := ⟨255, 255, 255⟩
    ∃ file, encodeJpeg img 90 matte = (.ok, file) ∧
      Jfif.parse file = some ⟨1, 1,
        (List.finRange 3).map fun c => zigzagOf (quantisers 90 (tableOf c)),
        (List.finRange 3).map fun c => (unitBlock (viewOfImage img) 90 matte ⟨0, 0, c⟩).toList⟩ ∧
      ∃ entropy data pad,
        file = jpegHeader (viewOfImage img) 90 ++ entropy ++ [0xFF, 0xD9] ∧
        (∀ i : ℕ, entropy[i]? = some 0xFF → entropy[i + 1]? = some 0x00) ∧
        entropy = EntropyCode.stuff data ∧ pad < 8 ∧
        msbOf data = scanBits (viewOfImage img) 90 matte (.start [])
          (scanUnits (viewOfImage img)) ++ List.replicate pad true :=
  encodeJpeg_decodes ⟨1, 1, [200, 100, 50, 255]⟩ 90 ⟨255, 255, 255⟩ (by decide)
    ⟨by decide, by decide⟩

end HumanizedHash
