import HumanizedHash.Raster.Faithful
import HumanizedHash.Tools.CommandLine

/-!
# Two pictures side by side

`examples/hh_compare.cpp` renders two addresses with the default options, copies the rows of the two
pictures into one with a white gap between them, and says whether the two pictures are equal. They
are equal exactly if the two fingerprints have the same cells. The file is closed when the program
ends, behind the line that it prints, so a file that does not fit may go unnoticed.

## Main definitions

* `Tools.pictureOf`, `Tools.pairPicture`, `Tools.hhCompare`.
* `Tools.IsAddress`: the texts that are accepted.

## Main results

* `Tools.pixel_pairPicture`: the pixels of the picture of both.
* `Tools.isAddress_iff`: the accepted texts and the code of the library.
* `Tools.rgba_eq_iff_cellsOf_eq`: what the comparison of the bytes tells.
* `Tools.hhCompare_exact`: the program.

## References

* `src/examples/hh_compare.cpp`.
-/

namespace HumanizedHash

namespace Tools

open Files

/-! ### The code -/

/-- `size`. -/
def pairSize : UInt32 := 128

/-- `gap`. -/
def pairGap : UInt32 := 32

/-- `picture_of`: the code, the picture and the tag. -/
def pictureOf (hex : List UInt8) : ErrorCode × Image × List UInt8 :=
  let (ec, digest) := makeBaseDigestFromHex hex .unset
  if ec ≠ .ok then
    (ec, .empty, [])
  else
    let (ec, fp) := universalFingerprint digest .unset
    if ec ≠ .ok then
      (ec, .empty, [])
    else
      let (ec, img) := render fp pairSize {} .empty
      if ec ≠ .ok then (ec, img, []) else (.ok, img, fp.tag)

/-- The line that `picture_of` prints for an error. -/
def pictureError (hex : List UInt8) (ec : ErrorCode) : List UInt8 :=
  hex ++ text ": " ++ ec.message ++ text "\n"

/-- The width of the picture of both. -/
def pairWidth : UInt32 := 2 * pairSize + pairGap

/-- The bytes of a row of one picture. -/
def rowOf (img : Image) (y : ℕ) : List UInt8 :=
  (img.rgba.drop (y * pairSize.toNat * 4)).take (pairSize.toNat * 4)

/-- The body of the loop over `y`: the two calls of `memcpy`. -/
def copyRows (left right : Image) (mem : Memory UInt8) (y : ℕ) : Memory UInt8 :=
  let out := y * pairWidth.toNat * 4
  let mem := mem.write out (rowOf left y)
  mem.write (out + (pairSize + pairGap).toNat * 4) (rowOf right y)

/-- The picture of both. -/
def pairPicture (left right : Image) : Image :=
  ⟨pairWidth, pairSize,
    ((List.range pairSize.toNat).foldl (copyRows left right) fun _ => 255).read 0
      (pairWidth.toNat * pairSize.toNat * 4)⟩

/-- The line that the program prints for arguments of another number. -/
def compareUsage : List UInt8 := text "usage: hh_compare <hex address> <hex address> <out.png>\n"

/-- What the program prints of two pictures. -/
def verdictText (equal : Prop) [Decidable equal] (leftTag rightTag : List UInt8) : List UInt8 :=
  groupedTag leftTag ++ text "   " ++ groupedTag rightTag ++ text "   " ++
    (if equal then text "the pictures are equal" else text "the pictures differ") ++ text "\n"

/-- `main`, on the arguments behind the name of the program. -/
def hhCompare (disk : Disk (List UInt8)) (args : List (List UInt8)) (c : Console) : ℤ × Console :=
  match args with
  | [leftHex, rightHex, path] =>
    let (ec, left, leftTag) := pictureOf leftHex
    if ec ≠ .ok then
      (1, { c with err := c.err ++ pictureError leftHex ec })
    else
      let (ec, right, rightTag) := pictureOf rightHex
      if ec ≠ .ok then
        (1, { c with err := c.err ++ pictureError rightHex ec })
      else
        let (ec, png) := encodePng (pairPicture left right)
        if ec ≠ .ok then
          (1, c)
        else
          let (file, files) := Output.create disk path c.files
          let (file, files) := file.write disk path png files
          if !file.good then
            (1, { c with
              err := c.err ++ (text "cannot write " ++ path ++ text "\n")
              files := file.close disk path files })
          else
            (0, { c with
              out := c.out ++ verdictText (left.rgba = right.rgba) leftTag rightTag
              files := file.close disk path files })
  | _ => (2, { c with err := c.err ++ compareUsage })

/-! ### The picture of both -/

/-- A picture of the size of one side. -/
def IsSide (img : Image) : Prop :=
  img.width = pairSize ∧ img.height = pairSize ∧ img.rgba.length = 65536

section Pair

variable {left right : Image}

theorem length_rowOf {img : Image} (h : IsSide img) {y : ℕ} (hy : y < 128) :
    (rowOf img y).length = 512 := by
  have hsize : pairSize.toNat = 128 := rfl
  rw [rowOf, List.length_take, List.length_drop, h.2.2, hsize]
  omega

theorem getD_rowOf (img : Image) (y : ℕ) {i : ℕ} (hi : i < 512) :
    (rowOf img y).getD i 0 = img.rgba.getD (y * 512 + i) 0 := by
  have hsize : pairSize.toNat * 4 = 512 := rfl
  rw [rowOf, Nat.mul_assoc, hsize, List.getD_eq_getElem?_getD, List.getElem?_take_of_lt hi,
    List.getElem?_drop, ← List.getD_eq_getElem?_getD]

/-- The bytes of a row of the picture of both. -/
theorem copyRows_apply (hleft : IsSide left) (hright : IsSide right) (mem : Memory UInt8) {y : ℕ}
    (hy : y < 128) (a : ℕ) : copyRows left right mem y a =
      if y * 1152 ≤ a ∧ a < y * 1152 + 512 then left.rgba.getD (y * 512 + (a - y * 1152)) 0
      else if y * 1152 + 640 ≤ a ∧ a < y * 1152 + 1152 then
        right.rgba.getD (y * 512 + (a - (y * 1152 + 640))) 0
      else mem a := by
  have hwidth : pairWidth.toNat * 4 = 1152 := rfl
  have hgap : (pairSize + pairGap).toNat * 4 = 640 := rfl
  have hl := length_rowOf hleft hy
  have hr := length_rowOf hright hy
  have hmem {img : Image} (himg : (rowOf img y).length = 512) (m : Memory UInt8) {p b : ℕ}
      (hb : p ≤ b ∧ b < p + 512) :
      m.write p (rowOf img y) b = img.rgba.getD (y * 512 + (b - p)) 0 := by
    obtain ⟨i, rfl⟩ := Nat.exists_eq_add_of_le hb.1
    have hi : i < (rowOf img y).length := by omega
    rw [Memory.write_apply_of_mem _ _ _ hi, Nat.add_sub_cancel_left, ← getD_rowOf img y (by omega),
      List.getD_eq_getElem _ _ hi]
  rw [copyRows, Nat.mul_assoc, hwidth, hgap]
  split_ifs with hfirst hsecond
  · rw [Memory.write_apply_of_notMem _ _ _ (by omega), hmem hl mem hfirst]
  · rw [hmem hr _ ⟨hsecond.1, by omega⟩]
  · rw [Memory.write_apply_of_notMem _ _ _ (by omega),
      Memory.write_apply_of_notMem _ _ _ (by omega)]

/-- A byte behind the loop over the rows. -/
theorem foldl_copyRows_apply (hleft : IsSide left) (hright : IsSide right) {n : ℕ} (hn : n ≤ 128)
    (mem : Memory UInt8) {y i : ℕ} (hi : i < 1152) :
    (List.range n).foldl (copyRows left right) mem (y * 1152 + i) =
      if n ≤ y then mem (y * 1152 + i)
      else if i < 512 then left.rgba.getD (y * 512 + i) 0
      else if i < 640 then mem (y * 1152 + i)
      else right.rgba.getD (y * 512 + (i - 640)) 0 := by
  induction n with
  | zero => rw [if_pos (Nat.zero_le y)]; rfl
  | succ n ih =>
    rw [List.range_succ, List.foldl_append, List.foldl_cons, List.foldl_nil,
      copyRows_apply hleft hright _ (by omega), ih (by omega)]
    obtain hlt | rfl | hgt := Nat.lt_trichotomy y n
    · have hrow : y * 1152 + 1152 ≤ n * 1152 := by omega
      rw [if_neg (by omega), if_neg (by omega), if_neg (not_le.mpr hlt),
        if_neg (show ¬n + 1 ≤ y by omega)]
    · rw [if_neg (by omega : ¬y + 1 ≤ y), if_pos le_rfl, Nat.add_sub_cancel_left]
      by_cases hfirst : i < 512
      · rw [if_pos ⟨by omega, by omega⟩, if_pos hfirst]
      · rw [if_neg (by omega), if_neg hfirst]
        by_cases hsecond : i < 640
        · rw [if_neg (by omega), if_pos hsecond]
        · rw [if_pos ⟨by omega, by omega⟩, if_neg hsecond,
            show y * 1152 + i - (y * 1152 + 640) = i - 640 by omega]
    · have hrow : n * 1152 + 1152 ≤ y * 1152 := by omega
      rw [if_neg (by omega), if_neg (by omega), if_pos (show n ≤ y by omega),
        if_pos (show n + 1 ≤ y by omega)]

theorem validImage_pairPicture (left right : Image) :
    validImage (pairPicture left right) = true := by
  have hdimensions : validDimensions pairWidth pairSize = true := by decide
  have hlength : (pairPicture left right).rgba.length = pairWidth.toNat * pairSize.toNat * 4 := by
    rw [pairPicture, Memory.length_read]
  rw [validImage_iff]
  exact ⟨hdimensions, hlength⟩

/-- A byte of the picture of both. -/
theorem getD_rgba_pairPicture (hleft : IsSide left) (hright : IsSide right) {y i : ℕ} (hy : y < 128)
    (hi : i < 1152) : (pairPicture left right).rgba.getD (y * 1152 + i) 0 =
      if i < 512 then left.rgba.getD (y * 512 + i) 0
      else if i < 640 then 255
      else right.rgba.getD (y * 512 + (i - 640)) 0 := by
  have hlength : pairWidth.toNat * pairSize.toNat * 4 = 147456 := rfl
  have hplace : y * 1152 + i < 147456 := by omega
  have hsize : pairSize.toNat = 128 := rfl
  rw [pairPicture, hlength, List.getD_eq_getElem _ _ (by rwa [Memory.length_read]),
    Memory.getElem_read, Nat.zero_add, hsize,
    foldl_copyRows_apply hleft hright le_rfl _ hi, if_neg (not_le.mpr hy)]

/-- **The picture of both**: the left one, a white gap, the right one. -/
theorem pixel_pairPicture (hleft : IsSide left) (hright : IsSide right) {x y : ℕ} (hx : x < 288)
    (hy : y < 128) : (pairPicture left right).pixel x y =
      if x < 128 then left.pixel x y
      else if x < 160 then ⟨255, 255, 255, 255⟩
      else right.pixel (x - 160) y := by
  have hwidth : (pairPicture left right).width.toNat = 288 := rfl
  have hside {img : Image} (h : IsSide img) : img.width.toNat = 128 := by
    rw [h.1]
    rfl
  have hbyte (c : ℕ) (hc : c < 4) : (pairPicture left right).rgba.getD ((y * 288 + x) * 4 + c) 0 =
      if x < 128 then left.rgba.getD ((y * 128 + x) * 4 + c) 0
      else if x < 160 then 255
      else right.rgba.getD ((y * 128 + (x - 160)) * 4 + c) 0 := by
    rw [show (y * 288 + x) * 4 + c = y * 1152 + (4 * x + c) by omega,
      getD_rgba_pairPicture hleft hright hy (by omega)]
    by_cases hfirst : x < 128
    · rw [if_pos (by omega), if_pos hfirst,
        show y * 512 + (4 * x + c) = (y * 128 + x) * 4 + c by omega]
    · rw [if_neg (by omega), if_neg hfirst]
      by_cases hsecond : x < 160
      · rw [if_pos (by omega), if_pos hsecond]
      · rw [if_neg (by omega), if_neg hsecond,
          show y * 512 + (4 * x + c - 640) = (y * 128 + (x - 160)) * 4 + c by omega]
  have hzero := hbyte 0 (by decide)
  rw [Nat.add_zero, Nat.add_zero, Nat.add_zero] at hzero
  rw [Image.pixel, Image.pixel, Image.pixel, hwidth, hside hleft, hside hright]
  rw [hzero, hbyte 1 (by decide), hbyte 2 (by decide), hbyte 3 (by decide)]
  by_cases hfirst : x < 128
  · rw [if_pos hfirst, if_pos hfirst, if_pos hfirst, if_pos hfirst, if_pos hfirst]
  · rw [if_neg hfirst, if_neg hfirst, if_neg hfirst, if_neg hfirst, if_neg hfirst]
    by_cases hsecond : x < 160
    · rw [if_pos hsecond, if_pos hsecond, if_pos hsecond, if_pos hsecond, if_pos hsecond]
    · rw [if_neg hsecond, if_neg hsecond, if_neg hsecond, if_neg hsecond, if_neg hsecond]

end Pair

/-- A valid picture is read back from its file. -/
theorem exists_parse_encodePng {img : Image} (h : validImage img = true) :
    ∃ file, encodePng img = (.ok, file) ∧
      Png.parse file = some (pngPicture img (pngColourType (viewOfImage img))) := by
  refine ⟨encodePngBytes (viewOfImage img), ?_, parse_encodePngBytes _ (validImage_iff.mp h).1⟩
  rw [encodePng, h]
  rfl

/-! ### The comparison -/

/-- A picture of an address: its fingerprint is universal, the options are the default ones. -/
def addressPicture (d : BaseDigest) : Image :=
  (render ⟨d.bytes, .universal, true⟩ pairSize {} .empty).2

/-- The pictures of addresses are accepted. -/
theorem prepare_address (bytes : Vector UInt8 32) :
    prepare ⟨bytes, .universal, true⟩ pairSize {} = .ok (jobOf ⟨bytes, .universal, true⟩ {}) := by
  have hverdict : verdict frameColour ⟨bytes, .universal, true⟩ pairSize {} = .ok := by
    rw [verdict_eq_of_zeros]
    change verdict frameColour ⟨Vector.replicate 32 0, .universal, true⟩ pairSize {} = .ok
    decide +kernel
  exact (prepare_eq frameColour ..).trans (if_pos hverdict)

theorem render_address (d : BaseDigest) :
    render ⟨d.bytes, .universal, true⟩ pairSize {} .empty = (.ok, addressPicture d) := by
  rw [addressPicture, render_of_ok (prepare_address d.bytes)]

theorem isSide_addressPicture (d : BaseDigest) : IsSide (addressPicture d) := by
  have hbytes : imageBytes pairSize = 65536 := by decide
  rw [addressPicture, render_of_ok (prepare_address d.bytes), IsSide]
  dsimp only
  refine ⟨rfl, rfl, ?_⟩
  rw [Memory.length_read, hbytes]

/-- Two pictures that are accepted are equal if and only if the cells are. -/
theorem rgba_render_eq_iff {a b : Fingerprint} {size : UInt32} {options : RenderOptions}
    (ha : prepare a size options = .ok (jobOf a options))
    (hb : prepare b size options = .ok (jobOf b options)) (hmode : a.mode = b.mode)
    (hcell : 2 ≤ ((jobOf a options).geometry size).cell)
    (halpha : options.backgroundAlpha = 255 ∨ options.backgroundAlpha = 0) :
    (render a size options .empty).2.rgba = (render b size options .empty).2.rgba ↔
      cellsOf a.bytes = cellsOf b.bytes := by
  have hjob := prepared_of_prepare ha
  have hjob' := prepared_of_prepare hb
  have hgeo : (jobOf b options).geometry size = (jobOf a options).geometry size := by
    simp only [RasterJob.geometry, jobOf, hmode]
  rw [render_of_ok ha, render_of_ok hb, imageBytes, read_eq_iff_pixelAt_eq]
  constructor
  · intro hpixels
    have hcells := cell_eq_of_pixelAt_eq hjob hjob' hgeo (hjob.shows 0 fun _ => 0)
      (hjob'.shows 0 fun _ => 0) hpixels hcell halpha
    exact Vector.ext fun i hi => hcells ⟨i, hi⟩
  · intro hcells k _
    have hsame : jobOf a options = jobOf b options := by simp only [jobOf, hcells, hmode]
    rw [hsame]

/-- **What the comparison of the bytes tells.** -/
theorem rgba_eq_iff_cellsOf_eq (d d' : BaseDigest) :
    (addressPicture d).rgba = (addressPicture d').rgba ↔ cellsOf d.bytes = cellsOf d'.bytes := by
  have hcell : 2 ≤ ((jobOf ⟨d.bytes, .universal, true⟩ {}).geometry pairSize).cell := by
    change 2 ≤ ((jobOf ⟨Vector.replicate 32 0, .universal, true⟩ {}).geometry pairSize).cell
    decide +kernel
  exact rgba_render_eq_iff (prepare_address d.bytes) (prepare_address d'.bytes) rfl hcell
    (Or.inl rfl)

/-- The digest of an address. -/
def addressDigest (hex : List UInt8) : BaseDigest := (makeBaseDigestFromHex hex .unset).2

/-- The hexadecimal digits. -/
def hexDigits : List UInt8 := text "0123456789abcdefABCDEF"

/-- The hexadecimal text of an input: pairs of digits, for 1 to 1048576 bytes, behind a prefix or
none. -/
def IsAddress (hex : List UInt8) : Prop :=
  ∃ front digits, hex = front ++ digits ∧ (front = [] ∨ front = text "0x" ∨ front = text "0X") ∧
    (∀ c ∈ digits, c ∈ hexDigits) ∧ digits.length % 2 = 0 ∧
    2 ≤ digits.length ∧ digits.length ≤ 2 * 1048576

theorem mem_hexDigits_iff (c : UInt8) : c ∈ hexDigits ↔ ¬ hexValue c < 0 := by
  have hall : ∀ n : Fin 256,
      UInt8.ofNat n.val ∈ hexDigits ↔ ¬ hexValue (UInt8.ofNat n.val) < 0 := by decide +kernel
  have hc := hall ⟨c.toNat, c.toNat_lt⟩
  rwa [UInt8.ofNat_toNat] at hc

/-- **The texts that are accepted.** -/
theorem isAddress_iff {hex : List UInt8} :
    IsAddress hex ↔ (makeBaseDigestFromHex hex .unset).1 = .ok := by
  have hlimit : 2 * maxInputSize = 2 * 1048576 := rfl
  have hfront : text "0x" = [0x30, 0x78] ∧ text "0X" = [0x30, 0x58] := ⟨rfl, rfl⟩
  rw [fst_makeBaseDigestFromHex_eq_ok_iff, hlimit, IsAddress, hfront.1, hfront.2]
  constructor
  · rintro ⟨front, digits, rfl, hprefix, hdigits, heven, hpos, hle⟩
    have hremove : removeHexPrefix (front ++ digits) = digits := by
      rcases hprefix with rfl | rfl | rfl
      · -- digits alone: the letter of a prefix is not one of them
        refine removeHexPrefix_eq_iff.mpr (Or.inr (Or.inr ⟨rfl, fun x tail heq => ?_⟩))
        have hx : x ∈ hexDigits := hdigits x (by simp [heq])
        exact ⟨fun h => absurd (h ▸ hx) (by decide), fun h => absurd (h ▸ hx) (by decide)⟩
      · exact removeHexPrefix_cons_cons (Or.inl rfl) digits
      · exact removeHexPrefix_cons_cons (Or.inr rfl) digits
    rw [hremove]
    exact ⟨fun hnil => by rw [hnil] at hpos; exact absurd hpos (by decide), heven,
      fun c hc => (mem_hexDigits_iff c).mp (hdigits c hc), hle⟩
  · rintro ⟨hne, heven, hvalid, hle⟩
    have hpos : (removeHexPrefix hex).length ≠ 0 := fun h => hne (List.length_eq_zero_iff.mp h)
    have hdigits : (∀ c ∈ removeHexPrefix hex, c ∈ hexDigits) ∧
        (removeHexPrefix hex).length % 2 = 0 ∧ 2 ≤ (removeHexPrefix hex).length ∧
        (removeHexPrefix hex).length ≤ 2 * 1048576 :=
      ⟨fun c hc => (mem_hexDigits_iff c).mpr (hvalid c hc), heven, by omega, hle⟩
    rcases removeHexPrefix_eq_iff.mp (rfl : removeHexPrefix hex = _) with heq | heq | ⟨heq, -⟩
    · exact ⟨[0x30, 0x78], _, heq, Or.inr (Or.inl rfl), hdigits⟩
    · exact ⟨[0x30, 0x58], _, heq, Or.inr (Or.inr rfl), hdigits⟩
    · exact ⟨[], _, heq, Or.inl rfl, hdigits⟩

/-- What is printed of an address. -/
def addressTag (hex : List UInt8) : List UInt8 :=
  Fingerprint.tag ⟨(addressDigest hex).bytes, .universal, true⟩

theorem pictureOf_of_isAddress {hex : List UInt8} (h : IsAddress hex) :
    pictureOf hex = (.ok, addressPicture (addressDigest hex), addressTag hex) := by
  have hdigest : makeBaseDigestFromHex hex .unset = (.ok, addressDigest hex) :=
    Prod.ext (isAddress_iff.mp h) rfl
  have hset : (addressDigest hex).set = true := by
    have hrequest := baseDigest_eq { input := hex }
    rw [baseDigest, if_neg Bool.false_ne_true, hdigest] at hrequest
    split_ifs at hrequest with hfault
    · exact (congrArg (fun r => r.2.set) hrequest).trans rfl
    · exact absurd (congrArg Prod.fst hrequest).symm hfault
  have hfp : universalFingerprint (addressDigest hex) .unset =
      (.ok, ⟨(addressDigest hex).bytes, .universal, true⟩) := by
    rw [universalFingerprint, BaseDigest.empty, hset]
    rfl
  rw [pictureOf, hdigest]
  dsimp only
  rw [if_neg (not_not.mpr rfl), hfp]
  dsimp only
  rw [if_neg (not_not.mpr rfl), render_address]
  rfl

theorem pictureOf_of_not_isAddress {hex : List UInt8} (h : ¬IsAddress hex) :
    pictureOf hex = ((makeBaseDigestFromHex hex .unset).1, .empty, []) := by
  rw [pictureOf]
  dsimp only
  exact if_pos (mt isAddress_iff.mpr h)

/-- The file of two addresses. -/
theorem exists_pairFile (d d' : BaseDigest) :
    ∃ file p, encodePng (pairPicture (addressPicture d) (addressPicture d')) = (.ok, file) ∧
      Png.parse file = some p ∧ p.width = 288 ∧ p.height = 128 ∧
      ∀ x < 288, ∀ y < 128, (imageOfPng p).pixel x y =
        if x < 128 then (addressPicture d).pixel x y
        else if x < 160 then ⟨255, 255, 255, 255⟩
        else (addressPicture d').pixel (x - 160) y := by
  have hvalid := validImage_pairPicture (addressPicture d) (addressPicture d')
  obtain ⟨file, hfile, hparse⟩ := exists_parse_encodePng hvalid
  refine ⟨file, _, hfile, hparse, rfl, rfl, fun x hx y hy => ?_⟩
  rw [imageOfPng_pngPicture hvalid, pixel_pairPicture (isSide_addressPicture _)
    (isSide_addressPicture _) hx hy]

/-! ### The program -/

section Program

variable (disk : Disk (List UInt8)) {a b path leftTag rightTag png : List UInt8}
  {ec : ErrorCode} {left right : Image} (c : Console)

theorem hhCompare_of_not_left (ha : pictureOf a = (ec, left, leftTag)) (hec : ec ≠ .ok) :
    hhCompare disk [a, b, path] c = (1, { c with err := c.err ++ pictureError a ec }) := by
  rw [hhCompare, ha]
  exact if_pos hec

theorem hhCompare_of_not_right (ha : pictureOf a = (.ok, left, leftTag))
    (hb : pictureOf b = (ec, right, rightTag)) (hec : ec ≠ .ok) :
    hhCompare disk [a, b, path] c = (1, { c with err := c.err ++ pictureError b ec }) := by
  rw [hhCompare, ha]
  refine (if_neg (not_not.mpr rfl)).trans ?_
  rw [hb]
  exact if_pos hec

theorem hhCompare_of_both (ha : pictureOf a = (.ok, left, leftTag))
    (hb : pictureOf b = (.ok, right, rightTag))
    (hfile : encodePng (pairPicture left right) = (.ok, png)) :
    hhCompare disk [a, b, path] c =
      if disk.accepts path png.length then
        (0, { c with
          out := c.out ++ verdictText (left.rgba = right.rgba) leftTag rightTag
          files := disk.store path png c.files })
      else
        (1, { c with
          err := c.err ++ (text "cannot write " ++ path ++ text "\n")
          files := disk.store path png c.files }) := by
  rw [hhCompare, ha]
  refine (if_neg (not_not.mpr rfl)).trans ?_
  rw [hb]
  refine (if_neg (not_not.mpr rfl)).trans ?_
  rw [hfile]
  refine (if_neg (not_not.mpr rfl)).trans ?_
  dsimp only
  rw [good_write_create, close_write_create]
  cases disk.accepts path png.length with
  | true => rfl
  | false => rfl

end Program

/-- **The comparison of two addresses.** Another number of arguments ends the program with the code
2. If one of the two texts is no address, the code is 1, and nothing is printed or written.
Otherwise the bytes of a picture that shows the left one, a white gap and the right one are
written, as far as the disk takes them, and nowhere else; the code is 0 and a line is printed
exactly if the writing is not seen to fail, and the line says that the pictures are equal exactly
if the cells of the fingerprints are. -/
theorem hhCompare_exact (disk : Disk (List UInt8)) (args : List (List UInt8)) (c : Console) :
    let result := hhCompare disk args c
    (args.length ≠ 3 → result = (2, { c with err := c.err ++ compareUsage })) ∧
      ∀ a b path, args = [a, b, path] →
        (¬(IsAddress a ∧ IsAddress b) →
          result.1 = 1 ∧ result.2.out = c.out ∧ result.2.files = c.files) ∧
        (IsAddress a → IsAddress b → ∃ file p, Png.parse file = some p ∧
          p.width = 288 ∧ p.height = 128 ∧
          (∀ x < 288, ∀ y < 128, (imageOfPng p).pixel x y =
            if x < 128 then (addressPicture (addressDigest a)).pixel x y
            else if x < 160 then ⟨255, 255, 255, 255⟩
            else (addressPicture (addressDigest b)).pixel (x - 160) y) ∧
          (result.1 = if disk.accepts path file.length then 0 else 1) ∧
          (result.2.out = c.out ++ if disk.accepts path file.length then
              verdictText (cellsOf (addressDigest a).bytes = cellsOf (addressDigest b).bytes)
                (addressTag a) (addressTag b)
            else []) ∧
          (result.2.files path =
            if disk.opens path then some (file.take (disk.room path)) else c.files path) ∧
          (disk.Stores path file.length → result.1 = 0 ∧ result.2.files path = some file) ∧
          ∀ other, other ≠ path → result.2.files other = c.files other) := by
  dsimp only
  refine ⟨fun hargs => ?_, fun a b path hargs => ?_⟩
  · rw [hhCompare.eq_def]
    split
    · exact absurd rfl hargs
    · rfl
  subst hargs
  by_cases ha : IsAddress a
  swap
  · rw [hhCompare_of_not_left disk c (pictureOf_of_not_isAddress ha) (mt isAddress_iff.mpr ha)]
    exact ⟨fun _ => ⟨rfl, rfl, rfl⟩, fun h => absurd h ha⟩
  by_cases hb : IsAddress b
  swap
  · rw [hhCompare_of_not_right disk c (pictureOf_of_isAddress ha) (pictureOf_of_not_isAddress hb)
      (mt isAddress_iff.mpr hb)]
    exact ⟨fun _ => ⟨rfl, rfl, rfl⟩, fun _ h => absurd h hb⟩
  obtain ⟨file, p, hfile, hparse, hwidth, hheight, hpixel⟩ :=
    exists_pairFile (addressDigest a) (addressDigest b)
  refine ⟨fun h => absurd ⟨ha, hb⟩ h, fun _ _ => ⟨file, p, hparse, hwidth, hheight, hpixel, ?_⟩⟩
  rw [hhCompare_of_both disk c (pictureOf_of_isAddress ha) (pictureOf_of_isAddress hb) hfile]
  have hstored : disk.Stores path file.length → disk.store path file c.files path = some file :=
    fun hstores => by
      rw [hstores.store]
      exact Function.update_self ..
  have hother (other : List UInt8) (hne : other ≠ path) :
      disk.store path file c.files other = c.files other := Disk.store_of_ne hne
  by_cases haccepts : disk.accepts path file.length = true
  · rw [if_pos haccepts, if_pos haccepts, if_pos haccepts]
    refine ⟨rfl, ?_, Disk.store_self, fun hstores => ⟨rfl, hstored hstores⟩, hother⟩
    simp only [rgba_eq_iff_cellsOf_eq]
  · rw [if_neg haccepts, if_neg haccepts, if_neg haccepts]
    exact ⟨rfl, (List.append_nil _).symm, Disk.store_self,
      fun hstores => absurd hstores.accepts haccepts, hother⟩

/-- Two addresses of one byte, one with a prefix, and a disk that keeps everything to the end. -/
theorem hhCompare_exact_late :
    let disk : Disk (List UInt8) := ⟨fun _ => true, fun _ => 0, fun _ _ => 0, fun _ => 7⟩
    let result := hhCompare disk [text "00", text "0Xfe", text "a.png"] ⟨[], [], fun _ => none⟩
    result.1 = 0 ∧ result.2.files (text "a.png") = some [] := by
  intro disk
  have ha : IsAddress (text "00") :=
    ⟨[], text "00", rfl, Or.inl rfl, by decide +kernel, by decide, by decide, by decide⟩
  have hb : IsAddress (text "0Xfe") :=
    ⟨text "0X", text "fe", by decide, Or.inr (Or.inr rfl), by decide +kernel, by decide, by decide,
      by decide⟩
  have hexact := (hhCompare_exact disk [text "00", text "0Xfe", text "a.png"]
    ⟨[], [], fun _ => none⟩).2 _ _ _ rfl
  obtain ⟨file, -, -, -, -, -, hcode, -, hfile, -⟩ := hexact.2 ha hb
  have haccepts : disk.accepts (text "a.png") file.length = true := by
    rw [Disk.accepts, Bool.true_and]
    exact decide_eq_true (Nat.min_le_left 0 file.length)
  rw [if_pos haccepts] at hcode
  exact ⟨hcode, hfile⟩

end Tools

end HumanizedHash
