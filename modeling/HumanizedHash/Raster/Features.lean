import HumanizedHash.Derivation.Derive
import HumanizedHash.Raster.Contrast

/-!
# Feature extraction

The 16 cells, the tag and the layout of a fingerprint.

## Main definitions

* `cellsOf`, `tagOf`, `rgbWord`.
* `Layout`, `describe`.

## Main results

* `Cell.WellFormed`, `cellsOf_wellFormed`: a cell that comes from a fingerprint has a named
  figure and a palette colour, which is 0 where the cell is empty.

## References

* `src/src/features.cpp`, `src/include/hh/fingerprint.hpp`.
-/

namespace HumanizedHash

/-- `figure_table`. -/
def figureTable : Vector Figure 8 :=
  #v[.none, .none, .square, .circle, .triangleUp, .triangleRight, .triangleDown, .triangleLeft]

/-- `crockford`. -/
def crockford : List UInt8 :=
  [0x30, 0x31, 0x32, 0x33, 0x34, 0x35, 0x36, 0x37, 0x38, 0x39, 0x41, 0x42, 0x43, 0x44, 0x45, 0x46,
    0x47, 0x48, 0x4A, 0x4B, 0x4D, 0x4E, 0x50, 0x51, 0x52, 0x53, 0x54, 0x56, 0x57, 0x58, 0x59, 0x5A]

/-- `rgb_word`: `0xRRGGBB`. -/
def rgbWord (c : Rgb) : UInt32 :=
  (c.r.toUInt32 <<< 16) ||| (c.g.toUInt32 <<< 8) ||| c.b.toUInt32

theorem shiftRight_five_lt (b : UInt8) : (b >>> 5).toNat < 8 := by
  have h := b.toNat_lt
  rw [UInt8.toNat_shiftRight, show (5 : UInt8).toNat % 8 = 5 from rfl, Nat.shiftRight_eq_div_pow]
  omega

theorem and_three_lt (b : UInt8) : (b &&& 3).toNat < 4 := by
  have h : (b &&& 3).toNat ≤ (3 : UInt8).toNat := by
    rw [UInt8.toNat_and]
    exact Nat.and_le_right
  exact Nat.lt_succ_of_le h

/-- The body of the loop of `cells_of`. -/
def cellOf (b : UInt8) : Cell :=
  let f := figureTable.get ⟨(b >>> 5).toNat, shiftRight_five_lt b⟩
  { figure := f, colour := if f = .none then 0 else (b >>> 3) &&& 3 }

/-- `cells_of`. -/
def cellsOf (fp : Vector UInt8 32) : Vector Cell 16 :=
  Vector.ofFn fun i => cellOf fp[i]

/-- `tag_of`: six characters and a terminating zero. -/
def tagOf (fp : Vector UInt8 32) : Vector UInt8 7 :=
  let word := (fp[16].toUInt32 <<< 24) ||| (fp[17].toUInt32 <<< 16) ||| (fp[18].toUInt32 <<< 8) |||
    fp[19].toUInt32
  let v := word >>> 2
  Vector.ofFn fun i =>
    if i.val < 6 then
      crockford.getD ((v >>> (25 - 5 * UInt32.ofNat i.val)) &&& 31).toNat 0
    else
      0

/-- `fingerprint::tag_chars`. -/
def Fingerprint.tagChars (fp : Fingerprint) : Vector UInt8 7 := tagOf fp.bytes

/-- `struct layout`. -/
structure Layout where
  mode : Mode
  cells : Vector Cell 16
  paletteRgb : Vector UInt32 4
  frameRgb : UInt32
  deriving DecidableEq

/-- `describe`. -/
def describe (fp : Fingerprint) : Layout :=
  { mode := fp.mode
    cells := if fp.empty then Vector.replicate 16 ⟨.none, 0⟩ else cellsOf fp.bytes
    paletteRgb := Vector.ofFn fun i => rgbWord (palette.get i)
    frameRgb := rgbWord frameColour }

/-! ### The cells of a fingerprint -/

/-- A figure that has a name. -/
def Figure.Named : Figure → Prop
  | .unknown _ _ => False
  | _ => True

/-- A cell as a fingerprint gives it: a named figure in a palette colour, colour 0 where it is
empty. -/
structure Cell.WellFormed (c : Cell) : Prop where
  named : c.figure.Named
  colour_lt : c.colour.toNat < 4
  colour_eq_zero : c.figure = .none → c.colour = 0

theorem figureTable_named (i : ℕ) (hi : i < 8) : figureTable[i].Named := by
  match i with
  | 0 | 1 | 2 | 3 | 4 | 5 | 6 | 7 => exact trivial

theorem cellOf_wellFormed (b : UInt8) : (cellOf b).WellFormed where
  named := figureTable_named _ (shiftRight_five_lt b)
  colour_lt := by
    rw [cellOf]
    dsimp only
    split
    · decide
    · exact and_three_lt _
  colour_eq_zero := fun h => if_pos h

theorem cellsOf_wellFormed (fp : Vector UInt8 32) (i : Fin 16) :
    ((cellsOf fp).get i).WellFormed := by
  have h : ((cellsOf fp).get i) = cellOf fp[i] := Vector.getElem_ofFn ..
  rw [h]
  exact cellOf_wellFormed _

end HumanizedHash
