import Mathlib.Data.Nat.Notation
import Mathlib.Tactic.SplitIfs
import Mathlib.Logic.Function.Basic

/-!
# Types of the public interface

The enumerations and the plain structures of `include/hh`. An enumeration with a fixed underlying
type can hold any byte in C++; where a byte comes from outside, the bytes without a name are kept
as `unknown`, with the proof that they have no name, so that every byte has exactly one value.

## Main definitions

* `ErrorCode`, `ErrorCode.code`.
* `Mode`, `Figure`, `ImageShape`, `FrameStyle`, with `toByte` and `ofByte`.
* `Rgb`, `Cell`, `RenderOptions`.
* `ByteView`: bytes that the caller owns, or a window of the object that is written.

## Main results

* `Mode.toByte_ofByte`, `ImageShape.toByte_ofByte`, `FrameStyle.toByte_ofByte`.

## References

* `src/include/hh/error.hpp`, `src/include/hh/types.hpp`, `src/include/hh/fingerprint.hpp`,
  `src/include/hh/image.hpp`.
-/

namespace HumanizedHash

/-! ### Error codes -/

/-- `enum class error_code`. -/
inductive ErrorCode
  | ok
  | emptyInput
  | inputTooLarge
  | invalidHex
  | invalidKey
  | invalidDigest
  | invalidFingerprint
  | invalidSize
  | invalidFrame
  | lowContrast
  | invalidQuality
  | invalidImage
  | bufferTooSmall
  | outOfMemory
  | invalidArgument
  deriving DecidableEq, Repr

/-- The number of a code in the C interface. -/
def ErrorCode.code : ErrorCode → Int
  | ok => 0
  | emptyInput => 1
  | inputTooLarge => 2
  | invalidHex => 3
  | invalidKey => 4
  | invalidDigest => 5
  | invalidFingerprint => 6
  | invalidSize => 7
  | invalidFrame => 8
  | lowContrast => 9
  | invalidQuality => 10
  | invalidImage => 11
  | bufferTooSmall => 12
  | outOfMemory => 13
  | invalidArgument => 14

/-- Different codes have different numbers. -/
theorem ErrorCode.code_injective : Function.Injective ErrorCode.code := by
  intro a b h
  cases a <;> cases b <;> first | rfl | exact absurd h (by decide)

/-! ### Enumerations over a byte -/

/-- `enum class mode`. -/
inductive Mode
  | universal
  | keyed
  | unknown (b : UInt8) (h : b ≠ 1 ∧ b ≠ 2)
  deriving DecidableEq

namespace Mode

def toByte : Mode → UInt8
  | universal => 1
  | keyed => 2
  | unknown b _ => b

def ofByte (b : UInt8) : Mode :=
  if h₁ : b = 1 then universal
  else if h₂ : b = 2 then keyed
  else unknown b ⟨h₁, h₂⟩

@[simp] theorem toByte_ofByte (b : UInt8) : (ofByte b).toByte = b := by
  unfold ofByte
  split_ifs with h₁ h₂
  · exact h₁.symm
  · exact h₂.symm
  · rfl

end Mode

/-- `enum class figure`. -/
inductive Figure
  | none
  | square
  | circle
  | triangleUp
  | triangleRight
  | triangleDown
  | triangleLeft
  | unknown (b : UInt8) (h : 6 < b)
  deriving DecidableEq

def Figure.toByte : Figure → UInt8
  | none => 0
  | square => 1
  | circle => 2
  | triangleUp => 3
  | triangleRight => 4
  | triangleDown => 5
  | triangleLeft => 6
  | unknown b _ => b

/-- `enum class image_shape`. -/
inductive ImageShape
  | square
  | round
  | unknown (b : UInt8) (h : 1 < b)
  deriving DecidableEq

namespace ImageShape

def toByte : ImageShape → UInt8
  | square => 0
  | round => 1
  | unknown b _ => b

def ofByte (b : UInt8) : ImageShape :=
  if b = 0 then square
  else if b = 1 then round
  else if h : 1 < b then unknown b h
  else square

@[simp] theorem toByte_ofByte (b : UInt8) : (ofByte b).toByte = b := by
  unfold ofByte
  split_ifs with h₀ h₁ h
  · exact h₀.symm
  · exact h₁.symm
  · rfl
  · rw [← UInt8.toNat_inj] at h₀ h₁
    rw [UInt8.lt_iff_toNat_lt] at h
    simp only [UInt8.toNat_ofNat] at h₀ h₁ h
    omega

end ImageShape

/-- `enum class frame_style`. -/
inductive FrameStyle
  | automatic
  | none
  | plain
  | rounded
  | chamfered
  | doubleLine
  | thick
  | brackets
  | ticks
  | gaps
  | unknown (b : UInt8) (h : 9 < b)
  deriving DecidableEq

namespace FrameStyle

def toByte : FrameStyle → UInt8
  | automatic => 0
  | none => 1
  | plain => 2
  | rounded => 3
  | chamfered => 4
  | doubleLine => 5
  | thick => 6
  | brackets => 7
  | ticks => 8
  | gaps => 9
  | unknown b _ => b

def ofByte (b : UInt8) : FrameStyle :=
  if h : 9 < b then unknown b h
  else match b with
    | 0 => automatic
    | 1 => none
    | 2 => plain
    | 3 => rounded
    | 4 => chamfered
    | 5 => doubleLine
    | 6 => thick
    | 7 => brackets
    | 8 => ticks
    | _ => gaps

/-- The bytes that name a style. -/
theorem eq_of_not_lt {b : UInt8} (h : ¬ 9 < b) :
    b = 0 ∨ b = 1 ∨ b = 2 ∨ b = 3 ∨ b = 4 ∨ b = 5 ∨ b = 6 ∨ b = 7 ∨ b = 8 ∨ b = 9 := by
  simp only [← UInt8.toNat_inj, UInt8.lt_iff_toNat_lt, UInt8.toNat_ofNat] at h ⊢
  omega

@[simp] theorem toByte_ofByte (b : UInt8) : (ofByte b).toByte = b := by
  by_cases h : 9 < b
  · rw [ofByte, dif_pos h, toByte]
  · rcases eq_of_not_lt h with rfl | rfl | rfl | rfl | rfl | rfl | rfl | rfl | rfl | rfl <;> rfl

end FrameStyle

/-! ### Structures -/

/-- `struct rgb`. -/
structure Rgb where
  r : UInt8
  g : UInt8
  b : UInt8
  deriving DecidableEq, Repr

/-- `struct cell`. -/
structure Cell where
  figure : Figure
  colour : UInt8
  deriving DecidableEq

/-- `struct render_options`, with its default values. -/
structure RenderOptions where
  shape : ImageShape := .square
  frame : FrameStyle := .automatic
  background : Rgb := ⟨255, 255, 255⟩
  backgroundAlpha : UInt8 := 255
  frameAlpha : UInt8 := 255
  deriving DecidableEq

/-- `struct byte_view`: a null pointer with a size, bytes outside the object that is written, or
`size` bytes of that object's own 32 bytes. -/
inductive ByteView
  | null (size : ℕ)
  | external (bytes : List UInt8)
  | window (offset size : ℕ) (h : offset + size ≤ 32)

namespace ByteView

/-- `view.size`. -/
def size : ByteView → ℕ
  | null size => size
  | external bytes => bytes.length
  | window _ size _ => size

/-- `view.data == nullptr`. -/
def isNull : ByteView → Bool
  | null _ => true
  | _ => false

/-- The bytes that the view shows while the object that is written holds the bytes `storage`. -/
def load (storage : Vector UInt8 32) : ByteView → List UInt8
  | null _ => []
  | external bytes => bytes
  | window offset size _ => (storage.toList.drop offset).take size

end ByteView

end HumanizedHash
