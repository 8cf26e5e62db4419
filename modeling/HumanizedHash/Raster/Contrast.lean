import HumanizedHash.Types
import Mathlib.Data.Nat.Init
import Mathlib.Order.MinMax

/-!
# Colours and contrast

The fixed colours of the algorithm and the contrast rule in integer arithmetic. No intermediate
value of `luminance` and `contrastX100` reaches 2^41, so natural numbers stand for the 64-bit
ones.

## Main definitions

* `palette`, `frameColour`.
* `luminance`, `contrastX100`, `Rgb.over`, `figuresContrastX100`, `measureContrast`.

## Main results

* `Rgb.over_solid`: an opaque colour hides what is under it.
* `le_figuresContrastX100_iff`: the bound on the weakest colour is a bound on each of them.
* `palette_apart`, `apart_of_contrastX100`: how far the colours of a picture lie apart.

## References

* `src/src/palette.hpp`, `src/src/contrast.cpp`.
-/

namespace HumanizedHash

/-! ### Colours -/

/-- `palette`. -/
def palette : Vector Rgb 4 :=
  #v[⟨0x7A, 0x96, 0xC5⟩, ⟨0x89, 0x0A, 0xF0⟩, ⟨0xC1, 0x04, 0x45⟩, ⟨0xD4, 0x82, 0x00⟩]

/-- `frame_colour`. -/
def frameColour : Rgb := ⟨0x80, 0x80, 0x80⟩

/-! ### Luminance and contrast -/

set_option maxRecDepth 1100 in
/-- The transfer function of sRGB times 10^6. -/
def lin : List ℕ :=
  [0, 304, 607, 911, 1214, 1518, 1821, 2125, 2428, 2732, 3035, 3347, 3677, 4025, 4391, 4777,
    5182, 5605, 6049, 6512, 6995, 7499, 8023, 8568, 9134, 9721, 10330, 10960, 11612, 12286,
    12983, 13702, 14444, 15209, 15996, 16807, 17642, 18500, 19382, 20289, 21219, 22174, 23153,
    24158, 25187, 26241, 27321, 28426, 29557, 30713, 31896, 33105, 34340, 35601, 36889, 38204,
    39546, 40915, 42311, 43735, 45186, 46665, 48172, 49707, 51269, 52861, 54480, 56128, 57805,
    59511, 61246, 63010, 64803, 66626, 68478, 70360, 72272, 74214, 76185, 78187, 80220, 82283,
    84376, 86500, 88656, 90842, 93059, 95307, 97587, 99899, 102242, 104616, 107023, 109462,
    111932, 114435, 116971, 119538, 122139, 124772, 127438, 130136, 132868, 135633, 138432,
    141263, 144128, 147027, 149960, 152926, 155926, 158961, 162029, 165132, 168269, 171441,
    174647, 177888, 181164, 184475, 187821, 191202, 194618, 198069, 201556, 205079, 208637,
    212231, 215861, 219526, 223228, 226966, 230740, 234551, 238398, 242281, 246201, 250158,
    254152, 258183, 262251, 266356, 270498, 274677, 278894, 283149, 287441, 291771, 296138,
    300544, 304987, 309469, 313989, 318547, 323143, 327778, 332452, 337164, 341914, 346704,
    351533, 356400, 361307, 366253, 371238, 376262, 381326, 386429, 391572, 396755, 401978,
    407240, 412543, 417885, 423268, 428690, 434154, 439657, 445201, 450786, 456411, 462077,
    467784, 473531, 479320, 485150, 491021, 496933, 502886, 508881, 514918, 520996, 527115,
    533276, 539479, 545724, 552011, 558340, 564712, 571125, 577580, 584078, 590619, 597202,
    603827, 610496, 617207, 623960, 630757, 637597, 644480, 651406, 658375, 665387, 672443,
    679542, 686685, 693872, 701102, 708376, 715694, 723055, 730461, 737910, 745404, 752942,
    760525, 768151, 775822, 783538, 791298, 799103, 806952, 814847, 822786, 830770, 838799,
    846873, 854993, 863157, 871367, 879622, 887923, 896269, 904661, 913099, 921582, 930111,
    938686, 947307, 955973, 964686, 973445, 982251, 991102, 1000000]

/-- `lin[c]`. -/
def linOf (c : UInt8) : ℕ := lin.getD c.toNat 0

/-- The relative luminance times 10^10. -/
def luminance (c : Rgb) : ℕ :=
  2126 * linOf c.r + 7152 * linOf c.g + 722 * linOf c.b

/-- The contrast ratio times 100, rounded down. -/
def contrastX100 (a b : Rgb) : ℕ :=
  let ya := luminance a
  let yb := luminance b
  let hi := max ya yb + 500000000
  let lo := min ya yb + 500000000
  100 * hi / lo

/-- The colour `c` with alpha `a` laid over `under`. -/
def Rgb.over (c : Rgb) (a : UInt8) (under : Rgb) : Rgb :=
  let ch (top bottom : UInt8) : UInt8 :=
    UInt8.ofNat ((a.toNat * top.toNat + (255 - a.toNat) * bottom.toNat + 127) / 255)
  ⟨ch c.r under.r, ch c.g under.g, ch c.b under.b⟩

/-- The weakest palette colour against `background`. -/
def figuresContrastX100 (background : Rgb) : ℕ :=
  (palette.toList.drop 1).foldl (fun worst c => min worst (contrastX100 c background))
    (contrastX100 palette[0] background)

/-- `struct contrast_report`. -/
structure ContrastReport where
  figuresX100 : ℕ
  frameX100 : ℕ
  deriving DecidableEq

/-- `measure_contrast`. -/
def measureContrast (options : RenderOptions) (page : Rgb) : ContrastReport :=
  let seen := options.background.over options.backgroundAlpha page
  let frame := frameColour.over options.frameAlpha seen
  ⟨figuresContrastX100 seen, contrastX100 frame seen⟩

/-- An opaque colour hides what is under it. -/
theorem Rgb.over_solid (c under : Rgb) : c.over 255 under = c := by
  have hch (top bottom : UInt8) :
      UInt8.ofNat (((255 : UInt8).toNat * top.toNat +
        (255 - (255 : UInt8).toNat) * bottom.toNat + 127) / 255) = top := by
    have hmax : (255 : UInt8).toNat = 255 := rfl
    rw [hmax, Nat.sub_self, Nat.zero_mul,
      show (255 * top.toNat + 0 + 127) / 255 = top.toNat by omega, UInt8.ofNat_toNat]
  simp only [Rgb.over, hch]

/-- A bound on the weakest palette colour is a bound on each of them. -/
theorem le_figuresContrastX100_iff (n : ℕ) (background : Rgb) :
    n ≤ figuresContrastX100 background ↔
      ∀ i : Fin 4, n ≤ contrastX100 (palette.get i) background := by
  have hmin : figuresContrastX100 background =
      min (min (min (contrastX100 palette[0] background) (contrastX100 palette[1] background))
        (contrastX100 palette[2] background)) (contrastX100 palette[3] background) := by
    have hrest : palette.toList.drop 1 = [palette[1], palette[2], palette[3]] := rfl
    rw [figuresContrastX100, hrest, List.foldl_cons, List.foldl_cons, List.foldl_cons,
      List.foldl_nil]
  rw [hmin, le_min_iff, le_min_iff, le_min_iff]
  constructor
  · rintro ⟨⟨⟨h₀, h₁⟩, h₂⟩, h₃⟩ i
    match i with
    | 0 => exact h₀
    | 1 => exact h₁
    | 2 => exact h₂
    | 3 => exact h₃
  · intro h
    exact ⟨⟨⟨h 0, h 1⟩, h 2⟩, h 3⟩

/-! ### What enough contrast means -/

/-- Two channel values differ by at least `d`. -/
def Apart (d : ℕ) (a b : UInt8) : Prop :=
  a.toNat + d ≤ b.toNat ∨ b.toNat + d ≤ a.toNat

/-- Two colours differ by at least `d` in some channel. -/
def Rgb.Apart (d : ℕ) (a b : Rgb) : Prop :=
  HumanizedHash.Apart d a.r b.r ∨ HumanizedHash.Apart d a.g b.g ∨ HumanizedHash.Apart d a.b b.b

instance (d : ℕ) (a b : UInt8) : Decidable (Apart d a b) :=
  inferInstanceAs (Decidable (_ ∨ _))

instance (d : ℕ) (a b : Rgb) : Decidable (a.Apart d b) :=
  inferInstanceAs (Decidable (_ ∨ _))

/-- The palette colours differ from each other by more than half of the range of a channel. -/
theorem palette_apart (i j : Fin 4) (h : i ≠ j) : (palette.get i).Apart 126 (palette.get j) := by
  revert i j
  decide

theorem palette_le (i : Fin 4) :
    (palette.get i).r.toNat ≤ 250 ∧ (palette.get i).g.toNat ≤ 250 ∧
      (palette.get i).b.toNat ≤ 250 := by
  revert i
  decide

/-- The transfer function grows. -/
theorem lin_mono {i j : ℕ} (h : i ≤ j) (hj : j ≤ 255) : lin.getD i 0 ≤ lin.getD j 0 := by
  have hstep : ∀ k < 255, lin.getD k 0 ≤ lin.getD (k + 1) 0 := by decide +kernel
  induction j, h using Nat.le_induction with
  | base => exact le_rfl
  | succ k _ ih => exact (ih (by omega)).trans (hstep k (by omega))

/-- The luminance when every channel is moved by `move`. -/
def luminanceMoved (move : ℕ → ℕ) (c : Rgb) : ℕ :=
  2126 * lin.getD (move c.r.toNat) 0 + 7152 * lin.getD (move c.g.toNat) 0 +
    722 * lin.getD (move c.b.toNat) 0

/-- Moving every channel of a palette colour by 5 is not enough to halve or double its luminance,
each raised by that of the flare. -/
theorem palette_luminanceMoved (i : Fin 4) :
    luminanceMoved (· + 5) (palette.get i) + 500000000 <
        2 * (luminance (palette.get i) + 500000000) ∧
      luminance (palette.get i) + 500000000 <
        2 * (luminanceMoved (· - 5) (palette.get i) + 500000000) := by
  revert i
  decide +kernel

/-- The luminance of a colour that is nowhere 6 apart from another. -/
theorem luminance_of_not_apart {c b : Rgb} (h : ¬ c.Apart 6 b)
    (htop : c.r.toNat ≤ 250 ∧ c.g.toNat ≤ 250 ∧ c.b.toNat ≤ 250) :
    luminanceMoved (· - 5) c ≤ luminance b ∧ luminance b ≤ luminanceMoved (· + 5) c := by
  rw [Rgb.Apart, not_or, not_or] at h
  have hch (x y : UInt8) (hx : x.toNat ≤ 250)
      (hxy : ¬ HumanizedHash.Apart 6 x y) :
      lin.getD (x.toNat - 5) 0 ≤ linOf y ∧ linOf y ≤ lin.getD (x.toNat + 5) 0 := by
    have hy := y.toNat_lt
    rw [HumanizedHash.Apart] at hxy
    exact ⟨lin_mono (by omega) (by omega), lin_mono (by omega) (by omega)⟩
  have hr := hch c.r b.r htop.1 h.1
  have hg := hch c.g b.g htop.2.1 h.2.1
  have hb := hch c.b b.b htop.2.2 h.2.2
  simp only [luminanceMoved, luminance]
  omega

/-- A background that a palette colour has a contrast of at least 2:1 with differs from it by at
least 6 in some channel. -/
theorem apart_of_contrastX100 (i : Fin 4) {background : Rgb}
    (h : 200 ≤ contrastX100 (palette.get i) background) : (palette.get i).Apart 6 background := by
  by_contra hnear
  obtain ⟨hlow, hhigh⟩ := luminance_of_not_apart hnear (palette_le i)
  obtain ⟨hlight, hdark⟩ := palette_luminanceMoved i
  have hratio := (Nat.le_div_iff_mul_le (by omega)).mp h
  rcases Nat.le_total (luminance (palette.get i)) (luminance background) with hle | hle
  · rw [max_eq_right hle, min_eq_left hle] at hratio
    omega
  · rw [max_eq_left hle, min_eq_right hle] at hratio
    omega

end HumanizedHash
