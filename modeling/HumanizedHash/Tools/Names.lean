import HumanizedHash.Derivation.HexInput
import HumanizedHash.Foundations.Numerals
import HumanizedHash.Raster.Rasterise

/-!
# Names and numbers of the tools

The names of options in `tools/names.hpp`, the names of the errors, and the numbers of the command
line. Each parser accepts exactly the texts that its printer gives, hexadecimal digits in either
case and numbers with leading zeros besides.

## Main definitions

* `Tools.shapeName`, `Tools.parseShape`, `Tools.frameName`, `Tools.parseFrame`.
* `Tools.toHex`, `Tools.parseRgb`, `Tools.parseRgba`, `Tools.rgbText`, `Tools.rgbaText`.
* `Tools.parseNumber`.
* `ErrorCode.name`, `ErrorCode.message`.

## Main results

* `Tools.parseShape_eq_some_iff`, `Tools.parseFrame_eq_some_iff`.
* `Tools.fromHex_eq_iff`: the strings that denote given bytes.
* `Tools.parseNumber_eq_some_iff`: the numbers that are accepted, and their values.

## References

* `src/tools/names.hpp`, `src/examples/hh_cli.cpp`, `src/src/error.cpp`.
-/

namespace HumanizedHash

namespace Tools

/-- The bytes of an ASCII text. -/
def text (s : String) : List UInt8 := s.toList.map fun c => UInt8.ofNat c.toNat

end Tools

open Tools

/-- `error_name`. -/
def ErrorCode.name : ErrorCode → List UInt8
  | ok => text "ok"
  | emptyInput => text "empty_input"
  | inputTooLarge => text "input_too_large"
  | invalidHex => text "invalid_hex"
  | invalidKey => text "invalid_key"
  | invalidDigest => text "invalid_digest"
  | invalidFingerprint => text "invalid_fingerprint"
  | invalidSize => text "invalid_size"
  | invalidFrame => text "invalid_frame"
  | lowContrast => text "low_contrast"
  | invalidQuality => text "invalid_quality"
  | invalidImage => text "invalid_image"
  | bufferTooSmall => text "buffer_too_small"
  | outOfMemory => text "out_of_memory"
  | invalidArgument => text "invalid_argument"

/-- `error_message`. -/
def ErrorCode.message : ErrorCode → List UInt8
  | ok => text "success"
  | emptyInput => text "the input has no bytes"
  | inputTooLarge => text "the input is longer than 1048576 bytes"
  | invalidHex => text "the string is not an even number of hexadecimal digits"
  | invalidKey => text "the key must be 32 bytes that are not all zero"
  | invalidDigest => text "the base digest must be 32 bytes and must be set"
  | invalidFingerprint => text "the fingerprint must be 32 bytes with a known mode and must be set"
  | invalidSize => text "the image size must be 16..1024 and leave room for the cells"
  | invalidFrame => text "the frame style does not fit the shape"
  | lowContrast => text "the background is too close to a palette colour"
  | invalidQuality => text "the JPEG quality must be 50..100"
  | invalidImage => text "the image dimensions or its buffer length are invalid"
  | bufferTooSmall => text "the buffer cannot hold the result"
  | outOfMemory => text "an allocation failed"
  | invalidArgument => text "a null pointer or an unknown enumeration value"

namespace Tools

/-! ### The code -/

/-- `shape_name`. -/
def shapeName (s : ImageShape) : List UInt8 := if s = .round then text "round" else text "square"

/-- `parse_shape`. -/
def parseShape (name : List UInt8) : Option ImageShape :=
  if name = text "square" then some .square
  else if name = text "round" then some .round
  else none

/-- `frame_names`. -/
def frameNames : List (List UInt8) :=
  [text "automatic", text "none", text "plain", text "rounded", text "chamfered", text "double",
    text "thick", text "brackets", text "ticks", text "gaps"]

/-- `frame_name`, for a style that has a name. -/
def frameName (s : FrameStyle) : List UInt8 := frameNames.getD s.toByte.toNat []

/-- `parse_frame`: the first of the ten names that fits. -/
def parseFrame (name : List UInt8) : Option FrameStyle :=
  ((List.range 10).find? fun i => name = frameNames.getD i []).map
    fun i => FrameStyle.ofByte (UInt8.ofNat i)

/-- `mode_name`. -/
def modeName (m : Mode) : List UInt8 := if m = .keyed then text "keyed" else text "universal"

/-- A hexadecimal digit, `digits`. -/
def hexDigit (n : UInt8) : UInt8 := (text "0123456789abcdef").getD n.toNat 0

/-- `to_hex`. -/
def toHex (data : List UInt8) : List UInt8 :=
  data.flatMap fun b : UInt8 => [hexDigit (b >>> 4), hexDigit (b &&& 0x0F)]

/-- `parse_rgb`. -/
def parseRgb (text : List UInt8) : Option Rgb :=
  match HexTools.fromHex text with
  | (true, [r, g, b]) => some ⟨r, g, b⟩
  | _ => none

/-- `parse_rgba`: the colour and the alpha. -/
def parseRgba (text : List UInt8) : Option (Rgb × UInt8) :=
  match HexTools.fromHex text with
  | (true, [r, g, b, a]) => some (⟨r, g, b⟩, a)
  | _ => none

/-- `rgba_text`. -/
def rgbaText (c : Rgb) (alpha : UInt8) : List UInt8 := toHex [c.r, c.g, c.b, alpha]

/-- `rgb_text`. -/
def rgbText (c : Rgb) : List UInt8 := toHex [c.r, c.g, c.b]

/-- The loop of `parse_number` over the digits. -/
def parseDigits (v : UInt64) : List UInt8 → Option UInt64
  | [] => some v
  | c :: text =>
    if c < 0x30 ∨ 0x39 < c then none
    else parseDigits (v * 10 + (c - 0x30).toUInt64) text

/-- The value that a number of the command line is clamped to. -/
def maxNumber : UInt64 := 0x7FFFFFFF

/-- `parse_number`. -/
def parseNumber (text : List UInt8) : Option UInt32 :=
  if text = [] ∨ 10 < text.length then
    none
  else
    (parseDigits 0 text).map fun v => if maxNumber < v then maxNumber.toUInt32 else v.toUInt32

/-! ### Names -/

/-- The names that are accepted for a shape. -/
theorem parseShape_eq_some_iff {name : List UInt8} {s : ImageShape} :
    parseShape name = some s ↔ validShape s = true ∧ name = shapeName s := by
  have hround : text "round" ≠ text "square" := by decide
  constructor
  · intro h
    rw [parseShape] at h
    split_ifs at h with hs hr
    · exact Option.some.inj h ▸ ⟨rfl, hs⟩
    · exact Option.some.inj h ▸ ⟨rfl, hr⟩
  · rintro ⟨hs, rfl⟩
    cases s with
    | square => rfl
    | round => rfl
    | unknown b hb => exact absurd hs Bool.false_ne_true

/-- The names that are accepted for a frame style. -/
theorem parseFrame_eq_some_iff {name : List UInt8} {s : FrameStyle} :
    parseFrame name = some s ↔ validStyle s = true ∧ name = frameName s := by
  constructor
  · intro h
    obtain ⟨i, hi, rfl⟩ := Option.map_eq_some_iff.mp h
    have hfits := List.find?_some hi
    have hname : name = frameNames.getD i [] := of_decide_eq_true hfits
    have hlt : i < 10 := List.mem_range.mp (List.mem_of_find?_eq_some hi)
    subst hname
    clear hi h
    revert i
    decide
  · rintro ⟨hs, rfl⟩
    cases s with
    | unknown b hb =>
      have hle : b.toNat ≤ 9 := UInt8.le_iff_toNat_le.mp (of_decide_eq_true hs)
      exact absurd (UInt8.lt_iff_toNat_lt.mp hb) (not_lt.mpr hle)
    | _ => decide

/-- No two errors share a name. -/
theorem ErrorCode.name_injective : Function.Injective ErrorCode.name := by
  intro a b h
  cases a <;> cases b <;> first | rfl | exact absurd h (by decide)

/-! ### Hexadecimal text -/

theorem hexValue_hexDigit {n : UInt8} (h : n.toNat < 16) : hexValue (hexDigit n) = n.toNat := by
  have hall : ∀ n : Fin 16, hexValue (hexDigit (UInt8.ofNat n.val)) = n.val := by decide
  have hn := hall ⟨n.toNat, h⟩
  rwa [UInt8.ofNat_toNat] at hn

theorem toNat_shiftRight_four (b : UInt8) : (b >>> 4).toNat = b.toNat / 16 := by
  rw [UInt8.toNat_shiftRight]
  exact Nat.shiftRight_eq_div_pow b.toNat 4

theorem toNat_and_fifteen (b : UInt8) : (b &&& 0x0F).toNat = b.toNat % 16 := by
  rw [UInt8.toNat_and]
  exact Nat.and_two_pow_sub_one_eq_mod b.toNat 4

/-- **Bytes are read back.** -/
theorem decodePairs_toHex (data out : List UInt8) :
    HexTools.decodePairs (toHex data) out = (true, out ++ data) := by
  induction data generalizing out with
  | nil =>
    rw [toHex, List.flatMap_nil, List.append_nil]
    rfl
  | cons b data ih =>
    have hb := b.toNat_lt
    have hhi : HexTools.nibble (hexDigit (b >>> 4)) = (b.toNat / 16 : ℕ) := by
      rw [HexTools.nibble_eq, hexValue_hexDigit, toNat_shiftRight_four]
      rw [toNat_shiftRight_four]
      omega
    have hlo : HexTools.nibble (hexDigit (b &&& 0x0F)) = (b.toNat % 16 : ℕ) := by
      rw [HexTools.nibble_eq, hexValue_hexDigit, toNat_and_fifteen]
      rw [toNat_and_fifteen]
      exact Nat.mod_lt _ (by decide)
    have hbyte : UInt8.ofInt ((b.toNat / 16 : ℕ) * 16 + (b.toNat % 16 : ℕ)) = b := by
      have hsum : (((b.toNat / 16 : ℕ) * 16 + (b.toNat % 16 : ℕ) : ℤ) % 2 ^ 8).toNat = b.toNat := by
        omega
      rw [UInt8.ofInt, hsum, UInt8.ofNat_toNat]
    rw [toHex, List.flatMap_cons, ← toHex, List.cons_append, List.cons_append, List.nil_append,
      HexTools.decodePairs]
    rw [hhi, hlo, if_neg (by omega), ih, hbyte, List.append_assoc]
    rfl

theorem length_toHex (data : List UInt8) : (toHex data).length = 2 * data.length := by
  induction data with
  | nil => rw [toHex, List.flatMap_nil, List.length_nil, Nat.mul_zero]
  | cons b data ih =>
    rw [toHex, List.flatMap_cons, ← toHex, List.length_append, ih, List.length_cons]
    simp only [List.length_cons, List.length_nil]
    omega

theorem fromHex_toHex (data : List UInt8) : HexTools.fromHex (toHex data) = (true, data) := by
  rw [HexTools.fromHex, if_neg (by rw [length_toHex]; omega), decodePairs_toHex, List.nil_append]

/-- A digit in lower case is the digit of its value. -/
theorem lowerCase_eq_hexDigit {c : UInt8} (h : ¬ hexValue c < 0) :
    (hexValue c).toNat < 16 ∧ lowerCase c = hexDigit (UInt8.ofNat (hexValue c).toNat) := by
  have hall : ∀ n : Fin 256, ¬ hexValue (UInt8.ofNat n.val) < 0 →
      (hexValue (UInt8.ofNat n.val)).toNat < 16 ∧ lowerCase (UInt8.ofNat n.val) =
        hexDigit (UInt8.ofNat (hexValue (UInt8.ofNat n.val)).toNat) := by decide +kernel
  have hc := hall ⟨c.toNat, c.toNat_lt⟩
  rw [UInt8.ofNat_toNat] at hc
  exact hc h

/-- The two digits of a byte. -/
theorem toHex_pair {hi lo : ℕ} (hhi : hi < 16) (hlo : lo < 16) :
    [hexDigit (UInt8.ofNat (hi * 16 + lo) >>> 4), hexDigit (UInt8.ofNat (hi * 16 + lo) &&& 0x0F)] =
      [hexDigit (UInt8.ofNat hi), hexDigit (UInt8.ofNat lo)] := by
  have hsum : (UInt8.ofNat (hi * 16 + lo)).toNat = hi * 16 + lo := by
    rw [UInt8.toNat_ofNat']
    exact Nat.mod_eq_of_lt (by omega)
  have hhigh : UInt8.ofNat (hi * 16 + lo) >>> 4 = UInt8.ofNat hi := by
    rw [← UInt8.toNat_inj, toNat_shiftRight_four, hsum, UInt8.toNat_ofNat']
    omega
  have hlow : UInt8.ofNat (hi * 16 + lo) &&& 0x0F = UInt8.ofNat lo := by
    rw [← UInt8.toNat_inj, toNat_and_fifteen, hsum, UInt8.toNat_ofNat']
    omega
  rw [hhigh, hlow]

/-- What is decoded from pairs of digits, in lower case. -/
theorem map_lowerCase_of_decodePairs {hex out data : List UInt8} (heven : hex.length % 2 = 0)
    (h : HexTools.decodePairs hex out = (true, data)) :
    ∃ rest, data = out ++ rest ∧ hex.map lowerCase = toHex rest := by
  fun_induction HexTools.decodePairs hex out with
  | case1 c d hex out hi lo hneg => exact absurd (congrArg Prod.fst h) Bool.false_ne_true
  | case2 c d hex out hi lo hpos ih =>
    obtain ⟨rest, hdata, hrest⟩ := ih (by simp only [List.length_cons] at heven; omega) h
    obtain ⟨hhi, hlo⟩ := not_or.mp hpos
    obtain ⟨hhi16, hc⟩ := lowerCase_eq_hexDigit hhi
    obtain ⟨hlo16, hd⟩ := lowerCase_eq_hexDigit hlo
    have hbyte : UInt8.ofInt (hi * 16 + lo) =
        UInt8.ofNat ((hexValue c).toNat * 16 + (hexValue d).toNat) := by
      have hsum : ((hi * 16 + lo) % 2 ^ 8).toNat =
          ((hexValue c).toNat * 16 + (hexValue d).toNat) % 2 ^ 8 := by
        rw [show hi = hexValue c from rfl, show lo = hexValue d from rfl] at *
        omega
      rw [UInt8.ofInt, hsum, ← UInt8.toNat_inj, UInt8.toNat_ofNat', UInt8.toNat_ofNat', Nat.mod_mod]
    refine ⟨UInt8.ofInt (hi * 16 + lo) :: rest, ?_, ?_⟩
    · rw [hdata, List.append_assoc]
      rfl
    · rw [List.map_cons, List.map_cons, hrest, hc, hd, toHex, toHex, List.flatMap_cons, hbyte,
        toHex_pair hhi16 hlo16]
      rfl
  | case3 hex out hshort =>
    refine ⟨[], by rw [List.append_nil]; exact (congrArg Prod.snd h).symm, ?_⟩
    cases hex with
    | nil => rfl
    | cons c hex =>
      cases hex with
      | nil => exact absurd heven one_ne_zero
      | cons d hex => exact (hshort c d hex rfl).elim

/-- **The strings that denote given bytes.** -/
theorem fromHex_eq_iff {hex data : List UInt8} :
    HexTools.fromHex hex = (true, data) ↔ hex.map lowerCase = toHex data := by
  constructor
  · intro h
    rw [HexTools.fromHex] at h
    split_ifs at h with hodd
    · exact absurd (congrArg Prod.fst h) Bool.false_ne_true
    · obtain ⟨rest, hdata, hhex⟩ := map_lowerCase_of_decodePairs (not_not.mp hodd) h
      rw [hhex, hdata, List.nil_append]
  · intro h
    rw [← HexTools.fromHex_map_lowerCase, h, fromHex_toHex]

/-- The texts of a colour. -/
theorem parseRgb_eq_some_iff {text : List UInt8} {c : Rgb} :
    parseRgb text = some c ↔ text.map lowerCase = rgbText c := by
  rw [rgbText, ← fromHex_eq_iff, parseRgb]
  split
  · next r g b heq =>
    rw [heq, Option.some.injEq, Prod.mk.injEq, Rgb.mk.injEq, List.cons.injEq, List.cons.injEq,
      List.cons.injEq]
    tauto
  · next hne => exact iff_of_false (fun h => Option.noConfusion rfl (heq_of_eq h)) (hne _ _ _)

/-- The texts of a colour with an alpha. -/
theorem parseRgba_eq_some_iff {text : List UInt8} {c : Rgb} {alpha : UInt8} :
    parseRgba text = some (c, alpha) ↔ text.map lowerCase = rgbaText c alpha := by
  rw [rgbaText, ← fromHex_eq_iff, parseRgba]
  split
  · next r g b a heq =>
    rw [heq, Option.some.injEq, Prod.mk.injEq, Prod.mk.injEq, Rgb.mk.injEq, List.cons.injEq,
      List.cons.injEq, List.cons.injEq, List.cons.injEq]
    tauto
  · next hne => exact iff_of_false (fun h => Option.noConfusion rfl (heq_of_eq h)) (hne _ _ _ _)

theorem map_lowerCase_toHex (data : List UInt8) : (toHex data).map lowerCase = toHex data :=
  fromHex_eq_iff.mp (fromHex_toHex data)

theorem parseRgb_rgbText (c : Rgb) : parseRgb (rgbText c) = some c :=
  parseRgb_eq_some_iff.mpr (map_lowerCase_toHex _)

theorem parseRgba_rgbaText (c : Rgb) (alpha : UInt8) :
    parseRgba (rgbaText c alpha) = some (c, alpha) :=
  parseRgba_eq_some_iff.mpr (map_lowerCase_toHex _)

/-! ### Numbers -/

open Numerals

/-- Digits are read without overflow. -/
theorem parseDigits_eq {text : List UInt8} {v : UInt64} (h : ∀ c ∈ text, IsDigit c)
    (hv : (v.toNat + 1) * 10 ^ text.length ≤ 2 ^ 64) :
    ∃ w, parseDigits v text = some w ∧ w.toNat = valueFrom v.toNat text := by
  induction text generalizing v with
  | nil => exact ⟨v, rfl, rfl⟩
  | cons c text ih =>
    obtain ⟨hc, htext⟩ := List.forall_mem_cons.mp h
    have hpow : 1 ≤ 10 ^ text.length := Nat.one_le_pow _ _ (by decide)
    rw [List.length_cons, pow_succ'] at hv
    have hlt : (v.toNat + 1) * 10 ≤ 2 ^ 64 :=
      le_trans (le_trans (Nat.le_mul_of_pos_right _ hpow) (le_of_eq (Nat.mul_assoc _ _ _))) hv
    rw [isDigit_iff] at hc
    have hsub : (c - 0x30).toNat = c.toNat - 0x30 :=
      UInt8.toNat_sub_of_le c 0x30 (UInt8.le_iff_toNat_le.mpr hc.1)
    have hstep : (v * 10 + (c - 0x30).toUInt64).toNat = v.toNat * 10 + (c.toNat - 0x30) := by
      rw [UInt64.toNat_add, UInt64.toNat_mul, UInt8.toNat_toUInt64, hsub]
      simp only [UInt64.toNat_ofNat]
      omega
    have hnot : ¬(c < 0x30 ∨ 0x39 < c) := by
      simp only [UInt8.lt_iff_toNat_lt, UInt8.toNat_ofNat]
      omega
    rw [parseDigits, if_neg hnot]
    obtain ⟨w, hw, hval⟩ := ih htext (v := v * 10 + (c - 0x30).toUInt64) (by
      rw [hstep]
      refine le_trans (Nat.mul_le_mul_right _ (show _ ≤ (v.toNat + 1) * 10 by omega)) ?_
      rwa [Nat.mul_assoc])
    exact ⟨w, hw, hval.trans (congrArg (valueFrom · text) hstep)⟩

theorem isDigit_of_parseDigits {text : List UInt8} {v w : UInt64}
    (h : parseDigits v text = some w) : ∀ c ∈ text, IsDigit c := by
  induction text generalizing v with
  | nil => exact fun c hc => absurd hc List.not_mem_nil
  | cons c text ih =>
    rw [parseDigits] at h
    split_ifs at h with hc
    obtain ⟨hlo, hhi⟩ := not_or.mp hc
    exact List.forall_mem_cons.mpr ⟨⟨UInt8.not_lt.mp hlo, UInt8.not_lt.mp hhi⟩, ih h⟩

/-- **The numbers that are accepted**: one to ten digits. A value above `2 ^ 31 - 1` is clamped. -/
theorem parseNumber_eq_some_iff {text : List UInt8} {n : UInt32} :
    parseNumber text = some n ↔ (text ≠ [] ∧ text.length ≤ 10 ∧ ∀ c ∈ text, IsDigit c) ∧
      n.toNat = min (value text) 0x7FFFFFFF := by
  rw [parseNumber]
  split_ifs with hlen
  · refine iff_of_false id fun h => ?_
    rcases hlen with hnil | hlong
    · exact h.1.1 hnil
    · exact absurd h.1.2.1 (not_le.mpr hlong)
  obtain ⟨hne, hle⟩ := not_or.mp hlen
  by_cases hdigits : ∀ c ∈ text, IsDigit c
  · have hbound : ((0 : UInt64).toNat + 1) * 10 ^ text.length ≤ 2 ^ 64 := by
      rw [UInt64.toNat_zero, Nat.zero_add, Nat.one_mul]
      exact le_trans (Nat.pow_le_pow_right (by decide) (not_lt.mp hle)) (by decide)
    obtain ⟨w, hw, hval⟩ := parseDigits_eq hdigits hbound
    have hclamp : (if maxNumber < w then maxNumber.toUInt32 else w.toUInt32).toNat =
        min (value text) 0x7FFFFFFF := by
      have hmax : maxNumber.toNat = 0x7FFFFFFF := rfl
      rw [value, ← UInt64.toNat_zero, ← hval]
      split_ifs with hmore
      · rw [UInt64.lt_iff_toNat_lt, hmax] at hmore
        rw [Nat.min_eq_right hmore.le]
        rfl
      · rw [UInt64.lt_iff_toNat_lt, hmax, not_lt] at hmore
        rw [Nat.min_eq_left hmore, UInt64.toNat_toUInt32]
        exact Nat.mod_eq_of_lt (by omega)
    rw [hw, Option.map_some, Option.some.injEq, ← UInt32.toNat_inj, hclamp]
    exact ⟨fun h => ⟨⟨hne, not_lt.mp hle, hdigits⟩, h.symm⟩, fun h => h.2.symm⟩
  · refine iff_of_false (fun h => ?_) fun h => hdigits h.1.2.2
    obtain ⟨w, hw, -⟩ := Option.map_eq_some_iff.mp h
    exact hdigits (isDigit_of_parseDigits hw)

/-- A number below `2 ^ 31` is read back. -/
theorem parseNumber_numeral {n : UInt32} (h : n.toNat ≤ 0x7FFFFFFF) :
    parseNumber (numeral n.toNat) = some n := by
  refine parseNumber_eq_some_iff.mpr ⟨⟨numeral_ne_nil _, ?_, fun _ => isDigit_of_mem_numeral⟩, ?_⟩
  · exact length_numeral_le (by decide) (by omega)
  · rw [value_numeral, Nat.min_eq_left h]

/-- A byte is read back. -/
theorem parseNumber_numeral_byte (b : UInt8) :
    parseNumber (numeral b.toNat) = some b.toUInt32 ∧ ¬255 < b.toUInt32 ∧ b.toUInt32.toUInt8 = b := by
  have hlt := b.toNat_lt
  have hnat := UInt8.toNat_toUInt32 b
  refine ⟨?_, ?_, by simp⟩
  · rw [← hnat]
    exact parseNumber_numeral (by omega)
  · rw [UInt32.lt_iff_toNat_lt, hnat]
    exact not_lt.mpr (Nat.le_of_lt_succ hlt)

/-- A number that is kept as an integer is read back. -/
theorem parseNumber_numeral_nat {n : ℕ} (h : n ≤ 0x7FFFFFFF) :
    parseNumber (numeral n) = some (UInt32.ofNat n) ∧ (UInt32.ofNat n).toNat = n := by
  have hnat : (UInt32.ofNat n).toNat = n := by
    rw [UInt32.toNat_ofNat']
    exact Nat.mod_eq_of_lt (by omega)
  refine ⟨?_, hnat⟩
  conv_lhs => rw [← hnat]
  exact parseNumber_numeral (by rwa [hnat])

end Tools

end HumanizedHash
