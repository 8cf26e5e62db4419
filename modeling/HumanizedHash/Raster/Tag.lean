import HumanizedHash.Foundations.ByteOrder
import HumanizedHash.Raster.Features

/-!
# The tag of a fingerprint

The tag is a text of six characters, the digits of a number of 30 bits in base 32. The number is in
the bytes 16 to 19 of the fingerprint, behind those of the cells, so the tag says nothing about the
cells and the cells say nothing about the tag.

## Main definitions

* `Fingerprint.tag`: the text.
* `tagBits`: the number in the bytes of a fingerprint.
* `readTag`: the number that a text of digits denotes.

## Main results

* `tag_eq_map`: the digits of the tag.
* `tag_exact`: the texts that are tags, and the fingerprints that share one.

## References

* `src/src/features.cpp`, `src/docs/SPEC.md`, section 5.3.
-/

namespace HumanizedHash

/-- `fingerprint::tag`: the characters in front of the first zero. -/
def Fingerprint.tag (fp : Fingerprint) : List UInt8 := fp.tagChars.toList.takeWhile (· ≠ 0)

/-- The 30 bits that the tag shows. -/
def tagBits (fp : Vector UInt8 32) : ℕ :=
  ByteOrder.ofBigEndian ((fp.toList.drop 16).take 4) / 4

/-- The number that digits of the alphabet denote. -/
def readTag (t : List UInt8) : ℕ := t.foldl (fun v c => v * 32 + crockford.idxOf c) 0

/-! ### The digits -/

/-- A word is put together from bytes without overlap. -/
theorem toNat_word (a b c d : UInt8) :
    ((a.toUInt32 <<< 24) ||| (b.toUInt32 <<< 16) ||| (c.toUInt32 <<< 8) ||| d.toUInt32).toNat =
      ByteOrder.ofBigEndian [a, b, c, d] := by
  have ha := a.toNat_lt
  have hb := b.toNat_lt
  have hc := c.toNat_lt
  have hd := d.toNat_lt
  have hshift (x : UInt8) {n : UInt32} {k : ℕ} (hk : n.toNat = k) (hle : k ≤ 24) :
      (x.toUInt32 <<< n).toNat = x.toNat <<< k := by
    have hx := x.toNat_lt
    have hpow : 2 ^ k ≤ 2 ^ 24 := Nat.pow_le_pow_right (by decide) hle
    have hprod := Nat.mul_le_mul (Nat.le_of_lt_succ hx) hpow
    rw [UInt32.toNat_shiftLeft, UInt8.toNat_toUInt32, hk, Nat.mod_eq_of_lt (show k < 32 by omega),
      Nat.shiftLeft_eq]
    exact Nat.mod_eq_of_lt (by omega)
  have hab : a.toNat <<< 24 ||| b.toNat <<< 16 = (a.toNat * 256 + b.toNat) <<< 16 := by
    rw [← Nat.shiftLeft_add_eq_or_of_lt (by rw [Nat.shiftLeft_eq]; omega)]
    simp only [Nat.shiftLeft_eq]
    omega
  have habc : (a.toNat * 256 + b.toNat) <<< 16 ||| c.toNat <<< 8 =
      ((a.toNat * 256 + b.toNat) * 256 + c.toNat) <<< 8 := by
    rw [← Nat.shiftLeft_add_eq_or_of_lt (by rw [Nat.shiftLeft_eq]; omega)]
    simp only [Nat.shiftLeft_eq]
    omega
  have hsum : ByteOrder.ofBigEndian [a, b, c, d] =
      ((a.toNat * 256 + b.toNat) * 256 + c.toNat) * 256 + d.toNat := by
    simp only [ByteOrder.ofBigEndian, List.foldl_cons, List.foldl_nil]
    omega
  rw [UInt32.toNat_or, UInt32.toNat_or, UInt32.toNat_or, hshift a (k := 24) rfl (by decide),
    hshift b (k := 16) rfl (by decide), hshift c (k := 8) rfl (by decide), UInt8.toNat_toUInt32,
    hab, habc, ← Nat.shiftLeft_add_eq_or_of_lt (show d.toNat < 2 ^ 8 from hd), Nat.shiftLeft_eq,
    hsum]

theorem ofBigEndian_lt (a b c d : UInt8) : ByteOrder.ofBigEndian [a, b, c, d] < 2 ^ 32 := by
  rw [← toNat_word]
  exact UInt32.toNat_lt _

theorem tagBits_eq (fp : Vector UInt8 32) :
    tagBits fp = ByteOrder.ofBigEndian [fp.get 16, fp.get 17, fp.get 18, fp.get 19] / 4 := by
  have hbytes : (fp.toList.drop 16).take 4 = [fp.get 16, fp.get 17, fp.get 18, fp.get 19] := by
    refine List.ext_getElem (by simp) fun i hi hi' => ?_
    have hcases : i = 0 ∨ i = 1 ∨ i = 2 ∨ i = 3 := by
      simp only [List.length_cons, List.length_nil] at hi'
      omega
    rcases hcases with rfl | rfl | rfl | rfl <;> simp <;> rfl
  rw [tagBits, hbytes]

theorem tagBits_lt (fp : Vector UInt8 32) : tagBits fp < 32 ^ 6 := by
  have hlt := ofBigEndian_lt (fp.get 16) (fp.get 17) (fp.get 18) (fp.get 19)
  rw [tagBits_eq]
  omega

/-- The characters of the alphabet are different, and none of them ends a string. -/
theorem crockford_digit : ∀ i < 32, crockford.getD i 0 ∈ crockford ∧ crockford.getD i 0 ≠ 0 ∧
    crockford.idxOf (crockford.getD i 0) = i := by
  decide

theorem getD_idxOf_crockford : ∀ c ∈ crockford, crockford.idxOf c < 32 ∧
    crockford.getD (crockford.idxOf c) 0 = c := by
  decide +kernel

/-- **The digits of the tag.** -/
theorem tag_eq_map (fp : Fingerprint) : fp.tag =
    (List.range 6).map fun i => crockford.getD (tagBits fp.bytes / 32 ^ (5 - i) % 32) 0 := by
  have hdigit (i : ℕ) (hi : i < 6) :
      ((((fp.bytes[16].toUInt32 <<< 24) ||| (fp.bytes[17].toUInt32 <<< 16) |||
        (fp.bytes[18].toUInt32 <<< 8) ||| fp.bytes[19].toUInt32) >>> 2) >>>
          (25 - 5 * UInt32.ofNat i) &&& 31).toNat = tagBits fp.bytes / 32 ^ (5 - i) % 32 := by
    have hplace : (25 - 5 * UInt32.ofNat i).toNat % 32 = 5 * (5 - i) :=
      have hall : ∀ i < 6, (25 - 5 * UInt32.ofNat i).toNat % 32 = 5 * (5 - i) := by decide
      hall i hi
    rw [UInt32.toNat_and, UInt32.toNat_shiftRight, UInt32.toNat_shiftRight, toNat_word, hplace,
      show (31 : UInt32).toNat = 2 ^ 5 - 1 from rfl, Nat.and_two_pow_sub_one_eq_mod,
      Nat.shiftRight_eq_div_pow, Nat.shiftRight_eq_div_pow, pow_mul, tagBits_eq]
    rfl
  have hchars : fp.tagChars.toList =
      ((List.range 6).map fun i => crockford.getD (tagBits fp.bytes / 32 ^ (5 - i) % 32) 0) ++
        [0] := by
    refine List.ext_getElem (by simp) fun i hi _ => ?_
    have hi : i < 7 := by simpa using hi
    rw [Vector.getElem_toList]
    simp only [Fingerprint.tagChars, tagOf, Vector.getElem_ofFn]
    obtain hlt | rfl := Nat.lt_succ_iff_lt_or_eq.mp hi
    · rw [if_pos hlt, List.getElem_append_left (by simpa using hlt), List.getElem_map,
        List.getElem_range, ← hdigit i hlt]
    · rw [if_neg (lt_irrefl 6), List.getElem_append_right (by simp)]
      simp
  have hall : ∀ c ∈ (List.range 6).map fun i =>
      crockford.getD (tagBits fp.bytes / 32 ^ (5 - i) % 32) 0, decide (c ≠ 0) = true := by
    intro c hc
    obtain ⟨i, -, rfl⟩ := List.mem_map.mp hc
    exact decide_eq_true (crockford_digit _ (Nat.mod_lt _ (by decide))).2.1
  rw [Fingerprint.tag, hchars, List.takeWhile_append_of_pos hall]
  exact List.append_nil _

theorem length_tag (fp : Fingerprint) : fp.tag.length = 6 := by
  rw [tag_eq_map, List.length_map, List.length_range]

theorem mem_crockford_of_mem_tag {fp : Fingerprint} {c : UInt8} (h : c ∈ fp.tag) :
    c ∈ crockford := by
  rw [tag_eq_map] at h
  obtain ⟨i, -, rfl⟩ := List.mem_map.mp h
  exact (crockford_digit _ (Nat.mod_lt _ (by decide))).1

/-! ### Reading a tag -/

/-- **A tag is read back.** -/
theorem readTag_tag (fp : Fingerprint) : readTag fp.tag = tagBits fp.bytes := by
  have hlt := tagBits_lt fp.bytes
  have hidx (n : ℕ) : crockford.idxOf (crockford.getD (n % 32) 0) = n % 32 :=
    (crockford_digit _ (Nat.mod_lt n (by decide))).2.2
  rw [tag_eq_map, readTag, List.foldl_map]
  simp only [hidx, show List.range 6 = [0, 1, 2, 3, 4, 5] from rfl, List.foldl_cons, List.foldl_nil]
  omega

theorem tag_eq_iff (a b : Fingerprint) : a.tag = b.tag ↔ tagBits a.bytes = tagBits b.bytes :=
  ⟨fun h => by rw [← readTag_tag, h, readTag_tag], fun h => by rw [tag_eq_map, h, ← tag_eq_map]⟩

/-- The fingerprint with other bytes 16 to 19. -/
def withTagWord (fp : Vector UInt8 32) (n : ℕ) : Vector UInt8 32 :=
  (((fp.setIfInBounds 16 (UInt8.ofNat (n / 2 ^ 24))).setIfInBounds 17
    (UInt8.ofNat (n / 2 ^ 16))).setIfInBounds 18 (UInt8.ofNat (n / 2 ^ 8))).setIfInBounds 19
      (UInt8.ofNat n)

theorem tagBits_withTagWord (fp : Vector UInt8 32) {n : ℕ} (h : n < 2 ^ 32) :
    tagBits (withTagWord fp n) = n / 4 := by
  have hbytes : ByteOrder.ofBigEndian [UInt8.ofNat (n / 2 ^ 24), UInt8.ofNat (n / 2 ^ 16),
      UInt8.ofNat (n / 2 ^ 8), UInt8.ofNat n] = n := by
    simp only [ByteOrder.ofBigEndian, List.foldl_cons, List.foldl_nil, UInt8.toNat_ofNat']
    omega
  have hget (v : Vector UInt8 32) (i : Fin 32) : v.get i = v[i] := rfl
  rw [tagBits_eq]
  simp only [withTagWord, hget, Fin.getElem_fin, Vector.getElem_setIfInBounds]
  exact congrArg (· / 4) hbytes

theorem cellsOf_withTagWord (fp : Vector UInt8 32) (n : ℕ) :
    cellsOf (withTagWord fp n) = cellsOf fp := by
  refine Vector.ext fun i hi => ?_
  rw [cellsOf, cellsOf, Vector.getElem_ofFn, Vector.getElem_ofFn]
  congr 1
  simp only [withTagWord, Fin.getElem_fin, Vector.getElem_setIfInBounds]
  rw [if_neg (by omega), if_neg (by omega), if_neg (by omega), if_neg (by omega)]

/-- Digits of the alphabet are those of the number that they denote. -/
theorem eq_map_readTag {t : List UInt8} (hlength : t.length = 6) (h : ∀ c ∈ t, c ∈ crockford) :
    readTag t < 32 ^ 6 ∧
      t = (List.range 6).map fun i => crockford.getD (readTag t / 32 ^ (5 - i) % 32) 0 := by
  match t, hlength with
  | [c₀, c₁, c₂, c₃, c₄, c₅], _ =>
    simp only [List.forall_mem_cons] at h
    obtain ⟨⟨h₀, e₀⟩, ⟨h₁, e₁⟩, ⟨h₂, e₂⟩, ⟨h₃, e₃⟩, ⟨h₄, e₄⟩, ⟨h₅, e₅⟩⟩ := And.intro
      (getD_idxOf_crockford c₀ h.1) <| And.intro (getD_idxOf_crockford c₁ h.2.1) <| And.intro
      (getD_idxOf_crockford c₂ h.2.2.1) <| And.intro (getD_idxOf_crockford c₃ h.2.2.2.1) <|
      And.intro (getD_idxOf_crockford c₄ h.2.2.2.2.1) (getD_idxOf_crockford c₅ h.2.2.2.2.2.1)
    simp only [readTag, List.foldl_cons, List.foldl_nil, show List.range 6 = [0, 1, 2, 3, 4, 5]
      from rfl, List.map_cons, List.map_nil, List.cons.injEq]
    generalize crockford.idxOf c₀ = d₀ at *
    generalize crockford.idxOf c₁ = d₁ at *
    generalize crockford.idxOf c₂ = d₂ at *
    generalize crockford.idxOf c₃ = d₃ at *
    generalize crockford.idxOf c₄ = d₄ at *
    generalize crockford.idxOf c₅ = d₅ at *
    subst e₀ e₁ e₂ e₃ e₄ e₅
    refine ⟨by omega, ?_, ?_, ?_, ?_, ?_, ?_, trivial⟩ <;> congr 1 <;> omega

/-- **Tags.** A tag has six characters of the alphabet and denotes 30 bits of the fingerprint, so
two fingerprints share a tag exactly if they share these bits. Every text of six characters of the
alphabet is the tag of a fingerprint with the cells and the mode of any given one. -/
theorem tag_exact :
    (∀ fp : Fingerprint, fp.tag.length = 6 ∧ (∀ c ∈ fp.tag, c ∈ crockford) ∧
      readTag fp.tag = tagBits fp.bytes) ∧
    (∀ a b : Fingerprint, a.tag = b.tag ↔ tagBits a.bytes = tagBits b.bytes) ∧
    ∀ t : List UInt8, t.length = 6 → (∀ c ∈ t, c ∈ crockford) → ∀ fp : Fingerprint,
      ∃ fp' : Fingerprint, fp'.tag = t ∧ describe fp' = describe fp := by
  refine ⟨fun fp => ⟨length_tag fp, fun _ => mem_crockford_of_mem_tag, readTag_tag fp⟩, tag_eq_iff,
    fun t hlength halphabet fp => ?_⟩
  obtain ⟨hlt, hdigits⟩ := eq_map_readTag hlength halphabet
  refine ⟨{ fp with bytes := withTagWord fp.bytes (4 * readTag t) }, ?_, ?_⟩
  · rw [tag_eq_map, tagBits_withTagWord _ (by omega), Nat.mul_div_cancel_left _ (by decide)]
    exact hdigits.symm
  · simp only [describe, cellsOf_withTagWord]
    rfl

end HumanizedHash
