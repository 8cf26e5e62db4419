import HumanizedHash.Hashing.Sha256Absorption

/-!
# HMAC-SHA-256 from mid-states

The object of `src/hmac.cpp` absorbs the padded key by two raw compressions when it is made and
keeps the two mid-states; the inner hasher is resumed from one of them with a length of one
block, the outer hasher from the other when the tag is computed. It is compared with RFC 2104,
where both hashes start from the padded key as a string.

## Main definitions

* `HmacSha256`, `HmacSha256.update`, `HmacSha256.finish`, `hmacSha256Tag`.
* `Rfc2104.hmac`: the HMAC of RFC 2104 over the hash of FIPS 180-4.
* `HmacSha256.Keyed`: the key and the message that an object stands for.

## Main results

* `HmacSha256.keyed_new`, `HmacSha256.Keyed.update`, `HmacSha256.finish_of_keyed`.
* `hmacSha256Tag_eq_rfc`: the one-shot form.

## References

* `src/src/hmac.hpp`, `src/src/hmac.cpp`.
-/

namespace HumanizedHash

open BlockFold Storage

/-! ### The object -/

/-- `absorb_padded_key`: the mid-state after the padded key. -/
def absorbPaddedKey (keyBlock : Vector UInt8 64) (pad : UInt8) : Sha256State :=
  sha256Compress sha256InitialState (keyBlock.map (· ^^^ pad)).toList

/-- `class hmac_sha256`. -/
structure HmacSha256 where
  innerState : Sha256State
  outerState : Sha256State
  inner : Sha256

namespace HmacSha256

/-- The key as one block: a key longer than a block is hashed, a shorter one padded with zeros. -/
def keyBlock (key : List UInt8) : Vector UInt8 64 :=
  let block := Vector.replicate 64 0
  if sha256BlockSize < key.length then
    copyInto block 0 (Sha256.new.update key).finish.1.toList
  else if key.length ≠ 0 then
    copyInto block 0 key
  else
    block

/-- The constructor. -/
def new (key : List UInt8) : HmacSha256 :=
  let innerState := absorbPaddedKey (keyBlock key) 0x36
  let outerState := absorbPaddedKey (keyBlock key) 0x5C
  { innerState := innerState, outerState := outerState
    inner := Sha256.resume innerState (UInt64.ofNat sha256BlockSize) }

/-- `update`. -/
def update (mac : HmacSha256) (data : List UInt8) : HmacSha256 :=
  { mac with inner := mac.inner.update data }

/-- `finish`: the tag and the object that is left. -/
def finish (mac : HmacSha256) : Sha256Digest × HmacSha256 :=
  let (innerDigest, inner) := mac.inner.finish
  let outer := Sha256.resume mac.outerState (UInt64.ofNat sha256BlockSize)
  ((outer.update innerDigest.toList).finish.1, { mac with inner := inner })

end HmacSha256

/-- `hmac_sha256_tag`, the one-shot form. -/
def hmacSha256Tag (key data : List UInt8) : Sha256Digest :=
  ((HmacSha256.new key).update data).finish.1

/-! ### The HMAC of RFC 2104 -/

namespace Rfc2104

/-- The key, hashed if it is longer than a block, padded with zeros to one block. -/
def paddedKey (key : List UInt8) : List UInt8 :=
  let k := if sha256BlockSize < key.length then (Fips.sha256 key).toList else key
  k ++ List.replicate (sha256BlockSize - k.length) 0

/-- The padded key combined with a pad byte. -/
def xorPad (key : List UInt8) (pad : UInt8) : List UInt8 :=
  (paddedKey key).map (· ^^^ pad)

/-- `H(K XOR opad, H(K XOR ipad, text))`. -/
def hmac (key text : List UInt8) : Sha256Digest :=
  Fips.sha256 (xorPad key 0x5C ++ (Fips.sha256 (xorPad key 0x36 ++ text)).toList)

theorem length_paddedKey (key : List UInt8) : (paddedKey key).length = sha256BlockSize := by
  unfold paddedKey
  by_cases h : sha256BlockSize < key.length
  · simp only [if_pos h, List.length_append, Vector.length_toList, List.length_replicate]
    rfl
  · simp only [if_neg h, List.length_append, List.length_replicate]
    omega

theorem length_xorPad (key : List UInt8) (pad : UInt8) :
    (xorPad key pad).length = sha256BlockSize := by
  rw [xorPad, List.length_map, length_paddedKey]

end Rfc2104

/-! ### The mid-states are those of RFC 2104 -/

/-- A list copied to the start of a block of zeros is the list padded with zeros. -/
theorem toList_copyInto_replicate (k : List UInt8) (hk : k.length ≤ sha256BlockSize) :
    (copyInto (Vector.replicate 64 (0 : UInt8)) 0 k).toList =
      k ++ List.replicate (sha256BlockSize - k.length) 0 := by
  have hfront := take_copyInto (Vector.replicate 64 (0 : UInt8)) 0 k
    (by rwa [Nat.zero_add])
  have hback := drop_copyInto_of_le (Vector.replicate 64 (0 : UInt8)) 0 k
    (Nat.le_of_eq (Nat.zero_add _))
  rw [Nat.zero_add, List.take_zero, List.nil_append] at hfront
  rw [← List.take_append_drop k.length (copyInto _ 0 k).toList, hfront, hback,
    Vector.toList_replicate, List.drop_replicate]
  rfl

/-- The key block of the constructor is the padded key. -/
theorem HmacSha256.toList_keyBlock (key : List UInt8) :
    (keyBlock key).toList = Rfc2104.paddedKey key := by
  unfold keyBlock Rfc2104.paddedKey
  by_cases hlong : sha256BlockSize < key.length
  · have hdigest : (Fips.sha256 key).toList.length ≤ sha256BlockSize := by
      rw [Vector.length_toList]
      decide
    simp only [if_pos hlong]
    rw [Sha256.finish_of_absorbed (Sha256.absorbed_new.update key), List.nil_append,
      toList_copyInto_replicate _ hdigest]
  · simp only [if_neg hlong]
    by_cases hnil : key.length = 0
    · rw [if_neg (not_not.mpr hnil), List.length_eq_zero_iff.mp hnil]
      rfl
    · rw [if_pos hnil]
      exact toList_copyInto_replicate key (not_lt.mp hlong)

/-- The mid-state after the padded key. -/
theorem absorbPaddedKey_eq (key : List UInt8) (pad : UInt8) :
    absorbPaddedKey (HmacSha256.keyBlock key) pad =
      (absorb sha256BlockSize sha256Compress sha256InitialState (Rfc2104.xorPad key pad)).1 := by
  rw [absorb_single sha256BlockSize_pos _ (Rfc2104.length_xorPad key pad), absorbPaddedKey,
    Rfc2104.xorPad, Vector.toList_map, HmacSha256.toList_keyBlock]

namespace HmacSha256

/-- A hasher resumed from the mid-state after the padded key stands for the padded key. -/
theorem absorbed_resume_xorPad (key : List UInt8) (pad : UInt8) :
    (Sha256.resume (absorbPaddedKey (keyBlock key) pad)
      (UInt64.ofNat sha256BlockSize)).Absorbed (Rfc2104.xorPad key pad) := by
  have hlen := Rfc2104.length_xorPad key pad
  have h := Sha256.absorbed_resume (p := Rfc2104.xorPad key pad) (Dvd.intro 1 (by rw [hlen]; rfl))
  rwa [hlen, ← absorbPaddedKey_eq] at h

/-- The object `mac` stands for the key `key` and the message `m`. -/
structure Keyed (mac : HmacSha256) (key m : List UInt8) : Prop where
  innerState_eq : mac.innerState = absorbPaddedKey (keyBlock key) 0x36
  outerState_eq : mac.outerState = absorbPaddedKey (keyBlock key) 0x5C
  absorbed : mac.inner.Absorbed (Rfc2104.xorPad key 0x36 ++ m)

/-- A new object stands for its key and the empty message. -/
theorem keyed_new (key : List UInt8) : (new key).Keyed key [] where
  innerState_eq := rfl
  outerState_eq := rfl
  absorbed := by
    rw [List.append_nil]
    exact absorbed_resume_xorPad key 0x36

/-- One call of `update`; the mid-states stay what they are. -/
theorem Keyed.update {mac : HmacSha256} {key m : List UInt8} (hm : mac.Keyed key m)
    (data : List UInt8) : (mac.update data).Keyed key (m ++ data) where
  innerState_eq := hm.innerState_eq
  outerState_eq := hm.outerState_eq
  absorbed := by
    rw [← List.append_assoc]
    exact hm.absorbed.update data

/-- **The tag.** `finish` gives the HMAC of RFC 2104 of the message. -/
theorem finish_of_keyed {mac : HmacSha256} {key m : List UInt8} (hm : mac.Keyed key m) :
    mac.finish.1 = Rfc2104.hmac key m := by
  change ((Sha256.resume mac.outerState _).update mac.inner.finish.1.toList).finish.1 = _
  rw [Sha256.finish_of_absorbed hm.absorbed, hm.outerState_eq]
  exact Sha256.finish_of_absorbed ((absorbed_resume_xorPad key 0x5C).update _)

end HmacSha256

/-- **The one-shot form.** -/
theorem hmacSha256Tag_eq_rfc (key data : List UInt8) :
    hmacSha256Tag key data = Rfc2104.hmac key data :=
  HmacSha256.finish_of_keyed ((HmacSha256.keyed_new key).update data)

end HumanizedHash
