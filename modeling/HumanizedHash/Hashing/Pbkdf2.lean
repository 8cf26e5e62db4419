import HumanizedHash.Hashing.Hmac

/-!
# PBKDF2 with two compressions an iteration

`pbkdf2_hmac_sha256` of `src/pbkdf2.cpp` computes the first `U` of every output block with the
HMAC object. From then on it never calls HMAC: every further `U` is the HMAC of a 32-byte
message, so each of the two hashes absorbs exactly one block after its mid-state, and the
terminator, the zeros and the length of that block are laid down once, before all output blocks.

It is compared with RFC 8018 section 5.2 over the HMAC of RFC 2104. The invariant of the loop is
that the bytes 32..63 of the shared block stay the padding of a message of 64 + 32 bytes
(`Pbkdf2.Holds`), across the iterations and across the output blocks, which overwrite the bytes
0..31 only.

## Main definitions

* `pbkdf2HmacSha256`.
* `Rfc8018.u`, `Rfc8018.t`, `Rfc8018.pbkdf2`.

## Main results

* `Pbkdf2.holds_iterate`: one iteration of the loop is one HMAC.
* `Pbkdf2.blocks_eq`: the loop over the output blocks.
* `pbkdf2HmacSha256_eq`: the output is that of RFC 8018.

## References

* `src/src/pbkdf2.cpp`.
-/

namespace HumanizedHash

open BlockFold Storage ByteOrder

/-! ### The function -/

namespace Pbkdf2

/-- The block that every `U_j`, `j ≥ 2`, is hashed in: the terminator after 32 bytes and the length
in bits of a message of 64 + 32 bytes. -/
def initialBlock : Vector UInt8 64 :=
  let bitLength := (sha256BlockSize + sha256DigestSize) * 8
  (((Vector.replicate 64 0).set 32 0x80).set 62 (UInt8.ofNat (bitLength >>> 8))).set 63
    (UInt8.ofNat bitLength)

/-- The bytes of `block_index`. -/
def indexBe (blockIndex : UInt32) : List UInt8 :=
  [(blockIndex >>> 24).toUInt8, (blockIndex >>> 16).toUInt8, (blockIndex >>> 8).toUInt8,
    blockIndex.toUInt8]

/-- One iteration of the inner loop, on the shared block and the sum `t`. -/
def iterate (prf : HmacSha256) (s : Vector UInt8 64 × Sha256Digest) :
    Vector UInt8 64 × Sha256Digest :=
  let block := copyInto s.1 0 (sha256Store (sha256Compress prf.innerState s.1.toList)).toList
  let block := copyInto block 0 (sha256Store (sha256Compress prf.outerState block.toList)).toList
  (block, Vector.ofFn fun k => s.2[k] ^^^ block[k])

/-- The body of the loop over the output blocks, up to the copy into the output. -/
def outputBlock (prf : HmacSha256) (salt : List UInt8) (iterations : UInt32)
    (blockIndex : UInt32) (block : Vector UInt8 64) : Vector UInt8 64 × Sha256Digest :=
  let first := (prf.update salt).update (indexBe blockIndex)
  let block := copyInto block 0 first.finish.1.toList
  let t : Sha256Digest := Vector.ofFn fun k => block[k]
  (iterate prf)^[iterations.toNat - 1] (block, t)

/-- The loop over the output blocks; `out` is what the output holds so far. -/
def blocks (prf : HmacSha256) (salt : List UInt8) (iterations : UInt32) (outSize : ℕ)
    (offset : ℕ) (blockIndex : UInt32) (block : Vector UInt8 64) (out : List UInt8) :
    List UInt8 :=
  if offset < outSize then
    let (block, t) := outputBlock prf salt iterations blockIndex block
    let take := min sha256DigestSize (outSize - offset)
    blocks prf salt iterations outSize (offset + sha256DigestSize) (blockIndex + 1) block
      (out ++ t.toList.take take)
  else
    out
termination_by outSize - offset
decreasing_by simp only [sha256DigestSize]; omega

end Pbkdf2

/-- `pbkdf2_hmac_sha256`: the bytes it writes. -/
def pbkdf2HmacSha256 (password salt : List UInt8) (iterations : UInt32) (outSize : ℕ) :
    List UInt8 :=
  Pbkdf2.blocks (HmacSha256.new password) salt iterations outSize 0 1 Pbkdf2.initialBlock []

/-! ### PBKDF2 of RFC 8018 -/

namespace Rfc8018

/-- `u P S i j` is `U_{j+1}` of the output block `i`: the first is the PRF of `S || INT(i)`, every
other the PRF of the one before it. -/
def u (password salt : List UInt8) (i : ℕ) : ℕ → Sha256Digest
  | 0 => Rfc2104.hmac password (salt ++ bigEndian 4 i)
  | j + 1 => Rfc2104.hmac password (u password salt i j).toList

/-- The exclusive-or of two octet strings. -/
def xor (a b : Sha256Digest) : Sha256Digest := Vector.zipWith (· ^^^ ·) a b

/-- `F(P, S, c, i) = U_1 xor U_2 xor ... xor U_c`. -/
def t (password salt : List UInt8) (c i : ℕ) : Sha256Digest :=
  (List.range' 1 (c - 1)).foldl (fun sum j => xor sum (u password salt i j)) (u password salt i 0)

/-- `T_i || T_{i+1} || ...`, `l` blocks. -/
def concat (password salt : List UInt8) (c i l : ℕ) : List UInt8 :=
  (List.range' i l).flatMap fun i => (t password salt c i).toList

/-- `PBKDF2(P, S, c, dkLen)`; no key is derived beyond `(2^32 - 1) * hLen` octets. -/
def pbkdf2 (password salt : List UInt8) (c dkLen : ℕ) : Option (List UInt8) :=
  if (2 ^ 32 - 1) * sha256DigestSize < dkLen then
    none
  else
    let l := (dkLen + (sha256DigestSize - 1)) / sha256DigestSize
    some ((concat password salt c 1 l).take dkLen)

end Rfc8018

/-! ### The iterations -/

namespace Pbkdf2

/-- The shared block holds the message `u` of 32 bytes and its padding behind a first block. -/
def Holds (block : Vector UInt8 64) (u : Sha256Digest) : Prop :=
  block.toList = u.toList ++ Fips.padding (sha256BlockSize + sha256DigestSize)

/-- The bytes of the shared block behind the message are the padding. -/
def Padded (block : Vector UInt8 64) : Prop :=
  block.toList.drop 32 = Fips.padding (sha256BlockSize + sha256DigestSize)

theorem padded_initialBlock : Padded initialBlock := by
  unfold Padded
  decide

theorem Holds.padded {block : Vector UInt8 64} {u : Sha256Digest} (h : Holds block u) :
    Padded block := by
  rw [Padded, h, List.drop_left' Vector.length_toList]

/-- A digest written to the start of the block becomes its message. -/
theorem holds_copyInto {block : Vector UInt8 64} (h : Padded block) (u : Sha256Digest) :
    Holds (copyInto block 0 u.toList) u := by
  have hlen : 0 + u.toList.length = 32 := by rw [Vector.length_toList]
  have hfront := take_copyInto block 0 u.toList (by omega)
  have hback := drop_copyInto_of_le block 0 u.toList (Nat.le_of_eq hlen)
  rw [hlen, List.take_zero, List.nil_append] at hfront
  rw [Holds, ← List.take_append_drop 32 (copyInto block 0 u.toList).toList, hfront, hback, h]

/-- The message of the block, byte by byte. -/
theorem Holds.ofFn_eq {block : Vector UInt8 64} {u : Sha256Digest} (h : Holds block u) :
    (Vector.ofFn fun k : Fin 32 => block[k]) = u := by
  have hb := h
  ext k hk : 1
  have hk' : k < u.toList.length := by rwa [Vector.length_toList]
  have hk'' : k < block.toList.length := by rw [Vector.length_toList]; omega
  have hget : block.toList[k] = u.toList[k] := by
    rw [List.getElem_of_eq hb, List.getElem_append_left hk']
  simpa only [Vector.getElem_ofFn, Fin.getElem_fin, Vector.getElem_toList] using hget

/-- One compression of the shared block after the mid-state of a padded key is the whole hash of
the padded key and the message. -/
theorem sha256Store_compress (key : List UInt8) (pad : UInt8) {block : Vector UInt8 64}
    {u : Sha256Digest} (h : Holds block u) :
    sha256Store (sha256Compress (absorbPaddedKey (HmacSha256.keyBlock key) pad) block.toList) =
      Fips.sha256 (Rfc2104.xorPad key pad ++ u.toList) := by
  have hlen : (Rfc2104.xorPad key pad ++ u.toList).length =
      sha256BlockSize + sha256DigestSize := by
    rw [List.length_append, Rfc2104.length_xorPad, Vector.length_toList]
    rfl
  have hblock : (Rfc2104.xorPad key pad ++ u.toList) ++
      Fips.padding (sha256BlockSize + sha256DigestSize) =
        Rfc2104.xorPad key pad ++ block.toList := by
    rw [h, List.append_assoc]
  rw [Fips.sha256, Fips.pad, hlen, hblock,
    absorb_append_of_dvd sha256BlockSize_pos _ (Dvd.intro 1 (by rw [Rfc2104.length_xorPad]; rfl)),
    ← absorbPaddedKey_eq, absorb_single sha256BlockSize_pos _ (length_block block)]

variable {prf : HmacSha256} {password : List UInt8}

/-- **One iteration.** The message of the block is replaced by its HMAC, which is added to the
sum. -/
theorem holds_iterate (hprf : prf.Keyed password []) {block : Vector UInt8 64}
    {u : Sha256Digest} (h : Holds block u) (t : Sha256Digest) :
    Holds (iterate prf (block, t)).1 (Rfc2104.hmac password u.toList) ∧
      (iterate prf (block, t)).2 = Rfc8018.xor t (Rfc2104.hmac password u.toList) := by
  have hinner := sha256Store_compress password 0x36 h
  rw [← hprf.innerState_eq] at hinner
  have hmid := holds_copyInto h.padded (Fips.sha256 (Rfc2104.xorPad password 0x36 ++ u.toList))
  have houter := sha256Store_compress password 0x5C hmid
  rw [← hprf.outerState_eq, ← hinner] at houter
  have hend : Holds (iterate prf (block, t)).1 (Rfc2104.hmac password u.toList) := by
    simp only [iterate]
    rw [houter, hinner]
    exact holds_copyInto hmid.padded _
  refine ⟨hend, Vector.ext fun k hk => ?_⟩
  have hk' : (iterate prf (block, t)).1[k] = (Rfc2104.hmac password u.toList)[k] := by
    simpa only [Vector.getElem_ofFn, Fin.getElem_fin] using
      congrArg (fun v : Sha256Digest => v[k]) hend.ofFn_eq
  rw [Rfc8018.xor, Vector.getElem_zipWith, ← hk']
  simp only [iterate, Vector.getElem_ofFn, Fin.getElem_fin]

/-- All iterations of one output block. -/
theorem holds_iterate_iterate (hprf : prf.Keyed password []) (salt : List UInt8) (i : ℕ)
    {block : Vector UInt8 64} (h : Holds block (Rfc8018.u password salt i 0)) (n : ℕ) :
    Holds ((iterate prf)^[n] (block, Rfc8018.u password salt i 0)).1
        (Rfc8018.u password salt i n) ∧
      ((iterate prf)^[n] (block, Rfc8018.u password salt i 0)).2 =
        Rfc8018.t password salt (n + 1) i := by
  induction n with
  | zero => exact ⟨h, rfl⟩
  | succ n ih =>
    obtain ⟨hblock, hsum⟩ := ih
    rw [Function.iterate_succ_apply']
    generalize (iterate prf)^[n] (block, Rfc8018.u password salt i 0) = s at hblock hsum
    obtain ⟨block', t⟩ := s
    obtain ⟨hblock', hsum'⟩ := holds_iterate hprf hblock t
    refine ⟨hblock', hsum'.trans ?_⟩
    have ht : t = Rfc8018.t password salt (n + 1) i := hsum
    rw [ht, Rfc8018.t, Rfc8018.t, Nat.add_sub_cancel, Nat.add_sub_cancel, List.range'_1_concat,
      List.foldl_append, List.foldl_cons, List.foldl_nil, Nat.add_comm 1 n]
    rfl

/-- **One output block.** Whatever message the shared block held before, the sum is `T_i`. -/
theorem outputBlock_spec (hprf : prf.Keyed password []) (salt : List UInt8)
    (iterations : UInt32) (i : ℕ) {block : Vector UInt8 64} (h : Padded block) :
    Padded (outputBlock prf salt iterations (UInt32.ofNat i) block).1 ∧
      (outputBlock prf salt iterations (UInt32.ofNat i) block).2 =
        Rfc8018.t password salt (max 1 iterations.toNat) i := by
  have hindex : indexBe (UInt32.ofNat i) = bigEndian 4 i := shiftRight_uint32_eq_bigEndian i
  have hfirst : ((prf.update salt).update (indexBe (UInt32.ofNat i))).finish.1 =
      Rfc8018.u password salt i 0 := by
    rw [HmacSha256.finish_of_keyed ((hprf.update salt).update _), hindex, List.nil_append,
      Rfc8018.u]
  have hblock := holds_copyInto h (Rfc8018.u password salt i 0)
  have hrun := holds_iterate_iterate hprf salt i hblock (iterations.toNat - 1)
  rw [show iterations.toNat - 1 + 1 = max 1 iterations.toNat by omega] at hrun
  simp only [outputBlock]
  rw [hfirst, hblock.ofFn_eq]
  exact ⟨hrun.1.padded, hrun.2⟩

/-- The blocks that remain start with the next one. -/
theorem concat_succ (salt : List UInt8) (c i l : ℕ) :
    Rfc8018.concat password salt c i (l + 1) =
      (Rfc8018.t password salt c i).toList ++ Rfc8018.concat password salt c (i + 1) l := by
  rw [Rfc8018.concat, Rfc8018.concat, List.range'_succ, List.flatMap_cons]

/-- **The loop over the output blocks.** What is still to be written is the rest of
`T_1 || T_2 || ...`, cut at the length of the output. -/
theorem blocks_eq (hprf : prf.Keyed password []) (salt : List UInt8) (iterations : UInt32)
    (outSize n : ℕ) {block : Vector UInt8 64} (h : Padded block) (out : List UInt8) :
    blocks prf salt iterations outSize (sha256DigestSize * n) (UInt32.ofNat (n + 1)) block out =
      out ++ (Rfc8018.concat password salt (max 1 iterations.toNat) (n + 1)
        ((outSize - sha256DigestSize * n + 31) / 32)).take (outSize - sha256DigestSize * n) := by
  induction hk : outSize - sha256DigestSize * n using Nat.strong_induction_on
    generalizing n block out with
  | _ k ih =>
    have hsucc : sha256DigestSize * (n + 1) = sha256DigestSize * n + 32 := rfl
    rw [blocks]
    by_cases hlt : sha256DigestSize * n < outSize
    · obtain ⟨hpad, hsum⟩ := outputBlock_spec hprf salt iterations (n + 1) h
      have hnext := ih (outSize - sha256DigestSize * (n + 1)) (by omega) (n + 1) hpad
        (out ++ (outputBlock prf salt iterations (UInt32.ofNat (n + 1)) block).2.toList.take
          (min sha256DigestSize (outSize - sha256DigestSize * n))) rfl
      have htake (t : Sha256Digest) : t.toList.take (min sha256DigestSize k) = t.toList.take k :=
        List.take_eq_take_iff.mpr (by simp only [Vector.length_toList, sha256DigestSize]; omega)
      rw [UInt32.ofNat_add (n + 1) 1] at hnext
      rw [if_pos hlt]
      refine hnext.trans ?_
      rw [hsum, hk, htake, List.append_assoc,
        show (k + 31) / 32 = (outSize - sha256DigestSize * (n + 1) + 31) / 32 + 1 by omega,
        concat_succ, List.take_append, Vector.length_toList,
        show outSize - sha256DigestSize * (n + 1) = k - 32 by omega]
    · rw [if_neg hlt, show k = 0 by omega, List.take_zero, List.append_nil]

end Pbkdf2

namespace Rfc8018

theorem length_concat (password salt : List UInt8) (c i l : ℕ) :
    (concat password salt c i l).length = sha256DigestSize * l := by
  induction l generalizing i with
  | zero => rfl
  | succ l ih =>
    rw [Pbkdf2.concat_succ, List.length_append, ih, Vector.length_toList, Nat.mul_succ,
      Nat.add_comm]
    rfl

/-- More blocks continue fewer. -/
theorem take_concat (password salt : List UInt8) (c i : ℕ) {n l l' : ℕ}
    (hn : n ≤ sha256DigestSize * l) (hl : l ≤ l') :
    (concat password salt c i l').take n = (concat password salt c i l).take n := by
  obtain ⟨k, rfl⟩ := Nat.exists_eq_add_of_le hl
  have hsplit : concat password salt c i (l + k) =
      concat password salt c i l ++ concat password salt c (i + l) k := by
    rw [concat, concat, concat, ← List.flatMap_append, List.range'_append_1]
  rw [hsplit, List.take_append_of_le_length (by rwa [length_concat])]

end Rfc8018

/-- The output is a cut of `T_1 || T_2 || ...`. -/
theorem pbkdf2HmacSha256_eq_take (password salt : List UInt8) (iterations : UInt32)
    (outSize : ℕ) :
    pbkdf2HmacSha256 password salt iterations outSize =
      (Rfc8018.concat password salt (max 1 iterations.toNat) 1 ((outSize + 31) / 32)).take
        outSize :=
  Pbkdf2.blocks_eq (HmacSha256.keyed_new password) salt iterations outSize 0
    Pbkdf2.padded_initialBlock []

/-- The output has the length that was asked for. -/
theorem length_pbkdf2HmacSha256 (password salt : List UInt8) (iterations : UInt32)
    (outSize : ℕ) : (pbkdf2HmacSha256 password salt iterations outSize).length = outSize := by
  rw [pbkdf2HmacSha256_eq_take, List.length_take, Rfc8018.length_concat, sha256DigestSize]
  omega

/-- A shorter output is a prefix of a longer one. -/
theorem pbkdf2HmacSha256_take (password salt : List UInt8) (iterations : UInt32) {n outSize : ℕ}
    (h : n ≤ outSize) :
    (pbkdf2HmacSha256 password salt iterations outSize).take n =
      pbkdf2HmacSha256 password salt iterations n := by
  have hn : n ≤ sha256DigestSize * ((n + 31) / 32) := by rw [sha256DigestSize]; omega
  rw [pbkdf2HmacSha256_eq_take, pbkdf2HmacSha256_eq_take, List.take_take, min_eq_left h,
    Rfc8018.take_concat _ _ _ _ hn (by omega)]

/-- **PBKDF2 of RFC 8018.** For every password, salt, iteration count (0 counting as 1) and every
output length that RFC 8018 allows, the bytes written are the derived key; they have the length
that was asked for, and every shorter output is a prefix of them. -/
theorem pbkdf2HmacSha256_eq_rfc8018 (password salt : List UInt8) (iterations : UInt32)
    (outSize : ℕ) (h : outSize ≤ 32 * (2 ^ 32 - 1)) :
    Rfc8018.pbkdf2 password salt (if iterations = 0 then 1 else iterations.toNat) outSize =
        some (pbkdf2HmacSha256 password salt iterations outSize) ∧
      (pbkdf2HmacSha256 password salt iterations outSize).length = outSize ∧
      ∀ shorter ≤ outSize, pbkdf2HmacSha256 password salt iterations shorter =
        (pbkdf2HmacSha256 password salt iterations outSize).take shorter := by
  have hcount : (if iterations = 0 then 1 else iterations.toNat) = max 1 iterations.toNat := by
    split
    · rename_i hzero
      rw [hzero]
      rfl
    · rename_i hne
      have hpos : iterations.toNat ≠ 0 := fun h0 => hne (UInt32.toNat_inj.mp h0)
      omega
  refine ⟨?_, length_pbkdf2HmacSha256 .., fun shorter hs => (pbkdf2HmacSha256_take _ _ _ hs).symm⟩
  rw [hcount, Rfc8018.pbkdf2, if_neg (by rw [sha256DigestSize]; omega), pbkdf2HmacSha256_eq_take]
  rfl

/-- An output that ends inside the second block, with one iteration more than the first. -/
theorem pbkdf2HmacSha256_eq_rfc8018_forty :
    Rfc8018.pbkdf2 [0x70] [0x73] 2 40 = some (pbkdf2HmacSha256 [0x70] [0x73] 2 40) :=
  (pbkdf2HmacSha256_eq_rfc8018 [0x70] [0x73] 2 40 (by decide)).1

end HumanizedHash
