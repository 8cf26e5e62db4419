import HumanizedHash.Hashing.Sha256

/-!
# The incremental hasher computes the hash of FIPS 180-4

The one-shot hash of FIPS 180-4 pads a message with a one bit, zeros and its length in bits, and
folds the compression function over the blocks of the padded message. The hasher of
`HumanizedHash.Hashing.Sha256` never sees the padded message: it keeps the chaining state after
the whole blocks and buffers the rest. `Sha256.Absorbed h m` says that the hasher `h` stands for
the message `m` in this sense. Every call of `update` keeps the relation, whatever the split of
the message, and `finish` turns it into the hash.

Lengths are kept modulo `2 ^ 64` bits, in the hasher and in the padding, so that no bound on the
length of the message is needed here; FIPS 180-4 defines the hash below that bound.

## Main definitions

* `Fips.pad`, `Fips.sha256`: the padding and the hash of FIPS 180-4.
* `Sha256.Absorbed`: the message a hasher stands for.

## Main results

* `Sha256.Absorbed.update`: one call of `update`, in all four of its phases.
* `Sha256.finish_of_absorbed`: `finish` gives the hash of the message.
* `Sha256.absorbed_resume`: a hasher resumed from a mid-state.
* `sha256Hash_eq_fips`: the one-shot form.
-/

namespace HumanizedHash

open BlockFold Storage ByteOrder

/-! ### The hash of FIPS 180-4 -/

namespace Fips

/-- The number of zero bytes between the terminator and the length. -/
def zeroPadding (length : ℕ) : ℕ := (119 - length % 64) % 64

/-- The padding of FIPS 180-4 section 5.1.1. -/
def padding (length : ℕ) : List UInt8 :=
  0x80 :: (List.replicate (zeroPadding length) 0 ++ bigEndian 8 (8 * length))

/-- The padded message. -/
def pad (m : List UInt8) : List UInt8 := m ++ padding m.length

/-- The hash of FIPS 180-4 section 6.2. -/
def sha256 (m : List UInt8) : Sha256Digest :=
  sha256Store (absorb sha256BlockSize sha256Compress sha256InitialState (pad m)).1

end Fips

/-! ### What a hasher stands for -/

namespace Sha256

/-- The hasher `h` stands for the message `m`: its state has absorbed the whole blocks of `m`,
its buffer starts with the rest, and its counter holds the length of `m`. -/
structure Absorbed (h : Sha256) (m : List UInt8) : Prop where
  absorb_eq : absorb sha256BlockSize sha256Compress sha256InitialState m =
    (h.state, h.buffer.toList.take h.buffered)
  length_eq : h.length = UInt64.ofNat m.length
  buffered_lt : h.buffered < sha256BlockSize

namespace Absorbed

variable {h : Sha256} {m : List UInt8}

/-- The buffer holds what is left over of the message. -/
theorem buffered_eq (hm : h.Absorbed m) : h.buffered = m.length % sha256BlockSize := by
  have hlen := length_snd_absorb (B := sha256BlockSize) (f := sha256Compress)
    sha256InitialState m
  have hlt : h.buffered < 64 := hm.buffered_lt
  rw [hm.absorb_eq, if_pos sha256BlockSize_pos, List.length_take, Vector.length_toList] at hlen
  omega

/-- Absorbing a longer message continues from the state and the buffer of the hasher. -/
theorem absorb_append_eq (hm : h.Absorbed m) (data : List UInt8) :
    absorb sha256BlockSize sha256Compress sha256InitialState (m ++ data) =
      absorb sha256BlockSize sha256Compress h.state
        (h.buffer.toList.take h.buffered ++ data) := by
  rw [absorb_append, hm.absorb_eq]

end Absorbed

/-- A fresh hasher stands for the empty message. -/
theorem absorbed_new : new.Absorbed [] where
  absorb_eq := absorb_of_length_lt _ sha256BlockSize_pos
  length_eq := rfl
  buffered_lt := sha256BlockSize_pos

/-- A hasher that was reset stands for the empty message. -/
theorem absorbed_reset (h : Sha256) : h.reset.Absorbed [] := absorbed_new

/-- A hasher resumed from the state after whole blocks stands for these blocks. -/
theorem absorbed_resume {p : List UInt8} (hp : sha256BlockSize ∣ p.length) :
    (resume (absorb sha256BlockSize sha256Compress sha256InitialState p).1
      (UInt64.ofNat p.length)).Absorbed p where
  absorb_eq := Prod.ext rfl (snd_absorb_of_dvd sha256BlockSize_pos _ hp)
  length_eq := rfl
  buffered_lt := sha256BlockSize_pos

/-! ### One call of `update` -/

/-- Whole blocks straight from the data, and the tail of the data into an empty buffer. -/
theorem updateBlocks_spec (h : Sha256) (data : List UInt8) (hb : h.buffered = 0) :
    let h' := h.updateBlocks data
    absorb sha256BlockSize sha256Compress h.state data =
        (h'.state, h'.buffer.toList.take h'.buffered) ∧
      h'.length = h.length ∧ h'.buffered < sha256BlockSize := by
  have hlt : (absorb sha256BlockSize sha256Compress h.state data).2.length < 64 :=
    length_snd_absorb_lt sha256BlockSize_pos h.state data
  unfold updateBlocks
  generalize absorb sha256BlockSize sha256Compress h.state data = r at hlt ⊢
  obtain ⟨state, tail⟩ := r
  dsimp only at hlt ⊢
  split
  · have htake := take_copyInto h.buffer 0 tail (by simpa only [Nat.zero_add] using hlt.le)
    rw [Nat.zero_add, List.take_zero, List.nil_append] at htake
    exact ⟨by rw [htake], rfl, hlt⟩
  · rename_i hnil
    rw [not_not, List.length_eq_zero_iff] at hnil
    exact ⟨by rw [hb, List.take_zero, hnil], rfl, hb ▸ sha256BlockSize_pos⟩

/-- **One call of `update`.** The hasher stands for the longer message afterwards. -/
theorem Absorbed.update {h : Sha256} {m : List UInt8} (hm : h.Absorbed m) (data : List UInt8) :
    (h.update data).Absorbed (m ++ data) := by
  have hbuf : h.buffered < 64 := hm.buffered_lt
  have hlength : h.length + UInt64.ofNat data.length = UInt64.ofNat (m ++ data).length := by
    rw [hm.length_eq, List.length_append, UInt64.ofNat_add]
  unfold Sha256.update
  split
  · rename_i hnil
    rwa [List.length_eq_zero_iff.mp hnil, List.append_nil]
  · dsimp only
    split
    · -- the buffer is topped up first
      set take := min data.length (sha256BlockSize - h.buffered) with htake
      have htake' : take = min data.length (64 - h.buffered) := htake
      have hfirst : (data.take take).length = take := List.length_take_of_le (by omega)
      have hcopy := take_copyInto h.buffer h.buffered (data.take take) (by omega)
      rw [hfirst] at hcopy
      split
      · rename_i hshort
        have hall : data.take take = data :=
          List.take_of_length_le (by change _ < 64 at hshort; omega)
        rw [hall] at hcopy
        refine ⟨?_, hlength, hshort⟩
        rw [hm.absorb_append_eq, hall, hcopy, absorb_of_length_lt]
        simp only [List.length_append, List.length_take, Vector.length_toList, sha256BlockSize]
        change _ < 64 at hshort
        omega
      · rename_i hfull
        have hsum : h.buffered + take = 64 := by change ¬ _ < 64 at hfull; omega
        have hblock : (copyInto h.buffer h.buffered (data.take take)).toList =
            h.buffer.toList.take h.buffered ++ data.take take :=
          toList_copyInto h.buffer _ _ (by rw [hfirst, hsum])
        obtain ⟨habs, hlen, hlt⟩ := updateBlocks_spec
          { h with
            state := sha256Compress h.state
              (copyInto h.buffer h.buffered (data.take take)).toList
            buffer := copyInto h.buffer h.buffered (data.take take)
            length := h.length + UInt64.ofNat data.length
            buffered := 0 } (data.drop take) rfl
        refine ⟨?_, hlen.trans hlength, hlt⟩
        rw [← habs, hm.absorb_append_eq, hblock]
        conv_lhs => rw [← List.take_append_drop take data, ← List.append_assoc]
        rw [← hblock, absorb_block sha256BlockSize_pos _ (length_block _)]
    · rename_i hempty
      rw [not_not] at hempty
      obtain ⟨habs, hlen, hlt⟩ := updateBlocks_spec
        { h with length := h.length + UInt64.ofNat data.length } data hempty
      refine ⟨?_, hlen.trans hlength, hlt⟩
      rw [← habs, hm.absorb_append_eq, hempty, List.take_zero, List.nil_append]

/-- Any number of calls of `update`. -/
theorem Absorbed.foldl_update {h : Sha256} {m : List UInt8} (hm : h.Absorbed m)
    (chunks : List (List UInt8)) :
    (chunks.foldl Sha256.update h).Absorbed (m ++ chunks.flatten) := by
  induction chunks generalizing h m with
  | nil => simpa only [List.foldl_nil, List.flatten_nil, List.append_nil] using hm
  | cons data chunks ih =>
    simpa only [List.foldl_cons, List.flatten_cons, List.append_assoc] using ih (hm.update data)

/-! ### `finish` -/

/-- The bytes at the end of the last block are the length in bits. -/
theorem lengthBytes_eq (n : ℕ) : lengthBytes (UInt64.ofNat n * 8) = bigEndian 8 (8 * n) := by
  have hmul : UInt64.ofNat n * 8 = UInt64.ofNat (8 * n) := by
    rw [Nat.mul_comm, UInt64.ofNat_mul]
    rfl
  rw [hmul]
  simp only [lengthBytes, bigEndian, List.range, List.range.loop, List.reverse_cons,
    List.reverse_nil, List.nil_append, List.cons_append, List.map_cons, List.map_nil]
  simp (disch := decide) only [toUInt8_shiftRight_uint64]
  simp [Nat.div_div_eq_div_mul]

/-- The terminator: what remains to be absorbed of the padding is the zeros up to the length, and
the length. -/
theorem finishTerminator_spec (h : Sha256) (hbuf : h.buffered < 64) (length : List UInt8) :
    let h' := h.finishTerminator
    h'.buffered ≤ 56 ∧
      absorb sha256BlockSize sha256Compress h.state
          (h.buffer.toList.take h.buffered ++
            0x80 :: (List.replicate ((119 - h.buffered) % 64) 0 ++ length)) =
        absorb sha256BlockSize sha256Compress h'.state
          (h'.buffer.toList.take h'.buffered ++
            (List.replicate (56 - h'.buffered) 0 ++ length)) := by
  have hterm := take_copyInto h.buffer h.buffered [0x80] hbuf
  rw [List.length_singleton] at hterm
  by_cases hlong : 56 < h.buffered + 1
  · have hfinish : h.finishTerminator =
        { h with
          state := sha256Compress h.state (copyInto (copyInto h.buffer h.buffered [0x80])
            (h.buffered + 1) (List.replicate (64 - (h.buffered + 1)) 0)).toList
          buffer := copyInto (copyInto h.buffer h.buffered [0x80]) (h.buffered + 1)
            (List.replicate (64 - (h.buffered + 1)) 0)
          buffered := 0 } := if_pos hlong
    simp only [hfinish]
    refine ⟨Nat.zero_le _, ?_⟩
    have hblock := toList_copyInto (copyInto h.buffer h.buffered [0x80]) (h.buffered + 1)
      (List.replicate (64 - (h.buffered + 1)) 0) (by rw [List.length_replicate]; omega)
    rw [hterm] at hblock
    have hzeros : (119 - h.buffered) % 64 = (64 - (h.buffered + 1)) + 56 := by omega
    have hsplit : h.buffer.toList.take h.buffered ++
          0x80 :: (List.replicate ((119 - h.buffered) % 64) 0 ++ length) =
        (copyInto (copyInto h.buffer h.buffered [0x80]) (h.buffered + 1)
          (List.replicate (64 - (h.buffered + 1)) 0)).toList ++
            (List.replicate 56 0 ++ length) := by
      rw [hblock, hzeros, List.replicate_add]
      simp only [List.append_assoc, List.cons_append, List.nil_append]
    rw [hsplit, absorb_block sha256BlockSize_pos _ (length_block _), List.take_zero,
      List.nil_append]
  · have hfinish : h.finishTerminator =
        { h with
          buffer := copyInto h.buffer h.buffered [0x80]
          buffered := h.buffered + 1 } := if_neg hlong
    simp only [hfinish]
    refine ⟨by omega, ?_⟩
    have hzeros : (119 - h.buffered) % 64 = 56 - (h.buffered + 1) := by omega
    rw [hterm, hzeros, List.append_assoc, List.singleton_append]

/-- **The hash of the message.** `finish` gives the hash of FIPS 180-4 of the message that the
hasher stands for, with one last block or with two. -/
theorem finish_of_absorbed {h : Sha256} {m : List UInt8} (hm : h.Absorbed m) :
    h.finish.1 = Fips.sha256 m := by
  have hmod : m.length % 64 = h.buffered := hm.buffered_eq.symm
  have hlen := lengthBytes_eq m.length
  rw [← hm.length_eq] at hlen
  have hsize : (lengthBytes (h.length * 8)).length = 8 := by rw [hlen, length_bigEndian]
  obtain ⟨hle, habs⟩ := finishTerminator_spec h hm.buffered_lt (lengthBytes (h.length * 8))
  unfold finish Fips.sha256
  simp only [show sha256BlockSize - 8 = 56 from rfl]
  rw [Fips.pad, hm.absorb_append_eq, Fips.padding, Fips.zeroPadding, hmod, ← hlen, habs]
  generalize h.finishTerminator = h' at hle habs ⊢
  have hzeros := take_copyInto h'.buffer h'.buffered (List.replicate (56 - h'.buffered) 0)
    (by rw [List.length_replicate]; omega)
  rw [List.length_replicate, show h'.buffered + (56 - h'.buffered) = 56 by omega] at hzeros
  have hblock := toList_copyInto
    (copyInto h'.buffer h'.buffered (List.replicate (56 - h'.buffered) 0)) 56
    (lengthBytes (h.length * 8)) (by rw [hsize])
  rw [hzeros, List.append_assoc] at hblock
  rw [← hblock, absorb_single sha256BlockSize_pos _ (length_block _)]

end Sha256

/-- **The one-shot form.** -/
theorem sha256Hash_eq_fips (data : List UInt8) : sha256Hash data = Fips.sha256 data :=
  Sha256.finish_of_absorbed (Sha256.absorbed_new.update data)

end HumanizedHash
