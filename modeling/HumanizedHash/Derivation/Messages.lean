import HumanizedHash.Derivation.HexInput

/-!
# The byte strings that are hashed

Three families of byte strings go into SHA-256 behind the prefix `DST || 00 || stage`: a header
with the data of an input, the message of the keyed stage, the message of the key check. An input
reaches the hash through three functions, in two chunks or, decoded from hexadecimal digits, in
chunks of 256 bytes. What is absorbed determines the kind and the bytes of the input, and no
string of one family continues one of another.

## Main definitions

* `DigestCall`, `DigestCall.perform`: a call of one of the three functions.
* `DigestCall.updates`, `DigestCall.absorbed`: what the call feeds to the hash.
* `DigestCall.input`: the kind and the bytes that the call denotes.
* `Incomparable`: neither of two strings is a prefix of the other.

## Main results

* `DigestCall.perform_eq`: an accepted call stretches the hash of what it feeds.
* `DigestCall.absorbed_eq`: a header with the kind and the length, then the bytes.
* `hashInputs_separated`: the families are unambiguous and apart.

## References

* `src/src/derive.cpp`, `src/docs/SPEC.md` sections 3 and 4.
-/

namespace HumanizedHash

open Storage ByteOrder

/-! ### Prefixes of byte strings -/

/-- Neither string is a prefix of the other; in particular they differ. -/
def Incomparable (a b : List UInt8) : Prop :=
  ¬ a <+: b ∧ ¬ b <+: a

/-- A prefix has the same byte at each of its positions. -/
theorem getElem?_eq_of_isPrefix {a b : List UInt8} (h : a <+: b) {i : ℕ} (hi : i < a.length) :
    a[i]? = b[i]? :=
  (List.prefix_iff_getElem?.mp h i hi ▸ List.getElem?_eq_getElem hi)

/-- Two strings with different bytes at one position. -/
theorem incomparable_of_getElem? {a b : List UInt8} {i : ℕ} {x y : UInt8} (ha : a[i]? = some x)
    (hb : b[i]? = some y) (hxy : x ≠ y) : Incomparable a b := by
  have hia : i < a.length := (List.getElem?_eq_some_iff.mp ha).1
  have hib : i < b.length := (List.getElem?_eq_some_iff.mp hb).1
  constructor
  · intro h
    rw [getElem?_eq_of_isPrefix h hia, hb] at ha
    exact hxy (Option.some.inj ha).symm
  · intro h
    rw [getElem?_eq_of_isPrefix h hib, ha] at hb
    exact hxy (Option.some.inj hb)

/-! ### Calls and what they feed to the hash -/

/-- A call of one of the functions that make a base digest. A view of the bytes of the object that
is written shows zeros, since the object is cleared first. -/
inductive DigestCall
  | binary (data : ByteView)
  | hex (digits : ByteView)
  | text (chars : ByteView)

namespace DigestCall

/-- The bytes that a view shows when they are read, after the object was cleared. -/
def shown (view : ByteView) : List UInt8 := view.load BaseDigest.unset.bytes

/-- The call, on the object `out`. -/
def perform (out : BaseDigest) : DigestCall → ErrorCode × BaseDigest
  | binary data => makeBaseDigest data out
  | hex digits => makeBaseDigestFromHex (shown digits) out
  | text chars => makeBaseDigestFromText chars out

/-- The call returns `ok`, whatever the object held. -/
def Accepted (c : DigestCall) : Prop := ∀ out, (c.perform out).1 = .ok

/-- The kind and the bytes of the input; hexadecimal input is binary input, decoded. -/
def input : DigestCall → InputKind × List UInt8
  | binary data => (.binary, shown data)
  | hex digits => (.binary, (HexTools.fromHex (removeHexPrefix (shown digits))).2)
  | text chars => (.text, shown chars)

/-- The chunks that `absorbHex` hashes. -/
def hexChunks (hex : List UInt8) (size pos : ℕ) : List (List UInt8) :=
  if pos < size then
    let n := min chunkSize (size - pos)
    (List.range n).map (fun i => hexByte hex (pos + i)) :: hexChunks hex size (pos + n)
  else
    []
termination_by size - pos
decreasing_by simp only [chunkSize]; omega

/-- The data of the calls of `update`, in order. -/
def updates : DigestCall → List (List UInt8)
  | binary data => [(m1Header .binary (UInt32.ofNat data.size)).toList, shown data]
  | hex digits =>
    let digits := removeHexPrefix (shown digits)
    (m1Header .binary (UInt32.ofNat (digits.length / 2))).toList ::
      hexChunks digits (digits.length / 2) 0
  | text chars => [(m1Header .text (UInt32.ofNat chars.size)).toList, shown chars]

/-- The byte string that is absorbed, whatever the chunks. -/
def absorbed (c : DigestCall) : List UInt8 := c.updates.flatten

/-- The loop over the digits feeds the chunks to the hash. -/
theorem absorbHex_eq_foldl (hex : List UInt8) (size pos : ℕ) (h : Sha256) :
    absorbHex hex size pos h = (hexChunks hex size pos).foldl Sha256.update h := by
  fun_induction absorbHex hex size pos h with
  | case1 pos h hlt n chunk ih =>
    rw [hexChunks, if_pos hlt]
    exact ih
  | case2 pos h hge => rw [hexChunks, if_neg hge, List.foldl_nil]

/-- The chunks are the decoded bytes. -/
theorem flatten_hexChunks (hex : List UInt8) (size pos : ℕ) :
    (hexChunks hex size pos).flatten = (List.range' pos (size - pos)).map (hexByte hex) := by
  fun_induction hexChunks hex size pos with
  | case1 pos hlt n ih =>
    have hn : n + (size - (pos + n)) = size - pos := by
      have hle : n ≤ size - pos := Nat.min_le_right ..
      omega
    rw [List.flatten_cons, ih, ← hn, ← List.range'_append_1, List.map_append,
      List.range'_eq_map_range (n := n), List.map_map]
    rfl
  | case2 pos hge =>
    rw [show size - pos = 0 by omega, List.range'_zero, List.map_nil, List.flatten_nil]

/-! ### Accepted calls -/

/-- A view that is read has its own length. -/
theorem length_shown {view : ByteView} (h : view.isNull = false) :
    (shown view).length = view.size := by
  cases view with
  | null size => exact absurd h (by simp [ByteView.isNull])
  | external bytes => rfl
  | window offset size hle =>
    simp only [shown, ByteView.load, ByteView.size, List.length_take, List.length_drop,
      Vector.length_toList]
    omega

theorem checkLength_eq_ok_iff (size : ℕ) :
    checkLength size = .ok ↔ 0 < size ∧ size ≤ maxInputSize := by
  unfold checkLength
  split_ifs with hzero hlarge
  · exact iff_of_false not_false (by omega)
  · exact iff_of_false not_false (by omega)
  · exact iff_of_true rfl (by omega)

/-- What `digest_of` accepts, and the digest it leaves. -/
theorem digestOf_of_accepted {kind : InputKind} {view : ByteView} {out : BaseDigest}
    (h : (digestOf kind view out).1 = .ok) :
    (shown view).length = view.size ∧ 0 < view.size ∧ view.size ≤ maxInputSize ∧
      digestOf kind view out =
        (.ok, out.assign (stretch (deriveD0 kind (shown view)) stretchIterations)) := by
  unfold digestOf at h ⊢
  by_cases hnull : view.isNull ∧ view.size ≠ 0
  · rw [if_pos hnull] at h
    exact absurd h ErrorCode.noConfusion
  rw [if_neg hnull] at h ⊢
  have hcheck : checkLength view.size = .ok := by
    cases hc : checkLength view.size <;> simp only [hc] at h <;> first | rfl | exact h
  obtain ⟨hpos, hle⟩ := (checkLength_eq_ok_iff _).mp hcheck
  have hview : view.isNull = false :=
    Bool.eq_false_iff.mpr fun htrue => hnull ⟨htrue, Nat.pos_iff_ne_zero.mp hpos⟩
  simp only [hcheck]
  exact ⟨length_shown hview, hpos, hle, rfl⟩

/-- What the hexadecimal path accepts: as many bytes as pairs of digits, and the digest is that
of the bytes. -/
theorem hex_of_accepted {view : ByteView} (h : (hex view).Accepted) :
    let digits := removeHexPrefix (shown view)
    let bytes := (hex view).input.2
    bytes = (List.range (digits.length / 2)).map (hexByte digits) ∧ 0 < bytes.length ∧
      bytes.length ≤ maxInputSize ∧
      ∀ out, makeBaseDigestFromHex (shown view) out = makeBaseDigest (.external bytes) out := by
  intro digits bytes
  have heq (out : BaseDigest) := makeBaseDigestFromHex_eq (shown view) out
  have hok : (makeBaseDigestFromHex (shown view) .unset).1 = .ok := h .unset
  by_cases hrej : digits = [] ∨ (HexTools.fromHex digits).1 = false
  · rw [heq, if_pos hrej] at hok
    exact absurd hok ErrorCode.noConfusion
  have hform (out : BaseDigest) := (heq out).trans (if_neg hrej)
  by_cases hlarge : maxInputSize < (HexTools.fromHex digits).2.length
  · rw [hform, if_pos hlarge] at hok
    exact absurd hok ErrorCode.noConfusion
  have hresult (out : BaseDigest) := (hform out).trans (if_neg hlarge)
  obtain ⟨hne, hacc⟩ := not_or.mp hrej
  have hpos := List.length_pos_of_ne_nil (HexTools.snd_fromHex_ne_nil hne hacc)
  rw [HexTools.fst_fromHex_eq_false_iff, not_or, not_not] at hacc
  have hdecoded := HexTools.fromHex_of_valid digits hacc.1 fun c hc hneg => hacc.2 ⟨c, hc, hneg⟩
  exact ⟨congrArg Prod.snd hdecoded, hpos, not_lt.mp hlarge, hresult⟩

/-- **What is absorbed.** A header with the kind and the length of the input, then its bytes. -/
theorem absorbed_eq {c : DigestCall} (h : c.Accepted) :
    c.absorbed = (m1Header c.input.1 (UInt32.ofNat c.input.2.length)).toList ++ c.input.2 ∧
      c.input.2.length ≤ maxInputSize := by
  cases c with
  | binary data =>
    obtain ⟨hlen, -, hle, -⟩ := digestOf_of_accepted (h .unset)
    simp only [absorbed, updates, input, List.flatten_cons, List.flatten_nil, List.append_nil,
      hlen]
    exact ⟨trivial, hle⟩
  | text chars =>
    obtain ⟨hlen, -, hle, -⟩ := digestOf_of_accepted (h .unset)
    simp only [absorbed, updates, input, List.flatten_cons, List.flatten_nil, List.append_nil,
      hlen]
    exact ⟨trivial, hle⟩
  | hex view =>
    obtain ⟨hbytes, -, hle, -⟩ := hex_of_accepted h
    refine ⟨?_, hle⟩
    rw [hbytes, List.length_map, List.length_range, absorbed, updates, List.flatten_cons,
      flatten_hexChunks, Nat.sub_zero, ← List.range_eq_range']
    rfl

/-- **An accepted call** sets the object to the stretched hash of what it feeds. -/
theorem perform_eq {c : DigestCall} (h : c.Accepted) (out : BaseDigest) :
    c.perform out = (.ok, out.assign
      (stretch (c.updates.foldl Sha256.update Sha256.new).finish.1 stretchIterations)) := by
  cases c with
  | binary data =>
    obtain ⟨hlen, -, -, heq⟩ := digestOf_of_accepted (h out)
    rw [perform, makeBaseDigest, heq, deriveD0, hlen]
    rfl
  | text chars =>
    obtain ⟨hlen, -, -, heq⟩ := digestOf_of_accepted (h out)
    rw [perform, makeBaseDigestFromText, heq, deriveD0, hlen]
    rfl
  | hex view =>
    obtain ⟨hbytes, hpos, hle, heq⟩ := hex_of_accepted h
    rw [perform, heq, makeBaseDigest_external_of_le (List.ne_nil_of_length_pos hpos) hle, updates,
      List.foldl_cons, ← absorbHex_eq_foldl, finish_absorbHex, ← hbytes]

end DigestCall

/-! ### The three families -/

/-- A header is the prefix of its stage, the kind and the length in big-endian order. -/
theorem toList_m1Header (kind : InputKind) (length : ℕ) :
    (m1Header kind (UInt32.ofNat length)).toList =
      putPrefix stageDigest ++ kind.toByte :: bigEndian 4 length := by
  rw [m1Header, shiftRight_uint32_eq_bigEndian, toList_copyInto_zero _ _ (by
    simp only [putPrefix, dst, List.length_append, List.length_cons, List.length_nil,
      length_bigEndian])]

theorem toList_m2Message (s : Vector UInt8 32) :
    (m2Message s).toList = putPrefix stageKeyed ++ s.toList := by
  have hfirst :=
    take_copyInto (Vector.replicate 47 (0 : UInt8)) 0 (putPrefix stageKeyed) (by decide)
  rw [Nat.zero_add, List.take_zero, List.nil_append] at hfirst
  rw [m2Message, toList_copyInto _ _ _ (by rw [Vector.length_toList]; rfl), hfirst]

theorem toList_kcvMessage : kcvMessage.toList = putPrefix stageKcv := by decide

/-- The stage stands behind the prefix and the separator. -/
theorem getElem?_putPrefix (stage : UInt8) (l : List UInt8) :
    (putPrefix stage ++ l)[14]? = some stage := rfl

theorem InputKind.toByte_injective : Function.Injective InputKind.toByte := by
  intro a b h
  cases a <;> cases b <;> first | rfl | exact absurd h (by decide)

/-- Where a header starts the same string as another, the kinds and the lengths agree. -/
theorem m1Header_inj {kind kind' : InputKind} {n n' : ℕ} (hn : n ≤ maxInputSize)
    (hn' : n' ≤ maxInputSize)
    (h : (m1Header kind (UInt32.ofNat n)).toList = (m1Header kind' (UInt32.ofNat n')).toList) :
    kind = kind' ∧ n = n' := by
  rw [toList_m1Header, toList_m1Header, List.append_cancel_left_eq, List.cons.injEq] at h
  refine ⟨InputKind.toByte_injective h.1, ?_⟩
  have hread := congrArg ofBigEndian h.2
  rwa [ofBigEndian_bigEndian (hn.trans_lt (by decide)),
    ofBigEndian_bigEndian (hn'.trans_lt (by decide))] at hread

/-- **One family.** Of two accepted calls, what one absorbs starts what the other absorbs only if
the inputs are equal. -/
theorem DigestCall.input_eq_of_isPrefix {c₁ c₂ : DigestCall} (h₁ : c₁.Accepted)
    (h₂ : c₂.Accepted) (hpre : c₁.absorbed <+: c₂.absorbed) : c₁.input = c₂.input := by
  obtain ⟨heq₁, hle₁⟩ := absorbed_eq h₁
  obtain ⟨heq₂, hle₂⟩ := absorbed_eq h₂
  rw [heq₁, heq₂] at hpre
  obtain ⟨rest, hrest⟩ := hpre
  rw [List.append_assoc] at hrest
  have hlen : (m1Header c₁.input.1 (UInt32.ofNat c₁.input.2.length)).toList.length =
      (m1Header c₂.input.1 (UInt32.ofNat c₂.input.2.length)).toList.length := by
    rw [Vector.length_toList, Vector.length_toList]
  obtain ⟨hheader, hdata⟩ := List.append_inj hrest hlen
  obtain ⟨hkind, hsize⟩ := m1Header_inj hle₁ hle₂ hheader
  exact Prod.ext hkind (List.IsPrefix.eq_of_length ⟨rest, hdata⟩ hsize)

/-- **Hash inputs are unambiguous.** An accepted call leaves the stretched hash of what it absorbs.
What two accepted calls absorb is equal if and only if the kinds and the bytes of the inputs are
equal, and neither is a proper prefix of the other; it is never a message of the keyed stage or of
the key check, and no string of one of these families is a prefix of a string of another. -/
theorem hashInputs_separated (c₁ c₂ : DigestCall) (h₁ : c₁.Accepted) (h₂ : c₂.Accepted) :
    (∀ out, c₁.perform out = (.ok, out.assign
        (stretch (c₁.updates.foldl Sha256.update Sha256.new).finish.1 stretchIterations))) ∧
      (c₁.absorbed = c₂.absorbed ↔ c₁.input = c₂.input) ∧
      (c₁.absorbed <+: c₂.absorbed → c₁.absorbed = c₂.absorbed) ∧
      (c₂.absorbed <+: c₁.absorbed → c₁.absorbed = c₂.absorbed) ∧
      (∀ s, Incomparable c₁.absorbed (m2Message s).toList) ∧
      Incomparable c₁.absorbed kcvMessage.toList ∧
      ∀ s, Incomparable (m2Message s).toList kcvMessage.toList := by
  have hof (h : c₁.input = c₂.input) : c₁.absorbed = c₂.absorbed := by
    rw [(DigestCall.absorbed_eq h₁).1, (DigestCall.absorbed_eq h₂).1, h]
  have hstage : c₁.absorbed[14]? = some stageDigest := by
    rw [(DigestCall.absorbed_eq h₁).1, toList_m1Header, List.append_assoc, getElem?_putPrefix]
  have hkeyed (s : Vector UInt8 32) : (m2Message s).toList[14]? = some stageKeyed := by
    rw [toList_m2Message, getElem?_putPrefix]
  have hkcv : kcvMessage.toList[14]? = some stageKcv := by
    rw [toList_kcvMessage]
    rfl
  refine ⟨DigestCall.perform_eq h₁, ⟨fun h => ?_, hof⟩, fun h => ?_, fun h => ?_, fun s => ?_, ?_,
    fun s => ?_⟩
  · exact DigestCall.input_eq_of_isPrefix h₁ h₂ (h ▸ List.prefix_refl _)
  · exact hof (DigestCall.input_eq_of_isPrefix h₁ h₂ h)
  · exact hof (DigestCall.input_eq_of_isPrefix h₂ h₁ h).symm
  · exact incomparable_of_getElem? hstage (hkeyed s) (by decide)
  · exact incomparable_of_getElem? hstage hkcv (by decide)
  · exact incomparable_of_getElem? (hkeyed s) hkcv (by decide)

/-- The byte `0A`, as it is and in hexadecimal digits, against the text of these digits. -/
theorem hashInputs_separated_hex :
    (DigestCall.hex (.external [0x30, 0x78, 0x30, 0x41])).absorbed =
        (DigestCall.binary (.external [0x0A])).absorbed ∧
      (DigestCall.hex (.external [0x30, 0x41])).absorbed ≠
        (DigestCall.text (.external [0x30, 0x41])).absorbed :=
  ⟨(hashInputs_separated (.hex (.external [0x30, 0x78, 0x30, 0x41])) (.binary (.external [0x0A]))
      (fun _ => rfl) fun _ => rfl).2.1.mpr (by decide),
    fun h => absurd ((hashInputs_separated (.hex (.external [0x30, 0x41]))
      (.text (.external [0x30, 0x41])) (fun _ => rfl) fun _ => rfl).2.1.mp h) (by decide)⟩

end HumanizedHash
