import HumanizedHash.Derivation.HexInput
import HumanizedHash.Hashing.Pbkdf2Lanes

/-!
# Views of the object that is written

`bytes()` of a base digest or a fingerprint is a reference to the storage of the object, so that the
view an operation reads may show the object it writes. The imports copy the bytes before they write.
`digest_of` clears the object first, and reads the view then: whatever a window of the object showed
at the call, zeros are hashed. A call with such a window and a call with a copy of its bytes leave
different digests.

That two digests differ takes both of them to be computed, 16384 iterations each. They are computed
in lanes, from the states at every 256th iteration.

## Main definitions

* `ByteView.copied`: a copy of the bytes that a view shows.
* `ByteView.ShowsZeros`: the windows that clearing does not change.
* `Chain`: the mid-states of a password, and the states at the checkpoints.

## Main results

* `viewCalls_copied`: when a view stands for a copy of its bytes, and what is hashed otherwise.
* `Chain.exists_stretch_eq`: the first word of a base digest, from a chain.
* `makeBaseDigest_own_bytes`: a digest of the bytes of the object itself.

## References

* `src/src/derive.cpp`, `src/include/hh/digest.hpp`.
-/

namespace HumanizedHash

open BlockFold ByteOrder Lanes Sha256 Sha256Lanes Storage

/-! ### Views and copies -/

namespace ByteView

/-- A copy of the bytes that a view shows while the object that is written holds the bytes
`storage`. There are no bytes behind a null pointer. -/
def copied (storage : Vector UInt8 32) : ByteView → ByteView
  | null size => null size
  | external bytes => external bytes
  | window offset size h => external ((window offset size h).load storage)

/-- A window of the object shows zeros only. -/
def ShowsZeros (storage : Vector UInt8 32) : ByteView → Prop
  | window offset size h => ∀ b ∈ (window offset size h).load storage, b = 0
  | _ => True

variable (view : ByteView) (storage storage' : Vector UInt8 32)

theorem length_load_window {offset size : ℕ} (h : offset + size ≤ 32) :
    ((window offset size h).load storage).length = size := by
  rw [load, List.length_take, List.length_drop, Vector.length_toList]
  omega

@[simp] theorem size_copied : (view.copied storage).size = view.size := by
  cases view with
  | null size => rfl
  | external bytes => rfl
  | window offset size h => exact length_load_window storage h

@[simp] theorem isNull_copied : (view.copied storage).isNull = view.isNull := by
  cases view <;> rfl

/-- A copy shows the bytes of the call, whatever the object holds when it is read. -/
@[simp] theorem load_copied : (view.copied storage).load storage' = view.load storage := by
  cases view <;> rfl

/-- What a window shows of a cleared object. -/
theorem load_window_unset {offset size : ℕ} (h : offset + size ≤ 32) :
    (window offset size h).load BaseDigest.unset.bytes = List.replicate size 0 := by
  rw [load, BaseDigest.unset, Vector.toList_replicate, List.drop_replicate, List.take_replicate,
    min_eq_left (by omega)]

variable {view storage}

/-- Clearing the object does not change a view that shows zeros only. -/
theorem ShowsZeros.load_unset (h : view.ShowsZeros storage) :
    view.load BaseDigest.unset.bytes = view.load storage := by
  cases view with
  | null size => rfl
  | external bytes => rfl
  | window offset size hle =>
    rw [load_window_unset, List.eq_replicate_iff.mpr ⟨length_load_window storage hle, h⟩]

/-- Any other view is a window with a byte that is not zero. -/
theorem load_unset_of_not_showsZeros (h : ¬view.ShowsZeros storage) :
    view.isNull = false ∧ view.load BaseDigest.unset.bytes = List.replicate view.size 0 ∧
      view.load storage ≠ List.replicate view.size 0 := by
  cases view with
  | null size => exact absurd trivial h
  | external bytes => exact absurd trivial h
  | window offset size hle =>
    refine ⟨rfl, load_window_unset hle, fun hzeros => h fun b hb => ?_⟩
    rw [hzeros] at hb
    exact List.eq_of_mem_replicate hb

end ByteView

section Copied

variable (view : ByteView)

/-- An import reads the view before it writes the object. -/
theorem importBaseDigest_copied (out : BaseDigest) :
    importBaseDigest (view.copied out.bytes) out = importBaseDigest view out := by
  simp only [importBaseDigest, ByteView.isNull_copied, ByteView.size_copied, ByteView.load_copied]

theorem importFingerprint_copied (m : Mode) (out : Fingerprint) :
    importFingerprint (view.copied out.bytes) m out = importFingerprint view m out := by
  simp only [importFingerprint, ByteView.isNull_copied, ByteView.size_copied, ByteView.load_copied]

/-- A digest depends on the bytes that the view shows of the cleared object. -/
theorem digestOf_congr (kind : InputKind) {view view' : ByteView} {out : BaseDigest}
    (hnull : view'.isNull = view.isNull) (hsize : view'.size = view.size)
    (hload : view'.load BaseDigest.unset.bytes = view.load BaseDigest.unset.bytes) :
    digestOf kind view' out = digestOf kind view out := by
  simp only [digestOf, BaseDigest.clear_eq, hnull, hsize, hload]

/-- `digest_of` with a copy hashes the bytes of the call. -/
theorem digestOf_copied (kind : InputKind) {out : BaseDigest} (h : view.ShowsZeros out.bytes) :
    digestOf kind (view.copied out.bytes) out = digestOf kind view out :=
  digestOf_congr kind (view.isNull_copied _) (view.size_copied _)
    ((view.load_copied _ _).trans h.load_unset.symm)

/-- Any other view of the object is hashed as zeros. -/
theorem digestOf_of_not_showsZeros (kind : InputKind) {out : BaseDigest}
    (h : ¬view.ShowsZeros out.bytes) :
    digestOf kind (.external (List.replicate view.size 0)) out = digestOf kind view out := by
  obtain ⟨hnull, hload, -⟩ := ByteView.load_unset_of_not_showsZeros h
  exact digestOf_congr kind hnull.symm (List.length_replicate ..) hload.symm

end Copied

/-- **When a view stands for a copy of its bytes.** The imports give for every view what they give
for a copy of the bytes it shows. The two operations that hash do so if the view is not a window of
the object, or if the window shows zeros only. Otherwise they hash as many zeros, which are not the
bytes that the window showed. -/
theorem viewCalls_copied (view : ByteView) :
    (∀ out, importBaseDigest view out = importBaseDigest (view.copied out.bytes) out) ∧
      (∀ m out, importFingerprint view m out = importFingerprint (view.copied out.bytes) m out) ∧
      (∀ out : BaseDigest, view.ShowsZeros out.bytes →
        makeBaseDigest view out = makeBaseDigest (view.copied out.bytes) out ∧
        makeBaseDigestFromText view out = makeBaseDigestFromText (view.copied out.bytes) out) ∧
      ∀ out : BaseDigest, ¬view.ShowsZeros out.bytes →
        let zeros := List.replicate view.size 0
        view.load out.bytes ≠ zeros ∧
        makeBaseDigest view out = makeBaseDigest (.external zeros) out ∧
        makeBaseDigestFromText view out = makeBaseDigestFromText (.external zeros) out := by
  refine ⟨fun out => (importBaseDigest_copied view out).symm,
    fun m out => (importFingerprint_copied view m out).symm, fun out h => ?_, fun out h => ?_⟩
  · exact ⟨(digestOf_copied view .binary h).symm, (digestOf_copied view .text h).symm⟩
  · exact ⟨(ByteView.load_unset_of_not_showsZeros h).2.2,
      (digestOf_of_not_showsZeros view .binary h).symm,
      (digestOf_of_not_showsZeros view .text h).symm⟩

/-- The first byte of an object that shows zeros, and of one that shows ones. -/
theorem viewCalls_copied_byte :
    let view : ByteView := .window 0 1 (by decide)
    let ones : BaseDigest := ⟨Vector.replicate 32 1, true⟩
    makeBaseDigest view .unset = makeBaseDigest (view.copied BaseDigest.unset.bytes) .unset ∧
      makeBaseDigest view ones = makeBaseDigest (.external [0]) ones := by
  intro view ones
  obtain ⟨-, -, hzeros, hother⟩ := viewCalls_copied view
  refine ⟨(hzeros .unset ?_).1, (hother ones ?_).2.1⟩
  · intro b hb
    revert b
    decide +kernel
  · intro h
    exact absurd (h 1 (by decide +kernel)) (by decide)

/-! ### Digests from checkpoints -/

/-- The digest of the header and a short input, as a state. -/
theorem deriveD0_eq_sha256Store (kind : InputKind) {data : List UInt8}
    (h : (Fips.pad ((m1Header kind (UInt32.ofNat data.length)).toList ++ data)).length =
      sha256BlockSize) :
    deriveD0 kind data = sha256Store (sha256Compress sha256InitialState
      (Fips.pad ((m1Header kind (UInt32.ofNat data.length)).toList ++ data))) := by
  have habsorbed := (Sha256.absorbed_new.update
    (m1Header kind (UInt32.ofNat data.length)).toList).update data
  rw [deriveD0, Sha256.finish_of_absorbed habsorbed, List.nil_append, Fips.sha256,
    absorb_single sha256BlockSize_pos _ h]

/-- A stretched digest is one output block. -/
theorem stretch_eq_t (d0 : Sha256Digest) (iterations : UInt32) :
    stretch d0 iterations = Rfc8018.t d0.toList stretchSalt (max 1 iterations.toNat) 1 := by
  have hblock : (32 + 31) / 32 = 1 := rfl
  have hconcat (t : Sha256Digest) : (t.toList ++ []).take 32 = t.toList := by
    rw [List.append_nil, List.take_of_length_le (by rw [Vector.length_toList])]
  refine Vector.toList_inj.mp ?_
  rw [stretch, toList_copyInto_zero _ _ (length_pbkdf2HmacSha256 _ _ _ _), pbkdf2HmacSha256_eq_take,
    hblock, Rfc8018.concat, List.range'_one, List.flatMap_cons, List.flatMap_nil, hconcat]

/-- Checkpoints are 256 steps apart. -/
def partLength : ℕ := 256

def partCount : ℕ := 64

/-- A state from its words, the first one in the highest bits. -/
def stateOf (n : ℕ) : Sha256State := Vector.ofFn fun i => UInt32.ofNat (n >>> (32 * (7 - i.val)))

/-- The chain of a password: the mid-states, the state at every checkpoint, and the sum of the first
words from there to the next checkpoint. -/
structure Chain where
  inner : Sha256State
  outer : Sha256State
  checkpoints : List (ℕ × UInt32)

namespace Chain

def state (c : Chain) (k : ℕ) : Sha256State := stateOf (c.checkpoints.getD k (0, 0)).1

def sum (c : Chain) (k : ℕ) : UInt32 := (c.checkpoints.getD k (0, 0)).2

/-- The parts of the chain are as recorded. -/
def Valid (c : Chain) : Prop := ∀ k < partCount,
  (hmacState c.inner c.outer)^[partLength] (c.state k) = c.state (k + 1) ∧
    wordSum (hmacState c.inner c.outer) (c.state k) partLength = c.sum k

/-- The chain is that of a digest. -/
structure IsChainOf (c : Chain) (d0 : Sha256Digest) : Prop where
  inner_eq : absorbPaddedKey (HmacSha256.keyBlock d0.toList) 0x36 = c.inner
  outer_eq : absorbPaddedKey (HmacSha256.keyBlock d0.toList) 0x5C = c.outer
  first_eq : Rfc8018.u d0.toList stretchSalt 1 0 = sha256Store (c.state 0)

/-- The mid-states and the first state of the chain of a digest; `mid` is the inner hash of the salt
and the index of the output block. -/
theorem isChainOf_of_oneLane {c : Chain} {d0 : Sha256Digest} (mid : Sha256State)
    (hinner : OneLane sha256InitialState
      ((HmacSha256.keyBlock d0.toList).map (· ^^^ 0x36)).toList c.inner)
    (houter : OneLane sha256InitialState
      ((HmacSha256.keyBlock d0.toList).map (· ^^^ 0x5C)).toList c.outer)
    (hmid : OneLane c.inner (stretchSalt ++ bigEndian 4 1 ++
      Fips.padding (sha256BlockSize + (stretchSalt ++ bigEndian 4 1).length)) mid)
    (hfirst : OneLane c.outer (tailBlock mid) (c.state 0)) : c.IsChainOf d0 where
  inner_eq := hinner.eq
  outer_eq := houter.eq
  first_eq := by
    have hinner : absorbPaddedKey (HmacSha256.keyBlock d0.toList) 0x36 = c.inner := hinner.eq
    have houter : absorbPaddedKey (HmacSha256.keyBlock d0.toList) 0x5C = c.outer := houter.eq
    rw [Rfc8018.u, hmac_eq_sha256Store _ (by decide), hinner, houter, hmid.eq, hfirst.eq]

/-- **The first word of a stretched digest** is the sum of the parts of its chain. -/
theorem exists_stretch_eq {c : Chain} {d0 : Sha256Digest} (hchain : c.IsChainOf d0) (h : c.Valid) :
    ∃ s : Sha256State, stretch d0 stretchIterations = sha256Store s ∧
      (workingOf s).a = (List.range partCount).foldl (fun sum k => sum ^^^ c.sum k) 0 := by
  have hf : passwordHmac d0.toList = hmacState c.inner c.outer := by
    rw [passwordHmac, hchain.inner_eq, hchain.outer_eq]
  have ht := t_eq_stateSum hchain.first_eq (partCount * partLength - 1)
  refine ⟨stateSum (passwordHmac d0.toList) (c.state 0) (partCount * partLength), ?_, ?_⟩
  · rw [stretch_eq_t]
    exact ht
  · rw [stateSum_zero, hf]
    exact (wordSum_of_checkpoints h).2

end Chain

/-! ### Checking chains in lanes -/

namespace Chain

/-- The parts of a chain, run in lanes. -/
def run (c : Chain) : Pbkdf2Lanes.Run :=
  let l := List.range partCount
  Pbkdf2Lanes.run (mask l) (ones l) (packState l fun _ => c.inner) (packState l fun _ => c.outer)
    partLength (packState l c.state)

/-- **A chain is valid if its run ends as recorded.** -/
theorem valid_of_run {c : Chain} (h : c.run = (packState (List.range partCount) fun k =>
    c.state (k + 1), words (List.range partCount) c.sum)) : c.Valid := by
  intro k hk
  rw [run, Pbkdf2Lanes.run_pack] at h
  obtain ⟨hstates, hsums⟩ := Prod.mk.inj h
  have hstate := packState_inj _ hstates k (List.mem_range.mpr hk)
  have hsum := words_inj _ hsums k (List.mem_range.mpr hk)
  exact ⟨hstate, hsum⟩

end Chain

/-- The chain of the digest of 32 bytes 1. -/
def onesChain : Chain where
  inner := stateOf 0xCC994240BD103B8E9459B079DA672D572F0DFD4EA85AB10D07E0AFF4313F7994
  outer := stateOf 0x3CCB09BC58F88C34C8C2A733D72747A1E31F881A13A9B3D62AE44F6530D0A808
  checkpoints :=
    [
      (0x9427BAA0536FB88D01E2DD7108C6C8D8E7AF805A71763933AB74E1803C018E99, 0xAB340822),
      (0x9839209A70B13DC5903E5A6B5EB2A3D93E2B1A54FAA592F38173AB34339388B1, 0x15B38698),
      (0x2FE01699D33E4457B3266157F5DAFA1885069B5B9CED350BECBF33EA9D507D13, 0xC30665CE),
      (0x4FCEE99855453162E31EE1FE787F18BF85D997D175EA9938939E2B924037E873, 0x1E17BFDB),
      (0x6368DFDCB34A8FB03D717B0B7762344596DFCCF3FE7AD576BB8999787AEFF9A5, 0xAF704EC9),
      (0x2FA359D70DAD6A00D37B5D0D5E532F515D90C2464A675C943A0E2BEA6786558E, 0xC321B755),
      (0xBF6B1BB47311D277C4A44B9367C37675D3BCCD1DA7390CFE7BE246C557CF0EE9, 0x431262C7),
      (0xD4CD84869FB5B9ABBA3833AE0E39985C319A395D6E1E9BF4D898787D458CE650, 0xF802F801),
      (0x0CE40A752E720102676535C4CAFA481B597D4C5845ED00A1CF2361C531E30377, 0xEF845AF1),
      (0xB228E3D78152842643D9BE83EFF8FD10E2309C072D2ACC1EB706FFC6889CB264, 0x534B4E11),
      (0x64E5E71CF28BC2349002CF42721ACB4B744510B46C28D83BB1DE00F9850B7277, 0xAF9D9216),
      (0xEDE2B1BA3160109E90769985F886E4CC47DA4A101293B1A82FC64C3D565DCA5B, 0x371891D9),
      (0xD76F5406B61F27C2698EF71CDEF441587BAA70E4E21F553FACA6A2B53A836040, 0x4FD1D07F),
      (0x29F8EEA7E9A4B6B0FE964D297C4C12FBBD9317DE38CEEF9EFE894BC9923B3F85, 0x51C84597),
      (0x9B4A763B44A94500BA7501984D064CFD71DE089DC01DF6FAF30AD5C791FF1A83, 0x6CB460C3),
      (0x603860231A4BF5E19A63DD7DD5BB1D2594C39E2248333C54AF09643D6E54C49D, 0xBC8A27FD),
      (0x38A37995E1C5E43D052CD216616B81011D3A5FAA3864BFD4185E073061A68D27, 0x70C29FA8),
      (0x520D6D680E1A287A65DAFFF58B8CDDE8D27AB0814879F0B769EA6B0DBD94F2E5, 0x84FA774E),
      (0x3FA89D97CDE6595B9B26E71A1B2DC4E2C55A327E411EB51D72C2D53705068E8F, 0x021B37D0),
      (0x973B4B4FB40781E4E958FB72D1429AFA704000F26CCBEF44B532A5A7410991A2, 0x7A3555A5),
      (0x366450FDC318C6DFE616DBB7664981A2ED2C977A5D95923AAB8827E6BCC7A8BD, 0x82373D32),
      (0x99914AEBB811C1E6731DF4E3376D94CDCDBCB7F08A4F00010A958E89ECF44D5C, 0x1135CAD5),
      (0x7579013C69C97281474D828D4D93CB683953D3F505971C63027FC7F662AF592D, 0x17FF8DAB),
      (0xF8E62EFC01773DF373A571A4D70F7C17234D6A3B98AF8C572065DFFC8A49016A, 0xDF5419C5),
      (0x669159D42735D213A54BE3361D030DE439C02B4B5687ABADB065E4EBE9709C57, 0xA5F4EFB7),
      (0x7A40A64FE10C2AEE1BEF099E1C88CB253864155C38A6E7202DAD6AB3A46D42DC, 0xD7459A3C),
      (0xE9E46A4132866934FC67744B1C588C1AA1E03F49DB59DA724876F09F17CA658A, 0xED2319EA),
      (0x57763F9970E8F1B3D3A6CEADCD93B782D861FACEDBE36B6CC12034C3C1BD3027, 0x2240C4E5),
      (0xD8F573F554094E5F4A20A43CE94A6431C2E727252E53318CEDA473FA348979FE, 0xC97F60A2),
      (0x41E3DF049B25C63BE95359C0C97E25CFF6A8E1465F0B0A47456C62040964FAB6, 0xC5A4D1F3),
      (0x9BCBA912F4C3ABFD93A10580F5E3F4ED1325401DD33CE09C35C4C243931C0F83, 0x8357E718),
      (0xFBBB3F5EE3BAD8172B19908D59397AAB34A1CF623F5D46CE50F6603411D42969, 0x340D6760),
      (0x0B2D46A3DBE00703CA1E2E396F69B300D720715F4D0EBCA1F6476BA46512FAF9, 0x8D5B1293),
      (0x34979BB16FE4F8429AB520DC4C6AD1B14588AA49CD89D7A875F52B20A6775848, 0x08E3E034),
      (0x6807036E6D6D33530302C274C9CCAE9743FBB9B54714B67284EFCFEFA746C5A3, 0x94DE6619),
      (0xF2DAB4FB8FFB783A7228A1AEC28CB5B98B8032136CBF62E00A6A1C58092321A2, 0xB801080D),
      (0x6944790C223E429C52F0CD3A829BAB1A157895EE3C5AD0EA2881FA1CDE5A9D83, 0x8DEC918E),
      (0xA0003E046F57F6CF124E788393EC8B39BB97A7F2450AA641E237E028B3D53B15, 0x3D6DBA15),
      (0x3D19658D0EBD6458A8B3A1B521976FB41976597B118D2E478790FE0E32040E49, 0xF8AC0ED5),
      (0xE8B68621247E3B5B8C3B2F84DCBAEC0FA6A3A00AC3F7DE1D351A6F7F921F2A3C, 0x8E35A869),
      (0x1C976800E6BA1DA92DD55680F2263792B0AC3200C977049A8AECF29AE72473EC, 0x49A819B4),
      (0xC7BD7779C933E50F1F013FA9DD490121161D3717E0451E6A1FCA16306ED1115A, 0xD39B95A0),
      (0x63BA572D9CF421E6B0CAC05378C5DF3F97861511B8C52C636DFDF9ADB26A5E38, 0x7D437285),
      (0x158D696D4773A4BD03386628712AC011DD230DADE2C4776174F8461700BA2459, 0x33DE8E0C),
      (0x2142AE55BB4B0D919A0F2904E6FF18078FE07CD76696E996EAA77C399396A930, 0x4A88317D),
      (0x86D95675B5F55BED9518182580E4E36331B346748A7DA5EB0E0C2AE9832B1C59, 0x164BE82E),
      (0x36393EF082635ABB2FC9CE527D3A8D7677E6CA02FED0742D606BD84864F2ACF2, 0x4AA3F88A),
      (0x90D7DF74F9C198C3B255AA0E05FB3F6CCC847DB3085FE559E329B5BC29576411, 0x6DC3C9F4),
      (0x5FC3F2A13767AFC98D2987482DD8B6A2818BE156DA9FC889C36CCE63F9AB8CCD, 0xEB194498),
      (0x2C6EE84CD166D40326D0294421DDD5C7732D5A9BF6D4088430418904B8ADF119, 0x29E557F9),
      (0x956238B8803CE2BF4C0CFF3CEB58BFA956F7E98DE9FD25266A853317185C6227, 0x889DFCF4),
      (0x41464E9E319AE98B672C607AB9147C4375ACDE06675D8737067E82B3493D018E, 0x6F1BCDEF),
      (0x5348331C913F489CBA73A888414CB9BC1851E5DB9544F425E32C0077A49EAC5A, 0x3F919148),
      (0xACA06234AA18B931B76603027706E50FACCBC7B753035CFAE68E5CAEDB95C99C, 0xEF922AC1),
      (0x687F097406C1326918B15735B439177A54DEDE8FAD42346AD7E7ACE28EC05D3E, 0x9DEB4E9C),
      (0x06BBBF26A1EF241B5BA2DB060E650D2DE65BC257CFD3A55983D17DE152B2C1FE, 0x37C40131),
      (0xB1DC506560DDC0112A0233B41A3B10552EA826E772A958BD2396537F6A862F01, 0xEFD84965),
      (0x05568109D5AEACA77DB4349ECD58415232C3BFFC44B9DB56A84A70A8AC03C4CA, 0x2FC3BE99),
      (0x3CCDA770F16ECA48264656745B91E50760BE959487DAF473B98C811EDFBD123F, 0xBCE6D121),
      (0x4B09100CBF5392A26DF855843987A56676B500500EB3B47A6D8B55B604B45D25, 0x2E858B31),
      (0xA1E56C29AAA374BCD3E2EA63BA711E9717D3F1B2DEB28584D77AD50E4165173B, 0x37C42B23),
      (0x5D2347A0BF97481E19F13F81F0BAEA1C979670E3B6BDACE37AB87AA99F2C2172, 0x9FDF69FB),
      (0x06B820D2FBECC75F35FD343BAC72F0B9724D1356B448AC4BF6CDA34C26073B9A, 0xE25A2BC9),
      (0x12AEB0BA00C68730F3CD4E1CA77EC5EEDEE307A26C17B616FF850D4DB881E34F, 0x183C5517),
      (0x8FB3CC36F8D283B2AEF6BC1BBDBD1CB9213DBB02A1FFE2A6E744AC20B246F5E9, 0)]

/-- The chain of the digest of 32 zeros. -/
def zerosChain : Chain where
  inner := stateOf 0x2B34F198CE160BFA445CEF0125DFFFB90912D3F8FE1C6483579C26C3F940A6E1
  outer := stateOf 0x0D2CE3C417C2099AF5A394F31C76ADC2A7DEDA1F6A15B46013431A0E00947AB5
  checkpoints :=
    [
      (0xCAD22472F3C587DF94B3E0575E9FFD4E3C3D7AD9E23E263AE82D644F07A9552B, 0x87E1AFF0),
      (0xF2C39101875A441652914D9BBBBEB14AD4A7214A57DAC6E925CD7B3D414DBCD4, 0xE91F4A6A),
      (0xD35E94C082454D04FE8BEC756F8435A44D9627F5B697583802CFD473522C833B, 0xFF5CCF05),
      (0xCEC90EBC8DD8043D07A069E90946B4BFB99AB0095D54E32C311738C3F3FDA415, 0xAF3C6C5A),
      (0x8BB42186D503984A43E198C6423E6F11C2ED388A5A8950A46343CE27657DC48C, 0x439B909E),
      (0x84E1E670B90E1D33DE4C61742602A13DCA60617560BA9EFEEC8A59A20C7A6602, 0x1D110478),
      (0xE9EB4093408C5DBAA9B296315D022DF45C3FF84807EE7B1B3DFF2E3EFD2F73F9, 0x284C53B5),
      (0xC902846E6224336EF02E89E627CE315C117E9F15503D199F660AD288A99AC34D, 0xEFC57925),
      (0x9700AFA5AF9AB3E4B1E67EB1DAD55DA8C5CA84A95FA3E84857029CB488DEEC63, 0x3F1F0F99),
      (0xF75838DF8F128D60F10962D4B3B2B1C4902D000A68117F72BDAFBC72F0829EF9, 0xB10BB669),
      (0xD1CEBB46D4BD23F0FDAD5D19E72CEB3486282F30C5FB54C6CB47FFC0619DB4CE, 0xB155FC18),
      (0x4B562F5B951F520FDD770FBDF54A0BA785A3D73BBEFB2F43C6DA3EEAF0F370D6, 0x3A864BA1),
      (0xE13581A327188D1F51735EBC762E90FD3E312D7D77067387403EBD753A23F40B, 0x95123410),
      (0xC16BF121192D4D2940ACF87269B94E1EE659456015876DB38DE7224ED2F2CA8E, 0xE16490D0),
      (0x96B265392F5B78FDF1CD403B2756BF84B65E183F1E0C91506EDCE4678A58A05E, 0x93765A9B),
      (0x29FD6030921D3D54DC0E048FAF2F3F8CE6F69EB36CB94353EB56C4521D9260E0, 0xE52278A0),
      (0x17F40B876A8AFFF574CFF47493A8A826871E52D01D3F5B826DAD06E4077C7FA0, 0x11AF4D8A),
      (0xBF4A43C4083BB90BB00BA486B59478B94AA7AFA229E2C75CD626E2655EC63D73, 0xC1A62E12),
      (0xC8F09E09C8E9FB9E4BAE45B6243981A1E2846B8215F283900789BBBEDC4C2638, 0xB2BC0529),
      (0x05FD65F80E82491BBCF68A8282D295EFFE5C7E35208D7A6CFF14411F1B77C36F, 0xA43A1A14),
      (0x14755D09DADAFE71F8ADC087A051F3010EC6BEB7A1F43B93B89CF0E398B86BE7, 0xAAE70561),
      (0x1AC449CABA5F9D21BF3C71726493FE5137859BAAF52468D4C46116F39FB0A351, 0x651184B9),
      (0xFD18A8C3EC186375A7332957A62C50E85051CA9D7DA05B823A0CC301CC35C7B6, 0xEAA848F2),
      (0xE4878E1F9928DADFCA2ED67950CAA4EC5502B5F31E3CE3D251D08AC82CB9622A, 0x3983D8CF),
      (0x47C8370F3383BDBDAA9827FAE3ACE6B5100C4E4D53FFED1B1A7E82C4B1DFB362, 0xC036A57D),
      (0x71A78ED7D0183E0F25A76598C8C5671136481932C14B5F43803BFEE911FBC484, 0x843BFA35),
      (0xBF7A7EAFE858D0A067F545900ECA06D8D3638D98A1D2B46ACE6D952A275151EF, 0x7048C43B),
      (0x94DE081E752455C624BD25C68A86CF6E7FD309D32976274C74614301D0EE46F5, 0xCE30BC82),
      (0xC2EF8E13870207179756F4FDEAFB2198920C024D7928A44CA280EADE73BAF443, 0xE1DD1265),
      (0x480CD64A6FCA847BC05DB46397B4A327799977F63D7A2B7DDC3016F210DB722A, 0xB2E718E9),
      (0x6DFB5613F5665F8FE3F8B8785B2774247F0D4234BEB6CCA665505AE1CAB6E582, 0xDD25B0A0),
      (0x011208C83BA4660D5867AEFD40ABC57A153527F64E1A2C69A3924051EEE21CFB, 0x7AD112D9),
      (0x7FD7F8A19C14CC185CFD11C63CF62CCF3C3AD5250EEDBE1EC8FB753B233FB03E, 0x5EFC775B),
      (0x9ACDB11C130F48291BD024D53B81655DED9CCF1478CBA67544CE858E7E3707CC, 0x3CA8DDA1),
      (0x6B699E216A13B7B4356C111307F691EA7E4B90B1EEA59118514F5B1AF60918B0, 0xF8C7C0BC),
      (0xC5CC2B34409F84C2A83C7AE267BDDCA0A03E0DFEC8332333DEDAA5924926F82D, 0x370774A9),
      (0x8DFBDC7B6C7D4610A861BA56EA164E231969A9E04C41C1FDC832E1E86A9B2347, 0x8AFF5FDB),
      (0xD07F7CBF5D175EEE236A4B792D426852975E51069127CCB6A735D51C396215C1, 0xA859BC7B),
      (0x1CCF54844B4809368A6906AEA4C6CEC79DD9CE236E6B34EAAF526BFED6A54B37, 0x1A5DAFD2),
      (0x210571BFAF231C117519B59F4FBDBC0CD4893CD33F5A85680E9316653A8494B1, 0xD1DCE90A),
      (0x1733DD6D6FA17A342E86EB2A709EAC1B61014974EAF6C46C423B630C36B9FBF7, 0xE0602C1A),
      (0x6CD3D46539D1BC4B89241BA7B7DDA3AFDA7B34E339BC8D268B894E4108DDEA19, 0xF38FF20D),
      (0xF77632C2563989CEC28452D35B81C49EA0E9F3AA093210652DAED98BEBE6740B, 0x3C855B8A),
      (0xA95FF4FD45BE64824BE0F26ADD84796C6C88C8D9CE380C02EF4A3D4BBFFADD67, 0xAC98165B),
      (0xC8BC380FC0103C7D2D354237F78119C473816152603AC448982F4A6ADA6C5BAA, 0x423C54BE),
      (0x5AF0D85B57E79557CF984D4F9A6D22B8129CB77CCA1D38F505642C079C3722DD, 0x4FA7E0CE),
      (0x5864687D6AA212022AC2EE0B9CF3123E1C285113804EF968E4230B6629A941E6, 0x0E31A0C1),
      (0x2CB10646F78A116C3D355407E02666A7766C4765E227AADB6747D549E7475CDE, 0x94CA78E9),
      (0xF6D2F0208AAF2BC80305F9B467F9A87375FDADB96FB8279C4DF07DB95A2B1AB5, 0x6E52AE10),
      (0xE0C7BFE15601861D3F8611E88E93848ED5B1AB88E2FCCF3D78098AB18F2FF7EA, 0x8A9A536A),
      (0xDC0B6A40B76E48DB9489BE5FB8808D936346A39E983BCE49BCBFDD326B64CA2D, 0x46433C31),
      (0x705F0C3989DF0180CDA60F7D32FB3747C3E39804C612E35A42B1838549933B3D, 0x7EF1E430),
      (0x46275855586E92A707ED26C38CC899B47F87C0884231687B90413FFB79E285B2, 0xED473134),
      (0xDC348800AC0C92E105ECA04D4E140497FF907068DBA3481E6E9B0AAD24D84361, 0x8D365150),
      (0x885E98D149AAE026868EF02620ECE60D609F92BFE80528FDF77DA621B4B73CC6, 0x9D1B6F72),
      (0x1CC00A51877143695C554BDF36E2C73DD5A0688B8518CB419824CB01422E52CD, 0xE1923DBB),
      (0xC7D5D51B6422E52C01866B528F9EF15FDC3AD213FC6F828923997AA0C3A9ECEC, 0xF5F99779),
      (0xA5DAF2672A727C1F8C69394E63FB4909D3C207218CC27DBC0D3D798FAFC0299A, 0x1BB1B1C2),
      (0x18E3C67C0AF47A15B5697B1B4208C10D3FE204E2E621851EC5B122DC6FCD3275, 0xDDC810FE),
      (0x0B11253DCA995A1042AFA5FDA2E279C529BB7BB8C717399CF05CBA52FC79F302, 0x4FD627D5),
      (0x1A8F274AB78C052682791226AA1B7F033B7A2B07883386F500782EB6BE675B3E, 0x13412D8E),
      (0x0DCF1DAC2A9F108F0C3EDC3F6DB6CEFEA21184CE3836000FBEFBF929B3DD069A, 0x39EC2113),
      (0xF54C9B4563BC01BC87EB5274509A278AC07185A490198C33E431559B1A34B47F, 0x19A1F81D),
      (0xB4B3C025D39236CAA7B88E61B2EA6E99812260FB356B9E8D523D33E448D2188A, 0x7931DAF2),
      (0x38DC5670F78F265AC1AD678990AD7485E67A4388857B79704CDD3B586E8F8E9F, 0)]

/-- The digests `D0` of the two inputs. -/
def onesD0 : Sha256Digest :=
  sha256Store (stateOf 0xC4939E11F5631C4950F78050516FF61172FC2C7663BC5E0EEC957C852B7B3EF3)

def zerosD0 : Sha256Digest :=
  sha256Store (stateOf 0x096AD3357D3337F4DD7D80AA123B10F7A777A39F650C156B58AE4E0FAF04310E)

theorem deriveD0_ones : deriveD0 .binary (List.replicate 32 1) = onesD0 := by
  rw [deriveD0_eq_sha256Store .binary (by decide +kernel), onesD0]
  exact congrArg sha256Store (OneLane.eq (by decide +kernel))

theorem deriveD0_zeros : deriveD0 .binary (List.replicate 32 0) = zerosD0 := by
  rw [deriveD0_eq_sha256Store .binary (by decide +kernel), zerosD0]
  exact congrArg sha256Store (OneLane.eq (by decide +kernel))

theorem isChainOf_ones : onesChain.IsChainOf onesD0 :=
  Chain.isChainOf_of_oneLane
    (stateOf 0xC9561EF90F5FE357FD2A389981D14D1724DF6C17FA8B930CDF70F101659BC430)
    (by decide +kernel) (by decide +kernel) (by decide +kernel) (by decide +kernel)

theorem isChainOf_zeros : zerosChain.IsChainOf zerosD0 :=
  Chain.isChainOf_of_oneLane
    (stateOf 0x40F22AEEED635337DDB31D47B246C0B6B60F37D1AB7BBDD570A40FC5F76F980D)
    (by decide +kernel) (by decide +kernel) (by decide +kernel) (by decide +kernel)

/-- The parts of the two chains are as recorded. -/
theorem valid_chains : onesChain.Valid ∧ zerosChain.Valid :=
  ⟨Chain.valid_of_run (by decide +kernel), Chain.valid_of_run (by decide +kernel)⟩

/-- The two inputs have different digests. -/
theorem stretch_ones_ne_zeros :
    stretch onesD0 stretchIterations ≠ stretch zerosD0 stretchIterations := by
  obtain ⟨s, hs, hs0⟩ := Chain.exists_stretch_eq isChainOf_ones valid_chains.1
  obtain ⟨t, ht, ht0⟩ := Chain.exists_stretch_eq isChainOf_zeros valid_chains.2
  intro h
  rw [hs, ht] at h
  rw [sha256Store_injective h, ht0] at hs0
  revert hs0
  decide +kernel

/-- **A digest of the bytes of the object itself.** An object that was imported from 32 bytes 1 is
given a digest of its own bytes. It is not the digest of a copy of them. -/
theorem makeBaseDigest_own_bytes :
    let out : BaseDigest := ⟨Vector.replicate 32 1, true⟩
    let view : ByteView := .window 0 32 le_rfl
    importBaseDigest (.external (List.replicate 32 1)) .unset = (.ok, out) ∧
      view.load out.bytes = List.replicate 32 1 ∧
      makeBaseDigest view out ≠ makeBaseDigest (view.copied out.bytes) out := by
  intro out view
  have hshown : view.load out.bytes = List.replicate 32 1 := by decide +kernel
  have hwindow : ¬view.ShowsZeros out.bytes := fun hzeros =>
    absurd (hzeros 1 (by rw [hshown]; decide)) (by decide)
  have hne (b : UInt8) : List.replicate 32 b ≠ [] := List.cons_ne_nil b _
  have hdigest (b : UInt8) : makeBaseDigest (.external (List.replicate 32 b)) out =
      (.ok, out.assign (stretch (deriveD0 .binary (List.replicate 32 b)) stretchIterations)) :=
    makeBaseDigest_external_of_le (hne b) (by rw [List.length_replicate]; decide) out
  have hown : makeBaseDigest view out = makeBaseDigest (.external (List.replicate 32 0)) out :=
    (digestOf_of_not_showsZeros view .binary hwindow).symm
  have hcopy : view.copied out.bytes = .external (List.replicate 32 1) :=
    congrArg ByteView.external hshown
  refine ⟨by decide +kernel, hshown, fun h => stretch_ones_ne_zeros ?_⟩
  rw [hown, hcopy, hdigest, hdigest, deriveD0_ones, deriveD0_zeros] at h
  exact (congrArg (fun r : ErrorCode × BaseDigest => r.2.bytes) h).symm

end HumanizedHash
