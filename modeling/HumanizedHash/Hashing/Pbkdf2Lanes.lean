import HumanizedHash.Hashing.Pbkdf2
import HumanizedHash.Hashing.Sha256Lanes

/-!
# PBKDF2 in lanes

An output block of PBKDF2 is the sum of a chain of messages, each the HMAC of the one before.
Between the mid-states and the digest the chain runs on states of eight words. Once the states at
some places of the chain are known, the parts between them are independent of each other and run in
lanes, many at once.

## Main definitions

* `hmacState`: one HMAC on states.
* `stateSum`, `wordSum`: the sum of a chain, and its first word.
* `Pbkdf2Lanes.run`: a part of a chain in every lane.

## Main results

* `loadBe32_sha256Store`: the words of a digest are those of the state.
* `t_eq_stateSum`: an output block is the sum of a chain.
* `Pbkdf2Lanes.run_pack`: what a run gives in every lane.
* `wordSum_of_checkpoints`: the sum of a chain from its parts.

## References

* `src/src/pbkdf2.cpp`.
-/

namespace HumanizedHash

open ByteOrder BlockFold Lanes Sha256 Storage

/-! ### The words of a digest -/

/-- A stored word is loaded back. -/
theorem loadBe32_storeBe32 (v : UInt32) : loadBe32 (storeBe32 v) 0 = v := by
  refine UInt32.toNat_inj.mp (Nat.eq_of_testBit_eq fun j => ?_)
  have hbyte (s : UInt32) : (v >>> s).toUInt8.toNat = (v.toNat >>> (s.toNat % 32)) % 2 ^ 8 := by
    rw [UInt32.toNat_toUInt8, UInt32.toNat_shiftRight]
  have hlast : v.toUInt8.toNat = v.toNat % 2 ^ 8 := UInt32.toNat_toUInt8 v
  have hhigh (h : 32 ≤ j) : v.toNat.testBit j = false :=
    Nat.testBit_lt_two_pow (v.toNat_lt.trans_le (Nat.pow_le_pow_right two_pos h))
  simp only [loadBe32, storeBe32, List.getD_cons_zero, List.getD_cons_succ, UInt32.toNat_or,
    UInt32.toNat_shiftLeft, UInt8.toNat_toUInt32, hbyte, hlast, Nat.testBit_or,
    Nat.testBit_mod_two_pow, Nat.testBit_shiftLeft, Nat.testBit_shiftRight, UInt32.reduceToNat,
    Nat.reduceMod]
  -- The byte that holds the bit.
  obtain h | ⟨h, h'⟩ | ⟨h, h'⟩ | ⟨h, h'⟩ | h : j < 8 ∨ (8 ≤ j ∧ j < 16) ∨ (16 ≤ j ∧ j < 24) ∨
    (24 ≤ j ∧ j < 32) ∨ 32 ≤ j := by omega
  · simp [h, show ¬8 ≤ j by omega, show ¬16 ≤ j by omega, show ¬24 ≤ j by omega]
  · simp [h, show j < 32 by omega, show ¬16 ≤ j by omega, show ¬24 ≤ j by omega,
      show j - 8 < 8 by omega, show ¬j < 8 by omega]
  · simp [h, show 8 ≤ j by omega, show j < 32 by omega, show ¬24 ≤ j by omega,
      show j - 16 < 8 by omega, show ¬j < 8 by omega, show ¬j - 8 < 8 by omega]
  · simp [h, h', show 8 ≤ j by omega, show 16 ≤ j by omega, show j - 24 < 8 by omega,
      show ¬j < 8 by omega, show ¬j - 8 < 8 by omega, show ¬j - 16 < 8 by omega]
  · simp [hhigh h, show ¬j < 32 by omega, show ¬j < 8 by omega]

/-- A word is loaded from its four bytes. -/
theorem loadBe32_congr {p q : List UInt8} {i j : ℕ}
    (h : ∀ r < 4, p.getD (i + r) 0 = q.getD (j + r) 0) : loadBe32 p i = loadBe32 q j := by
  have h0 := h 0 (by decide)
  rw [Nat.add_zero, Nat.add_zero] at h0
  rw [loadBe32, loadBe32, h0, h 1 (by decide), h 2 (by decide), h 3 (by decide)]

/-- A byte of a digest. -/
theorem getD_sha256Store (s : Sha256State) {k r : ℕ} (hk : k < 8) (hr : r < 4) :
    (sha256Store s).toList.getD (4 * k + r) 0 = (storeBe32 s[k]).getD r 0 := by
  have hget (f : Fin 32 → UInt8) {i : ℕ} (hi : i < 32) :
      (Vector.ofFn f).toList.getD i 0 = f ⟨i, hi⟩ := by
    rw [List.getD_eq_getElem _ _ (by rwa [Vector.length_toList]), Vector.getElem_toList,
      Vector.getElem_ofFn]
  have hword {i : ℕ} (hi : i < 8) (h : i = k) : s[i] = s[k] := by
    subst h
    rfl
  rw [sha256Store, hget _ (show 4 * k + r < 32 by omega)]
  dsimp only
  rw [hword (by omega) (show (4 * k + r) / 4 = k by omega), show (4 * k + r) % 4 = r by omega]

/-- **The words of a digest** are those of the state. -/
theorem loadBe32_sha256Store (s : Sha256State) (rest : List UInt8) {k : ℕ} (hk : k < 8) :
    loadBe32 ((sha256Store s).toList ++ rest) (4 * k) = s[k] := by
  have hdigest : (sha256Store s).toList.length = 32 := Vector.length_toList
  have hbyte (r : ℕ) (hr : r < 4) : ((sha256Store s).toList ++ rest).getD (4 * k + r) 0 =
      (storeBe32 s[k]).getD (0 + r) 0 := by
    rw [List.getD_append _ _ _ _ (by omega), getD_sha256Store s hk hr, Nat.zero_add]
  exact (loadBe32_congr hbyte).trans (loadBe32_storeBe32 s[k])

/-- The words behind a digest. -/
theorem loadBe32_append (d : Sha256Digest) (rest : List UInt8) (k : ℕ) :
    loadBe32 (d.toList ++ rest) (4 * (8 + k)) = loadBe32 rest (4 * k) := by
  refine loadBe32_congr fun r _ => ?_
  have hlength : d.toList.length = 32 := Vector.length_toList
  rw [List.getD_append_right _ _ _ _ (by omega), hlength,
    show 4 * (8 + k) + r - 32 = 4 * k + r by omega]

theorem sha256Store_injective : Function.Injective sha256Store := by
  intro s t h
  ext k hk : 1
  rw [← loadBe32_sha256Store s [] hk, ← loadBe32_sha256Store t [] hk, h]

/-! ### Chains of states -/

/-- The sum of two states. -/
def xorState (s t : Sha256State) : Sha256State := Vector.zipWith (· ^^^ ·) s t

/-- The digest of a sum. -/
theorem sha256Store_xorState (s t : Sha256State) :
    sha256Store (xorState s t) = Rfc8018.xor (sha256Store s) (sha256Store t) := by
  have hstore (x y : UInt32) (r : ℕ) : (storeBe32 (x ^^^ y)).getD r 0 =
      (storeBe32 x).getD r 0 ^^^ (storeBe32 y).getD r 0 := by
    simp only [storeBe32, UInt32.shiftRight_xor, UInt32.toUInt8_xor]
    rcases r with _ | _ | _ | _ | r
    · rfl
    · rfl
    · rfl
    · rfl
    · exact UInt8.xor_self.symm
  ext i hi : 1
  simp only [sha256Store, Rfc8018.xor, xorState, Vector.getElem_ofFn, Vector.getElem_zipWith,
    hstore]

/-- The block of a message of 32 bytes behind the padded key. -/
def tailBlock (s : Sha256State) : List UInt8 :=
  (sha256Store s).toList ++ Fips.padding (sha256BlockSize + sha256DigestSize)

/-- The HMAC of the digest of a state, as a state. -/
def hmacState (inner outer s : Sha256State) : Sha256State :=
  sha256Compress outer (tailBlock (sha256Compress inner (tailBlock s)))

/-- The sum of the states of a chain. -/
def stateSum (f : Sha256State → Sha256State) (s : Sha256State) : ℕ → Sha256State
  | 0 => Vector.replicate 8 0
  | n + 1 => xorState (stateSum f s n) (f^[n] s)

/-- The sum of the first words of a chain. -/
def wordSum (f : Sha256State → Sha256State) (s : Sha256State) : ℕ → UInt32
  | 0 => 0
  | n + 1 => wordSum f s n ^^^ (workingOf (f^[n] s)).a

theorem stateSum_zero (f : Sha256State → Sha256State) (s : Sha256State) (n : ℕ) :
    (workingOf (stateSum f s n)).a = wordSum f s n := by
  induction n with
  | zero => rfl
  | succ n ih =>
    rw [stateSum, wordSum, ← ih]
    exact Vector.getElem_zipWith ..

section Chain

variable (password : List UInt8)

/-- The HMAC on states with the mid-states of a password. -/
def passwordHmac : Sha256State → Sha256State :=
  hmacState (absorbPaddedKey (HmacSha256.keyBlock password) 0x36)
    (absorbPaddedKey (HmacSha256.keyBlock password) 0x5C)

/-- The hash of a padded key and a message that fills one block with its padding. -/
theorem sha256_xorPad (pad : UInt8) {m : List UInt8}
    (h : (m ++ Fips.padding (sha256BlockSize + m.length)).length = sha256BlockSize) :
    Fips.sha256 (Rfc2104.xorPad password pad ++ m) =
      sha256Store (sha256Compress (absorbPaddedKey (HmacSha256.keyBlock password) pad)
        (m ++ Fips.padding (sha256BlockSize + m.length))) := by
  have hkey := Rfc2104.length_xorPad password pad
  rw [Fips.sha256, Fips.pad, List.length_append, hkey, List.append_assoc,
    absorb_append_of_dvd sha256BlockSize_pos _ (Dvd.intro 1 (by rw [hkey, Nat.mul_one])),
    ← absorbPaddedKey_eq, absorb_single sha256BlockSize_pos _ h]

/-- The HMAC of a message that fills one block with its padding. -/
theorem hmac_eq_sha256Store {m : List UInt8}
    (h : (m ++ Fips.padding (sha256BlockSize + m.length)).length = sha256BlockSize) :
    Rfc2104.hmac password m =
      sha256Store (sha256Compress (absorbPaddedKey (HmacSha256.keyBlock password) 0x5C)
        (tailBlock (sha256Compress (absorbPaddedKey (HmacSha256.keyBlock password) 0x36)
          (m ++ Fips.padding (sha256BlockSize + m.length))))) := by
  have hdigest (d : Sha256Digest) : d.toList.length = sha256DigestSize := Vector.length_toList
  have hblock (d : Sha256Digest) :
      (d.toList ++ Fips.padding (sha256BlockSize + d.toList.length)).length = sha256BlockSize := by
    rw [List.length_append, hdigest]
    rfl
  rw [Rfc2104.hmac, sha256_xorPad password 0x36 h, sha256_xorPad password 0x5C (hblock _), hdigest,
    tailBlock]

/-- **One HMAC** is one step on states. -/
theorem hmac_sha256Store (s : Sha256State) :
    Rfc2104.hmac password (sha256Store s).toList = sha256Store (passwordHmac password s) := by
  have hdigest : (sha256Store s).toList.length = sha256DigestSize := Vector.length_toList
  have hblock : ((sha256Store s).toList ++
      Fips.padding (sha256BlockSize + (sha256Store s).toList.length)).length = sha256BlockSize := by
    rw [List.length_append, hdigest]
    rfl
  rw [hmac_eq_sha256Store password hblock, passwordHmac, hmacState, hdigest, tailBlock]
  rfl

variable {password} {salt : List UInt8} {s : Sha256State}

/-- The messages of an output block. -/
theorem u_eq_iterate (hs : Rfc8018.u password salt 1 0 = sha256Store s) (n : ℕ) :
    Rfc8018.u password salt 1 n = sha256Store ((passwordHmac password)^[n] s) := by
  induction n with
  | zero => exact hs
  | succ n ih =>
    rw [Rfc8018.u, ih, hmac_sha256Store, Function.iterate_succ_apply']

/-- **An output block is the sum of a chain.** -/
theorem t_eq_stateSum (hs : Rfc8018.u password salt 1 0 = sha256Store s) (n : ℕ) :
    Rfc8018.t password salt (n + 1) 1 =
      sha256Store (stateSum (passwordHmac password) s (n + 1)) := by
  induction n with
  | zero =>
    have hsum : stateSum (passwordHmac password) s 1 = s := by
      ext i hi : 1
      simp [stateSum, xorState]
    rw [hsum, ← hs]
    rfl
  | succ n ih =>
    rw [stateSum, sha256Store_xorState, ← ih, ← u_eq_iterate hs, Rfc8018.t, Rfc8018.t,
      Nat.add_sub_cancel, Nat.add_sub_cancel, List.range'_1_concat, List.foldl_append,
      List.foldl_cons, List.foldl_nil, Nat.add_comm 1 n]

end Chain

/-- The sum of a chain in two parts. -/
theorem wordSum_add (f : Sha256State → Sha256State) (s : Sha256State) (m n : ℕ) :
    wordSum f s (m + n) = wordSum f s m ^^^ wordSum f (f^[m] s) n := by
  induction n with
  | zero => rw [Nat.add_zero, wordSum, UInt32.xor_zero]
  | succ n ih =>
    rw [← Nat.add_assoc, wordSum, ih, wordSum, UInt32.xor_assoc, ← Function.iterate_add_apply,
      Nat.add_comm n m]

/-- **The sum of a chain from its parts**, each of which runs from one checkpoint to the next. -/
theorem wordSum_of_checkpoints {f : Sha256State → Sha256State} {c : ℕ → Sha256State}
    {x : ℕ → UInt32} {m n : ℕ} (h : ∀ k < m, f^[n] (c k) = c (k + 1) ∧ wordSum f (c k) n = x k) :
    f^[m * n] (c 0) = c m ∧
      wordSum f (c 0) (m * n) = (List.range m).foldl (fun sum k => sum ^^^ x k) 0 := by
  induction m with
  | zero =>
    rw [Nat.zero_mul]
    exact ⟨rfl, rfl⟩
  | succ m ih =>
    obtain ⟨hstate, hsum⟩ := ih fun k hk => h k (Nat.lt_succ_of_lt hk)
    obtain ⟨hlast, hpart⟩ := h m (Nat.lt_succ_self m)
    rw [Nat.succ_mul, Nat.add_comm (m * n) n, Function.iterate_add_apply, hstate, hlast,
      Nat.add_comm n (m * n), wordSum_add, hsum, hstate, hpart, List.range_succ, List.foldl_append]
    exact ⟨rfl, rfl⟩

/-! ### Chains in lanes -/

namespace Pbkdf2Lanes

open Sha256Lanes

/-- The block of a message of 32 bytes behind the padded key; `one` has a one in every lane. -/
def window (one : ℕ) (s : State) : Window :=
  match s with
  | ⟨a, b, c, d, e, f, g, h⟩ =>
    ⟨a, b, c, d, e, f, g, h, Nat.mul one 0x80000000, 0, 0, 0, 0, 0, 0, Nat.mul one 768⟩

/-- One HMAC; `m` is the mask. -/
def hmac (m one : ℕ) (inner outer s : State) : State :=
  compress m one outer (window one (compress m one inner (window one s)))

/-- The states, and the sums of the first words in front of them. -/
abbrev Run := State × ℕ

/-- The value of `f` at the evaluated `p`. -/
def evaluate (p : Run) (f : Run → Run) : Run :=
  match p with
  | (⟨a, b, c, d, e, g, h, i⟩, x) =>
    force a fun a => force b fun b => force c fun c => force d fun d => force e fun e =>
      force g fun g => force h fun h => force i fun i => force x fun x =>
        f (⟨a, b, c, d, e, g, h, i⟩, x)

theorem evaluate_eq (p : Run) (f : Run → Run) : evaluate p f = f p := by
  simp only [evaluate, force_eq]

/-- One step of the chains. -/
def next (m one : ℕ) (inner outer : State) (p : Run) : Run :=
  (hmac m one inner outer p.1, Nat.xor p.2 p.1.a)

/-- `n` steps of the chains. -/
def run (m one : ℕ) (inner outer : State) (n : ℕ) (s : State) : Run :=
  iterate evaluate (next m one inner outer) n (s, 0)

section Pack

variable {ι : Type*} (l : List ι) (inner outer s : ι → Sha256State)

theorem window_pack : window (ones l) (packState l s) =
    packWindow l fun i j => loadBe32 (tailBlock (s i)) (4 * j) := by
  have hmessage (k : ℕ) (hk : k < 8) :
      (words l fun i => loadBe32 (tailBlock (s i)) (4 * k)) = words l fun i => (s i)[k] :=
    congrArg (words l) (funext fun i => loadBe32_sha256Store (s i) _ hk)
  have hpadding (k : ℕ) {x : UInt32}
      (hx : loadBe32 (Fips.padding (sha256BlockSize + sha256DigestSize)) (4 * k) = x) :
      (words l fun i => loadBe32 (tailBlock (s i)) (4 * (8 + k))) = ones l * x.toNat := by
    rw [ones_mul, ← hx]
    exact congrArg (words l) (funext fun i => loadBe32_append _ _ k)
  have hzero : ones l * (0 : UInt32).toNat = 0 := Nat.mul_zero _
  rw [packWindow, hmessage 0 (by decide), hmessage 1 (by decide), hmessage 2 (by decide),
    hmessage 3 (by decide), hmessage 4 (by decide), hmessage 5 (by decide), hmessage 6 (by decide),
    hmessage 7 (by decide), hpadding 0 (show _ = 0x80000000 by decide),
    hpadding 1 (show _ = 0 by decide), hpadding 2 (show _ = 0 by decide),
    hpadding 3 (show _ = 0 by decide), hpadding 4 (show _ = 0 by decide),
    hpadding 5 (show _ = 0 by decide), hpadding 6 (show _ = 0 by decide),
    hpadding 7 (show _ = 768 by decide), hzero]
  rfl

theorem hmac_pack : hmac (mask l) (ones l) (packState l inner) (packState l outer) (packState l s) =
    packState l fun i => hmacState (inner i) (outer i) (s i) := by
  rw [hmac, window_pack, compress_pack, window_pack, compress_pack]
  rfl

/-- **A run in lanes** is that of every lane. -/
theorem run_pack (n : ℕ) :
    run (mask l) (ones l) (packState l inner) (packState l outer) n (packState l s) =
      (packState l fun i => (hmacState (inner i) (outer i))^[n] (s i),
        words l fun i => wordSum (hmacState (inner i) (outer i)) (s i) n) := by
  have hzero : words l (fun _ => 0) = 0 := by
    rw [← ones_mul]
    rfl
  rw [run, iterate_eq evaluate_eq]
  induction n with
  | zero => exact Prod.ext rfl hzero.symm
  | succ n ih =>
    have hxor (f g : ι → UInt32) : Nat.xor (words l f) (words l g) = words l fun i => f i ^^^ g i :=
      xor_words l
    rw [Function.iterate_succ_apply', ih, next, hmac_pack]
    simp only [packState, packWorking, hxor, Function.iterate_succ_apply', wordSum]

end Pack

end Pbkdf2Lanes

end HumanizedHash
