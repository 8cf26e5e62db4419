import HumanizedHash.Foundations.Machines
import HumanizedHash.Hashing.Hmac

/-!
# Hashers and MACs over whole runs

A program makes hashers and MAC objects, feeds them in chunks, copies them between two chunks,
continues each copy on its own and asks for digests. The specification of such a program keeps
with every object the message it was fed, and with a MAC object its key; asking for a digest
gives the hash of FIPS 180-4, or the HMAC of RFC 2104, of that message. An object may not be fed
after `finish`; a hasher may be used again after `reset`.

## Main definitions

* `Sha256.objectClass`, `Fips.objectClass`: hashers and their specification.
* `HmacSha256.objectClass`, `Rfc2104.objectClass`: MAC objects and their specification.

## Main results

* `Sha256.simulates_fips`, `HmacSha256.simulates_rfc`: the objects follow the specifications.
* `sha256_update_eq_fips`: a fresh, reset or resumed hasher, fed in any chunks.
* `hmacSha256_run_eq_rfc`: MAC objects, their copies and their mid-states, in every run.

## References

* `src/src/sha256.hpp`, `src/src/hmac.hpp`, `src/tests/test_sha256.cpp`,
  `src/tests/test_hmac.cpp`.
-/

namespace HumanizedHash

open BlockFold Machines

/-! ### Hashers -/

/-- How a hasher is made: afresh, or from the chaining state after the byte string `p` and its
length. -/
inductive HasherOrigin
  | fresh
  | resumed (p : List UInt8)

/-- The members of a hasher. -/
inductive HasherCall
  | update (data : List UInt8)
  | reset
  | finish

/-- The chaining state after whole blocks. -/
def chainingState (p : List UInt8) : Sha256State :=
  (absorb sha256BlockSize sha256Compress sha256InitialState p).1

/-- Hashers as objects. -/
def Sha256.objectClass : ObjectClass HasherOrigin HasherCall (Option Sha256Digest) Sha256 where
  create
    | .fresh => some Sha256.new
    | .resumed p =>
      if sha256BlockSize ∣ p.length then
        some (Sha256.resume (chainingState p) (UInt64.ofNat p.length))
      else
        none
  call
    | .update data, h => some (none, h.update data)
    | .reset, h => some (none, h.reset)
    | .finish, h => some (some h.finish.1, h.finish.2)

/-- What a program may do with a hasher, and what it is answered. An object is the message it was
fed, or nothing between `finish` and `reset`. -/
def Fips.objectClass :
    ObjectClass HasherOrigin HasherCall (Option Sha256Digest) (Option (List UInt8)) where
  create
    | .fresh => some (some [])
    | .resumed p => if sha256BlockSize ∣ p.length then some (some p) else none
  call
    | .update data, some m => some (none, some (m ++ data))
    | .reset, _ => some (none, some [])
    | .finish, some m => some (some (Fips.sha256 m), none)
    | _, none => none

/-- A hasher stands for the message of its specification, if there is one. -/
def Sha256.Follows (m : Option (List UInt8)) (h : Sha256) : Prop :=
  ∀ text ∈ m, h.Absorbed text

theorem Sha256.follows_some {h : Sha256} {m : List UInt8} :
    Sha256.Follows (some m) h ↔ h.Absorbed m := by
  simp [Sha256.Follows]

/-- **Hashers follow FIPS 180-4.** -/
theorem Sha256.simulates_fips :
    Simulates Fips.objectClass Sha256.objectClass Sha256.Follows where
  create := by
    intro origin m hm
    cases origin with
    | fresh =>
      obtain rfl : some [] = m := Option.some.inj hm
      exact ⟨Sha256.new, rfl, follows_some.mpr absorbed_new⟩
    | resumed p =>
      simp only [Fips.objectClass, Option.ite_none_right_eq_some, Option.some.injEq] at hm
      obtain ⟨hp, rfl⟩ := hm
      exact ⟨_, if_pos hp, follows_some.mpr (absorbed_resume hp)⟩
  call := by
    intro m h call answer m' hm hcall
    cases call with
    | reset =>
      obtain ⟨rfl, rfl⟩ := Prod.mk.inj (Option.some.inj hcall)
      exact ⟨h.reset, rfl, follows_some.mpr (absorbed_reset h)⟩
    | update data =>
      cases m with
      | none => exact absurd hcall (by simp [Fips.objectClass])
      | some text =>
        obtain ⟨rfl, rfl⟩ := Prod.mk.inj (Option.some.inj hcall)
        exact ⟨h.update data, rfl, follows_some.mpr ((follows_some.mp hm).update data)⟩
    | finish =>
      cases m with
      | none => exact absurd hcall (by simp [Fips.objectClass])
      | some text =>
        obtain ⟨rfl, rfl⟩ := Prod.mk.inj (Option.some.inj hcall)
        refine ⟨h.finish.2, ?_, by simp [Sha256.Follows]⟩
        rw [← finish_of_absorbed (follows_some.mp hm)]
        rfl

/-- **Incremental hashing.** A fresh or reset hasher, fed in any chunks, gives the hash of their
concatenation; one resumed after the whole blocks `p` gives the hash of `p` followed by the
chunks; and `reset` after `finish` leaves a fresh hasher. -/
theorem sha256_update_eq_fips :
    (∀ (h : Sha256) (chunks : List (List UInt8)), (h = Sha256.new ∨ ∃ h', h = Sha256.reset h') →
      (chunks.foldl Sha256.update h).finish.1 = Fips.sha256 chunks.flatten) ∧
    (∀ (p : List UInt8) (chunks : List (List UInt8)), sha256BlockSize ∣ p.length →
      (chunks.foldl Sha256.update
        (Sha256.resume (chainingState p) (UInt64.ofNat p.length))).finish.1 =
          Fips.sha256 (p ++ chunks.flatten)) ∧
    ∀ h : Sha256, h.finish.2.reset = Sha256.new := by
  refine ⟨?_, ?_, fun h => rfl⟩
  · rintro h chunks hnew
    have habs : h.Absorbed [] := by
      rcases hnew with rfl | ⟨h', rfl⟩
      · exact Sha256.absorbed_new
      · exact Sha256.absorbed_reset h'
    exact Sha256.finish_of_absorbed (habs.foldl_update chunks)
  · intro p chunks hp
    exact Sha256.finish_of_absorbed ((Sha256.absorbed_resume hp).foldl_update chunks)

/-- Three chunks, and one after a block of zeros. -/
theorem sha256_update_eq_fips_chunks :
    ([[0x61], [], [0x62, 0x63]].foldl Sha256.update Sha256.new.reset).finish.1 =
        Fips.sha256 [0x61, 0x62, 0x63] ∧
      ([[0x61]].foldl Sha256.update
        (Sha256.resume (chainingState (List.replicate 64 0)) (UInt64.ofNat 64))).finish.1 =
          Fips.sha256 (List.replicate 64 0 ++ [0x61]) :=
  ⟨sha256_update_eq_fips.1 Sha256.new.reset [[0x61], [], [0x62, 0x63]] (Or.inr ⟨_, rfl⟩),
    sha256_update_eq_fips.2.1 (List.replicate 64 0) [[0x61]] (by decide)⟩

/-! ### MAC objects -/

/-- The members of a MAC object. -/
inductive MacCall
  | update (data : List UInt8)
  | finish
  | innerState
  | outerState

/-- What a member of a MAC object returns. -/
inductive MacAnswer
  | done
  | tag (digest : Sha256Digest)
  | state (s : Sha256State)

/-- MAC objects, made from a key. -/
def HmacSha256.objectClass : ObjectClass (List UInt8) MacCall MacAnswer HmacSha256 where
  create key := some (HmacSha256.new key)
  call
    | .update data, mac => some (.done, mac.update data)
    | .finish, mac => some (.tag mac.finish.1, mac.finish.2)
    | .innerState, mac => some (.state mac.innerState, mac)
    | .outerState, mac => some (.state mac.outerState, mac)

/-- What a program may do with a MAC object, and what it is answered. An object is its key with
the message it was fed, or with nothing after `finish`. The mid-states may be read at any
time. -/
def Rfc2104.objectClass :
    ObjectClass (List UInt8) MacCall MacAnswer (List UInt8 × Option (List UInt8)) where
  create key := some (key, some [])
  call
    | .update data, (key, some m) => some (.done, key, some (m ++ data))
    | .finish, (key, some m) => some (.tag (Rfc2104.hmac key m), key, none)
    | .innerState, (key, m) => some (.state (chainingState (Rfc2104.xorPad key 0x36)), key, m)
    | .outerState, (key, m) => some (.state (chainingState (Rfc2104.xorPad key 0x5C)), key, m)
    | _, (_, none) => none

/-- A MAC object keeps the mid-states of its key, and stands for the message of its
specification, if there is one. -/
structure HmacSha256.Follows (spec : List UInt8 × Option (List UInt8)) (mac : HmacSha256) :
    Prop where
  innerState_eq : mac.innerState = chainingState (Rfc2104.xorPad spec.1 0x36)
  outerState_eq : mac.outerState = chainingState (Rfc2104.xorPad spec.1 0x5C)
  keyed : ∀ text ∈ spec.2, mac.Keyed spec.1 text

/-- An object that stands for a key and a message follows them. -/
theorem HmacSha256.Keyed.follows {mac : HmacSha256} {key m : List UInt8} (h : mac.Keyed key m) :
    HmacSha256.Follows (key, some m) mac where
  innerState_eq := h.innerState_eq.trans (absorbPaddedKey_eq key 0x36)
  outerState_eq := h.outerState_eq.trans (absorbPaddedKey_eq key 0x5C)
  keyed := by
    rintro text ⟨⟩
    exact h

/-- **MAC objects follow RFC 2104.** -/
theorem HmacSha256.simulates_rfc :
    Simulates Rfc2104.objectClass HmacSha256.objectClass HmacSha256.Follows where
  create := by
    intro key spec hspec
    obtain rfl : (key, some []) = spec := Option.some.inj hspec
    exact ⟨HmacSha256.new key, rfl, (keyed_new key).follows⟩
  call := by
    rintro ⟨key, m⟩ mac call answer spec' hm hcall
    cases call with
    | innerState =>
      obtain ⟨rfl, rfl⟩ := Prod.mk.inj (Option.some.inj hcall)
      exact ⟨mac, by rw [← hm.innerState_eq]; rfl, hm⟩
    | outerState =>
      obtain ⟨rfl, rfl⟩ := Prod.mk.inj (Option.some.inj hcall)
      exact ⟨mac, by rw [← hm.outerState_eq]; rfl, hm⟩
    | update data =>
      cases m with
      | none => exact absurd hcall (by simp [Rfc2104.objectClass])
      | some text =>
        obtain ⟨rfl, rfl⟩ := Prod.mk.inj (Option.some.inj hcall)
        exact ⟨mac.update data, rfl, ((hm.keyed text rfl).update data).follows⟩
    | finish =>
      cases m with
      | none => exact absurd hcall (by simp [Rfc2104.objectClass])
      | some text =>
        obtain ⟨rfl, rfl⟩ := Prod.mk.inj (Option.some.inj hcall)
        refine ⟨mac.finish.2, ?_, hm.innerState_eq, hm.outerState_eq, by simp⟩
        rw [← finish_of_keyed (hm.keyed text rfl)]
        rfl

/-- **The mid-state HMAC is the HMAC of RFC 2104.** In every run of calls on any collection of
MAC objects, where copies are taken between two chunks and continued on their own, each tag is
the HMAC of the message that the object was fed under its key, and each mid-state is the chaining
state after the padded key combined with its pad; so it is for every object that the run
leaves. -/
theorem hmacSha256_run_eq_rfc {ι : Type*} [DecidableEq ι]
    (calls : List (ObjectCall ι (List UInt8) MacCall)) (answers : List (Option MacAnswer))
    (objects : ι → Option (List UInt8 × Option (List UInt8)))
    (hrun : run (stepObjects Rfc2104.objectClass) (fun _ => none) calls =
      some (answers, objects)) :
    ∃ macs : ι → Option HmacSha256,
      run (stepObjects HmacSha256.objectClass) (fun _ => none) calls = some (answers, macs) ∧
        ∀ i key m, objects i = some (key, m) → ∃ mac, macs i = some mac ∧
          mac.innerState = chainingState (Rfc2104.xorPad key 0x36) ∧
          mac.outerState = chainingState (Rfc2104.xorPad key 0x5C) ∧
          ∀ text ∈ m, mac.finish.1 = Rfc2104.hmac key text := by
  obtain ⟨macs, hmacs, hrel⟩ := HmacSha256.simulates_rfc.runObjects hrun
  refine ⟨macs, hmacs, ?_⟩
  intro i key m hi
  obtain ⟨mac, hmac, hfollows⟩ := hrel i (key, m) hi
  exact ⟨mac, hmac, hfollows.innerState_eq, hfollows.outerState_eq,
    fun text htext => HmacSha256.finish_of_keyed (hfollows.keyed text htext)⟩

/-- An object and a copy of it, continued each on its own. -/
theorem hmacSha256_run_eq_rfc_copy :
    ∃ macs : ℕ → Option HmacSha256,
      run (stepObjects HmacSha256.objectClass) (fun _ => none)
        [.create 0 [1, 2], .call 0 (.update [3]), .copy 0 1, .call 1 (.update [4]),
          .call 0 (.update [5, 6]), .call 1 .finish, .call 0 .finish] =
        some ([none, some .done, none, some .done, some .done,
          some (.tag (Rfc2104.hmac [1, 2] [3, 4])), some (.tag (Rfc2104.hmac [1, 2] [3, 5, 6]))],
          macs) :=
  (hmacSha256_run_eq_rfc _ _ _ rfl).imp fun _ h => h.1

end HumanizedHash
