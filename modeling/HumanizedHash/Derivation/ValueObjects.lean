import HumanizedHash.Derivation.Messages
import HumanizedHash.Foundations.Machines

/-!
# Value objects never hold half-set state

A program holds any collection of base digests, secret keys and fingerprints under names, and
creates, copies, moves, assigns, derives, imports and destroys them in any order, with any
arguments. An object is sound if it is either unset, with all its bytes zero, or set to a value
that its class allows. Every operation keeps the collection sound, writes only the objects it
names, and leaves its output unset when it reports an error.

## Main definitions

* `Kind`, `Objects`: the classes, and a collection of objects of each of them.
* `Operation`, `Objects.step`: the operations.
* `Kind.Sound`: an object is not half set.
* `StepContract`: what one operation guarantees.

## Main results

* `clean_makeBaseDigest` and its siblings: what each function leaves in its output.
* `step_sound`, `step_contract`: one operation.
* `objects_sound`: every run.

## References

* `src/src/derive.cpp`, `src/include/hh/digest.hpp`, `src/include/hh/key.hpp`,
  `src/include/hh/fingerprint.hpp`, `src/tests/test_derive.cpp`.
-/

namespace HumanizedHash

open Storage Machines

/-! ### Collections of objects -/

/-- The classes of value objects. -/
inductive Kind
  | digest
  | key
  | fingerprint
  deriving DecidableEq

namespace Kind

/-- The objects of a class. -/
abbrev Value : Kind → Type
  | digest => BaseDigest
  | key => SecretKey
  | fingerprint => Fingerprint

/-- The default constructor. -/
def unset : (k : Kind) → k.Value
  | digest => BaseDigest.unset
  | key => SecretKey.unset
  | fingerprint => Fingerprint.unset

/-- An unset object holds zeros, and mode universal if it has a mode; a set key is not zero and a
set fingerprint has one of the two modes. -/
def Sound : (k : Kind) → k.Value → Prop
  | digest, d => d.set = false → d.bytes = Vector.replicate 32 0
  | key, k =>
    (k.set = false → k.bytes = Vector.replicate 32 0) ∧
      (k.set = true → ∃ b ∈ k.bytes.toList, b ≠ 0)
  | fingerprint, f =>
    (f.set = false → f.bytes = Vector.replicate 32 0 ∧ f.mode = .universal) ∧
      (f.set = true → f.mode = .universal ∨ f.mode = .keyed)

theorem sound_unset : (k : Kind) → k.Sound k.unset
  | digest => fun _ => rfl
  | key => ⟨fun _ => rfl, fun h => absurd h Bool.false_ne_true⟩
  | fingerprint => ⟨fun _ => ⟨rfl, rfl⟩, fun h => absurd h Bool.false_ne_true⟩

end Kind

/-- Whether an object is written from a copy of another one or from the other one itself. -/
inductive Transfer
  | copy
  | move
  deriving DecidableEq

/-- The object that is written and what is left of the other one. The classes without special
members are copied member by member, also when they are moved. -/
def Kind.transfer : (k : Kind) → Transfer → k.Value → k.Value × k.Value
  | digest, _, other => (other, other)
  | key, .copy, other => (SecretKey.copyFrom other, other)
  | key, .move, other => SecretKey.moveFrom other
  | fingerprint, _, other => (other, other)

/-- A collection: the object, if there is one, under each name of each class. -/
abbrev Objects (ι : Type*) := (x : Kind × ι) → Option x.1.Value

variable {ι : Type*}

/-- The operations. A name that is written by a constructor must be free. -/
inductive Operation (ι : Type*)
  | create (k : Kind) (i : ι)
  | destroy (k : Kind) (i : ι)
  | construct (k : Kind) (how : Transfer) (source target : ι)
  | assign (k : Kind) (how : Transfer) (source target : ι)
  | makeBaseDigest (data : ByteView) (out : ι)
  | makeBaseDigestFromText (text : ByteView) (out : ι)
  | makeBaseDigestFromHex (hex : ByteView) (out : ι)
  | importBaseDigest (bytes32 : ByteView) (out : ι)
  | makeSecretKey (bytes32 : ByteView) (out : ι)
  | universalFingerprint (digest out : ι)
  | keyedFingerprint (digest key out : ι)
  | importFingerprint (bytes32 : ByteView) (m : Mode) (out : ι)

namespace Objects

variable [DecidableEq ι] (o : Objects ι)

/-- The collection with the object `v` under the name `i`. -/
def put (k : Kind) (i : ι) (v : k.Value) : Objects ι := Function.update o (k, i) (some v)

/-- A call of a function that writes the object under the name `out`. -/
def call (k : Kind) (out : ι) (f : k.Value → ErrorCode × k.Value) :
    Option (Option ErrorCode × Objects ι) :=
  (o (k, out)).map fun v => (some (f v).1, o.put k out (f v).2)

/-- One operation: the error code it returns, if it returns one, and the objects it leaves. -/
def step : Operation ι → Option (Option ErrorCode × Objects ι)
  | .create k i => if o (k, i) = none then some (none, o.put k i k.unset) else none
  | .destroy k i => (o (k, i)).map fun _ => (none, Function.update o (k, i) none)
  | .construct k how source target =>
    if o (k, target) = none then
      (o (k, source)).map fun other =>
        let (this, other) := k.transfer how other
        (none, (o.put k source other).put k target this)
    else
      none
  | .assign k how source target =>
    (o (k, source)).bind fun other => (o (k, target)).map fun _ =>
      -- the guard of `secret_key`; the other classes write the members that are there
      if source = target then
        (none, o)
      else
        let (this, other) := k.transfer how other
        (none, (o.put k source other).put k target this)
  | .makeBaseDigest data out => o.call .digest out (makeBaseDigest data)
  | .makeBaseDigestFromText text out => o.call .digest out (makeBaseDigestFromText text)
  | .makeBaseDigestFromHex hex out =>
    o.call .digest out fun d => makeBaseDigestFromHex (hex.load d.clear.bytes) d
  | .importBaseDigest bytes32 out => o.call .digest out (importBaseDigest bytes32)
  | .makeSecretKey bytes32 out => o.call .key out (makeSecretKey bytes32)
  | .universalFingerprint digest out =>
    (o (.digest, digest)).bind fun d => o.call .fingerprint out (universalFingerprint d)
  | .keyedFingerprint digest key out =>
    (o (.digest, digest)).bind fun d => (o (.key, key)).bind fun k =>
      o.call .fingerprint out (keyedFingerprint d k)
  | .importFingerprint bytes32 m out => o.call .fingerprint out (importFingerprint bytes32 m)

end Objects

/-! ### What a function leaves in its output -/

/-- The function leaves a sound object, and an unset one with every error, whatever the object
held. -/
def Kind.Clean (k : Kind) (f : k.Value → ErrorCode × k.Value) : Prop :=
  ∀ v, k.Sound (f v).2 ∧ ((f v).1 ≠ .ok → (f v).2 = k.unset)

/-- A result that is unset. -/
theorem Kind.clean_result_unset (k : Kind) (ec : ErrorCode) :
    k.Sound (ec, k.unset).2 ∧ ((ec, k.unset).1 ≠ .ok → (ec, k.unset).2 = k.unset) :=
  ⟨k.sound_unset, fun _ => rfl⟩

/-- A result that is set. -/
theorem Kind.clean_result_ok {k : Kind} {v : k.Value} (hv : k.Sound v) :
    k.Sound (ErrorCode.ok, v).2 ∧ ((ErrorCode.ok, v).1 ≠ .ok → (ErrorCode.ok, v).2 = k.unset) :=
  ⟨hv, fun h => absurd rfl h⟩

theorem BaseDigest.sound_assign (d : BaseDigest) (bytes : Vector UInt8 32) :
    Kind.digest.Sound (d.assign bytes) :=
  fun h => absurd h (by simp [BaseDigest.assign])

theorem Fingerprint.sound_assign (f : Fingerprint) (bytes : Vector UInt8 32) {m : Mode}
    (hm : m = .universal ∨ m = .keyed) : Kind.fingerprint.Sound (f.assign bytes m) :=
  ⟨fun h => absurd h (by simp [Fingerprint.assign]), fun _ => hm⟩

/-- Bytes combined by `or` give zero only if all are zero. -/
theorem foldl_or_eq_zero_iff (l : List UInt8) (any : UInt8) :
    l.foldl (fun any b => any ||| b) any = 0 ↔ any = 0 ∧ ∀ b ∈ l, b = 0 := by
  induction l generalizing any with
  | nil => simp only [List.foldl_nil, List.not_mem_nil, false_imp_iff, implies_true, and_true]
  | cons c l ih =>
    rw [List.foldl_cons, ih, UInt8.or_eq_zero_iff, List.forall_mem_cons, and_assoc]

theorem clean_digestOf (kind : InputKind) (data : ByteView) :
    Kind.digest.Clean (digestOf kind data) := by
  intro out
  unfold digestOf
  split
  · exact Kind.digest.clean_result_unset _
  · dsimp only
    split
    · exact Kind.clean_result_ok (BaseDigest.sound_assign _ _)
    · exact Kind.digest.clean_result_unset _

theorem clean_makeBaseDigestFromHex (hex : List UInt8) :
    Kind.digest.Clean (makeBaseDigestFromHex hex) := by
  intro out
  rw [makeBaseDigestFromHex_eq]
  split_ifs
  · exact Kind.digest.clean_result_unset _
  · exact Kind.digest.clean_result_unset _
  · exact clean_digestOf _ _ out

theorem clean_importBaseDigest (bytes32 : ByteView) :
    Kind.digest.Clean (importBaseDigest bytes32) := by
  intro out
  unfold importBaseDigest
  split
  · exact Kind.digest.clean_result_unset _
  · exact Kind.clean_result_ok (BaseDigest.sound_assign _ _)

/-- A key is set only to 32 bytes that are not all zero. -/
theorem clean_makeSecretKey (bytes32 : ByteView) : Kind.key.Clean (makeSecretKey bytes32) := by
  intro out
  unfold makeSecretKey
  dsimp only
  split
  · exact Kind.key.clean_result_unset _
  rename_i hview
  split
  · exact Kind.key.clean_result_unset _
  rename_i hany
  obtain ⟨hnull, hsize⟩ := not_or.mp hview
  have hlen : (bytes32.load out.clear.bytes).length = 32 := by
    cases bytes32 with
    | null size => exact absurd rfl hnull
    | external bytes => exact not_not.mp hsize
    | window offset size hle =>
      have hsize : size = 32 := not_not.mp hsize
      simp only [ByteView.load, List.length_take, List.length_drop, Vector.length_toList]
      omega
  refine Kind.clean_result_ok ⟨fun h => absurd h (by simp [SecretKey.assign]), fun _ => ?_⟩
  rw [foldl_or_eq_zero_iff, not_and] at hany
  obtain ⟨b, hb⟩ := not_forall.mp (hany rfl)
  obtain ⟨hmem, hne⟩ := Classical.not_imp.mp hb
  refine ⟨b, ?_, hne⟩
  rw [SecretKey.assign, toList_copyInto_zero _ _ hlen]
  exact hmem

theorem clean_universalFingerprint (d : BaseDigest) :
    Kind.fingerprint.Clean (universalFingerprint d) := by
  intro out
  unfold universalFingerprint
  split
  · exact Kind.fingerprint.clean_result_unset _
  · exact Kind.clean_result_ok (Fingerprint.sound_assign _ _ (Or.inl rfl))

theorem clean_keyedFingerprint (d : BaseDigest) (k : SecretKey) :
    Kind.fingerprint.Clean (keyedFingerprint d k) := by
  intro out
  unfold keyedFingerprint
  split
  · exact Kind.fingerprint.clean_result_unset _
  split
  · exact Kind.fingerprint.clean_result_unset _
  · exact Kind.clean_result_ok (Fingerprint.sound_assign _ _ (Or.inr rfl))

theorem clean_importFingerprint (bytes32 : ByteView) (m : Mode) :
    Kind.fingerprint.Clean (importFingerprint bytes32 m) := by
  intro out
  unfold importFingerprint
  split
  · exact Kind.fingerprint.clean_result_unset _
  · rename_i h
    obtain ⟨-, -, hm⟩ : _ ∧ _ ∧ _ := by rwa [not_or, not_or, not_and_or] at h
    exact Kind.clean_result_ok
      (Fingerprint.sound_assign _ _ (hm.imp not_not.mp not_not.mp))

/-- A universal fingerprint is made only from a set digest. -/
theorem set_of_universalFingerprint {d : BaseDigest} {out : Fingerprint}
    (h : (universalFingerprint d out).1 = .ok) : d.set = true := by
  unfold universalFingerprint at h
  split at h
  · exact absurd h ErrorCode.noConfusion
  · rename_i hset
    simpa [BaseDigest.empty] using hset

/-- A keyed fingerprint is made only from a set digest and a set key. -/
theorem set_of_keyedFingerprint {d : BaseDigest} {k : SecretKey} {out : Fingerprint}
    (h : (keyedFingerprint d k out).1 = .ok) : d.set = true ∧ k.set = true := by
  unfold keyedFingerprint at h
  split at h
  · exact absurd h ErrorCode.noConfusion
  split at h
  · exact absurd h ErrorCode.noConfusion
  · rename_i hd hk
    exact ⟨by simpa [BaseDigest.empty] using hd, by simpa [SecretKey.empty] using hk⟩

/-! ### One operation -/

/-- Every object of the collection is sound. -/
def Objects.Sound (o : Objects ι) : Prop := ∀ x v, o x = some v → x.1.Sound v

/-- The object that a function writes, for an operation that is a call of a function. -/
def Operation.output : Operation ι → Option (Kind × ι)
  | .makeBaseDigest _ out | .makeBaseDigestFromText _ out | .makeBaseDigestFromHex _ out
  | .importBaseDigest _ out => some (.digest, out)
  | .makeSecretKey _ out => some (.key, out)
  | .universalFingerprint _ out | .keyedFingerprint _ _ out | .importFingerprint _ _ out =>
    some (.fingerprint, out)
  | _ => none

variable [DecidableEq ι] {o o' : Objects ι}

namespace Objects

@[simp] theorem put_self (k : Kind) (i : ι) (v : k.Value) : o.put k i v (k, i) = some v :=
  Function.update_self ..

theorem put_of_ne {k : Kind} {i : ι} {x : Kind × ι} (hx : x ≠ (k, i)) (v : k.Value) :
    o.put k i v x = o x :=
  Function.update_of_ne hx ..

/-- Two names of one class. -/
theorem put_name_of_ne {k : Kind} {i j : ι} (hij : j ≠ i) (v : k.Value) :
    o.put k i v (k, j) = o (k, j) :=
  put_of_ne (fun h => hij (congrArg Prod.snd h)) v

theorem Sound.put (ho : o.Sound) {k : Kind} (i : ι) {v : k.Value} (hv : k.Sound v) :
    (o.put k i v).Sound := by
  intro x w hw
  by_cases hx : x = (k, i)
  · subst hx
    rw [put_self, Option.some.injEq] at hw
    exact hw ▸ hv
  · rw [put_of_ne hx] at hw
    exact ho x w hw

/-- A call writes the object it names with what the function leaves. -/
theorem call_eq_some {k : Kind} {out : ι} {f : k.Value → ErrorCode × k.Value}
    {answer : Option ErrorCode} (h : o.call k out f = some (answer, o')) :
    ∃ v, o (k, out) = some v ∧ answer = some (f v).1 ∧ o' = o.put k out (f v).2 := by
  obtain ⟨v, hv, heq⟩ := Option.map_eq_some_iff.mp h
  obtain ⟨rfl, rfl⟩ := Prod.mk.inj heq
  exact ⟨v, hv, rfl, rfl⟩

end Objects

/-- **A call of a function** leaves in its output what a clean function leaves there. -/
theorem step_of_output {op : Operation ι} {out : Kind × ι} {answer : Option ErrorCode}
    (hout : op.output = some out) (hstep : o.step op = some (answer, o')) :
    ∃ (f : out.1.Value → ErrorCode × out.1.Value) (v : out.1.Value),
      out.1.Clean f ∧ answer = some (f v).1 ∧ o' = o.put out.1 out.2 (f v).2 := by
  have hcall {k : Kind} {i : ι} {f : k.Value → ErrorCode × k.Value} (hf : k.Clean f)
      (h : o.call k i f = some (answer, o')) :
      ∃ (f : k.Value → ErrorCode × k.Value) (v : k.Value),
        k.Clean f ∧ answer = some (f v).1 ∧ o' = o.put k i (f v).2 := by
    obtain ⟨v, -, hanswer, ho'⟩ := Objects.call_eq_some h
    exact ⟨f, v, hf, hanswer, ho'⟩
  cases op with
  | create | destroy | construct | assign => exact absurd hout (by simp [Operation.output])
  | makeBaseDigest data i =>
    obtain rfl := Option.some.inj hout
    exact hcall (clean_digestOf .binary data) hstep
  | makeBaseDigestFromText text i =>
    obtain rfl := Option.some.inj hout
    exact hcall (clean_digestOf .text text) hstep
  | makeBaseDigestFromHex hex i =>
    obtain rfl := Option.some.inj hout
    exact hcall (f := fun d => makeBaseDigestFromHex (hex.load d.clear.bytes) d)
      (fun d => clean_makeBaseDigestFromHex _ d) hstep
  | importBaseDigest bytes32 i =>
    obtain rfl := Option.some.inj hout
    exact hcall (clean_importBaseDigest bytes32) hstep
  | makeSecretKey bytes32 i =>
    obtain rfl := Option.some.inj hout
    exact hcall (clean_makeSecretKey bytes32) hstep
  | universalFingerprint digest i =>
    obtain rfl := Option.some.inj hout
    obtain ⟨d, -, hd⟩ := Option.bind_eq_some_iff.mp hstep
    exact hcall (clean_universalFingerprint d) hd
  | keyedFingerprint digest key i =>
    obtain rfl := Option.some.inj hout
    obtain ⟨d, -, hd⟩ := Option.bind_eq_some_iff.mp hstep
    obtain ⟨k, -, hk⟩ := Option.bind_eq_some_iff.mp hd
    exact hcall (clean_keyedFingerprint d k) hk
  | importFingerprint bytes32 m i =>
    obtain rfl := Option.some.inj hout
    exact hcall (clean_importFingerprint bytes32 m) hstep

/-- Both objects of a transfer are sound. -/
theorem Kind.sound_transfer (k : Kind) (how : Transfer) {other : k.Value} (h : k.Sound other) :
    k.Sound (k.transfer how other).1 ∧ k.Sound (k.transfer how other).2 := by
  cases k with
  | digest => exact ⟨h, h⟩
  | fingerprint => exact ⟨h, h⟩
  | key =>
    cases how with
    | copy => exact ⟨h, h⟩
    | move => exact ⟨h, Kind.key.sound_unset⟩

/-- A constructor writes a free name from another one. -/
theorem step_construct {k : Kind} {how : Transfer} {source target : ι}
    {answer : Option ErrorCode}
    (hstep : o.step (.construct k how source target) = some (answer, o')) :
    source ≠ target ∧ answer = none ∧ ∃ other, o (k, source) = some other ∧
      o' = (o.put k source (k.transfer how other).2).put k target (k.transfer how other).1 := by
  obtain ⟨hfree, hmap⟩ := Option.ite_none_right_eq_some.mp hstep
  obtain ⟨other, hother, heq⟩ := Option.map_eq_some_iff.mp hmap
  obtain ⟨rfl, rfl⟩ := Prod.mk.inj heq
  refine ⟨?_, rfl, other, hother, rfl⟩
  rintro rfl
  exact Option.some_ne_none other (hother.symm.trans hfree)

/-- An assignment to the object itself changes nothing; to another one it is a transfer. -/
theorem step_assign {k : Kind} {how : Transfer} {source target : ι}
    {answer : Option ErrorCode}
    (hstep : o.step (.assign k how source target) = some (answer, o')) :
    answer = none ∧ (source = target → o' = o) ∧
      (source ≠ target → ∃ other, o (k, source) = some other ∧
        o' = (o.put k source (k.transfer how other).2).put k target
          (k.transfer how other).1) := by
  obtain ⟨other, hother, hmap⟩ := Option.bind_eq_some_iff.mp hstep
  obtain ⟨_, -, heq⟩ := Option.map_eq_some_iff.mp hmap
  by_cases hself : source = target
  · rw [if_pos hself] at heq
    obtain ⟨rfl, rfl⟩ := Prod.mk.inj heq
    exact ⟨rfl, fun _ => rfl, fun h => absurd hself h⟩
  · rw [if_neg hself] at heq
    obtain ⟨rfl, rfl⟩ := Prod.mk.inj heq
    exact ⟨rfl, fun h => absurd h hself, fun _ => ⟨other, hother, rfl⟩⟩

/-- **One operation keeps the collection sound.** -/
theorem step_sound (o : Objects ι) (op : Operation ι) (answer : Option ErrorCode)
    (o' : Objects ι) (ho : o.Sound) (hstep : o.step op = some (answer, o')) : o'.Sound := by
  have htransfer {k : Kind} {how : Transfer} {source target : ι} {other : k.Value}
      (hother : o (k, source) = some other) :
      ((o.put k source (k.transfer how other).2).put k target
        (k.transfer how other).1).Sound := by
    obtain ⟨hthis, hleft⟩ := k.sound_transfer how (ho (k, source) other hother)
    exact (ho.put source hleft).put target hthis
  cases hout : op.output with
  | some out =>
    obtain ⟨f, v, hf, -, rfl⟩ := step_of_output hout hstep
    exact ho.put out.2 (hf v).1
  | none =>
    cases op with
    | create k i =>
      obtain ⟨-, heq⟩ := Option.ite_none_right_eq_some.mp hstep
      obtain ⟨-, rfl⟩ := Prod.mk.inj (Option.some.inj heq)
      exact ho.put i k.sound_unset
    | destroy k i =>
      obtain ⟨-, -, heq⟩ := Option.map_eq_some_iff.mp hstep
      obtain ⟨-, rfl⟩ := Prod.mk.inj heq
      intro x v hv
      by_cases hx : x = (k, i)
      · subst hx
        rw [Function.update_self] at hv
        exact absurd hv (by simp)
      · rw [Function.update_of_ne hx] at hv
        exact ho x v hv
    | construct k how source target =>
      obtain ⟨-, -, other, hother, rfl⟩ := step_construct hstep
      exact htransfer hother
    | assign k how source target =>
      obtain ⟨-, hself, hother⟩ := step_assign hstep
      by_cases hsame : source = target
      · exact hself hsame ▸ ho
      · obtain ⟨other, hsource, rfl⟩ := hother hsame
        exact htransfer hsource
    | _ => exact absurd hout (by simp [Operation.output])

/-- The key under `source` was moved to `target`: the target holds what the source held, the
source is unset, and nothing else changed. -/
def Moved (o o' : Objects ι) (source target : ι) : Prop :=
  o' (.key, source) = some SecretKey.unset ∧ o' (.key, target) = o (.key, source) ∧
    ∀ x, x ≠ (.key, source) → x ≠ (.key, target) → o' x = o x

/-- A transfer by moving between two keys. -/
theorem moved_put {source target : ι} {other : SecretKey} (hne : source ≠ target)
    (hother : o (.key, source) = some other) :
    Moved o ((o.put .key source other.clear).put .key target (SecretKey.copyFrom other)) source
      target := by
  refine ⟨?_, ?_, fun x hs ht => ?_⟩
  · rw [Objects.put_name_of_ne hne, Objects.put_self]
    rfl
  · rw [Objects.put_self, hother]
    rfl
  · rw [Objects.put_of_ne ht, Objects.put_of_ne hs]

/-- What one operation guarantees beside soundness. -/
structure StepContract (o : Objects ι) (op : Operation ι) (answer : Option ErrorCode)
    (o' : Objects ι) : Prop where
  /-- An error leaves the output unset and every other object as it was. -/
  error : ∀ ec ∈ answer, ec ≠ .ok →
    ∃ out ∈ op.output, o' out = some out.1.unset ∧ ∀ x ≠ out, o' x = o x
  moveConstruct : ∀ source target, op = .construct .key .move source target →
    Moved o o' source target
  moveAssign : ∀ source target, op = .assign .key .move source target →
    if source = target then o' = o else Moved o o' source target
  universal : ∀ digest out, op = .universalFingerprint digest out → answer = some .ok →
    ∃ d, o (.digest, digest) = some d ∧ d.set = true
  keyed : ∀ digest key out, op = .keyedFingerprint digest key out → answer = some .ok →
    ∃ d k, o (.digest, digest) = some d ∧ d.set = true ∧ o (.key, key) = some k ∧ k.set = true

/-- **One operation meets its contract.** -/
theorem step_contract (o : Objects ι) (op : Operation ι) (answer : Option ErrorCode)
    (o' : Objects ι) (hstep : o.step op = some (answer, o')) : StepContract o op answer o' where
  error := by
    intro ec hec herr
    cases hout : op.output with
    | some out =>
      obtain ⟨f, v, hf, rfl, rfl⟩ := step_of_output hout hstep
      obtain rfl : (f v).1 = ec := Option.some.inj hec
      refine ⟨out, rfl, ?_, fun x hx => Objects.put_of_ne hx _⟩
      rw [← (hf v).2 herr]
      exact Objects.put_self ..
    | none =>
      have hnone : answer = none := by
        cases op with
        | create k i =>
          obtain ⟨-, heq⟩ := Option.ite_none_right_eq_some.mp hstep
          exact (Prod.mk.inj (Option.some.inj heq)).1.symm
        | destroy k i =>
          obtain ⟨-, -, heq⟩ := Option.map_eq_some_iff.mp hstep
          exact (Prod.mk.inj heq).1.symm
        | construct k how source target => exact (step_construct hstep).2.1
        | assign k how source target => exact (step_assign hstep).1
        | _ => exact absurd hout (by simp [Operation.output])
      exact absurd (hnone ▸ hec) (by simp)
  moveConstruct := by
    rintro source target rfl
    obtain ⟨hne, -, other, hother, rfl⟩ := step_construct hstep
    exact moved_put hne hother
  moveAssign := by
    rintro source target rfl
    obtain ⟨-, hself, hother⟩ := step_assign hstep
    split_ifs with hsame
    · exact hself hsame
    · obtain ⟨other, hsource, rfl⟩ := hother hsame
      exact moved_put hsame hsource
  universal := by
    rintro digest out rfl hok
    obtain ⟨d, hd, hcall⟩ := Option.bind_eq_some_iff.mp hstep
    obtain ⟨f, -, hanswer, -⟩ := Objects.call_eq_some hcall
    exact ⟨d, hd, set_of_universalFingerprint (Option.some.inj (hanswer.symm.trans hok))⟩
  keyed := by
    rintro digest key out rfl hok
    obtain ⟨d, hd, hrest⟩ := Option.bind_eq_some_iff.mp hstep
    obtain ⟨k, hk, hcall⟩ := Option.bind_eq_some_iff.mp hrest
    obtain ⟨f, -, hanswer, -⟩ := Objects.call_eq_some hcall
    obtain ⟨hdset, hkset⟩ := set_of_keyedFingerprint (Option.some.inj (hanswer.symm.trans hok))
    exact ⟨d, k, hd, hdset, hk, hkset⟩

/-! ### Every run -/

/-- **Value objects never hold half-set state.** After every run of operations on a collection
that starts empty, every object is sound, and the next operation, whatever it is, meets its
contract. -/
theorem objects_sound (ops : List (Operation ι)) (answers : List (Option ErrorCode))
    (o : Objects ι) (hrun : run Objects.step (fun _ => none) ops = some (answers, o)) :
    o.Sound ∧ ∀ op answer o', o.step op = some (answer, o') →
      o'.Sound ∧ StepContract o op answer o' := by
  have hempty : Objects.Sound (fun _ => none : Objects ι) :=
    fun x v h => absurd h (by simp)
  have hsound : o.Sound := run_invariant (fun s c r s' => step_sound s c r s') hempty hrun
  exact ⟨hsound, fun op answer o' hstep =>
    ⟨step_sound o op answer o' hsound hstep, step_contract o op answer o' hstep⟩⟩

/-- A key that is moved away, and then loaded with zeros. -/
theorem objects_sound_moved_key :
    ∃ o : Objects ℕ, run Objects.step (fun _ => none)
        [.create .key 0, .makeSecretKey (.external (List.replicate 32 7)) 0,
          .construct .key .move 0 1, .makeSecretKey (.external (List.replicate 32 0)) 0] =
        some ([none, some .ok, none, some .invalidKey], o) ∧ o.Sound := by
  have hrun : ∃ o : Objects ℕ, run Objects.step (fun _ => none)
      [.create .key 0, .makeSecretKey (.external (List.replicate 32 7)) 0,
        .construct .key .move 0 1, .makeSecretKey (.external (List.replicate 32 0)) 0] =
      some ([none, some .ok, none, some .invalidKey], o) := ⟨_, rfl⟩
  exact hrun.imp fun o ho => ⟨ho, (objects_sound _ _ o ho).1⟩

end HumanizedHash
