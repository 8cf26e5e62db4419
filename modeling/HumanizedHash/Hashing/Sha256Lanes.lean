import HumanizedHash.Foundations.Lanes
import HumanizedHash.Hashing.Sha256

/-!
# SHA-256 in lanes

The compression function on many states and blocks at once, each state in a lane of eight numbers
and each block in a lane of sixteen. The message schedule is kept as a window of sixteen words that
moves one word a round.

The operations are those of the natural numbers, applied by name and evaluated before they are used,
so that the kernel computes with them.

## Main definitions

* `Sha256.word`: the words of the message schedule.
* `Sha256Lanes.State`, `Sha256Lanes.Window`: states and blocks in lanes.
* `Sha256Lanes.compress`: the compression function in lanes.

## Main results

* `Sha256.getElem!_schedule`: the schedule holds its words.
* `Sha256Lanes.compress_pack`: the compression function in lanes is that of every lane.

## References

* `src/src/sha256.cpp`.
-/

namespace HumanizedHash

open Lanes

namespace Sha256

/-! ### The words of the schedule -/

def smallSigma0 (x : UInt32) : UInt32 := rotr x 7 ^^^ rotr x 18 ^^^ (x >>> 3)

def smallSigma1 (x : UInt32) : UInt32 := rotr x 17 ^^^ rotr x 19 ^^^ (x >>> 10)

/-- The words of the message schedule of a block with the words `m`. -/
def word (m : ℕ → UInt32) (t : ℕ) : UInt32 :=
  if t < 16 then m t
  else word m (t - 16) + smallSigma0 (word m (t - 15)) + word m (t - 7) +
    smallSigma1 (word m (t - 2))
termination_by t

theorem word_of_lt (m : ℕ → UInt32) {t : ℕ} (ht : t < 16) : word m t = m t := by
  rw [word, if_pos ht]

theorem word_add_sixteen (m : ℕ → UInt32) (t : ℕ) : word m (t + 16) =
    word m t + smallSigma0 (word m (t + 1)) + word m (t + 9) + smallSigma1 (word m (t + 14)) := by
  rw [word, if_neg (by omega)]
  rfl

/-- One step of the loop of the schedule. -/
def extend (w : Array UInt32) (i : ℕ) : Array UInt32 :=
  w.push (w[i - 16]! + smallSigma0 w[i - 15]! + w[i - 7]! + smallSigma1 w[i - 2]!)

theorem foldl_extend (block : List UInt8) (n : ℕ) :
    (List.range' 16 n).foldl extend ((Array.range 16).map fun i => loadBe32 block (4 * i)) =
      ((List.range (16 + n)).map (word fun i => loadBe32 block (4 * i))).toArray := by
  induction n with
  | zero =>
    refine Array.ext (by simp) fun i hi _ => ?_
    have hlt : i < 16 := by simpa using hi
    simp only [List.range'_zero, List.foldl_nil, Array.getElem_map, Array.getElem_range,
      List.getElem_toArray, List.getElem_map, List.getElem_range]
    rw [word_of_lt _ hlt]
  | succ n ih =>
    have hget {i : ℕ} (hi : i < 16 + n) :
        ((List.range (16 + n)).map (word fun i => loadBe32 block (4 * i))).toArray[i]! =
          word (fun i => loadBe32 block (4 * i)) i := by
      simp [hi]
    have hword := word_add_sixteen (fun i => loadBe32 block (4 * i)) n
    rw [List.range'_1_concat, List.foldl_append, ih, List.foldl_cons, List.foldl_nil, extend,
      hget (by omega), hget (by omega), hget (by omega), hget (by omega), List.push_toArray,
      ← Nat.add_assoc, List.range_succ, List.map_append, List.map_singleton, Nat.add_comm 16 n,
      hword]
    rfl

/-- **The schedule holds its words.** -/
theorem getElem!_schedule (block : List UInt8) {t : ℕ} (ht : t < 64) :
    (schedule block)[t]! = word (fun i => loadBe32 block (4 * i)) t := by
  have hschedule : schedule block = (List.range' 16 48).foldl extend
      ((Array.range 16).map fun i => loadBe32 block (4 * i)) := rfl
  rw [hschedule, foldl_extend]
  simp [ht]

/-- The compression function over the words of the schedule. -/
theorem sha256Compress_eq (s : Sha256State) (block : List UInt8) :
    sha256Compress s block = feedForward s ((List.range' 0 64).foldl
      (fun v j => v.round k[j]! (word (fun i => loadBe32 block (4 * i)) j)) (workingOf s)) := by
  have hfold : (List.range 64).foldl (fun v j => v.round k[j]! (schedule block)[j]!) (workingOf s) =
      (List.range' 0 64).foldl
        (fun v j => v.round k[j]! (word (fun i => loadBe32 block (4 * i)) j)) (workingOf s) := by
    rw [List.range_eq_range']
    refine List.foldl_ext _ _ _ fun v j hj => ?_
    have hlt : j < 64 := by
      rw [List.mem_range'_1] at hj
      omega
    rw [getElem!_schedule block hlt]
  rw [sha256Compress]
  exact congrArg (feedForward s) hfold

end Sha256

open Sha256

namespace Sha256Lanes

/-! ### The operations -/

/-- The sum of words; `m` is the mask. -/
def add (m x y : ℕ) : ℕ := Nat.land (Nat.add x y) m

def double (x : ℕ) : ℕ := Nat.mul x 0x100000001

/-- The functions of three rotations, and of two rotations and a shift. -/
def bigSigma (m x i j k : ℕ) : ℕ :=
  Nat.land (Nat.xor (Nat.xor (Nat.shiftRight (double x) i) (Nat.shiftRight (double x) j))
    (Nat.shiftRight (double x) k)) m

def smallSigma (m x i j k : ℕ) : ℕ :=
  Nat.land (Nat.xor (Nat.xor (Nat.shiftRight (double x) i) (Nat.shiftRight (double x) j))
    (Nat.shiftRight x k)) m

/-- `ch` and `maj`, with fewer operations. -/
def choose (e f g : ℕ) : ℕ := Nat.xor g (Nat.land e (Nat.xor f g))

def majority (a b c : ℕ) : ℕ := Nat.xor (Nat.land a b) (Nat.land c (Nat.xor a b))

section Operations

variable {ι : Type*} (l : List ι) (f g h : ι → UInt32)

theorem add_pack : add (mask l) (words l f) (words l g) = words l fun i => f i + g i :=
  add_words l

theorem bigSigma_pack {i j k : ℕ} (hi : 0 < i ∧ i < 32) (hj : 0 < j ∧ j < 32)
    (hk : 0 < k ∧ k < 32) : bigSigma (mask l) (words l f) i j k = words l fun x =>
      rotr (f x) (UInt32.ofNat i) ^^^ rotr (f x) (UInt32.ofNat j) ^^^
        rotr (f x) (UInt32.ofNat k) := by
  change ((((words l f * (2 ^ 32 + 1)) >>> i) ^^^ ((words l f * (2 ^ 32 + 1)) >>> j)) ^^^
    ((words l f * (2 ^ 32 + 1)) >>> k)) &&& mask l = _
  rw [Nat.and_xor_distrib_right, Nat.and_xor_distrib_right, rotate_words l hi.1 hi.2,
    rotate_words l hj.1 hj.2, rotate_words l hk.1 hk.2, xor_words, xor_words]
  rfl

theorem smallSigma_pack {i j k : ℕ} (hi : 0 < i ∧ i < 32) (hj : 0 < j ∧ j < 32) (hk : k < 32) :
    smallSigma (mask l) (words l f) i j k = words l fun x =>
      rotr (f x) (UInt32.ofNat i) ^^^ rotr (f x) (UInt32.ofNat j) ^^^
        (f x >>> UInt32.ofNat k) := by
  change ((((words l f * (2 ^ 32 + 1)) >>> i) ^^^ ((words l f * (2 ^ 32 + 1)) >>> j)) ^^^
    (words l f >>> k)) &&& mask l = _
  rw [Nat.and_xor_distrib_right, Nat.and_xor_distrib_right, rotate_words l hi.1 hi.2,
    rotate_words l hj.1 hj.2, shift_words l hk, xor_words, xor_words]
  rfl

theorem choose_pack : choose (words l f) (words l g) (words l h) = words l fun i =>
    (f i &&& g i) ^^^ (~~~f i &&& h i) := by
  have hchoose (x y z : UInt32) : z ^^^ (x &&& (y ^^^ z)) = (x &&& y) ^^^ (~~~x &&& z) := by
    refine UInt32.toBitVec_inj.mp (BitVec.eq_of_getLsbD_eq fun j hj => ?_)
    simp only [UInt32.toBitVec_xor, UInt32.toBitVec_and, UInt32.toBitVec_not, BitVec.getLsbD_xor,
      BitVec.getLsbD_and, BitVec.getLsbD_not, decide_eq_true hj, Bool.true_and]
    cases x.toBitVec.getLsbD j <;> cases y.toBitVec.getLsbD j <;> cases z.toBitVec.getLsbD j <;> rfl
  change words l h ^^^ (words l f &&& (words l g ^^^ words l h)) = _
  rw [xor_words, land_words, xor_words]
  simp only [hchoose]

theorem majority_pack : majority (words l f) (words l g) (words l h) = words l fun i =>
    (f i &&& g i) ^^^ (f i &&& h i) ^^^ (g i &&& h i) := by
  have hmajority (x y z : UInt32) :
      (x &&& y) ^^^ (z &&& (x ^^^ y)) = (x &&& y) ^^^ (x &&& z) ^^^ (y &&& z) := by
    refine UInt32.toBitVec_inj.mp (BitVec.eq_of_getLsbD_eq fun j hj => ?_)
    simp only [UInt32.toBitVec_xor, UInt32.toBitVec_and, BitVec.getLsbD_xor, BitVec.getLsbD_and]
    cases x.toBitVec.getLsbD j <;> cases y.toBitVec.getLsbD j <;> cases z.toBitVec.getLsbD j <;> rfl
  change (words l f &&& words l g) ^^^ (words l h &&& (words l f ^^^ words l g)) = _
  rw [xor_words, land_words, land_words, xor_words]
  simp only [hmajority]

end Operations

/-! ### The compression function -/

/-- Eight words a lane. -/
structure State where
  a : ℕ
  b : ℕ
  c : ℕ
  d : ℕ
  e : ℕ
  f : ℕ
  g : ℕ
  h : ℕ
  deriving DecidableEq

/-- The next sixteen words of the schedule. -/
structure Window where
  w0 : ℕ
  w1 : ℕ
  w2 : ℕ
  w3 : ℕ
  w4 : ℕ
  w5 : ℕ
  w6 : ℕ
  w7 : ℕ
  w8 : ℕ
  w9 : ℕ
  w10 : ℕ
  w11 : ℕ
  w12 : ℕ
  w13 : ℕ
  w14 : ℕ
  w15 : ℕ

def State.round (m : ℕ) (v : State) (k w : ℕ) : State :=
  match v with
  | ⟨a, b, c, d, e, f, g, h⟩ =>
    force (add m (add m (add m (add m h (bigSigma m e 6 11 25)) (choose e f g)) k) w) fun t1 =>
      force (add m t1 (add m (bigSigma m a 2 13 22) (majority a b c))) fun a' =>
        force (add m d t1) fun e' => ⟨a', a, b, c, e', e, f, g⟩

def Window.next (m : ℕ) (w : Window) : Window :=
  match w with
  | ⟨w0, w1, w2, w3, w4, w5, w6, w7, w8, w9, w10, w11, w12, w13, w14, w15⟩ =>
    force (add m (add m (add m w0 (smallSigma m w1 7 18 3)) w9) (smallSigma m w14 17 19 10))
      fun w16 => ⟨w1, w2, w3, w4, w5, w6, w7, w8, w9, w10, w11, w12, w13, w14, w15, w16⟩

/-- A round with the next word of the schedule; `one` has a one in every lane. -/
def step (m one : ℕ) (p : Window × State) (k : ℕ) : Window × State :=
  (p.1.next m, p.2.round m (Nat.mul one k) p.1.w0)

/-- A round for each of the constants. -/
def rounds (m one : ℕ) (ks : List ℕ) (w : Window) (v : State) : State :=
  (ks.foldl (step m one) (w, v)).2

def State.add (m : ℕ) (s v : State) : State :=
  match s, v with
  | ⟨a, b, c, d, e, f, g, h⟩, ⟨a', b', c', d', e', f', g', h'⟩ =>
    ⟨Sha256Lanes.add m a a', Sha256Lanes.add m b b', Sha256Lanes.add m c c',
      Sha256Lanes.add m d d', Sha256Lanes.add m e e', Sha256Lanes.add m f f',
      Sha256Lanes.add m g g', Sha256Lanes.add m h h'⟩

/-- The round constants. -/
def constants : List ℕ := k.toList.map UInt32.toNat

/-- The compression function. -/
def compress (m one : ℕ) (s : State) (w : Window) : State :=
  s.add m (rounds m one constants w s)

section Pack

variable {ι : Type*} (l : List ι)

def packWorking (v : ι → Working) : State where
  a := words l fun i => (v i).a
  b := words l fun i => (v i).b
  c := words l fun i => (v i).c
  d := words l fun i => (v i).d
  e := words l fun i => (v i).e
  f := words l fun i => (v i).f
  g := words l fun i => (v i).g
  h := words l fun i => (v i).h

def packState (s : ι → Sha256State) : State := packWorking l fun i => workingOf (s i)

def packWindow (w : ι → ℕ → UInt32) : Window where
  w0 := words l fun i => w i 0
  w1 := words l fun i => w i 1
  w2 := words l fun i => w i 2
  w3 := words l fun i => w i 3
  w4 := words l fun i => w i 4
  w5 := words l fun i => w i 5
  w6 := words l fun i => w i 6
  w7 := words l fun i => w i 7
  w8 := words l fun i => w i 8
  w9 := words l fun i => w i 9
  w10 := words l fun i => w i 10
  w11 := words l fun i => w i 11
  w12 := words l fun i => w i 12
  w13 := words l fun i => w i 13
  w14 := words l fun i => w i 14
  w15 := words l fun i => w i 15

/-- **A round in lanes** is the round of every lane. -/
theorem round_pack (v : ι → Working) (k : UInt32) (w : ι → UInt32) :
    (packWorking l v).round (mask l) (Nat.mul (ones l) k.toNat) (words l w) =
      packWorking l fun i => (v i).round k (w i) := by
  have hconstant : Nat.mul (ones l) k.toNat = words l fun _ => k := ones_mul l k
  simp only [State.round, packWorking, force_eq, hconstant, choose_pack, majority_pack, add_pack,
    bigSigma_pack l _ (show 0 < 6 ∧ 6 < 32 by decide) (show 0 < 11 ∧ 11 < 32 by decide)
      (show 0 < 25 ∧ 25 < 32 by decide),
    bigSigma_pack l _ (show 0 < 2 ∧ 2 < 32 by decide) (show 0 < 13 ∧ 13 < 32 by decide)
      (show 0 < 22 ∧ 22 < 32 by decide)]
  rfl

/-- The window moves one word. -/
theorem next_pack {w : ι → ℕ → UInt32} (hw : ∀ i t, w i (t + 16) =
      w i t + smallSigma0 (w i (t + 1)) + w i (t + 9) + smallSigma1 (w i (t + 14))) (t : ℕ) :
    (packWindow l fun i j => w i (t + j)).next (mask l) =
      packWindow l fun i j => w i (t + 1 + j) := by
  have hnext (i : ι) : w i (t + 1 + 15) = _ := hw i t
  simp only [Window.next, packWindow, force_eq, add_pack,
    smallSigma_pack l _ (show 0 < 7 ∧ 7 < 32 by decide) (show 0 < 18 ∧ 18 < 32 by decide)
      (show 3 < 32 by decide),
    smallSigma_pack l _ (show 0 < 17 ∧ 17 < 32 by decide) (show 0 < 19 ∧ 19 < 32 by decide)
      (show 10 < 32 by decide), hnext]
  rfl

/-- **The rounds in lanes** are those of every lane. -/
theorem rounds_pack {w : ι → ℕ → UInt32} (hw : ∀ i t, w i (t + 16) =
      w i t + smallSigma0 (w i (t + 1)) + w i (t + 9) + smallSigma1 (w i (t + 14))) (t n : ℕ)
    (v : ι → Working) :
    rounds (mask l) (ones l) ((List.range' t n).map fun j => k[j]!.toNat)
        (packWindow l fun i j => w i (t + j)) (packWorking l v) =
      packWorking l fun i => (List.range' t n).foldl (fun v j => v.round k[j]! (w i j)) (v i) := by
  rw [rounds]
  induction n generalizing t v with
  | zero => rfl
  | succ n ih =>
    have hstep : step (mask l) (ones l)
        (packWindow l fun i j => w i (t + j), packWorking l v) k[t]!.toNat =
          (packWindow l fun i j => w i (t + 1 + j),
            packWorking l fun i => (v i).round k[t]! (w i t)) :=
      Prod.ext (next_pack l hw t) (round_pack l v k[t]! fun i => w i t)
    rw [List.range'_succ, List.map_cons, List.foldl_cons, hstep, ih]
    rfl

/-- A window is determined by its sixteen words. -/
theorem packWindow_congr {w w' : ι → ℕ → UInt32} (h : ∀ i, ∀ j < 16, w i j = w' i j) :
    packWindow l w = packWindow l w' := by
  have hword (j : ℕ) (hj : j < 16) : (words l fun i => w i j) = words l fun i => w' i j :=
    congrArg (words l) (funext fun i => h i j hj)
  simp (disch := decide) only [packWindow, hword]

theorem constants_eq : constants = (List.range' 0 64).map fun j => k[j]!.toNat := by
  decide +kernel

theorem add_packWorking (s : ι → Sha256State) (v : ι → Working) :
    (packState l s).add (mask l) (packWorking l v) =
      packState l fun i => feedForward (s i) (v i) := by
  simp only [State.add, packState, packWorking, add_pack]
  rfl

/-- **The compression function in lanes** is that of every lane. -/
theorem compress_pack (s : ι → Sha256State) (block : ι → List UInt8) :
    compress (mask l) (ones l) (packState l s)
        (packWindow l fun i j => loadBe32 (block i) (4 * j)) =
      packState l fun i => sha256Compress (s i) (block i) := by
  let w (i : ι) : ℕ → UInt32 := word fun j => loadBe32 (block i) (4 * j)
  have hwindow : (packWindow l fun i j => loadBe32 (block i) (4 * j)) =
      packWindow l fun i j => w i (0 + j) := by
    refine packWindow_congr l fun i j hj => ?_
    rw [Nat.zero_add]
    exact (word_of_lt (fun j => loadBe32 (block i) (4 * j)) hj).symm
  have hrounds := rounds_pack l (fun i => word_add_sixteen fun j => loadBe32 (block i) (4 * j)) 0 64
    fun i => workingOf (s i)
  have hstart : (packWorking l fun i => workingOf (s i)) = packState l s := rfl
  rw [hstart, ← constants_eq] at hrounds
  rw [compress, hwindow, hrounds, add_packWorking]
  simp only [sha256Compress_eq]

/-- The states are determined by their lanes. -/
theorem packState_inj {s t : ι → Sha256State} (h : packState l s = packState l t) :
    ∀ i ∈ l, s i = t i := by
  intro i hi
  obtain ⟨h0, h1, h2, h3, h4, h5, h6, h7⟩ := State.mk.inj h
  ext j hj : 1
  obtain rfl | rfl | rfl | rfl | rfl | rfl | rfl | rfl : j = 0 ∨ j = 1 ∨ j = 2 ∨ j = 3 ∨ j = 4 ∨
    j = 5 ∨ j = 6 ∨ j = 7 := by omega
  · exact words_inj l h0 i hi
  · exact words_inj l h1 i hi
  · exact words_inj l h2 i hi
  · exact words_inj l h3 i hi
  · exact words_inj l h4 i hi
  · exact words_inj l h5 i hi
  · exact words_inj l h6 i hi
  · exact words_inj l h7 i hi

end Pack

/-- The compression function, computed in a single lane, gives `t`. -/
def OneLane (s : Sha256State) (block : List UInt8) (t : Sha256State) : Prop :=
  compress (mask [()]) (ones [()]) (packState [()] fun _ => s)
    (packWindow [()] fun _ j => loadBe32 block (4 * j)) = packState [()] fun _ => t

instance (s : Sha256State) (block : List UInt8) (t : Sha256State) : Decidable (OneLane s block t) :=
  inferInstanceAs (Decidable (_ = _))

theorem OneLane.eq {s t : Sha256State} {block : List UInt8} (h : OneLane s block t) :
    sha256Compress s block = t := by
  rw [OneLane, compress_pack [()] (fun _ => s) fun _ => block] at h
  exact packState_inj [()] h () List.mem_cons_self

end Sha256Lanes

end HumanizedHash
