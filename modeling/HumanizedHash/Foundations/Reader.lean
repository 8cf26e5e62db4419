import HumanizedHash.Foundations.ByteOrder

/-!
# Reading fields off a byte string

A reader takes a value off the front of a byte string and leaves the rest, or fails. The readers
here take a number of bytes, a number in either byte order, one byte that must be a given one, and
a number of values one behind the other, or all of them. A reader inverts an encoding if it takes
the value off every string that starts with its encoding; readers of parts that invert encodings are
combined to readers of the whole that do.

## Main definitions

* `Reader`, `Reader.Inverts`.
* `Reader.bytes`, `Reader.byte`, `Reader.expect`, `Reader.le`, `Reader.be`, `Reader.many`,
  `Reader.all`.

## Main results

* `Reader.bytes_append`, `Reader.le_append`, `Reader.be_append`.
* `Reader.inverts_many`, `Reader.inverts_all`: values one behind the other.
-/

open ByteOrder

/-- A partial parser that consumes the front of a byte string. -/
abbrev Reader (α : Type) := List UInt8 → Option (α × List UInt8)

namespace Reader

variable {α β : Type}

/-- The first `n` bytes. -/
def bytes (n : ℕ) : Reader (List UInt8) := fun l =>
  if n ≤ l.length then some (l.take n, l.drop n) else none

/-- One byte. -/
def byte : Reader UInt8
  | [] => none
  | b :: l => some (b, l)

/-- The bytes `s`, and nothing else. -/
def expect (s : List UInt8) : Reader Unit := fun l =>
  (bytes s.length l).bind fun (t, l) => if t = s then some ((), l) else none

/-- A number of `n` bytes, least significant byte first. -/
def le (n : ℕ) : Reader ℕ := fun l => (bytes n l).map fun (t, l) => (ofLittleEndian t, l)

/-- A number of `n` bytes, most significant byte first. -/
def be (n : ℕ) : Reader ℕ := fun l => (bytes n l).map fun (t, l) => (ofBigEndian t, l)

/-- `n` values one behind the other. -/
def many (read : Reader α) : ℕ → Reader (List α)
  | 0, l => some ([], l)
  | n + 1, l => (read l).bind fun (a, l) => (many read n l).map fun (as, l) => (a :: as, l)

/-- Values one behind the other up to the end, at most `n` of them. -/
def all (read : Reader α) : ℕ → List UInt8 → Option (List α)
  | 0, l => if l = [] then some [] else none
  | n + 1, l =>
    if l = [] then some []
    else (read l).bind fun (a, l) => (all read n l).map (a :: ·)

/-- The reader takes the value `f x` off every string that starts with the encoding of `x`. -/
def Inverts (read : Reader β) (encode : α → List UInt8) (f : α → β) (x : α) : Prop :=
  ∀ rest, read (encode x ++ rest) = some (f x, rest)

theorem bytes_append {s : List UInt8} {n : ℕ} (h : s.length = n) (rest : List UInt8) :
    bytes n (s ++ rest) = some (s, rest) := by
  subst h
  rw [bytes, if_pos (by rw [List.length_append]; exact Nat.le_add_right ..), List.take_left,
    List.drop_left]

@[simp] theorem byte_cons (b : UInt8) (rest : List UInt8) : byte (b :: rest) = some (b, rest) := rfl

@[simp] theorem expect_append (s rest : List UInt8) : expect s (s ++ rest) = some ((), rest) := by
  simp only [expect, bytes_append rfl, Option.bind_some, if_pos]

@[simp] theorem le_append {n v : ℕ} (h : v < 256 ^ n) (rest : List UInt8) :
    le n (littleEndian n v ++ rest) = some (v, rest) := by
  simp only [le, bytes_append (length_littleEndian n v), Option.map_some,
    ofLittleEndian_littleEndian h]

@[simp] theorem be_append {n v : ℕ} (h : v < 256 ^ n) (rest : List UInt8) :
    be n (bigEndian n v ++ rest) = some (v, rest) := by
  simp only [be, bytes_append (length_bigEndian n v), Option.map_some, ofBigEndian_bigEndian h]

/-- The rest of a parser, after a number was read. -/
theorem le_bind {n v : ℕ} (h : v < 256 ^ n) (rest : List UInt8)
    (next : ℕ × List UInt8 → Option β) :
    (le n (littleEndian n v ++ rest) >>= next) = next (v, rest) := by
  rw [le_append h]
  rfl

theorem be_bind {n v : ℕ} (h : v < 256 ^ n) (rest : List UInt8)
    (next : ℕ × List UInt8 → Option β) :
    (be n (bigEndian n v ++ rest) >>= next) = next (v, rest) := by
  rw [be_append h]
  rfl

/-- **Values one behind the other.** -/
theorem inverts_many {read : Reader β} {encode : α → List UInt8} {f : α → β} (xs : List α)
    (h : ∀ x ∈ xs, Inverts read encode f x) (rest : List UInt8) :
    many read xs.length (xs.flatMap encode ++ rest) = some (xs.map f, rest) := by
  induction xs with
  | nil => rfl
  | cons x xs ih =>
    have hrest := ih fun y hy => h y (List.mem_cons_of_mem x hy)
    simp only [List.length_cons, many, List.flatMap_cons, List.append_assoc,
      h x List.mem_cons_self _, Option.bind_some, hrest, Option.map_some, List.map_cons]

/-- Values one behind the other up to the end. -/
theorem inverts_all {read : Reader β} {encode : α → List UInt8} {f : α → β} {n : ℕ} (xs : List α)
    (h : ∀ x ∈ xs, Inverts read encode f x) (hne : ∀ x ∈ xs, 1 ≤ (encode x).length)
    (hn : (xs.flatMap encode).length ≤ n) :
    all read n (xs.flatMap encode) = some (xs.map f) := by
  induction xs generalizing n with
  | nil => cases n <;> rfl
  | cons x xs ih =>
    have hpos := hne x List.mem_cons_self
    rw [List.flatMap_cons, List.length_append] at hn
    obtain ⟨n, rfl⟩ : ∃ m, n = m + 1 := Nat.exists_eq_add_one.mpr (by omega)
    have hrest := ih (fun y hy => h y (List.mem_cons_of_mem x hy))
      (fun y hy => hne y (List.mem_cons_of_mem x hy)) (show _ ≤ n by omega)
    have hsome : encode x ++ xs.flatMap encode ≠ [] :=
      List.append_ne_nil_of_left_ne_nil (List.ne_nil_of_length_pos hpos) _
    rw [List.flatMap_cons, all, if_neg hsome, h x List.mem_cons_self, Option.bind_some]
    dsimp only
    rw [hrest, Option.map_some, List.map_cons]

end Reader
