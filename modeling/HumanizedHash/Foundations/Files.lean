import HumanizedHash.Foundations.Fields
import Mathlib.Logic.Function.Basic

/-!
# Files behind buffered streams

A file is what is stored under a name, and different names have different files. A program does not
see it directly. What is written goes into a stream, which hands on a part at once and the rest
when it is closed, and the test of the stream between the two sees the first part only. What is
read comes through a buffer, which is filled from the file as it is at that moment. How a disk goes
about this is left open: which names can be opened, how many bytes of a file are taken, how much of
a write is handed on at once, and how much is read at a time.

## Main definitions

* `Files.Disk`: what is left open.
* `Files.Output`, `Files.Output.create`, `Files.Output.write`, `Files.Output.close`.
* `Files.Disk.accepts`, `Files.Disk.store`: the outcome of the test, and what is left of the bytes.
* `Files.Input`, `Files.Input.getline`: a stream that is read line by line.

## Main results

* `Files.good_write_create`, `Files.close_write_create`: a file that is written at once.
* `Files.Input.getline_eq`: the lines of a file that does not change.
-/

namespace HumanizedHash

namespace Files

variable {κ α : Type*}

/-- What is left open about a disk. A read takes at least one byte, if there is one. -/
structure Disk (κ : Type*) where
  /-- The file can be opened for writing. -/
  opens : κ → Bool
  /-- The bytes that the file takes. -/
  room : κ → ℕ
  /-- The bytes that are handed on at once, of a write of so many. -/
  early : κ → ℕ → ℕ
  /-- The bytes behind the first one that are read at a position. -/
  chunk : ℕ → ℕ

/-! ### Writing -/

section Writing

/-- A stream that is written: whether all went well so far, and the bytes that are not handed on. -/
structure Output (α : Type*) where
  good : Bool
  pending : List α

section Tests

variable (disk : Disk κ) (path : κ)

/-- The test of a stream behind a write of `n` bytes into a new file. -/
def Disk.accepts (n : ℕ) : Bool := disk.opens path && min (disk.early path n) n ≤ disk.room path

/-- A file of `n` bytes is stored whole. -/
def Disk.Stores (n : ℕ) : Prop := disk.opens path = true ∧ n ≤ disk.room path

variable {disk path}

theorem Disk.opens_of_accepts {n : ℕ} (h : disk.accepts path n = true) : disk.opens path = true :=
  (Bool.and_eq_true_iff.mp h).1

theorem Disk.Stores.accepts {n : ℕ} (h : disk.Stores path n) : disk.accepts path n = true := by
  rw [Disk.accepts, h.1, Bool.true_and]
  exact decide_eq_true ((Nat.min_le_right _ n).trans h.2)

end Tests

variable [DecidableEq κ] (disk : Disk κ) (path : κ)

/-- Bytes go to the end of a file, as many as it takes; whether it took all of them. -/
def append (bytes : List α) (files : κ → Option (List α)) : Bool × (κ → Option (List α)) :=
  let whole := (files path).getD [] ++ bytes
  (decide (whole.length ≤ disk.room path),
    Function.update files path (some (whole.take (disk.room path))))

namespace Output

/-- A file is opened for writing, and emptied. -/
def create (files : κ → Option (List α)) : Output α × (κ → Option (List α)) :=
  if disk.opens path then (⟨true, []⟩, Function.update files path (some []))
  else (⟨false, []⟩, files)

/-- A write into a stream. Behind a failure nothing is done. -/
def write (f : Output α) (bytes : List α) (files : κ → Option (List α)) :
    Output α × (κ → Option (List α)) :=
  if f.good then
    let whole := f.pending ++ bytes
    let early := disk.early path whole.length
    let (taken, files) := append disk path (whole.take early) files
    (⟨taken, if taken then whole.drop early else []⟩, files)
  else
    (f, files)

/-- The end of a stream: what is left is handed on, and nobody is told whether it was taken. -/
def close (f : Output α) (files : κ → Option (List α)) : κ → Option (List α) :=
  if f.pending = [] then files else (append disk path f.pending files).2

end Output

/-- The files behind a write into a new file: what fits is there. -/
def Disk.store (bytes : List α) (files : κ → Option (List α)) : κ → Option (List α) :=
  if disk.opens path then Function.update files path (some (bytes.take (disk.room path))) else files

/-- Bytes behind others that all fit. -/
theorem append_of_le {files : κ → Option (List α)} {old : List α} (hfile : files path = some old)
    (bytes : List α) : append disk path bytes files =
      (decide ((old ++ bytes).length ≤ disk.room path),
        Function.update files path (some ((old ++ bytes).take (disk.room path)))) := by
  rw [append, hfile, Option.getD_some]

variable (bytes : List α) (files : κ → Option (List α))

/-- **The test of the stream** of a file that is written at once. -/
theorem good_write_create :
    ((Output.create disk path files).1.write disk path bytes
      (Output.create disk path files).2).1.good = disk.accepts path bytes.length := by
  rw [Output.create, Disk.accepts]
  cases disk.opens path with
  | false => rfl
  | true =>
    have hempty : Function.update files path (some []) path = some [] := Function.update_self ..
    simp only [if_true, Output.write, append_of_le disk path hempty, List.nil_append,
      List.length_take, Bool.true_and]

/-- **What is left** of a file that is written at once. -/
theorem close_write_create :
    ((Output.create disk path files).1.write disk path bytes
      (Output.create disk path files).2).1.close disk path
      ((Output.create disk path files).1.write disk path bytes
        (Output.create disk path files).2).2 = disk.store path bytes files := by
  rw [Output.create, Disk.store]
  cases disk.opens path with
  | false => rfl
  | true =>
    have hempty : Function.update files path (some []) path = some [] := Function.update_self ..
    simp only [if_true, Output.write, append_of_le disk path hempty, List.nil_append,
      Function.update_idem]
    generalize disk.early path bytes.length = early
    by_cases hfits : (bytes.take early).length ≤ disk.room path
    · -- the first part fits, and the end of the stream brings the rest
      have hfirst :
          Function.update files path (some ((bytes.take early).take (disk.room path))) path =
            some (bytes.take early) := by
        rw [Function.update_self, List.take_of_length_le hfits]
      rw [decide_eq_true hfits, if_pos rfl, Output.close]
      split_ifs with hrest
      · have hall : bytes.take early = bytes := by
          have hsplit := List.take_append_drop early bytes
          rwa [show bytes.drop early = [] from hrest, List.append_nil] at hsplit
        rw [hall]
      · rw [append_of_le disk path hfirst, Function.update_idem, List.take_append_drop]
    · -- the first part does not fit, and fills the file
      have hroom : disk.room path ≤ early := by
        rw [List.length_take] at hfits
        omega
      rw [decide_eq_false hfits, if_neg Bool.false_ne_true, Output.close, if_pos rfl,
        List.take_take, Nat.min_eq_left hroom]

variable {disk path bytes files}

theorem Disk.Stores.store (h : disk.Stores path bytes.length) :
    disk.store path bytes files = Function.update files path (some bytes) := by
  rw [Disk.store, if_pos h.1, List.take_of_length_le h.2]

/-- What is left of a file. -/
theorem Disk.store_self : disk.store path bytes files path =
    if disk.opens path then some (bytes.take (disk.room path)) else files path := by
  rw [Disk.store]
  split_ifs with hopen
  · exact Function.update_self ..
  · rfl

/-- The other files. -/
theorem Disk.store_of_ne {other : κ} (h : other ≠ path) :
    disk.store path bytes files other = files other := by
  rw [Disk.store]
  split_ifs with hopen
  · exact Function.update_of_ne h _ _
  · rfl

end Writing

/-! ### Reading -/

/-- A stream that is read: the position in the file, what was read and not taken, and whether the
end of the file was met. -/
structure Input (α : Type*) where
  pos : ℕ := 0
  buffer : List α := []
  ended : Bool := false

namespace Input

/-- What a stream has not taken of a file. -/
def rest (s : Input α) (contents : List α) : List α :=
  if s.ended then [] else s.buffer ++ contents.drop s.pos

@[simp] theorem rest_new (contents : List α) : ({} : Input α).rest contents = contents := rfl

variable [DecidableEq α] (chunk : ℕ → ℕ) (nl : α) (contents : List α)

/-- A line is taken, up to the character that ends it or to the end of the file. The buffer is
filled from the file until it holds the line. A line that the end of the file ends is the last. -/
def getline (s : Input α) : Option (List α × Input α) :=
  if s.ended then
    none
  else if nl ∈ s.buffer then
    some (s.buffer.takeWhile (· ≠ nl), { s with buffer := (s.buffer.dropWhile (· ≠ nl)).tail })
  else if s.pos < contents.length then
    let read := (contents.drop s.pos).take (chunk s.pos + 1)
    getline { s with pos := s.pos + read.length, buffer := s.buffer ++ read }
  else if s.buffer = [] then
    none
  else
    some (s.buffer, { s with buffer := [], ended := true })
termination_by contents.length - s.pos
decreasing_by
  rw [List.length_take, List.length_drop]
  omega

/-- **The lines of a file that does not change.** How much is read at a time does not matter. -/
theorem getline_eq (s : Input α) :
    (s.getline chunk nl contents).map (fun r => (r.1, r.2.rest contents)) =
      Fields.getline nl (s.rest contents) := by
  fun_induction getline chunk nl contents s with
  | case1 s hended =>
    rw [rest, if_pos hended]
    rfl
  | case2 s hended hline =>
    rw [rest, if_neg hended, Fields.getline_append hline, Option.map_some, rest, if_neg hended]
  | case3 s hended hline hmore read ih =>
    have hsplit := List.take_append_drop (chunk s.pos + 1) (contents.drop s.pos)
    have hrest : contents.drop (s.pos + read.length) =
        (contents.drop s.pos).drop (chunk s.pos + 1) := by
      rw [← List.drop_drop]
      conv_lhs => rw [← hsplit]
      exact List.drop_left
    rw [ih, rest, rest, if_neg hended, if_neg hended, hrest, List.append_assoc]
    exact congrArg (fun l => Fields.getline nl (s.buffer ++ l)) hsplit
  | case4 s hended hline hmore hnil =>
    rw [rest, if_neg hended, hnil, List.drop_eq_nil_of_le (not_lt.mp hmore)]
    rfl
  | case5 s hended hline hmore hne =>
    rw [rest, if_neg hended, List.drop_eq_nil_of_le (not_lt.mp hmore), List.append_nil,
      Fields.getline_last hne hline]
    rfl

/-- A line leaves less of the file. -/
theorem length_rest_of_getline {chunk : ℕ → ℕ} {nl : α} {contents line : List α} {s s' : Input α}
    (h : s.getline chunk nl contents = some (line, s')) :
    (s'.rest contents).length < (s.rest contents).length := by
  have hread := getline_eq chunk nl contents s
  rw [h, Option.map_some] at hread
  exact Fields.length_of_getline nl hread.symm

/-- The lines in front of which a stream stands. -/
theorem lines_rest_of_getline {chunk : ℕ → ℕ} {nl : α} {contents line : List α} {s s' : Input α}
    (h : s.getline chunk nl contents = some (line, s')) :
    Fields.lines nl (s.rest contents) = line :: Fields.lines nl (s'.rest contents) := by
  have hread := getline_eq chunk nl contents s
  rw [h, Option.map_some] at hread
  exact Fields.lines_of_getline hread.symm

/-- There is no line left. -/
theorem lines_rest_of_getline_eq_none {chunk : ℕ → ℕ} {nl : α} {contents : List α} {s : Input α}
    (h : s.getline chunk nl contents = none) : Fields.lines nl (s.rest contents) = [] := by
  have hread := getline_eq chunk nl contents s
  rw [h, Option.map_none] at hread
  cases hrest : s.rest contents with
  | nil => exact Fields.lines_nil
  | cons a l =>
    rw [hrest] at hread
    exact Option.noConfusion rfl (heq_of_eq hread)

end Input

end Files

end HumanizedHash
