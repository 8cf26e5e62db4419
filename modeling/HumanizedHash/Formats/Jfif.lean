import HumanizedHash.Formats.EntropyCode
import HumanizedHash.Foundations.Reader
import Mathlib.Algebra.BigOperators.Group.List.Basic

/-!
# Sequential JPEG files

A reader of the baseline sequential files with one scan, no restart intervals and no subsampling.
A file is the start of the image, marker segments up to the header of the scan, the entropy-coded
data and the end of the image. What the scan needs is taken from the segments in front of it alone:
the quantisers, the codes, and the frame with the dimensions and the components.

## Main definitions

* `Jfif.segment`, `Jfif.readSegment`: a marker segment.
* `Jfif.Tables`, `Jfif.define`, `Jfif.readSegments`: what the segments define.
* `Jfif.readScan`, `Jfif.resolveAll`, `Jfif.blockOrder`: the components of the scan, and the order
  of the blocks.
* `Jfif.Decoded`, `Jfif.parse`.

## Main results

* `Jfif.readSegments_append`: segments are read back.
* `Jfif.parse_eq`: a file is read back.
-/

namespace HumanizedHash

open Bits ByteOrder

namespace Jfif

/-! ### Segments -/

/-- The bytes of a marker segment. -/
def segment (s : UInt8 × List UInt8) : List UInt8 :=
  [0xFF, s.1] ++ (bigEndian 2 (s.2.length + 2) ++ s.2)

/-- A marker segment: its marker and what it holds. The length counts its own two bytes. -/
def readSegment : Reader (UInt8 × List UInt8) := fun l => do
  let (_, l) ← Reader.expect [0xFF] l
  let (marker, l) ← Reader.byte l
  let (n, l) ← Reader.be 2 l
  if 2 ≤ n then
    let (payload, l) ← Reader.bytes (n - 2) l
    return ((marker, payload), l)
  else
    none

/-- A segment is read back. -/
theorem inverts_readSegment {s : UInt8 × List UInt8} (h : s.2.length + 2 < 256 ^ 2) :
    Reader.Inverts readSegment segment id s := by
  intro rest
  have hmarker (l : List UInt8) : Reader.expect [0xFF] (0xFF :: l) = some ((), l) :=
    Reader.expect_append [0xFF] l
  rw [readSegment, segment]
  simp only [List.cons_append, List.nil_append, List.append_assoc, hmarker, Reader.byte_cons,
    Option.bind_eq_bind, Option.bind_some, Reader.be_append h,
    if_pos (show 2 ≤ s.2.length + 2 from Nat.le_add_left 2 _), Nat.add_sub_cancel,
    Reader.bytes_append rfl]
  rfl

/-! ### What the segments define -/

/-- A component of the frame: its identifier, its sampling factors and its quantiser. -/
structure Component where
  id : UInt8
  sampling : UInt8
  quantiser : UInt8
  deriving DecidableEq

structure Frame where
  height : ℕ
  width : ℕ
  components : List Component
  deriving DecidableEq

/-- What was defined so far, by the number of its destination. A quantiser is kept in the order of
the file. -/
structure Tables where
  quantisers : UInt8 → Option (List UInt8)
  dc : UInt8 → Option EntropyCode.Table
  ac : UInt8 → Option EntropyCode.Table
  frame : Option Frame

/-- Nothing is defined. -/
def Tables.empty : Tables := ⟨fun _ => none, fun _ => none, fun _ => none, none⟩

/-- A quantiser with elements of eight bits, for one of four destinations. -/
def readQuantiser : Reader (UInt8 × List UInt8) := fun l => do
  let (id, l) ← Reader.byte l
  let (elements, l) ← Reader.bytes 64 l
  if id < 4 then return ((id, elements), l) else none

/-- A code: its class and destination, the counts and the symbols. The codeword of ones is not
used. -/
def readCode : Reader (UInt8 × EntropyCode.Table) := fun l => do
  let (id, l) ← Reader.byte l
  let (counts, l) ← Reader.bytes 16 l
  let counts := counts.map UInt8.toNat
  let (symbols, l) ← Reader.bytes counts.sum l
  if id / 16 < 2 ∧ id % 16 < 2 ∧ Canonical.weight counts < 2 ^ 16 then
    return ((id, ⟨counts, symbols⟩), l)
  else
    none

def readComponent : Reader Component := fun l => do
  let (id, l) ← Reader.byte l
  let (sampling, l) ← Reader.byte l
  let (quantiser, l) ← Reader.byte l
  return (⟨id, sampling, quantiser⟩, l)

/-- The header of a frame of samples of eight bits. -/
def readFrame (payload : List UInt8) : Option Frame := do
  let (_, l) ← Reader.expect [8] payload
  let (height, l) ← Reader.be 2 l
  let (width, l) ← Reader.be 2 l
  let (n, l) ← Reader.byte l
  let (components, l) ← Reader.many readComponent n.toNat l
  if 0 < height ∧ 0 < width ∧ 0 < n ∧ l = [] then return ⟨height, width, components⟩ else none

def Tables.setQuantiser (t : Tables) (q : UInt8 × List UInt8) : Tables :=
  { t with quantisers := Function.update t.quantisers q.1 (some q.2) }

/-- The class is in the upper four bits: 0 for the differences, 1 for the runs. -/
def Tables.setCode (t : Tables) (c : UInt8 × EntropyCode.Table) : Tables :=
  if c.1 / 16 = 0 then { t with dc := Function.update t.dc (c.1 % 16) (some c.2) }
  else { t with ac := Function.update t.ac (c.1 % 16) (some c.2) }

/-- What a segment defines: quantisers, codes, or the frame. Application data and comments define
nothing; other segments are not accepted. -/
def define (t : Tables) (s : UInt8 × List UInt8) : Option Tables :=
  if s.1 = 0xDB then
    (Reader.all readQuantiser s.2.length s.2).map (List.foldl Tables.setQuantiser t)
  else if s.1 = 0xC4 then
    (Reader.all readCode s.2.length s.2).map (List.foldl Tables.setCode t)
  else if s.1 = 0xC0 ∧ t.frame = none then
    (readFrame s.2).map fun frame => { t with frame := some frame }
  else if (0xE0 ≤ s.1 ∧ s.1 ≤ 0xEF) ∨ s.1 = 0xFE then
    some t
  else
    none

/-- The segments up to the header of the scan, at most `n` of them: what they define, and the
header. -/
def readSegments : ℕ → Tables → List UInt8 → Option ((Tables × List UInt8) × List UInt8)
  | 0, _, _ => none
  | n + 1, t, l =>
    (readSegment l).bind fun (s, l) =>
      if s.1 = 0xDA then some ((t, s.2), l)
      else (define t s).bind fun t => readSegments n t l

/-- **Segments are read back**, up to the header of the scan. -/
theorem readSegments_append {n : ℕ} {t t' : Tables} (segments : List (UInt8 × List UInt8))
    (hlength : ∀ s ∈ segments, s.1 ≠ 0xDA ∧ s.2.length + 2 < 256 ^ 2)
    (hdefine : segments.foldlM define t = some t') {scan : List UInt8}
    (hscan : scan.length + 2 < 256 ^ 2) (hn : segments.length < n) (rest : List UInt8) :
    readSegments n t (segments.flatMap segment ++ (segment (0xDA, scan) ++ rest)) =
      some ((t', scan), rest) := by
  induction segments generalizing n t with
  | nil =>
    obtain ⟨n, rfl⟩ : ∃ m, n = m + 1 := Nat.exists_eq_add_one.mpr hn
    obtain rfl : t = t' := Option.some.inj hdefine
    have hheader : readSegment (segment (0xDA, scan) ++ rest) = some ((0xDA, scan), rest) :=
      inverts_readSegment hscan rest
    rw [List.flatMap_nil, List.nil_append, readSegments, hheader]
    rfl
  | cons s segments ih =>
    obtain ⟨n, rfl⟩ : ∃ m, n = m + 1 := Nat.exists_eq_add_one.mpr (Nat.zero_lt_of_lt hn)
    obtain ⟨hmarker, hs⟩ := hlength s List.mem_cons_self
    rw [List.foldlM_cons] at hdefine
    obtain ⟨t₁, ht₁, hrest⟩ := Option.bind_eq_some_iff.mp hdefine
    have htail := ih (fun s hs => hlength s (List.mem_cons_of_mem _ hs)) hrest
      (Nat.lt_of_succ_lt_succ hn)
    rw [List.flatMap_cons, List.append_assoc, readSegments, inverts_readSegment hs,
      Option.bind_some]
    dsimp only [id]
    rw [if_neg hmarker, ht₁, Option.bind_some, htail]

/-! ### The definitions of a segment -/

/-- The bytes of a quantiser in a segment. -/
def quantiserBytes (q : UInt8 × List UInt8) : List UInt8 := q.1 :: q.2

/-- The bytes of a code in a segment: its class and destination, its counts and its symbols. -/
def codeBytes (c : UInt8 × List UInt8 × List UInt8) : List UInt8 := c.1 :: (c.2.1 ++ c.2.2)

/-- The code with these bytes. -/
def codeOf (c : UInt8 × List UInt8 × List UInt8) : UInt8 × EntropyCode.Table :=
  (c.1, ⟨c.2.1.map UInt8.toNat, c.2.2⟩)

section Define

variable (t : Tables)

theorem define_quantisers (qs : List (UInt8 × List UInt8))
    (h : ∀ q ∈ qs, q.1 < 4 ∧ q.2.length = 64) :
    define t (0xDB, qs.flatMap quantiserBytes) = some (qs.foldl Tables.setQuantiser t) := by
  have hread (q : UInt8 × List UInt8) (hq : q ∈ qs) :
      Reader.Inverts readQuantiser quantiserBytes id q := by
    intro rest
    obtain ⟨hid, hlength⟩ := h q hq
    rw [readQuantiser, quantiserBytes, List.cons_append]
    simp only [Reader.byte_cons, Option.bind_eq_bind, Option.bind_some,
      Reader.bytes_append hlength, if_pos hid]
    rfl
  have hall := Reader.inverts_all qs hread (fun q _ => Nat.le_add_left 1 q.2.length) le_rfl
  rw [define, if_pos rfl, hall, List.map_id]
  rfl

theorem define_codes (cs : List (UInt8 × List UInt8 × List UInt8))
    (h : ∀ c ∈ cs, (c.1 / 16 < 2 ∧ c.1 % 16 < 2) ∧ c.2.1.length = 16 ∧
      c.2.2.length = (c.2.1.map UInt8.toNat).sum ∧
      Canonical.weight (c.2.1.map UInt8.toNat) < 2 ^ 16) :
    define t (0xC4, cs.flatMap codeBytes) = some ((cs.map codeOf).foldl Tables.setCode t) := by
  have hread (c : UInt8 × List UInt8 × List UInt8) (hc : c ∈ cs) :
      Reader.Inverts readCode codeBytes codeOf c := by
    intro rest
    obtain ⟨hid, hcounts, hsymbols, hweight⟩ := h c hc
    rw [readCode, codeBytes, List.cons_append, List.append_assoc]
    simp only [Reader.byte_cons, Option.bind_eq_bind, Option.bind_some,
      Reader.bytes_append hcounts, Reader.bytes_append hsymbols]
    exact if_pos ⟨hid.1, hid.2, hweight⟩
  have hall := Reader.inverts_all cs hread (fun c _ => Nat.le_add_left 1 _) le_rfl
  rw [define, if_neg (show ¬(0xC4 : UInt8) = 0xDB by decide), if_pos rfl, hall]
  rfl

/-- The bytes of a component in a segment. -/
def componentBytes (c : Component) : List UInt8 := [c.id, c.sampling, c.quantiser]

/-- What a frame segment holds. -/
def frameBytes (frame : Frame) : List UInt8 :=
  8 :: (bigEndian 2 frame.height ++ (bigEndian 2 frame.width ++
    UInt8.ofNat frame.components.length :: frame.components.flatMap componentBytes))

theorem define_frame {frame : Frame} (hnone : t.frame = none)
    (hheight : 0 < frame.height ∧ frame.height < 256 ^ 2)
    (hwidth : 0 < frame.width ∧ frame.width < 256 ^ 2)
    (hcount : 0 < frame.components.length ∧ frame.components.length < 256) :
    define t (0xC0, frameBytes frame) = some { t with frame := some frame } := by
  have hprecision (l : List UInt8) : Reader.expect [8] (8 :: l) = some ((), l) :=
    Reader.expect_append [8] l
  have hn : (UInt8.ofNat frame.components.length).toNat = frame.components.length := by
    rw [UInt8.toNat_ofNat', Nat.mod_eq_of_lt hcount.2]
  have hpos : 0 < UInt8.ofNat frame.components.length := by
    rw [UInt8.lt_iff_toNat_lt, hn]
    exact hcount.1
  have hcomponent (c : Component) : Reader.Inverts readComponent componentBytes id c := fun _ => rfl
  have hcomponents := Reader.inverts_many frame.components (fun c _ => hcomponent c) []
  rw [List.append_nil, List.map_id, ← hn] at hcomponents
  have hread : readFrame (frameBytes frame) = some frame := by
    rw [readFrame, frameBytes]
    simp only [hprecision, Option.bind_eq_bind, Option.bind_some, Reader.be_append hheight.2,
      Reader.be_append hwidth.2, Reader.byte_cons, hcomponents]
    exact if_pos ⟨hheight.1, hwidth.1, hpos, trivial⟩
  rw [define, if_neg (show ¬(0xC0 : UInt8) = 0xDB by decide),
    if_neg (show ¬(0xC0 : UInt8) = 0xC4 by decide), if_pos ⟨rfl, hnone⟩, hread]
  rfl

theorem define_application {marker : UInt8} (payload : List UInt8)
    (h : 0xE0 ≤ marker ∧ marker ≤ 0xEF) : define t (marker, payload) = some t := by
  have hne {other : UInt8} (hother : other < 0xE0) : marker ≠ other := by
    rintro rfl
    exact absurd hother (UInt8.not_lt.mpr h.1)
  rw [define, if_neg (hne (by decide)), if_neg (hne (by decide)),
    if_neg (fun hframe => hne (by decide) hframe.1), if_pos (Or.inl h)]

end Define

/-! ### The scan -/

/-- What is defined for a component of the scan. -/
structure ScanComponent where
  quantiser : List UInt8
  coding : EntropyCode.Coding
  deriving DecidableEq

/-- The components of a scan header: each its identifier and the destinations of its two codes.
All coefficients are in the scan. -/
def readScan (payload : List UInt8) : Option (List (UInt8 × UInt8)) := do
  let (n, l) ← Reader.byte payload
  let (selectors, l) ← Reader.many (fun l => do
    let (id, l) ← Reader.byte l
    let (codes, l) ← Reader.byte l
    return ((id, codes), l)) n.toNat l
  if l = [0, 63, 0] then return selectors else none

/-- What is defined for a component, by the selector of the scan header. -/
def resolve (t : Tables) (component : Component) (selector : UInt8 × UInt8) :
    Option ScanComponent := do
  let quantiser ← t.quantisers component.quantiser
  let dc ← t.dc (selector.2 / 16)
  let ac ← t.ac (selector.2 % 16)
  if component.id = selector.1 ∧ component.sampling = 0x11 then
    return ⟨quantiser, dc, ac⟩
  else
    none

/-- The components of the scan; they are those of the frame. -/
def resolveAll (t : Tables) : List Component → List (UInt8 × UInt8) → Option (List ScanComponent)
  | [], [] => some []
  | c :: cs, s :: ss => do
    let component ← resolve t c s
    let components ← resolveAll t cs ss
    return component :: components
  | _, _ => none

/-- The components of the blocks: the positions row by row, and at each position the components. -/
def blockOrder (width height : ℕ) (components : List ScanComponent) :
    List (EntropyCode.Coding × ℕ) :=
  (List.range ((height + 7) / 8)).flatMap fun _ =>
    (List.range ((width + 7) / 8)).flatMap fun _ =>
      (components.map ScanComponent.coding).zipIdx

/-- What a file holds: its dimensions, the quantiser of each component in zigzag order, and the
coefficients of the blocks in the order of the file. -/
structure Decoded where
  width : ℕ
  height : ℕ
  quantisers : List (List UInt8)
  blocks : List (List ℤ)
  deriving DecidableEq

/-- The coefficients of a file. The unused bits of the last byte are ones, and nothing is behind the
end of the image. -/
def parse (file : List UInt8) : Option Decoded := do
  let (_, l) ← Reader.expect [0xFF, 0xD8] file
  let ((tables, scan), l) ← readSegments l.length .empty l
  let frame ← tables.frame
  let selectors ← readScan scan
  let components ← resolveAll tables frame.components selectors
  let (data, l) ← EntropyCode.unstuff l
  let (blocks, bits) ← EntropyCode.readBlocks (blockOrder frame.width frame.height components)
    (fun _ => 0) (msbOf data)
  if bits.length < 8 ∧ bits = List.replicate bits.length true ∧ l = [0xFF, 0xD9] then
    return ⟨frame.width, frame.height, components.map ScanComponent.quantiser, blocks⟩
  else
    none

/-- **A file is read back.** -/
theorem parse_eq {segments : List (UInt8 × List UInt8)} {tables : Tables} {frame : Frame}
    {scan : List UInt8} {selectors : List (UInt8 × UInt8)} {components : List ScanComponent}
    {data : List UInt8} {blocks : List (List ℤ)} {pad : ℕ}
    (hlength : ∀ s ∈ segments, s.1 ≠ 0xDA ∧ s.2.length + 2 < 256 ^ 2)
    (hdefine : segments.foldlM define .empty = some tables) (hframe : tables.frame = some frame)
    (hscan : scan.length + 2 < 256 ^ 2) (hselectors : readScan scan = some selectors)
    (hresolve : resolveAll tables frame.components selectors = some components)
    (hblocks : EntropyCode.readBlocks (blockOrder frame.width frame.height components)
      (fun _ => 0) (msbOf data) = some (blocks, List.replicate pad true)) (hpad : pad < 8) :
    parse ([0xFF, 0xD8] ++ (segments.flatMap segment ++ (segment (0xDA, scan) ++
      (EntropyCode.stuff data ++ [0xFF, 0xD9])))) =
      some ⟨frame.width, frame.height, components.map ScanComponent.quantiser, blocks⟩ := by
  have hcount : segments.length < (segments.flatMap segment ++ (segment (0xDA, scan) ++
      (EntropyCode.stuff data ++ [0xFF, 0xD9]))).length := by
    have hpos : ∀ n ∈ segments.map fun s => (segment s).length, 1 ≤ n := by
      intro n hn
      obtain ⟨s, -, rfl⟩ := List.mem_map.mp hn
      exact Nat.le_add_left 1 _
    have hle := List.length_le_sum_of_one_le _ hpos
    rw [List.length_map, ← List.length_flatMap] at hle
    simp only [List.length_append, List.length_cons]
    omega
  have hsegments := readSegments_append segments hlength hdefine hscan hcount
    (EntropyCode.stuff data ++ [0xFF, 0xD9])
  have hdata := EntropyCode.unstuff_append data (show (0xD9 : UInt8) ≠ 0x00 by decide) []
  rw [parse, Reader.expect_append]
  simp only [Option.bind_eq_bind, Option.bind_some, hsegments, hframe, hselectors, hresolve, hdata,
    hblocks, List.length_replicate]
  exact if_pos ⟨hpad, trivial, trivial⟩

end Jfif

end HumanizedHash
