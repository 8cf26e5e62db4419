import HumanizedHash.Interface.CAbi
import HumanizedHash.Raster.Render

/-!
# The C interface refines the C++ interface

Every function of the C interface is compared with a composition of calls of the C++ interface on
the values that its arguments have at the call (`Cpp.baseDigest` and its companions). The number
that is returned is that of the composition; on success its bytes are at the output address and
no other byte changes, wherever the inputs lie; on failure no byte changes (`Delivers`).

## Main definitions

* `Delivers`: what a C function owes to a composition of C++ calls.
* `Cpp.baseDigest`, `Cpp.keyedFingerprint`, `Cpp.render` and their companions.
* `AbiRefines`: the contract of the C interface.

## Main results

* `storeLayout_eq`: the assignments to `hh_layout`, as two contiguous ranges.
* `renderInto_eq_write`: a picture is written as a whole.
* `abiRefines`: the C interface meets its contract.

## References

* `src/src/c_api.cpp`, `src/include/hh/hh.h`, `src/include/hh/hh.hpp`.
-/

namespace HumanizedHash

/-! ### Compositions of C++ calls -/

/-- The result of a call, or its error. -/
def call {α : Type} (result : ErrorCode × α) : Except ErrorCode α :=
  if result.1 = .ok then .ok result.2 else .error result.1

/-- The mode that a number stands for; every number but 1 and 2 is unknown, also one that is 1 or
2 in its low byte. -/
def modeOfInt (mode : Int) : Mode :=
  if mode = 1 then .universal
  else if mode = 2 then .keyed
  else .unknown 0 (by decide)

namespace Cpp

def baseDigest (data : ByteView) : Except ErrorCode (List UInt8) := do
  let d ← call (makeBaseDigest data .unset)
  return d.bytes.toList

def baseDigestFromHex (hex : List UInt8) : Except ErrorCode (List UInt8) := do
  let d ← call (makeBaseDigestFromHex hex .unset)
  return d.bytes.toList

def baseDigestFromText (text : ByteView) : Except ErrorCode (List UInt8) := do
  let d ← call (makeBaseDigestFromText text .unset)
  return d.bytes.toList

def universalFingerprint (digest : List UInt8) : Except ErrorCode (List UInt8) := do
  let d ← call (importBaseDigest (.external digest) .unset)
  let fp ← call (HumanizedHash.universalFingerprint d .unset)
  return fp.bytes.toList

def keyedFingerprint (digest key : List UInt8) : Except ErrorCode (List UInt8) := do
  let d ← call (importBaseDigest (.external digest) .unset)
  let k ← call (makeSecretKey (.external key) .unset)
  let fp ← call (HumanizedHash.keyedFingerprint d k .unset)
  return fp.bytes.toList

def keyCheckValue (key : List UInt8) : Except ErrorCode (List UInt8) := do
  let k ← call (makeSecretKey (.external key) .unset)
  return k.kcv.toList

def tag (fingerprint : List UInt8) : Except ErrorCode (List UInt8) := do
  let fp ← call (importFingerprint (.external fingerprint) .universal .unset)
  return fp.tagChars.toList

def layoutOf (fingerprint : List UInt8) (mode : Mode) : Except ErrorCode Layout := do
  let fp ← call (importFingerprint (.external fingerprint) mode .unset)
  return describe fp

/-- The arguments of `render_into`. The fingerprint is checked before the options. -/
def renderArguments (fingerprint : List UInt8) (mode : Mode)
    (options : Except ErrorCode RenderOptions) :
    Except ErrorCode (Fingerprint × RenderOptions) := do
  let fp ← call (importFingerprint (.external fingerprint) mode .unset)
  let o ← options
  return (fp, o)

/-- The picture, for a buffer of `capacity` bytes. -/
def render (fingerprint : List UInt8) (mode : Mode) (size : UInt32)
    (options : Except ErrorCode RenderOptions) (capacity : ℕ) :
    Except ErrorCode (List UInt8) := do
  let (fp, o) ← renderArguments fingerprint mode options
  let picture ← call (HumanizedHash.render fp size o .empty)
  if capacity < imageBytes size then .error .bufferTooSmall else return picture.rgba

end Cpp

/-! ### The contract -/

/-- The C function returns the number of the C++ calls; on success their bytes are at the output
address and no other byte changes; on failure no byte changes. -/
def Delivers (mem : Memory UInt8) (out : ℕ) (result : Int × Memory UInt8)
    (cpp : Except ErrorCode (List UInt8)) : Prop :=
  match cpp with
  | .ok bytes => result = (hhOk, mem.write out bytes)
  | .error ec => ec ≠ .ok ∧ result = (ec.code, mem)

/-- The bytes of `hh_layout` in front of its padding. -/
def layoutHead (l : Layout) : List UInt8 :=
  l.mode.toByte :: l.cells.toList.flatMap fun c => [c.figure.toByte, c.colour]

/-- The bytes of `hh_layout` behind its padding. -/
def layoutTail (host : Endian) (l : Layout) : List UInt8 :=
  (l.paletteRgb.toList.flatMap fun c => host.store c.toNat) ++ host.store l.frameRgb.toNat

/-- The options at a pointer: null means the defaults, and a structure of another size is
refused. -/
def optionsAt (mem : Memory UInt8) (host : Endian) (o : Pointer) :
    Except ErrorCode RenderOptions :=
  match o with
  | none => .ok {}
  | some o =>
    if host.load (mem.read o 4) = 12 then
      .ok
        { shape := ImageShape.ofByte (mem (o + 4))
          frame := FrameStyle.ofByte (mem (o + 5))
          background := ⟨mem (o + 6), mem (o + 7), mem (o + 8)⟩
          backgroundAlpha := mem (o + 9)
          frameAlpha := mem (o + 10) }
    else
      .error .invalidArgument

/-- The characters at a pointer; null has none. -/
def charsAt (mem : Memory UInt8) (p : Pointer) (length : ℕ) : List UInt8 :=
  match p with
  | none => []
  | some p => mem.read p length

/-- A function that takes a sized input and writes a digest. -/
def DigestContract (mem : Memory UInt8) (f : Pointer → ℕ → Pointer → Int × Memory UInt8)
    (cpp : Pointer → ℕ → Except ErrorCode (List UInt8)) : Prop :=
  ∀ data size,
    f data size none = (hhInvalidArgument, mem) ∧
    ∀ out, if data = none ∧ size ≠ 0 then f data size (some out) = (hhInvalidArgument, mem)
      else Delivers mem out (f data size (some out)) (cpp data size)

/-- **The contract of the C interface** on a memory, for either byte order of the host. -/
structure AbiRefines (host : Endian) (mem : Memory UInt8) : Prop where
  baseDigest : DigestContract mem (hhBaseDigest mem) fun data size =>
    Cpp.baseDigest (match data with | none => .null size | some p => .external (mem.read p size))
  baseDigestFromHex : DigestContract mem (hhBaseDigestFromHex mem) fun hex length =>
    Cpp.baseDigestFromHex (charsAt mem hex length)
  baseDigestFromText : DigestContract mem (hhBaseDigestFromText mem) fun text length =>
    Cpp.baseDigestFromText
      (match text with | none => .null 0 | some p => .external (mem.read p length))
  universalFingerprint :
    (∀ digest, hhUniversalFingerprint mem digest none = (hhInvalidArgument, mem)) ∧
    (∀ out, hhUniversalFingerprint mem none out = (hhInvalidArgument, mem)) ∧
    ∀ digest out, Delivers mem out (hhUniversalFingerprint mem (some digest) (some out))
      (Cpp.universalFingerprint (mem.read digest 32))
  keyedFingerprint :
    (∀ key out, hhKeyedFingerprint mem none key out = (hhInvalidArgument, mem)) ∧
    (∀ digest out, hhKeyedFingerprint mem digest none out = (hhInvalidArgument, mem)) ∧
    (∀ digest key, hhKeyedFingerprint mem digest key none = (hhInvalidArgument, mem)) ∧
    ∀ digest key out, Delivers mem out
      (hhKeyedFingerprint mem (some digest) (some key) (some out))
      (Cpp.keyedFingerprint (mem.read digest 32) (mem.read key 32))
  keyCheckValue :
    (∀ out, hhKeyCheckValue mem none out = (hhInvalidArgument, mem)) ∧
    (∀ key, hhKeyCheckValue mem key none = (hhInvalidArgument, mem)) ∧
    ∀ key out, Delivers mem out (hhKeyCheckValue mem (some key) (some out))
      (Cpp.keyCheckValue (mem.read key 32))
  tag :
    (∀ out, hhTag mem none out = (hhInvalidArgument, mem)) ∧
    (∀ fingerprint, hhTag mem fingerprint none = (hhInvalidArgument, mem)) ∧
    ∀ fingerprint out, Delivers mem out (hhTag mem (some fingerprint) (some out))
      (Cpp.tag (mem.read fingerprint 32))
  layoutOf : ∀ mode,
    (∀ out, hhLayoutOf mem host none mode out = (hhInvalidArgument, mem)) ∧
    (∀ fingerprint, hhLayoutOf mem host fingerprint mode none = (hhInvalidArgument, mem)) ∧
    ∀ fingerprint out, match Cpp.layoutOf (mem.read fingerprint 32) (modeOfInt mode) with
      | .ok l => hhLayoutOf mem host (some fingerprint) mode (some out) =
          (hhOk, (mem.write out (layoutHead l)).write (out + 36) (layoutTail host l))
      | .error ec => ec ≠ .ok ∧
          hhLayoutOf mem host (some fingerprint) mode (some out) = (ec.code, mem)
  render : ∀ mode size options capacity,
    (∀ out, hhRender mem host none mode size options out capacity = (hhInvalidArgument, mem)) ∧
    (∀ fingerprint, hhRender mem host fingerprint mode size options none capacity =
      (hhInvalidArgument, mem)) ∧
    ∀ fingerprint out,
      let arguments := Cpp.renderArguments (mem.read fingerprint 32) (modeOfInt mode)
        (optionsAt mem host options)
      let result := hhRender mem host (some fingerprint) mode size options (some out) capacity
      (∀ ec, arguments = .error ec → result = (ec.code, mem)) ∧
      (∀ fp o, arguments = .ok (fp, o) →
        result = ((renderInto fp size o (some out) capacity mem).1.code,
          (renderInto fp size o (some out) capacity mem).2)) ∧
      Delivers mem out result (Cpp.render (mem.read fingerprint 32) (modeOfInt mode) size
        (optionsAt mem host options) capacity) ∧
      (result.1 = ErrorCode.bufferTooSmall.code ↔
        ∃ fp o, arguments = .ok (fp, o) ∧ (HumanizedHash.render fp size o .empty).1 = .ok ∧
          capacity < size.toNat * size.toNat * 4)
  measureContrast : ∀ options page,
    hhMeasureContrast mem host options page none = (hhInvalidArgument, mem) ∧
    ∀ out, Delivers mem out (hhMeasureContrast mem host options page (some out)) (do
      let o ← optionsAt mem host options
      let r := HumanizedHash.measureContrast o (colourOrWhite mem page)
      return host.store r.figuresX100 ++ host.store r.frameX100)

/-! ### Values at the boundary -/

@[simp] theorem Endian.length_store (host : Endian) (v : ℕ) : (host.store v).length = 4 := by
  cases host with
  | little => exact ByteOrder.length_littleEndian 4 v
  | big => exact ByteOrder.length_bigEndian 4 v

theorem call_ok {α : Type} (x : α) : call (ErrorCode.ok, x) = .ok x := rfl

theorem call_error {α : Type} {ec : ErrorCode} (h : ec ≠ .ok) (x : α) :
    call (ec, x) = .error ec := if_neg h

/-- An imported digest holds the bytes of the view. -/
theorem importBaseDigest_read (mem : Memory UInt8) (p : ℕ) (out : BaseDigest) :
    ∃ d : BaseDigest, importBaseDigest (.external (mem.read p 32)) out = (.ok, d) ∧
      d.bytes.toList = mem.read p 32 ∧ d.empty = false := by
  have hsize : ¬ ((ByteView.external (mem.read p 32)).isNull = true ∨
      (ByteView.external (mem.read p 32)).size ≠ 32) := by
    simp only [ByteView.isNull, ByteView.size, Memory.length_read, ne_eq, not_true_eq_false,
      Bool.false_eq_true, or_self, not_false_eq_true]
  refine ⟨out.assign (Storage.copyInto (Vector.replicate 32 0) 0 (mem.read p 32)), ?_, ?_, rfl⟩
  · rw [importBaseDigest, if_neg hsize, ByteView.load]
  · exact Storage.toList_copyInto_zero _ _ (mem.length_read p 32)

/-- The import of a fingerprint reads its mode first. -/
theorem importFingerprint_unknown (b : UInt8) (hb : b ≠ 1 ∧ b ≠ 2) (view : ByteView)
    (out : Fingerprint) :
    importFingerprint view (.unknown b hb) out = (.invalidFingerprint, .unset) := by
  rw [importFingerprint, if_pos (Or.inr (Or.inr ⟨nofun, nofun⟩)), Fingerprint.clear_eq]

/-- The errors of the import of a fingerprint. -/
theorem importFingerprint_fst (view : ByteView) (mode : Mode) (out : Fingerprint) :
    (importFingerprint view mode out).1 = .ok ∨
      (importFingerprint view mode out).1 = .invalidFingerprint := by
  rw [importFingerprint]
  split_ifs
  · exact Or.inr rfl
  · exact Or.inl rfl

/-- `make_fingerprint` on bytes is the import under the mode that the number stands for. -/
theorem makeFingerprint_some (mem : Memory UInt8) (p : ℕ) (mode : Int) (fp : Fingerprint) :
    (makeFingerprint mem (some p) mode fp).1 =
        (importFingerprint (.external (mem.read p 32)) (modeOfInt mode) fp).1 ∧
      call (makeFingerprint mem (some p) mode fp) =
        call (importFingerprint (.external (mem.read p 32)) (modeOfInt mode) fp) := by
  rw [makeFingerprint, modeOfInt]
  by_cases hu : mode = 1
  · subst hu
    exact ⟨rfl, rfl⟩
  by_cases hk : mode = 2
  · subst hk
    exact ⟨rfl, rfl⟩
  rw [if_pos ⟨hu, hk⟩, if_neg hu, if_neg hk, importFingerprint_unknown]
  exact ⟨rfl, rfl⟩

/-- `options_of` decides as `optionsAt` does. -/
theorem optionsOf_eq (mem : Memory UInt8) (host : Endian) (o : Pointer) :
    match optionsAt mem host o with
    | .ok options => optionsOf mem host o = (true, options)
    | .error ec => ec = .invalidArgument ∧ (optionsOf mem host o).1 = false := by
  cases o with
  | none => rfl
  | some o =>
    rw [optionsAt, optionsOf, sizeofRenderOptions]
    by_cases hsize : host.load (mem.read o 4) = 12
    · rw [if_pos hsize, if_neg (not_not.mpr hsize)]
    · rw [if_neg hsize, if_pos hsize]
      exact ⟨rfl, rfl⟩

/-- A cell is stored as its two bytes. -/
theorem storeLayout_eq (mem : Memory UInt8) (host : Endian) (out : ℕ) (l : Layout) :
    storeLayout mem host out l =
      (mem.write out (layoutHead l)).write (out + 36) (layoutTail host l) := by
  have hcells (m : Memory UInt8) :
      (l.cells.toList.zipIdx.foldl (fun m c =>
        (m.write (out + 1 + 2 * c.2) [c.1.figure.toByte]).write (out + 1 + 2 * c.2 + 1)
          [c.1.colour]) m) =
        m.write (out + 1) (l.cells.toList.flatMap fun c => [c.figure.toByte, c.colour]) := by
    rw [← Memory.foldl_write_zipIdx m (out + 1) 2 (fun c => [c.figure.toByte, c.colour])
      (fun _ => rfl) l.cells.toList 0]
    congr 1
    funext m c
    exact m.write_write_append _ [c.1.figure.toByte] [c.1.colour]
  have hpalette (m : Memory UInt8) :
      l.paletteRgb.toList.zipIdx.foldl (fun m c =>
        m.write (out + 36 + 4 * c.2) (host.store c.1.toNat)) m =
        m.write (out + 36) (l.paletteRgb.toList.flatMap fun c => host.store c.toNat) :=
    m.foldl_write_zipIdx (out + 36) 4 (fun c => host.store c.toNat)
      (fun c => host.length_store c.toNat) l.paletteRgb.toList 0
  have hlength : (l.paletteRgb.toList.flatMap fun c => host.store c.toNat).length = 16 := by
    rw [List.length_flatMap]
    simp only [Endian.length_store, List.map_const', Vector.length_toList, List.sum_replicate_nat]
  have hhead := mem.write_write_append out [l.mode.toByte]
    (l.cells.toList.flatMap fun c => [c.figure.toByte, c.colour])
  have htail (m : Memory UInt8) := m.write_write_append (out + 36)
    (l.paletteRgb.toList.flatMap fun c => host.store c.toNat) (host.store l.frameRgb.toNat)
  rw [List.length_singleton, List.singleton_append] at hhead
  rw [hlength, Nat.add_assoc] at htail
  rw [storeLayout, hcells, hpalette, hhead, htail, layoutHead, layoutTail]

/-- `render_into` on success writes the bytes of `render` as a whole. -/
theorem renderInto_eq_write {fp : Fingerprint} {size : UInt32} {options : RenderOptions}
    {job : RasterJob} (h : prepare fp size options = .ok job) (p : ℕ) (mem : Memory UInt8)
    (out : Image) : rasterise job size (some p) mem =
      (.ok, mem.write p (render fp size options out).2.rgba) := by
  have hjob := prepared_of_prepare h
  have hcode : (rasterise job size (some p) mem).1 = .ok := by rw [hjob.rasterise_eq]
  have hbytes : (render fp size options out).2.rgba =
      (rasterise job size (some p) mem).2.read p (imageBytes size) := by
    rw [render_of_ok h, hjob.read_eq 0 p _ mem]
  refine Prod.ext hcode ?_
  dsimp only
  rw [hbytes]
  funext a
  by_cases ha : p ≤ a ∧ a < p + imageBytes size
  · obtain ⟨i, rfl⟩ := Nat.exists_eq_add_of_le ha.1
    rw [Memory.write_apply_of_mem _ _ _ (by rw [Memory.length_read]; omega),
      Memory.getElem_read]
  · rw [hjob.apply_of_notMem p mem (by omega),
      Memory.write_apply_of_notMem _ _ _ (by rw [Memory.length_read]; omega)]

/-! ### The functions, one by one -/

theorem call_cases {α : Type} (result : ErrorCode × α) :
    (result.1 = .ok ∧ call result = .ok result.2) ∨
      (result.1 ≠ .ok ∧ call result = .error result.1) := by
  by_cases h : result.1 = .ok
  · exact Or.inl ⟨h, if_pos h⟩
  · exact Or.inr ⟨h, if_neg h⟩

section Contract

variable (mem : Memory UInt8)

/-- The last call of a composition, whose bytes are written when it succeeds. -/
theorem delivers_call {α : Type} (out : ℕ) (result : ErrorCode × α) (bytes : α → List UInt8) :
    Delivers mem out
      (if result.1 = .ok then (result.1.code, mem.write out (bytes result.2))
        else (result.1.code, mem))
      (call result >>= fun x => .ok (bytes x)) := by
  rcases call_cases result with ⟨hok, hcall⟩ | ⟨herror, hcall⟩
  · rw [hcall, if_pos hok, hok]
    rfl
  · rw [hcall, if_neg herror]
    exact ⟨herror, rfl⟩

theorem delivers_digestOut (out : ℕ) (result : ErrorCode × BaseDigest) :
    Delivers mem out ((digestOut mem result out).1.code, (digestOut mem result out).2)
      (call result >>= fun d => .ok d.bytes.toList) := by
  have h := delivers_call mem out result fun d => d.bytes.toList
  rw [digestOut]
  split_ifs at h ⊢ <;> exact h

/-- A digest function checks its pointers, then delivers. -/
theorem digestContract_of_delivers {f : Pointer → ℕ → Pointer → Int × Memory UInt8}
    {cpp : Pointer → ℕ → Except ErrorCode (List UInt8)}
    (hnull : ∀ data size, f data size none = (hhInvalidArgument, mem))
    (hdata : ∀ size out, size ≠ 0 → f none size (some out) = (hhInvalidArgument, mem))
    (hdelivers : ∀ data size out, ¬ (data = none ∧ size ≠ 0) →
      Delivers mem out (f data size (some out)) (cpp data size)) :
    DigestContract mem f cpp := by
  intro data size
  refine ⟨hnull data size, fun out => ?_⟩
  split
  · next h =>
    obtain ⟨rfl, hsize⟩ := h
    exact hdata size out hsize
  · next h => exact hdelivers data size out h

theorem hhBaseDigest_contract :
    DigestContract mem (hhBaseDigest mem) fun data size => Cpp.baseDigest
      (match data with | none => .null size | some p => .external (mem.read p size)) := by
  refine digestContract_of_delivers mem (fun _ _ => rfl) (fun size out h => if_pos ⟨rfl, h⟩) ?_
  intro data size out h
  rw [hhBaseDigest, if_neg h]
  exact delivers_digestOut mem out _

theorem hhBaseDigestFromHex_contract : DigestContract mem (hhBaseDigestFromHex mem)
    fun hex length => Cpp.baseDigestFromHex (charsAt mem hex length) := by
  refine digestContract_of_delivers mem (fun _ _ => rfl) (fun size out h => if_pos ⟨rfl, h⟩) ?_
  intro hex length out h
  have hload : (stringViewOf mem hex length).load BaseDigest.unset.bytes =
      charsAt mem hex length := by
    cases hex <;> rfl
  rw [hhBaseDigestFromHex, if_neg h, hload]
  exact delivers_digestOut mem out _

theorem hhBaseDigestFromText_contract : DigestContract mem (hhBaseDigestFromText mem)
    fun text length => Cpp.baseDigestFromText
      (match text with | none => .null 0 | some p => .external (mem.read p length)) := by
  refine digestContract_of_delivers mem (fun _ _ => rfl) (fun size out h => if_pos ⟨rfl, h⟩) ?_
  intro text length out h
  rw [hhBaseDigestFromText, if_neg h]
  exact delivers_digestOut mem out _

theorem hhUniversalFingerprint_delivers (digest out : ℕ) :
    Delivers mem out (hhUniversalFingerprint mem (some digest) (some out))
      (Cpp.universalFingerprint (mem.read digest 32)) := by
  obtain ⟨d, himport, hbytes, hset⟩ := importBaseDigest_read mem digest .unset
  have hfp : HumanizedHash.universalFingerprint d .unset =
      (.ok, Fingerprint.unset.assign d.bytes .universal) := by
    rw [HumanizedHash.universalFingerprint, hset, if_neg Bool.false_ne_true, Fingerprint.clear_eq]
  have hcpp : Cpp.universalFingerprint (mem.read digest 32) = .ok d.bytes.toList := by
    rw [Cpp.universalFingerprint, himport, call_ok]
    dsimp only [bind, Except.bind]
    rw [hfp, call_ok]
    rfl
  rw [hcpp, hbytes]
  rfl

theorem hhKeyedFingerprint_delivers (digest key out : ℕ) :
    Delivers mem out (hhKeyedFingerprint mem (some digest) (some key) (some out))
      (Cpp.keyedFingerprint (mem.read digest 32) (mem.read key 32)) := by
  obtain ⟨d, himport, -, -⟩ := importBaseDigest_read mem digest .unset
  rw [hhKeyedFingerprint, Cpp.keyedFingerprint, himport, call_ok]
  dsimp only [bind, Except.bind]
  rw [if_pos rfl]
  generalize makeSecretKey (.external (mem.read key 32)) .unset = result
  obtain ⟨ec, k⟩ := result
  rcases call_cases (ec, k) with ⟨hok, hcall⟩ | ⟨herror, hcall⟩
  · rw [hcall, if_pos hok]
    exact delivers_call mem out _ fun fp : Fingerprint => fp.bytes.toList
  · rw [hcall, if_neg herror, if_neg herror]
    exact ⟨herror, rfl⟩

theorem hhKeyCheckValue_delivers (key out : ℕ) :
    Delivers mem out (hhKeyCheckValue mem (some key) (some out))
      (Cpp.keyCheckValue (mem.read key 32)) :=
  delivers_call mem out (makeSecretKey (.external (mem.read key 32)) .unset) fun k => k.kcv.toList

theorem hhTag_delivers (fingerprint out : ℕ) :
    Delivers mem out (hhTag mem (some fingerprint) (some out))
      (Cpp.tag (mem.read fingerprint 32)) :=
  delivers_call mem out (importFingerprint (.external (mem.read fingerprint 32)) .universal .unset)
    fun fp => fp.tagChars.toList

theorem hhLayoutOf_eq (host : Endian) (mode : Int) (fingerprint out : ℕ) :
    match Cpp.layoutOf (mem.read fingerprint 32) (modeOfInt mode) with
    | .ok l => hhLayoutOf mem host (some fingerprint) mode (some out) =
        (hhOk, (mem.write out (layoutHead l)).write (out + 36) (layoutTail host l))
    | .error ec => ec ≠ .ok ∧
        hhLayoutOf mem host (some fingerprint) mode (some out) = (ec.code, mem) := by
  have hcall := (makeFingerprint_some mem fingerprint mode .unset).2
  rw [Cpp.layoutOf, hhLayoutOf, ← hcall]
  generalize makeFingerprint mem (some fingerprint) mode .unset = result
  obtain ⟨ec, fp⟩ := result
  rcases call_cases (ec, fp) with ⟨hok, hcases⟩ | ⟨herror, hcases⟩
  · obtain rfl : ec = .ok := hok
    exact congrArg (Prod.mk hhOk) (storeLayout_eq mem host out (describe fp))
  · rw [hcases]
    exact ⟨herror, if_pos herror⟩

/-- `hh_render` behind its checks of the pointers: the fingerprint is taken first, then the
options, then `render_into` is called. -/
theorem hhRender_cases (host : Endian) (mode : Int) (size : UInt32) (options : Pointer)
    (capacity fingerprint out : ℕ) :
    match Cpp.renderArguments (mem.read fingerprint 32) (modeOfInt mode)
        (optionsAt mem host options) with
    | .ok (fp, o) => hhRender mem host (some fingerprint) mode size options (some out) capacity =
        ((renderInto fp size o (some out) capacity mem).1.code,
          (renderInto fp size o (some out) capacity mem).2)
    | .error ec => ec ≠ .ok ∧ ec ≠ .bufferTooSmall ∧
        hhRender mem host (some fingerprint) mode size options (some out) capacity =
          (ec.code, mem) := by
  have hcall := makeFingerprint_some mem fingerprint mode .unset
  have hcodes := importFingerprint_fst (.external (mem.read fingerprint 32)) (modeOfInt mode) .unset
  have hoptions := optionsOf_eq mem host options
  rw [← hcall.1] at hcodes
  rw [Cpp.renderArguments, hhRender, ← hcall.2]
  generalize makeFingerprint mem (some fingerprint) mode .unset = result at hcodes
  obtain ⟨ec, fp⟩ := result
  rcases call_cases (ec, fp) with ⟨hok, hcases⟩ | ⟨herror, hcases⟩
  · obtain rfl : ec = .ok := hok
    cases hat : optionsAt mem host options with
    | ok o =>
      rw [hat] at hoptions
      rw [hoptions]
      rfl
    | error oec =>
      rw [hat] at hoptions
      obtain ⟨rfl, hrefused⟩ := hoptions
      refine ⟨nofun, nofun, ?_⟩
      generalize optionsOf mem host options = o at hrefused
      obtain ⟨accepted, o⟩ := o
      subst hrefused
      rfl
  · rw [hcases]
    obtain rfl : ec = .invalidFingerprint := hcodes.resolve_left herror
    exact ⟨nofun, nofun, rfl⟩

theorem hhMeasureContrast_delivers (host : Endian) (options page : Pointer) (out : ℕ) :
    Delivers mem out (hhMeasureContrast mem host options page (some out)) (do
      let o ← optionsAt mem host options
      let r := HumanizedHash.measureContrast o (colourOrWhite mem page)
      return host.store r.figuresX100 ++ host.store r.frameX100) := by
  have hoptions := optionsOf_eq mem host options
  rw [hhMeasureContrast]
  cases hat : optionsAt mem host options with
  | ok o =>
    rw [hat] at hoptions
    rw [hoptions]
    have hwrite := mem.write_write_append out
      (host.store (HumanizedHash.measureContrast o (colourOrWhite mem page)).figuresX100)
      (host.store (HumanizedHash.measureContrast o (colourOrWhite mem page)).frameX100)
    rw [Endian.length_store] at hwrite
    exact Prod.ext rfl hwrite
  | error ec =>
    rw [hat] at hoptions
    obtain ⟨rfl, hrefused⟩ := hoptions
    generalize optionsOf mem host options = o at hrefused
    obtain ⟨accepted, o⟩ := o
    subst hrefused
    exact ⟨nofun, rfl⟩

/-- Too small a buffer is no fault of `prepare`. -/
theorem ne_bufferTooSmall_of_prepare {fp : Fingerprint} {size : UInt32} {options : RenderOptions}
    {ec : ErrorCode} (h : prepare fp size options = .error ec) : ec ≠ .bufferTooSmall := by
  rw [prepare] at h
  dsimp only at h
  split_ifs at h <;> rw [← Except.error.inj h] <;> exact ErrorCode.noConfusion

/-- What `render_into` gives against what `render` and the capacity say. -/
theorem renderInto_delivers (fp : Fingerprint) (size : UInt32) (o : RenderOptions)
    (out capacity : ℕ) :
    Delivers mem out
        ((renderInto fp size o (some out) capacity mem).1.code,
          (renderInto fp size o (some out) capacity mem).2)
        (call (HumanizedHash.render fp size o .empty) >>= fun picture =>
          if capacity < imageBytes size then .error .bufferTooSmall else .ok picture.rgba) ∧
      ((renderInto fp size o (some out) capacity mem).1 = .bufferTooSmall ↔
        (HumanizedHash.render fp size o .empty).1 = .ok ∧ capacity < imageBytes size) := by
  cases hprepare : prepare fp size o with
  | error ec =>
    have hok := ne_ok_of_prepare hprepare
    have hsmall := ne_bufferTooSmall_of_prepare hprepare
    rw [renderInto_of_error hprepare, render_of_error hprepare, call_error hok]
    exact ⟨⟨hok, rfl⟩, fun h => absurd h hsmall, fun h => absurd h.1 hok⟩
  | ok job =>
    have hpicture := renderInto_eq_write hprepare out mem .empty
    rw [renderInto_of_ok hprepare, hpicture, render_of_ok hprepare, call_ok]
    dsimp only [bind, Except.bind]
    split_ifs with hcapacity
    · exact ⟨⟨nofun, rfl⟩, fun _ => ⟨rfl, hcapacity⟩, fun _ => rfl⟩
    · exact ⟨rfl, nofun, fun h => absurd h.2 hcapacity⟩

theorem hhRender_delivers (host : Endian) (mode : Int) (size : UInt32) (options : Pointer)
    (capacity fingerprint out : ℕ) :
    Delivers mem out
      (hhRender mem host (some fingerprint) mode size options (some out) capacity)
      (Cpp.render (mem.read fingerprint 32) (modeOfInt mode) size (optionsAt mem host options)
        capacity) := by
  have hcases := hhRender_cases mem host mode size options capacity fingerprint out
  rw [Cpp.render]
  cases harguments : Cpp.renderArguments (mem.read fingerprint 32) (modeOfInt mode)
      (optionsAt mem host options) with
  | ok arguments =>
    rw [harguments] at hcases
    rw [hcases]
    exact (renderInto_delivers mem arguments.1 size arguments.2 out capacity).1
  | error ec =>
    rw [harguments] at hcases
    exact ⟨hcases.1, hcases.2.2⟩

theorem hhRender_bufferTooSmall_iff (host : Endian) (mode : Int) (size : UInt32)
    (options : Pointer) (capacity fingerprint out : ℕ) :
    (hhRender mem host (some fingerprint) mode size options (some out) capacity).1 =
        ErrorCode.bufferTooSmall.code ↔
      ∃ fp o, Cpp.renderArguments (mem.read fingerprint 32) (modeOfInt mode)
          (optionsAt mem host options) = .ok (fp, o) ∧
        (HumanizedHash.render fp size o .empty).1 = .ok ∧
        capacity < size.toNat * size.toNat * 4 := by
  have hcases := hhRender_cases mem host mode size options capacity fingerprint out
  cases harguments : Cpp.renderArguments (mem.read fingerprint 32) (modeOfInt mode)
      (optionsAt mem host options) with
  | ok arguments =>
    rw [harguments] at hcases
    rw [hcases, ErrorCode.code_injective.eq_iff,
      (renderInto_delivers mem arguments.1 size arguments.2 out capacity).2]
    refine ⟨fun h => ⟨arguments.1, arguments.2, rfl, h⟩, ?_⟩
    rintro ⟨fp, o, heq, h⟩
    obtain rfl := Except.ok.inj heq
    exact h
  | error ec =>
    rw [harguments] at hcases
    rw [hcases.2.2, ErrorCode.code_injective.eq_iff]
    exact ⟨fun h => absurd h hcases.2.1, nofun⟩

end Contract

/-- **The C interface refines the C++ interface**, on every memory and for either byte order. -/
theorem abiRefines (host : Endian) (mem : Memory UInt8) : AbiRefines host mem where
  baseDigest := hhBaseDigest_contract mem
  baseDigestFromHex := hhBaseDigestFromHex_contract mem
  baseDigestFromText := hhBaseDigestFromText_contract mem
  universalFingerprint :=
    ⟨fun digest => by cases digest <;> rfl, fun _ => rfl, hhUniversalFingerprint_delivers mem⟩
  keyedFingerprint :=
    ⟨fun _ _ => rfl, fun digest _ => by cases digest <;> rfl,
      fun digest key => by cases digest <;> cases key <;> rfl, hhKeyedFingerprint_delivers mem⟩
  keyCheckValue := ⟨fun _ => rfl, fun key => by cases key <;> rfl, hhKeyCheckValue_delivers mem⟩
  tag := ⟨fun out => by cases out <;> rfl, fun _ => rfl, hhTag_delivers mem⟩
  layoutOf mode :=
    ⟨fun out => by cases out <;> rfl, fun _ => rfl, fun fingerprint out =>
      hhLayoutOf_eq mem host mode fingerprint out⟩
  render mode size options capacity := by
    refine ⟨fun out => by cases out <;> rfl, fun _ => rfl, fun fingerprint out => ?_⟩
    have hcases := hhRender_cases mem host mode size options capacity fingerprint out
    refine ⟨fun ec herror => ?_, fun fp o hok => ?_,
      hhRender_delivers mem host mode size options capacity fingerprint out,
      hhRender_bufferTooSmall_iff mem host mode size options capacity fingerprint out⟩
    · rw [herror] at hcases
      exact hcases.2.2
    · rw [hok] at hcases
      exact hcases
  measureContrast options page :=
    ⟨rfl, hhMeasureContrast_delivers mem host options page⟩

end HumanizedHash
