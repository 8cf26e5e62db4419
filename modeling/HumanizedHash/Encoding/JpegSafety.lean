import HumanizedHash.Encoding.Jpeg

/-!
# The JPEG encoder never overflows and never misses a code

The bounds of the values that the encoder computes, from the colour conversion to the writes of
the entropy-coded data, at every unit of the scan of any picture.

## Main definitions

* `ScanState.Sound`: the invariant of the scan.
* `UnitSafe`: what holds when a unit is coded.

## Main results

* `colourNumerator_mem`, `sampleBlock_mem`, `quantise_mem`: the bounds of the values.
* `lookup_mem`: a listed symbol has a code.
* `ScanState.Sound.encodeUnit`: a unit keeps the invariant.
* `jpegScan_safe`: every unit of every scan is safe.

## References

* `src/src/jpeg.cpp`, `src/docs/SPEC.md` (sections 13.3 to 13.7).
-/

namespace HumanizedHash

/-! ### Samples -/

/-- A numerator of the colour conversion is not negative, and its quotient is a byte. -/
theorem colourNumerator_mem (c : Fin 3) (r g b : UInt8) :
    0 ≤ colourNumerator c r.toNat g.toNat b.toNat ∧
      colourNumerator c r.toNat g.toNat b.toNat < 256 * 65536 := by
  have hr := r.toNat_lt
  have hg := g.toNat_lt
  have hb := b.toNat_lt
  fin_cases c <;> dsimp only [colourNumerator, yNumerator, cbNumerator, crNumerator] <;> omega

section Samples

variable (img : PixelView) (matte : Rgb) (left top : ℕ) (c : Fin 3)

theorem sampleBlock_get_mem (k : Fin 64) :
    -128 ≤ (sampleBlock img matte left top c).get k ∧
      (sampleBlock img matte left top c).get k ≤ 127 := by
  have hget (f : Fin 64 → ℤ) : (Vector.ofFn f).get k = f k := Vector.getElem_ofFn k.isLt
  rw [sampleBlock, hget]
  dsimp only
  generalize flattenedAt img matte _ _ = p
  have h := colourNumerator_mem c p.r p.g p.b
  rw [Int.tdiv_eq_ediv_of_nonneg h.1]
  omega

theorem sampleBlock_mem (a : ℕ) (ha : a < 64) :
    -128 ≤ (sampleBlock img matte left top c).load a ∧
      (sampleBlock img matte left top c).load a ≤ 127 := by
  have h := sampleBlock_get_mem img matte left top c ⟨a, ha⟩
  rwa [Block.get_eq_load] at h

end Samples

/-! ### Quantisation -/

theorem clamp_mem (v : ℤ) {low high : ℤ} (h : low ≤ high) :
    low ≤ clamp v low high ∧ clamp v low high ≤ high := by
  rw [clamp]
  split_ifs <;> omega

/-- A scaled quantiser has no zero. -/
theorem one_le_scaleQuantiser (base : Vector UInt8 64) (quality : ℤ) (k : Fin 64) :
    1 ≤ ((scaleQuantiser base quality).get k).toNat := by
  have hget : (scaleQuantiser base quality).get k = UInt8.ofInt
      (clamp ((((base.get k).toNat : ℤ) * (200 - 2 * quality) + 50).tdiv 100) 1 255) :=
    Vector.getElem_map _ k.isLt
  have hmem := clamp_mem ((((base.get k).toNat : ℤ) * (200 - 2 * quality) + 50).tdiv 100)
    (show (1 : ℤ) ≤ 255 by decide)
  rw [hget, UInt8.ofInt, UInt8.toNat_ofNat']
  omega

theorem one_le_quantisers (quality : ℤ) (t : Fin 2) (k : Fin 64) :
    1 ≤ ((quantisers quality t).get k).toNat := by
  fin_cases t
  · exact one_le_scaleQuantiser jpegLuminanceQuantiser quality k
  · exact one_le_scaleQuantiser jpegChrominanceQuantiser quality k

/-- The quotients of the sum of a block. -/
theorem quantise_mem {v d : ℤ} (hd : 8 ≤ d) (hlow : -8192 ≤ v) (hhigh : v ≤ 8128) :
    -1024 ≤ quantise v d ∧ quantise v d ≤ 1016 := by
  have hhalf : d.tdiv 2 = d / 2 := Int.tdiv_eq_ediv_of_nonneg (by omega)
  rw [quantise, hhalf]
  split_ifs with hsign
  · have hquotient : (v + d / 2) / d < 1017 := Int.ediv_lt_of_lt_mul (by omega) (by omega)
    have hnonneg : 0 ≤ (v + d / 2) / d := Int.ediv_nonneg (by omega) (by omega)
    rw [Int.tdiv_eq_ediv_of_nonneg (by omega)]
    omega
  · have hquotient : (-v + d / 2) / d < 1025 := Int.ediv_lt_of_lt_mul (by omega) (by omega)
    have hnonneg : 0 ≤ (-v + d / 2) / d := Int.ediv_nonneg (by omega) (by omega)
    rw [Int.tdiv_eq_ediv_of_nonneg (by omega)]
    omega

section Units

variable (img : PixelView) (quality : ℤ) (matte : Rgb) (u : ScanUnit)

theorem unitBlock_get (i : Fin 64) : (unitBlock img quality matte u).get i =
    let k := jpegZigzag.get i
    let value := quantise
      ((transform (sampleBlock img matte u.left u.top u.component)).get k)
      (8 * ((quantisers quality (tableOf u.component)).get k).toNat)
    if i.val ≠ 0 then clamp value (-1023) 1023 else value := by
  have hget (f : Fin 64 → ℤ) : (Vector.ofFn f).get i = f i := Vector.getElem_ofFn i.isLt
  rw [unitBlock, forwardDct_unbounded, quantisedBlock, hget]
  rfl

theorem unitBlock_zero_mem :
    -1024 ≤ dcOf (unitBlock img quality matte u) ∧
      dcOf (unitBlock img quality matte u) ≤ 1016 := by
  have hsum := transform_zero_mem (sampleBlock_mem img matte u.left u.top u.component)
  have hdivisor := one_le_quantisers quality (tableOf u.component) 0
  have hzigzag : jpegZigzag.get 0 = 0 := rfl
  have hfirst : ¬ ((0 : Fin 64) : ℕ) ≠ 0 := not_not.mpr rfl
  rw [dcOf_eq, unitBlock_get]
  dsimp only
  rw [hzigzag, if_neg hfirst, Block.get_eq_load]
  exact quantise_mem (by omega) hsum.1 hsum.2

theorem unitBlock_mem {i : Fin 64} (hi : i ≠ 0) :
    -1023 ≤ (unitBlock img quality matte u).get i ∧
      (unitBlock img quality matte u).get i ≤ 1023 := by
  have hval : (i : ℕ) ≠ 0 := fun h => hi (Fin.ext h)
  rw [unitBlock_get]
  dsimp only
  rw [if_pos hval]
  exact clamp_mem _ (by decide)

end Units

/-! ### Codes -/

theorem dcSpecs_valid (t : Fin 2) : (dcSpecs t).Valid := by
  fin_cases t
  · exact jpegDcLuminance_valid
  · exact jpegDcChrominance_valid

theorem acSpecs_valid (t : Fin 2) : (acSpecs t).Valid := by
  fin_cases t
  · exact jpegAcLuminance_valid
  · exact jpegAcChrominance_valid

theorem dcSpecs_listed (t : Fin 2) {s : ℕ} (hs : s ∈ dcSymbols) :
    s ∈ (dcSpecs t).symbols.map UInt8.toNat := by
  fin_cases t <;> exact dcSymbols_listed s hs

theorem acSpecs_listed (t : Fin 2) {s : ℕ} (hs : s ∈ acSymbols) :
    s ∈ (acSpecs t).symbols.map UInt8.toNat := by
  fin_cases t
  · exact (acSymbols_listed s hs).1
  · exact (acSymbols_listed s hs).2

/-- A listed symbol has a code, of at most 16 bits. -/
theorem lookup_mem {spec : JpegHuffmanSpec} (h : spec.Valid) {s : ℕ}
    (hs : s ∈ spec.symbols.map UInt8.toNat) :
    s < 256 ∧ 1 ≤ ((build spec).length s).toNat ∧ ((build spec).length s).toNat ≤ 16 := by
  obtain ⟨x, hx, rfl⟩ := exists_codeword h hs
  rw [(build_of_mem h hx).2]
  exact ⟨x.symbol.toNat_lt, Canonical.one_le_length hx, length_le_of_mem hx⟩

theorem mem_dcSymbols {n : ℕ} (h : n ≤ 11) : n ∈ dcSymbols :=
  List.mem_range.mpr (by omega)

/-- The symbols of a block whose values have at most ten bits are listed. -/
theorem number_mem_acSymbols {run : ℕ} {vs : List ℤ} (hvs : ∀ v ∈ vs, category v ≤ 10)
    {s : ScanSymbol} (hs : s ∈ runLengths run vs) :
    s.1 ≤ 15 ∧ category s.2 ≤ 10 ∧ s.number ∈ acSymbols := by
  have hnone : category 0 = 0 := category_eq_zero_iff.mpr rfl
  rcases mem_runLengths hs with rfl | rfl | ⟨hrun, hvalue, hmem⟩
  · dsimp only [ScanSymbol.number]
    rw [hnone]
    exact ⟨by decide, by decide, List.mem_cons_self⟩
  · dsimp only [ScanSymbol.number]
    rw [hnone]
    exact ⟨by decide, by decide, List.mem_cons_of_mem _ List.mem_cons_self⟩
  · have hcategory := hvs s.2 hmem
    have hpos : category s.2 ≠ 0 := fun h => hvalue (category_eq_zero_iff.mp h)
    refine ⟨hrun, hcategory, List.mem_cons_of_mem _ (List.mem_cons_of_mem _ ?_)⟩
    refine List.mem_flatMap.mpr ⟨s.1, List.mem_range.mpr (by omega), ?_⟩
    refine List.mem_map.mpr ⟨category s.2 - 1, List.mem_range.mpr (by omega), ?_⟩
    rw [ScanSymbol.number]
    omega

/-! ### The scan -/

theorem category_le_of_mem {v b : ℤ} {n : ℕ} (hb : b < 2 ^ n) (hv : -b ≤ v ∧ v ≤ b) :
    category v ≤ n := by
  refine category_le ?_
  zify
  rw [abs_lt]
  omega

/-- The invariant of the scan: full bytes have left the accumulator, and the predictions are
quantised sums. -/
structure ScanState.Sound (st : ScanState) : Prop where
  used_lt : st.writer.used < 8
  previousDc_mem : ∀ c, -1024 ≤ st.previousDc c ∧ st.previousDc c ≤ 1016

theorem ScanState.sound_start (header : List UInt8) : (ScanState.start header).Sound :=
  ⟨show 0 < 8 by decide, fun _ => show (-1024 : ℤ) ≤ 0 ∧ (0 : ℤ) ≤ 1016 by decide⟩

section Scan

variable (img : PixelView) (quality : ℤ) (matte : Rgb) {st : ScanState} (u : ScanUnit)

/-- The difference that a unit codes. -/
def unitDiff (st : ScanState) (u : ScanUnit) : ℤ :=
  dcOf (unitBlock img quality matte u) - st.previousDc u.component

/-- The runs that a unit codes. -/
def unitRuns (u : ScanUnit) : List ScanSymbol :=
  runLengths 0 ((unitBlock img quality matte u).toList.drop 1)

/-- The writes of a unit. -/
def unitPuts (st : ScanState) (u : ScanUnit) : List (UInt32 × ℕ) :=
  blockPuts (unitBlock img quality matte u) (unitDiff img quality matte st u)
    (dcTables (tableOf u.component)) (acTables (tableOf u.component))

/-- A unit makes its writes, and its sum becomes the prediction of its component. -/
theorem encodeUnit_eq (st : ScanState) : encodeUnit img quality matte st u =
    ⟨(unitPuts img quality matte st u).foldl (fun w p => w.put p.1 p.2) st.writer,
      Function.update st.previousDc u.component (dcOf (unitBlock img quality matte u))⟩ := by
  rw [encodeUnit, encodeComponent, encodeBlock_eq_puts]
  rfl

/-- A unit keeps the invariant. -/
theorem ScanState.Sound.encodeUnit (h : st.Sound) : (encodeUnit img quality matte st u).Sound := by
  rw [encodeUnit_eq]
  refine ⟨ScanWriter.used_foldl_put_lt h.used_lt _, fun c => ?_⟩
  dsimp only
  rw [Function.update_apply]
  split_ifs
  · exact unitBlock_zero_mem img quality matte u
  · exact h.previousDc_mem c

/-- The invariant holds after every unit of a scan. -/
theorem ScanState.Sound.foldl (h : st.Sound) (units : List ScanUnit) :
    (units.foldl (HumanizedHash.encodeUnit img quality matte) st).Sound := by
  induction units generalizing st with
  | nil => exact h
  | cons u units ih =>
    rw [List.foldl_cons]
    exact ih (h.encodeUnit img quality matte u)

/-- The value of a coefficient behind the first one. -/
theorem exists_get_of_mem_drop {zz : Vector ℤ 64} {v : ℤ} (h : v ∈ zz.toList.drop 1) :
    ∃ i : Fin 64, i ≠ 0 ∧ zz.get i = v := by
  obtain ⟨n, hn, rfl⟩ := List.mem_iff_getElem.mp h
  have hlt : 1 + n < 64 := by
    rw [List.length_drop, Vector.length_toList] at hn
    omega
  have hne : (⟨1 + n, hlt⟩ : Fin 64) ≠ 0 := 
    Fin.ne_of_val_ne (show 1 + n ≠ 0 by omega)
  refine ⟨⟨1 + n, hlt⟩, hne, ?_⟩
  rw [List.getElem_drop, Vector.getElem_toList]
  rfl

theorem category_diff_le (h : st.Sound) : category (unitDiff img quality matte st u) ≤ 11 := by
  have hzero := unitBlock_zero_mem img quality matte u
  have hprevious := h.previousDc_mem u.component
  rw [unitDiff]
  exact category_le_of_mem (b := 2040) (by decide) (by omega)

theorem category_get_le {i : Fin 64} (hi : i ≠ 0) :
    category ((unitBlock img quality matte u).get i) ≤ 10 :=
  category_le_of_mem (b := 1023) (by decide) (unitBlock_mem img quality matte u hi)

theorem unitRuns_mem {s : ScanSymbol} (hs : s ∈ unitRuns img quality matte u) :
    s.1 ≤ 15 ∧ category s.2 ≤ 10 ∧ s.number ∈ acSymbols := by
  refine number_mem_acSymbols (fun v hv => ?_) hs
  obtain ⟨i, hi, rfl⟩ := exists_get_of_mem_drop hv
  exact category_get_le img quality matte u hi

/-- The symbols of a unit are short. -/
theorem short_unitRuns {s : ScanSymbol} (hs : s ∈ unitRuns img quality matte u) :
    s.Short (acTables (tableOf u.component)) := by
  obtain ⟨-, hcategory, hmem⟩ := unitRuns_mem img quality matte u hs
  exact ⟨(lookup_mem (acSpecs_valid _) (acSpecs_listed _ hmem)).2.2, by omega⟩

theorem number_diff (d : ℤ) : ScanSymbol.number (0, d) = category d := by
  rw [ScanSymbol.number, Nat.zero_mul, Nat.zero_add]

theorem short_diff (h : st.Sound) :
    ScanSymbol.Short (dcTables (tableOf u.component)) (0, unitDiff img quality matte st u) := by
  have hcategory := category_diff_le img quality matte u h
  refine ⟨?_, by dsimp only; omega⟩
  rw [number_diff]
  exact (lookup_mem (dcSpecs_valid _) (dcSpecs_listed _ (mem_dcSymbols hcategory))).2.2

theorem unitPuts_snd_le (h : st.Sound) : ∀ p ∈ unitPuts img quality matte st u, p.2 ≤ 16 := by
  intro p hp
  rcases List.mem_append.mp hp with hdiff | hruns
  · exact (short_diff img quality matte u h).snd_le p hdiff
  · obtain ⟨s, hs, hp⟩ := List.mem_flatMap.mp hruns
    exact (short_unitRuns img quality matte u hs).snd_le p hp

end Scan

/-- What holds when a unit is coded in a state of the scan. -/
structure UnitSafe (img : PixelView) (quality : ℤ) (matte : Rgb) (st : ScanState)
    (u : ScanUnit) : Prop where
  /-- The numerators of the colour conversion are not negative. -/
  numerator_nonneg : ∀ x y, let p := flattenedAt img matte x y
    0 ≤ colourNumerator u.component p.r.toNat p.g.toNat p.b.toNat
  /-- The samples fit a signed byte. -/
  sample_mem : ∀ k, -128 ≤ (sampleBlock img matte u.left u.top u.component).get k ∧
    (sampleBlock img matte u.left u.top u.component).get k ≤ 127
  /-- The transform does not overflow. -/
  transform_checked : forwardDct checked (sampleBlock img matte u.left u.top u.component) =
    some (forwardDct unbounded (sampleBlock img matte u.left u.top u.component)).run
  /-- The quantised sum, and its difference to the prediction. -/
  dc_mem : -1024 ≤ dcOf (unitBlock img quality matte u) ∧
    dcOf (unitBlock img quality matte u) ≤ 1016
  category_diff : category (unitDiff img quality matte st u) ≤ 11
  /-- The other values. -/
  category_ac : ∀ i ≠ 0, category ((unitBlock img quality matte u).get i) ≤ 10
  /-- The symbols have codes. -/
  dc_code : 1 ≤ ((dcTables (tableOf u.component)).length
    (category (unitDiff img quality matte st u))).toNat
  ac_code : ∀ s ∈ unitRuns img quality matte u, s.1 ≤ 15 ∧ category s.2 ≤ 10 ∧
    1 ≤ ((acTables (tableOf u.component)).length s.number).toNat
  /-- The writes are those of the symbols. -/
  writer_eq : (encodeUnit img quality matte st u).writer =
    (ScanSymbol.puts (dcTables (tableOf u.component)) (0, unitDiff img quality matte st u) ++
      (unitRuns img quality matte u).flatMap
        (ScanSymbol.puts (acTables (tableOf u.component)))).foldl
      (fun w p => w.put p.1 p.2) st.writer
  /-- At every write the accumulator holds few bits. -/
  live : ∀ done p rest, unitPuts img quality matte st u = done ++ p :: rest →
    (done.foldl (fun w p => w.put p.1 p.2) st.writer).used + p.2 ≤ 23

theorem ScanState.Sound.unitSafe {st : ScanState} (h : st.Sound) (img : PixelView) (quality : ℤ)
    (matte : Rgb) (u : ScanUnit) : UnitSafe img quality matte st u where
  numerator_nonneg x y := (colourNumerator_mem u.component _ _ _).1
  sample_mem := sampleBlock_get_mem img matte u.left u.top u.component
  transform_checked := by
    rw [forwardDct_unbounded]
    exact forwardDct_checked (sampleBlock_mem img matte u.left u.top u.component)
  dc_mem := unitBlock_zero_mem img quality matte u
  category_diff := category_diff_le img quality matte u h
  category_ac _ hi := category_get_le img quality matte u hi
  dc_code := (lookup_mem (dcSpecs_valid _) (dcSpecs_listed _
    (mem_dcSymbols (category_diff_le img quality matte u h)))).2.1
  ac_code s hs := by
    obtain ⟨hrun, hcategory, hmem⟩ := unitRuns_mem img quality matte u hs
    exact ⟨hrun, hcategory, (lookup_mem (acSpecs_valid _) (acSpecs_listed _ hmem)).2.1⟩
  writer_eq := congrArg ScanState.writer (encodeUnit_eq img quality matte u st)
  live done p rest hsplit := by
    have hp := unitPuts_snd_le img quality matte u h p (by rw [hsplit]; simp)
    have hused := ScanWriter.used_foldl_put_lt h.used_lt done
    omega

/-- **The encoder never overflows and never misses a code.** At every unit of the scan of a
picture the bounds hold, and the filling of the last byte needs few bits as well. -/
theorem jpegScan_safe (img : PixelView) (quality : ℤ) (matte : Rgb) :
    let start := ScanState.start (jpegHeader img quality)
    encodeScan img quality matte start =
        (scanUnits img).foldl (encodeUnit img quality matte) start ∧
      (∀ done u rest, scanUnits img = done ++ u :: rest →
        UnitSafe img quality matte (done.foldl (encodeUnit img quality matte) start) u) ∧
      (encodeScan img quality matte start).writer.used ≤ 7 := by
  intro start
  have hstart := ScanState.sound_start (jpegHeader img quality)
  refine ⟨encodeScan_eq img quality matte start, fun done u rest _ => ?_, ?_⟩
  · exact (hstart.foldl img quality matte done).unitSafe img quality matte u
  · rw [encodeScan_eq]
    exact Nat.le_of_lt_succ (hstart.foldl img quality matte (scanUnits img)).used_lt

end HumanizedHash
