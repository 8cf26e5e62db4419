import HumanizedHash.Tools.Batch

/-!
# The command line of the tool

`main` of `examples/hh_cli.cpp`: the arguments are read from left to right into a request, a name of
an output file and two flags, and the request is run. An argument list is compared with a list of
settings, each with the arguments that give it. Two settings of different options do not see each
other, so the order of the options does not matter, and of two settings of one option the later one
counts.

## Main definitions

* `Tools.parseArgs`, `Tools.outputFormat`, `Tools.runSingle`, `Tools.hhCli`.
* `Tools.Setting`: what an option sets, and the arguments that give it.
* `Tools.Request.settings`: the settings of a request.

## Main results

* `Tools.parseArgs_settings`: the arguments of settings.
* `Tools.foldl_apply_perm`: the order of the options.
* `Tools.hhCli_exact`: a request on the command line.

## References

* `src/examples/hh_cli.cpp`.
-/

namespace HumanizedHash

namespace Tools

open Fields Files Numerals

/-! ### The code -/

/-- The variables of `main` in front of an argument. -/
structure Arguments where
  rq : Request := {}
  outPath : List UInt8 := []
  haveInput : Bool := false
  formatGiven : Bool := false
  deriving DecidableEq

/-- What `main` does with its arguments. -/
inductive Command
  | usage
  | help
  | batch (file dir : List UInt8)
  | single (a : Arguments)

/-- The options with a value. -/
def takesValue (arg : List UInt8) : Bool :=
  [text "--key", text "--size", text "--shape", text "--frame", text "--background",
    text "--frame-alpha", text "--format", text "--quality", text "--matte", text "--out"].contains arg

/-- An option with its value, unless the value is malformed. -/
def setOption (arg value : List UInt8) (a : Arguments) : Option Arguments :=
  if arg = text "--key" then
    some { a with rq := { a.rq with key := value } }
  else if arg = text "--size" then
    (parseNumber value).map fun size => { a with rq := { a.rq with size := size } }
  else if arg = text "--shape" then
    (parseShape value).map fun shape =>
      { a with rq := { a.rq with options := { a.rq.options with shape := shape } } }
  else if arg = text "--frame" then
    (parseFrame value).map fun frame =>
      { a with rq := { a.rq with options := { a.rq.options with frame := frame } } }
  else if arg = text "--background" then
    (parseRgba value).map fun (background, alpha) =>
      { a with rq := { a.rq with
        options := { a.rq.options with background := background, backgroundAlpha := alpha } } }
  else if arg = text "--frame-alpha" then
    (parseNumber value).bind fun v =>
      if 255 < v then none
      else some { a with rq := { a.rq with
        options := { a.rq.options with frameAlpha := v.toUInt8 } } }
  else if arg = text "--format" then
    some { a with rq := { a.rq with format := value }, formatGiven := true }
  else if arg = text "--quality" then
    (parseNumber value).map fun v => { a with rq := { a.rq with quality := v.toNat } }
  else if arg = text "--matte" then
    (parseRgb value).map fun matte => { a with rq := { a.rq with matte := matte } }
  else
    some { a with outPath := value }

/-- An argument that may be the input: the first that is no option. -/
def isInput (arg : List UInt8) : Bool := !(text "--").isPrefixOf arg

/-- The loop of `main` over the arguments. -/
def parseArgs : List (List UInt8) → Arguments → Command
  | [], a => if a.haveInput then .single a else .usage
  | arg :: rest, a =>
    if arg = text "--batch" then
      match rest with
      | file :: dir :: _ => .batch file dir
      | _ => .usage
    else if arg = text "--text" then
      parseArgs rest { a with rq := { a.rq with text := true } }
    else if takesValue arg then
      match rest with
      | [] => .usage
      | value :: rest =>
        match setOption arg value a with
        | none => .usage
        | some a => parseArgs rest a
    else if arg = text "--help" ∨ arg = text "-h" then
      .help
    else if !a.haveInput && isInput arg then
      parseArgs rest { a with rq := { a.rq with input := arg }, haveInput := true }
    else
      .usage

/-- The part of a name behind the last dot, all of it without a dot. -/
def extension (path : List UInt8) : List UInt8 := (path.reverse.takeWhile (· ≠ 0x2E)).reverse

/-- The format: the one that was given, or what the name of the output file asks for. -/
def outputFormat (a : Arguments) : List UInt8 :=
  if !a.formatGiven && 4 < a.outPath.length then
    if extension a.outPath = text "bmp" ∨ extension a.outPath = text "rgba" then
      extension a.outPath
    else if extension a.outPath = text "jpg" ∨ extension a.outPath = text "jpeg" then
      text "jpeg"
    else
      a.rq.format
  else
    a.rq.format

/-- `figures`: the characters of the figures. -/
def figureTexts : List UInt8 := text ".SO^>v<"

/-- A cell in the print of a layout. -/
def cellText (c : Cell) : List UInt8 :=
  [figureTexts.getD c.figure.toByte.toNat 0, if c.figure = .none then 0x20 else 0x30 + c.colour, 0x20]

/-- A row of cells in the print of a layout. -/
def rowText (l : Layout) (row : Fin 4) : List UInt8 :=
  (if row.val = 0 then text "cells        " else text "             ") ++
    (List.finRange 4).flatMap (fun col : Fin 4 =>
      cellText (l.cells.get ⟨4 * row.val + col.val, by omega⟩)) ++ text "\n"

/-- The tag in the groups in which it is shown. -/
def groupedTag (tag : List UInt8) : List UInt8 := tag.take 3 ++ text "-" ++ tag.drop 3

/-- What `main` prints of a result without an error. -/
def valuesText (r : Result) : List UInt8 :=
  let l := describe r.fingerprint
  text "mode         " ++ modeName l.mode ++ text "\n" ++
    text "base digest  " ++ toHex r.digest.bytes.toList ++ text "\n" ++
    text "fingerprint  " ++ toHex r.fingerprint.bytes.toList ++ text "\n" ++
    text "tag          " ++ groupedTag r.fingerprint.tag ++ text "\n" ++
    (if r.kcv = [] then [] else text "key check    " ++ r.kcv ++ text "\n") ++
    (List.finRange 4).flatMap (rowText l)

section Run

variable (disk : Disk (List UInt8))

/-- The end of `main`, behind the arguments. -/
def runSingle (a : Arguments) (c : Console) : ℤ × Console :=
  let r := run { a.rq with format := outputFormat a }
  if r.error ≠ .ok then
    (1, { c with err := c.err ++
      (text "error: " ++ r.error.name ++ text ": " ++ r.error.message ++ text "\n") })
  else
    let c := { c with out := c.out ++ valuesText r }
    if a.outPath = [] then
      (0, c)
    else
      let (written, files) := writeFile disk a.outPath r.bytes c.files
      if written then
        (0, { c with
          out := c.out ++ (text "wrote        " ++ a.outPath ++ text " (" ++
            numeral r.bytes.length ++ text " bytes)\n")
          files := files })
      else
        (1, { c with
          err := c.err ++ (text "cannot write " ++ a.outPath ++ text "\n")
          files := files })

/-- `usage`. -/
def usageText : List UInt8 :=
  text "usage: hh_cli [options] <input>\n" ++
  text "  <input>               hexadecimal bytes (optional 0x), or text with --text\n" ++
  text "  --text                hash the input as UTF-8 text\n" ++
  text "  --key HEX             64 hex digits: render the keyed (private) picture\n" ++
  text "  --size N              16..1024 pixels (default 128)\n" ++
  text "  --shape NAME          square (default) or round\n" ++
  text "  --frame NAME          automatic (default), none, plain, rounded, chamfered, double,\n" ++
  text "                        thick, brackets, ticks, gaps\n" ++
  text "  --background RRGGBBAA background colour and alpha (default ffffffff)\n" ++
  text "  --frame-alpha N       0..255 (default 255)\n" ++
  text "  --format NAME         png (default), bmp, jpeg or rgba\n" ++
  text "  --quality N           JPEG quality 50..100 (default 92)\n" ++
  text "  --matte RRGGBB        what BMP and JPEG flatten transparency over (default ffffff)\n" ++
  text "  --out FILE            write the picture; without it only the values are printed\n" ++
  text "  --batch FILE DIR      run the cases of FILE, write case-<n>.<format> into DIR;\n" ++
  text "                        a case is 11 fields separated by spaces or tabs:\n" ++
  text "                        hex|text <input> <key|-> <size> <shape> <frame> <background>\n" ++
  text "                        <frame alpha> <format> <quality> <matte>\n" ++
  text "                        (the input of a text case is the hex form of its bytes;\n" ++
  text "                        numbers are 1 to 10 digits without a sign)\n"

/-- `main`, on the arguments behind the name of the program. -/
def hhCli (args : List (List UInt8)) (c : Console) : ℤ × Console :=
  match parseArgs args {} with
  | .usage => (2, { c with err := c.err ++ usageText })
  | .help => (0, { c with err := c.err ++ usageText })
  | .batch file dir => batch disk dir file c
  | .single a => runSingle disk a c

end Run

/-! ### Settings -/

/-- What an argument or two set. -/
inductive Setting
  | text
  | key (value : List UInt8)
  | size (n : UInt32)
  | shape (s : ImageShape)
  | frame (s : FrameStyle)
  | background (c : Rgb) (alpha : UInt8)
  | frameAlpha (alpha : UInt8)
  | format (value : List UInt8)
  | quality (n : ℕ)
  | matte (c : Rgb)
  | out (path : List UInt8)
  | input (value : List UInt8)

namespace Setting

/-- The variables behind a setting. -/
def apply (a : Arguments) : Setting → Arguments
  | text => { a with rq := { a.rq with text := true } }
  | key value => { a with rq := { a.rq with key := value } }
  | size n => { a with rq := { a.rq with size := n } }
  | shape s => { a with rq := { a.rq with options := { a.rq.options with shape := s } } }
  | frame s => { a with rq := { a.rq with options := { a.rq.options with frame := s } } }
  | background c alpha =>
    { a with rq := { a.rq with
      options := { a.rq.options with background := c, backgroundAlpha := alpha } } }
  | frameAlpha alpha =>
    { a with rq := { a.rq with options := { a.rq.options with frameAlpha := alpha } } }
  | format value => { a with rq := { a.rq with format := value }, formatGiven := true }
  | quality n => { a with rq := { a.rq with quality := n } }
  | matte c => { a with rq := { a.rq with matte := c } }
  | out path => { a with outPath := path }
  | input value => { a with rq := { a.rq with input := value }, haveInput := true }

/-- The arguments that give a setting. -/
def args : Setting → List (List UInt8)
  | text => [Tools.text "--text"]
  | key value => [Tools.text "--key", value]
  | size n => [Tools.text "--size", numeral n.toNat]
  | shape s => [Tools.text "--shape", shapeName s]
  | frame s => [Tools.text "--frame", frameName s]
  | background c alpha => [Tools.text "--background", rgbaText c alpha]
  | frameAlpha alpha => [Tools.text "--frame-alpha", numeral alpha.toNat]
  | format value => [Tools.text "--format", value]
  | quality n => [Tools.text "--quality", numeral n]
  | matte c => [Tools.text "--matte", rgbText c]
  | out path => [Tools.text "--out", path]
  | input value => [value]

/-- The settings that arguments can give. -/
def Printable : Setting → Prop
  | size n => n.toNat ≤ 0x7FFFFFFF
  | shape s => validShape s = true
  | frame s => validStyle s = true
  | quality n => n ≤ 0x7FFFFFFF
  | input value => isInput value = true ∧ value ≠ Tools.text "-h"
  | _ => True

/-- The option of a setting. -/
def option : Setting → Fin 12
  | text => 0
  | key _ => 1
  | size _ => 2
  | shape _ => 3
  | frame _ => 4
  | background _ _ => 5
  | frameAlpha _ => 6
  | format _ => 7
  | quality _ => 8
  | matte _ => 9
  | out _ => 10
  | input _ => 11

/-- Settings of different options do not see each other. -/
theorem apply_comm {s t : Setting} (h : s.option ≠ t.option) (a : Arguments) :
    t.apply (s.apply a) = s.apply (t.apply a) := by
  cases s <;> cases t <;> first | rfl | exact absurd rfl h

end Setting

/-- An option with a value that is accepted. -/
theorem parseArgs_value {arg value : List UInt8} {rest : List (List UInt8)} {a a' : Arguments}
    (harg : takesValue arg = true) (hset : setOption arg value a = some a') :
    parseArgs (arg :: value :: rest) a = parseArgs rest a' := by
  have hother : arg ≠ text "--batch" ∧ arg ≠ text "--text" := by
    have hall : ∀ arg ∈ [text "--key", text "--size", text "--shape", text "--frame",
        text "--background", text "--frame-alpha", text "--format", text "--quality",
        text "--matte", text "--out"], arg ≠ text "--batch" ∧ arg ≠ text "--text" := by decide
    exact hall arg (List.contains_iff_mem.mp harg)
  rw [parseArgs.eq_def]
  dsimp only
  rw [if_neg hother.1, if_neg hother.2, if_pos harg, hset]

/-- An argument that is taken for the input. -/
theorem parseArgs_input {arg : List UInt8} {rest : List (List UInt8)} {a : Arguments}
    (hinput : isInput arg = true) (hhelp : arg ≠ text "-h") (hfirst : a.haveInput = false) :
    parseArgs (arg :: rest) a = parseArgs rest ((Setting.input arg).apply a) := by
  have hoption (o : List UInt8) (ho : isInput o = false) : arg ≠ o := by
    rintro rfl
    rw [hinput] at ho
    exact Bool.noConfusion ho
  have hvalue : takesValue arg = false := by
    have hall : ∀ o ∈ [text "--key", text "--size", text "--shape", text "--frame",
        text "--background", text "--frame-alpha", text "--format", text "--quality",
        text "--matte", text "--out"], isInput o = false := by decide
    refine Bool.eq_false_iff.mpr fun hmem => ?_
    exact hoption arg (hall arg (List.contains_iff_mem.mp hmem)) rfl
  rw [parseArgs.eq_def]
  dsimp only
  rw [if_neg (hoption _ (by decide)), if_neg (hoption _ (by decide)), hvalue,
    if_neg Bool.false_ne_true, if_neg (not_or.mpr ⟨hoption _ (by decide), hhelp⟩), hfirst, hinput]
  rfl

/-- **The arguments of a setting.** -/
theorem parseArgs_setting {s : Setting} (h : s.Printable) {a : Arguments}
    (hinput : s.option = 11 → a.haveInput = false) (rest : List (List UInt8)) :
    parseArgs (s.args ++ rest) a = parseArgs rest (s.apply a) := by
  cases s with
  | text =>
    rw [Setting.args, parseArgs.eq_def]
    rfl
  | key value => exact parseArgs_value rfl rfl
  | size n =>
    refine parseArgs_value rfl ?_
    change (parseNumber (numeral n.toNat)).map _ = _
    rw [parseNumber_numeral h]
    rfl
  | shape s =>
    refine parseArgs_value rfl ?_
    change (parseShape (shapeName s)).map _ = _
    rw [parseShape_eq_some_iff.mpr ⟨h, rfl⟩]
    rfl
  | frame s =>
    refine parseArgs_value rfl ?_
    change (parseFrame (frameName s)).map _ = _
    rw [parseFrame_eq_some_iff.mpr ⟨h, rfl⟩]
    rfl
  | background c alpha =>
    refine parseArgs_value rfl ?_
    change (parseRgba (rgbaText c alpha)).map _ = _
    rw [parseRgba_rgbaText]
    rfl
  | frameAlpha alpha =>
    obtain ⟨hnumber, hle, hbyte⟩ := parseNumber_numeral_byte alpha
    refine parseArgs_value rfl ?_
    change (parseNumber (numeral alpha.toNat)).bind _ = _
    rw [hnumber, Option.bind_some, if_neg hle, hbyte]
    rfl
  | format value => exact parseArgs_value rfl rfl
  | quality n =>
    obtain ⟨hnumber, hnat⟩ := parseNumber_numeral_nat h
    refine parseArgs_value rfl ?_
    change (parseNumber (numeral n)).map _ = _
    rw [hnumber, Option.map_some, hnat]
    rfl
  | matte c =>
    refine parseArgs_value rfl ?_
    change (parseRgb (rgbText c)).map _ = _
    rw [parseRgb_rgbText]
    rfl
  | out path => exact parseArgs_value rfl rfl
  | input value => exact parseArgs_input h.1 h.2 (hinput rfl)

/-- Settings other than the input leave the flag of the input. -/
theorem haveInput_apply {s : Setting} (h : s.option ≠ 11) (a : Arguments) :
    (s.apply a).haveInput = a.haveInput := by
  cases s <;> first | rfl | exact absurd rfl h

/-- **The arguments of settings**, at most one of them the input. -/
theorem parseArgs_settings {ss : List Setting} (h : ∀ s ∈ ss, s.Printable)
    (hnodup : (ss.map Setting.option).Nodup) {a : Arguments}
    (hinput : (11 : Fin 12) ∈ ss.map Setting.option → a.haveInput = false) :
    parseArgs (ss.flatMap Setting.args) a = parseArgs [] (ss.foldl (fun a s => s.apply a) a) := by
  induction ss generalizing a with
  | nil => rfl
  | cons s ss ih =>
    obtain ⟨hs, hss⟩ := List.forall_mem_cons.mp h
    obtain ⟨hnew, hrest⟩ := List.nodup_cons.mp hnodup
    rw [List.flatMap_cons, parseArgs_setting hs fun h11 => hinput (h11 ▸ List.mem_cons_self)]
    refine ih hss hrest fun hmem => ?_
    have hne : s.option ≠ 11 := fun h11 => hnew (h11 ▸ hmem)
    rw [haveInput_apply hne]
    exact hinput (List.mem_cons_of_mem _ hmem)

/-- **The order of the options does not matter.** -/
theorem foldl_apply_perm {ss ss' : List Setting} (hperm : ss.Perm ss')
    (hnodup : (ss.map Setting.option).Nodup) (a : Arguments) :
    ss.foldl (fun a s => s.apply a) a = ss'.foldl (fun a s => s.apply a) a := by
  refine hperm.foldl_eq' (fun s hs t ht a => ?_) a
  by_cases hsame : s.option = t.option
  · rw [List.inj_on_of_nodup_map hnodup hs ht hsame]
  · exact Setting.apply_comm hsame a

/-! ### A request on the command line -/

/-- The settings of a request, and of an output file if there is one. -/
def Request.settings (rq : Request) (path : List UInt8) : List Setting :=
  (if rq.text then [.text] else []) ++ ((if rq.key = [] then [] else [.key rq.key]) ++
    ((if path = [] then [] else [.out path]) ++
      [.size rq.size, .shape rq.options.shape, .frame rq.options.frame,
        .background rq.options.background rq.options.backgroundAlpha,
        .frameAlpha rq.options.frameAlpha, .format rq.format, .quality rq.quality.toNat,
        .matte rq.matte, .input rq.input]))

theorem nodup_option_settings (rq : Request) (path : List UInt8) :
    ((rq.settings path).map Setting.option).Nodup := by
  rw [Request.settings]
  split_ifs <;> simp only [List.nil_append, List.cons_append, List.map_cons, List.map_nil,
    Setting.option] <;> decide

/-- What the settings of a request lead to. -/
theorem foldl_apply_settings {rq : Request} (hquality : 0 ≤ rq.quality) (path : List UInt8) :
    (rq.settings path).foldl (fun a s => s.apply a) {} = ⟨rq, path, true, true⟩ := by
  obtain ⟨isText, input, key, size, options, format, quality, matte⟩ := rq
  have hnat : ((quality.toNat : ℕ) : ℤ) = quality := Int.toNat_of_nonneg hquality
  simp only [Request.settings]
  cases isText <;> split_ifs with hkey hpath hpath
  all_goals simp_all [Setting.apply]

/-- A request that arguments can give. -/
structure Request.OnCommandLine (rq : Request) : Prop where
  input : isInput rq.input = true ∧ rq.input ≠ Tools.text "-h"
  size_le : rq.size.toNat ≤ 0x7FFFFFFF
  quality_mem : 0 ≤ rq.quality ∧ rq.quality ≤ 0x7FFFFFFF
  shape_valid : validShape rq.options.shape = true
  frame_valid : validStyle rq.options.frame = true

theorem Request.OnCommandLine.printable {rq : Request} (h : rq.OnCommandLine) (path : List UInt8) :
    ∀ s ∈ rq.settings path, s.Printable := by
  intro s hs
  have hquality : rq.quality.toNat ≤ 0x7FFFFFFF := by
    obtain ⟨hpos, hle⟩ := h.quality_mem
    omega
  simp only [Request.settings, List.mem_append, List.mem_cons, List.not_mem_nil, or_false] at hs
  rcases hs with hs | hs | hs | hs
  · split_ifs at hs
    · exact List.mem_singleton.mp hs ▸ trivial
    · exact absurd hs List.not_mem_nil
  · split_ifs at hs
    · exact absurd hs List.not_mem_nil
    · exact List.mem_singleton.mp hs ▸ trivial
  · split_ifs at hs
    · exact absurd hs List.not_mem_nil
    · exact List.mem_singleton.mp hs ▸ trivial
  · rcases hs with rfl | rfl | rfl | rfl | rfl | rfl | rfl | rfl | rfl
    · exact h.size_le
    · exact h.shape_valid
    · exact h.frame_valid
    · trivial
    · trivial
    · trivial
    · exact hquality
    · trivial
    · exact h.input

/-- The arguments of a request, in any order. -/
theorem parseArgs_of_perm {rq : Request} (h : rq.OnCommandLine) {path : List UInt8}
    {ss : List Setting} (hss : ss.Perm (rq.settings path)) :
    parseArgs (ss.flatMap Setting.args) {} = .single ⟨rq, path, true, true⟩ := by
  have hnodup := (hss.map Setting.option).nodup_iff.mpr (nodup_option_settings rq path)
  have hprintable (s : Setting) (hs : s ∈ ss) : s.Printable :=
    h.printable path s (hss.mem_iff.mp hs)
  rw [parseArgs_settings hprintable hnodup fun _ => rfl, foldl_apply_perm hss hnodup,
    foldl_apply_settings h.quality_mem.1, parseArgs]
  rfl

/-- **A request on the command line.** Its options may stand in any order. An error of the library
ends the program with the code 1 and nothing is written. Without one the values are printed, and the
code is 0 unless the writing of the output file is seen to fail. The output file holds what the disk
took of the bytes that the case has in a batch; if it took all of them, the code is 0 and the file
shows the picture. No other file changes. -/
theorem hhCli_exact {rq : Request} (h : rq.OnCommandLine) {path : List UInt8} {ss : List Setting}
    (hss : ss.Perm (rq.settings path)) (disk : Disk (List UInt8)) (c : Console) :
    let result := hhCli disk (ss.flatMap Setting.args) c
    ((run rq).error ≠ .ok → result.1 = 1 ∧ result.2.out = c.out ∧ result.2.files = c.files) ∧
      ((run rq).error = .ok →
        (result.1 = 0 ↔ path = [] ∨ disk.accepts path (run rq).bytes.length = true) ∧
        (∃ rest, result.2.out = c.out ++ (valuesText (run rq) ++ rest)) ∧
        (path ≠ [] → result.2.files path =
          if disk.opens path then some ((run rq).bytes.take (disk.room path)) else c.files path) ∧
        (path ≠ [] → disk.Stores path (run rq).bytes.length →
          result.1 = 0 ∧ result.2.files path = some (run rq).bytes) ∧
        (∃ img, render (run rq).fingerprint rq.size rq.options .empty = (.ok, img) ∧
          rq.Shows img (run rq).bytes) ∧
        ∀ other, path = [] ∨ other ≠ path → result.2.files other = c.files other) := by
  have hrequest : (⟨rq.text, rq.input, rq.key, rq.size, rq.options,
      outputFormat ⟨rq, path, true, true⟩, rq.quality, rq.matte⟩ : Request) = rq := rfl
  dsimp only
  rw [hhCli, parseArgs_of_perm h hss]
  dsimp only [runSingle]
  rw [hrequest]
  refine ⟨fun herror => ?_, fun hok => ?_⟩
  · rw [if_pos herror]
    exact ⟨rfl, rfl, rfl⟩
  · have hpicture := ((run_spec rq).2 hok).picture
    rw [if_neg (not_not.mpr hok)]
    by_cases hpath : path = []
    · rw [if_pos hpath]
      exact ⟨iff_of_true rfl (Or.inl hpath), ⟨[], by rw [List.append_nil]⟩,
        fun hne => absurd hpath hne, fun hne => absurd hpath hne, hpicture, fun _ _ => rfl⟩
    · have hother (other : List UInt8) (hne : path = [] ∨ other ≠ path) :
          disk.store path (run rq).bytes c.files other = c.files other :=
        Disk.store_of_ne (hne.resolve_left hpath)
      rw [if_neg hpath, writeFile_eq]
      by_cases hwrite : disk.accepts path (run rq).bytes.length = true
      · rw [if_pos hwrite]
        exact ⟨iff_of_true rfl (Or.inr hwrite), ⟨_, List.append_assoc _ _ _⟩,
          fun _ => Disk.store_self, fun _ hstores => ⟨rfl, by
            rw [hstores.store]
            exact Function.update_self ..⟩, hpicture, hother⟩
      · rw [if_neg hwrite]
        exact ⟨iff_of_false one_ne_zero (not_or.mpr ⟨hpath, hwrite⟩),
          ⟨[], congrArg (c.out ++ ·) (List.append_nil _).symm⟩, fun _ => Disk.store_self,
          fun _ hstores => absurd hstores.accepts hwrite, hpicture, hother⟩

/-- A raw picture, with the options in the order of their names reversed. -/
theorem hhCli_exact_raw :
    let disk : Disk (List UInt8) := ⟨fun _ => true, fun _ => 1024, fun _ _ => 0, fun _ => 7⟩
    let result := hhCli disk
      (((rawRequest.settings (text "a.rgba")).reverse).flatMap Setting.args) ⟨[], [], fun _ => none⟩
    result.1 = 0 ∧ result.2.files (text "a.rgba") = some (run rawRequest).bytes := by
  intro disk
  have h : rawRequest.OnCommandLine :=
    ⟨⟨by decide, by decide⟩, by decide, ⟨by decide, by decide⟩, rfl, rfl⟩
  have hname : text "a.rgba" ≠ [] := by decide
  have hstores : disk.Stores (text "a.rgba") (run rawRequest).bytes.length :=
    ⟨rfl, length_bytes_run_rawRequest.le⟩
  have hperm := List.reverse_perm (rawRequest.settings (text "a.rgba"))
  have hexact := (hhCli_exact h hperm disk ⟨[], [], fun _ => none⟩).2 error_run_rawRequest
  exact hexact.2.2.2.1 hname hstores

end Tools

end HumanizedHash
