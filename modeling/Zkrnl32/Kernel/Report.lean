import Zkrnl32.Kernel
import Zkrnl32.Memory.Usable

/-!
# The Memory Map on the Console

Model of `print_memory_map` (`src/multiboot.rs`) with the text it prints.

- `lineText`: each line of the report, as it is formatted.
- `printRegion`, `printMemoryMap`: the source, over the console.
- `reportMap_simulates`: it ends as the report that only collects its lines does, for every
  map, and has printed the same lines.
-/

namespace Zkrnl32.Kernel

open Zkrnl32.Machine Zkrnl32.Memory Zkrnl32.Vga
open Zkrnl32.Multiboot (MemoryMap MemoryRegion RegionKind Report ReportLine)

/-! ## The text of the report -/

/-- The derived `Debug` of a region's kind. -/
def debugKind : RegionKind → String
  | .available => "Available"
  | .acpiReclaimable => "AcpiReclaimable"
  | .acpiNvs => "AcpiNvs"
  | .defective => "Defective"
  | .reserved raw => "Reserved(" ++ toString raw.toNat ++ ")"

/-- The line of a region: `"  [{base:#012x}, {end:#012x}) {kib:>9} KiB  {:?}"`. -/
def regionText (base stop kib : Nat) (kind : RegionKind) : String :=
  "  [" ++ hexPadded 10 base ++ ", " ++ hexPadded 10 stop ++ ") " ++ decPadded 9 kib ++ " KiB  " ++
    debugKind kind

/-- The last line: `"usable RAM: {} KiB"`. -/
def usableText (kib : Nat) : String := "usable RAM: " ++ toString kib ++ " KiB"

/-- A line of the report as it is printed. -/
def lineText : ReportLine → String
  | .noMemoryMap => "multiboot: no memory map provided"
  | .header => "multiboot memory map:"
  | .region base stop kib kind => regionText base stop kib kind
  | .usable kib => usableText kib

/-- The colour of a line, on a console that prints in `color`. -/
def lineColor (color : U8) : ReportLine → U8
  | .noMemoryMap => Color.yellow.toU8
  | _ => color

/-- The cells of some lines, with their line ends. -/
def lineCells (color : U8) (lines : List ReportLine) : List Cell :=
  lines.flatMap fun line => colored (lineColor color line) (ascii (lineText line ++ "\n"))

/-! ## The report on the console -/

/-- The kernel with the local variable `usable_bytes`. -/
structure Reporting where
  kernel : State
  usableBytes : Nat

/-- Runs code on the kernel beside the local variable. -/
def onKernel {α : Type} (x : Exec State α) : Exec Reporting α :=
  Exec.zoom Reporting.kernel (fun s r => { r with kernel := s }) x

/-- The loop body of `print_memory_map`. -/
def printRegion (p : Profile) (region : MemoryRegion) : Exec Reporting Unit := do
  let base := region.base.toNat
  let stop := saturatingAdd 64 base region.length.toNat
  let kib := region.length.toNat / 1024
  onKernel (onConsole (printk p (regionText base stop kib region.kind ++ "\n")))
  if region.isAvailable then
    let bytes ← region.addressableBytes p
    let total ← add p 64 (← get).usableBytes bytes
    modify fun r => { r with usableBytes := total }

/-- The report on a map, or the warning that there is none. -/
def reportMap (p : Profile) (fuel : Nat) (map : Option MemoryMap) : Exec Reporting Unit :=
  match map with
  | none =>
    onKernel (onConsole (printkColor p Color.yellow.toU8 "multiboot: no memory map provided\n"))
  | some map => do
    onKernel (onConsole (printk p "multiboot memory map:\n"))
    modify fun r => { r with usableBytes := 0 }
    forEach (MemoryMap.next p) (printRegion p) fuel map
    let total := (← get).usableBytes
    onKernel (onConsole (printk p (usableText (total / 1024) ++ "\n")))

/-- Prints the map of the information structure at `info` and the total of usable memory. -/
def printMemoryMap (p : Profile) (fuel info : Nat) : Exec State Unit := do
  let mem := (← get).boot.mem
  Exec.zoom (fun s => ⟨s, 0⟩) (fun r _ => Reporting.kernel r)
    (reportMap p fuel ((Multiboot.MultibootInfo.read mem info).memoryMap mem))

/-! ## Refinement -/

section Refinement

variable {p : Profile} {Blank : Cell → Prop} {rows : List (List Cell)} {text : List Cell}
  {s₀ : State}

/-- The report in progress: what has been collected is on the console, and the totals agree. -/
structure Reported (s₀ : State) (Blank : Cell → Prop) (rows : List (List Cell)) (text : List Cell)
    (report : Report) (r : Reporting) : Prop where
  usable_eq : r.usableBytes = report.usableBytes
  prints : Prints s₀ r.kernel
  shows : r.kernel.ShowsBehind Blank rows (text ++ lineCells s₀.writer.color report.lines)

theorem lineCells_append (color : U8) (lines lines' : List ReportLine) :
    lineCells color (lines ++ lines') = lineCells color lines ++ lineCells color lines' :=
  List.flatMap_append

theorem onKernel_eq_ok {x : Exec State Unit} {r : Reporting} {s : State}
    (h : x r.kernel = .ok () s) : onKernel x r = .ok () { r with kernel := s } :=
  zoom_eq_ok.mpr ⟨s, h, rfl⟩

/-- A line in the console's own colour. -/
theorem line_simulates (p : Profile) (hblank : ∀ color, Blank (blank color)) {line : ReportLine}
    (hline : line ≠ .noMemoryMap) :
    Simulates (Reported s₀ Blank rows text)
      (modify fun report => { report with lines := report.lines ++ [line] })
      (onKernel (onConsole (printk p (lineText line ++ "\n")))) := by
  refine simulates_of_run fun report r h => ?_
  obtain ⟨s', hrun, hprints, hshows⟩ := printk_shows p (lineText line ++ "\n") h.shows hblank
  refine ⟨(), _, _, rfl, onKernel_eq_ok hrun, h.usable_eq, h.prints.trans hprints, ?_⟩
  have hcells : lineCells s₀.writer.color [line] =
      colored r.kernel.writer.color (ascii (lineText line ++ "\n")) := by
    cases line with
    | noMemoryMap => exact absurd rfl hline
    | _ => simp [lineCells, lineColor, h.prints.color_eq]
  rw [lineCells_append, hcells, ← List.append_assoc]
  exact hshows

/-- The warning, in its own colour. -/
theorem warning_simulates (p : Profile) (hblank : ∀ color, Blank (blank color)) :
    Simulates (Reported s₀ Blank rows text)
      (modify fun report => { report with lines := report.lines ++ [.noMemoryMap] })
      (onKernel (onConsole
        (printkColor p Color.yellow.toU8 "multiboot: no memory map provided\n"))) := by
  refine simulates_of_run fun report r h => ?_
  obtain ⟨s', hrun, hprints, hshows⟩ := printkColor_shows p Color.yellow.toU8
    "multiboot: no memory map provided\n" h.shows hblank
  refine ⟨(), _, _, rfl, onKernel_eq_ok hrun, h.usable_eq, h.prints.trans hprints, ?_⟩
  rw [lineCells_append, ← List.append_assoc]
  exact hshows

theorem printRegion_simulates (p : Profile) (hblank : ∀ color, Blank (blank color))
    (region : MemoryRegion) :
    Simulates (Reported s₀ Blank rows text) (Multiboot.printRegion p region)
      (printRegion p region) := by
  have hline : regionLine region ≠ .noMemoryMap := by
    simp [regionLine]
  refine (line_simulates p hblank hline).bind fun _ => Simulates.ite (fun _ => ?_)
    fun _ => simulates_pure ()
  refine Simulates.lift_bind _ fun bytes _ => ?_
  -- The totals agree, so both sides add the same numbers.
  constructor
  intro report r h
  rw [run_get_bind, run_get_bind, h.usable_eq]
  refine (Simulates.lift_bind _ fun total _ => ?_).agree report r h
  exact simulates_of_run fun _ _ h => ⟨(), _, _, rfl, rfl, rfl, h.prints, h.shows⟩

/-- **The report on the console is the report**: for every map, also one whose walk stops the kernel
    or does not end, it ends as the report that collects its lines does, with the same lines on the
    console. -/
theorem reportMap_simulates (p : Profile) (hblank : ∀ color, Blank (blank color)) (fuel : Nat)
    (map : Option MemoryMap) :
    Simulates (Reported s₀ Blank rows text) (Multiboot.printMemoryMap p fuel map)
      (reportMap p fuel map) := by
  cases map with
  | none => exact warning_simulates p hblank
  | some map =>
    constructor
    intro report r h
    -- Behind the header both totals are zero, whatever they were.
    have hheader : ReportLine.header ≠ .noMemoryMap := by decide
    obtain ⟨r', hrun, h'⟩ := (line_simulates p hblank hheader).of_ok h rfl
    have htext : lineText .header ++ "\n" = "multiboot memory map:\n" := by decide
    rw [htext] at hrun
    rw [Multiboot.printMemoryMap, reportMap]
    simp only []
    rw [run_modify_bind, run_bind_of_ok hrun, run_modify_bind]
    refine ((Simulates.forEach (printRegion_simulates p hblank) fuel map).bind fun _ =>
      ⟨fun report r h => ?_⟩).agree _ _ ⟨rfl, h'.prints, h'.shows⟩
    have husable : ReportLine.usable (report.usableBytes / 1024) ≠ .noMemoryMap := by
      simp
    rw [run_get_bind, h.usable_eq]
    exact (line_simulates p hblank husable).agree report r h

/-- The report of a start state, on the console and collected. -/
theorem reportMap_agree (p : Profile) (h : s₀.ShowsBehind Blank rows text)
    (hblank : ∀ color, Blank (blank color)) (fuel : Nat) (map : Option MemoryMap) :
    Agree (Reported s₀ Blank rows text) (Multiboot.printMemoryMap p fuel map ⟨[], 0⟩)
      (reportMap p fuel map ⟨s₀, 0⟩) := by
  refine (reportMap_simulates p hblank fuel map).agree _ _ ⟨rfl, Prints.refl s₀, ?_⟩
  simpa [lineCells] using h

theorem printMemoryMap_run (p : Profile) (fuel info : Nat) (s : State) :
    printMemoryMap p fuel info s = Exec.zoom (fun s => ⟨s, 0⟩) (fun r _ => Reporting.kernel r)
      (reportMap p fuel ((Multiboot.MultibootInfo.read s.boot.mem info).memoryMap s.boot.mem)) s :=
  rfl

end Refinement

/-! ## The lines of a whole map -/

section Lines

variable {p : Profile} {Blank : Cell → Prop} {rows : List (List Cell)} {text : List Cell}
  {s : State} {fuel info : Nat} {map map' : MemoryMap} {regions : List MemoryRegion}

/-- The lines of the report on the regions of a map. -/
def reportTexts (regions : List MemoryRegion) : List String :=
  "multiboot memory map:" :: regions.map (fun region => lineText (regionLine region)) ++
    [usableText (usableTotal regions / 1024)]

theorem lineCells_report (color : U8) (regions : List MemoryRegion) :
    lineCells color (.header :: regions.map regionLine ++ [.usable (usableTotal regions / 1024)]) =
      colored color (endLines (reportTexts regions)) := by
  have hline : ∀ line : ReportLine, line ≠ .noMemoryMap →
      lineCells color [line] = colored color (endLines [lineText line]) := by
    intro line hne
    cases line with
    | noMemoryMap => exact absurd rfl hne
    | _ => simp [lineCells, lineColor, ascii_newline]
  have hregions : lineCells color (regions.map regionLine) =
      colored color (endLines (regions.map fun region => lineText (regionLine region))) := by
    induction regions with
    | nil => rfl
    | cons region regions ih =>
      rw [List.map_cons, List.map_cons, ← List.singleton_append, lineCells_append, ih,
        hline _ (by simp [regionLine]), ← colored_append, ← endLines_append, List.singleton_append]
  rw [← List.singleton_append, List.append_assoc, lineCells_append, lineCells_append, hregions,
    hline _ (by simp), hline _ (by simp), ← colored_append, ← colored_append, ← endLines_append,
    ← endLines_append]
  rfl

/-- One region per byte of the buffer, and at most 4 GiB each: the total fits. -/
theorem usableTotal_lt_of_yields (hyields : Yields (MemoryMap.next p) map regions map') :
    usableTotal regions < 2 ^ 64 := by
  have hcount := Multiboot.length_le_of_yields hyields
  have hlen := map.buf.length_lt
  have htotal := usableTotal_le regions
  omega

/-- The report on a map whose walk ends. -/
theorem printMemoryMap_shows (p : Profile) (h : s.ShowsBehind Blank rows text)
    (hblank : ∀ color, Blank (blank color))
    (hmap : (Multiboot.MultibootInfo.read s.boot.mem info).memoryMap s.boot.mem = some map)
    (hyields : Yields (MemoryMap.next p) map regions map') (hfuel : regions.length < fuel) :
    ∃ s', printMemoryMap p fuel info s = .ok () s' ∧ Prints s s' ∧
      s'.ShowsBehind Blank rows
        (text ++ colored s.writer.color (endLines (reportTexts regions))) := by
  have hagree := reportMap_agree p h hblank fuel (some map)
  rw [printMemoryMap_eq hyields hfuel (usableTotal_lt_of_yields hyields)] at hagree
  generalize hrun : reportMap p fuel (some map) ⟨s, 0⟩ = result at hagree
  cases hagree with
  | ok hreported =>
    rename_i r
    refine ⟨r.kernel, ?_, hreported.prints, ?_⟩
    · rw [printMemoryMap_run, hmap]
      exact zoom_eq_ok.mpr ⟨r, hrun, rfl⟩
    · rw [← lineCells_report]
      exact hreported.shows

/-- The warning that there is no map. -/
theorem printMemoryMap_shows_none (p : Profile) (fuel : Nat) (h : s.ShowsBehind Blank rows text)
    (hblank : ∀ color, Blank (blank color))
    (hmap : (Multiboot.MultibootInfo.read s.boot.mem info).memoryMap s.boot.mem = none) :
    ∃ s', printMemoryMap p fuel info s = .ok () s' ∧ Prints s s' ∧
      s'.ShowsBehind Blank rows (text ++ colored Color.yellow.toU8
        (endLines ["multiboot: no memory map provided"])) := by
  obtain ⟨s', hrun, hprints, hshows⟩ := printkColor_shows p Color.yellow.toU8
    "multiboot: no memory map provided\n" h hblank
  refine ⟨s', ?_, hprints, hshows⟩
  rw [printMemoryMap_run, hmap]
  exact zoom_eq_ok.mpr ⟨⟨s', 0⟩, onKernel_eq_ok hrun, rfl⟩

theorem fits_debugKind (kind : RegionKind) : Fits 20 (debugKind kind) := by
  cases kind with
  | reserved raw =>
    have hraw : Fits 10 (toString raw.toNat) :=
      fits_toString (by decide) (raw.isLt.trans (by decide))
    have hopen : Fits 9 "Reserved(" := by decide
    have hclose : Fits 1 ")" := by decide
    exact (hopen.append hraw).append hclose
  | _ => decide

/-- The line of a region that ends below `2 ^ 56` is one row. -/
theorem fits_regionLine {region : MemoryRegion}
    (hend : region.base.toNat + region.length.toNat < 2 ^ 56) :
    Fits vgaWidth (lineText (regionLine region)) := by
  have hhex : ∀ n, n < 2 ^ 56 → Fits 16 (hexPadded 10 n) := by
    intro n hn
    exact (fits_hexPadded (k := 14) (by decide) (by omega)).mono (by decide)
  have hbase := hhex region.base.toNat (by omega)
  have hstop := hhex (saturatingAdd 64 region.base.toNat region.length.toNat) (by
    rw [saturatingAdd]
    omega)
  have hkib : Fits 14 (decPadded 9 (region.length.toNat / 1024)) :=
    (fits_decPadded (k := 14) (by decide) (by omega)).mono (by decide)
  have hopen : Fits 3 "  [" := by decide
  have hcomma : Fits 2 ", " := by decide
  have hclose : Fits 2 ") " := by decide
  have hunit : Fits 6 " KiB  " := by decide
  exact ((((((hopen.append hbase).append hcomma).append hstop).append hclose).append hkib).append
    hunit).append (fits_debugKind region.kind) |>.mono (by decide)

/-- The report on regions below `2 ^ 56` takes one row for each line. -/
theorem fits_reportTexts (htotal : usableTotal regions < 2 ^ 64)
    (hregions : ∀ region ∈ regions, region.base.toNat + region.length.toNat < 2 ^ 56) :
    ∀ line ∈ reportTexts regions, Fits vgaWidth line := by
  intro line hline
  rw [reportTexts, List.mem_append, List.mem_cons, List.mem_map, List.mem_singleton] at hline
  rcases hline with (rfl | ⟨region, hregion, rfl⟩) | rfl
  · decide
  · exact fits_regionLine (hregions region hregion)
  · have hopen : Fits 12 "usable RAM: " := by decide
    have hkib : Fits 17 (toString (usableTotal regions / 1024)) :=
      fits_toString (by decide) (by omega)
    have hunit : Fits 4 " KiB" := by decide
    exact ((hopen.append hkib).append hunit).mono (by decide)

end Lines

end Zkrnl32.Kernel
