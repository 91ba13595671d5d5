import Zkrnl32.Console
import Zkrnl32.Stack
import Zkrnl32.Machine.Simulation

/-!
# The Kernel's Fatal-Error Path

Model of the panic handler of `src/lib.rs`, over the state that all of the kernel shares: the
console's writer, the memory with the text buffer in it, and the guard against re-entry.

- `panicHandler`: the source up to the loop that halts the processor.
- `dumpStackFrom`: the stack dump, on the console.  It refines the dump that only collects its text
  (`dumpStackFrom_simulates`).
- `dumpText`: what a dump prints, as a headline and one line for each word.
- `panic_report_visible`: the report of a panic is on the screen as a whole.
-/

namespace Zkrnl32.Kernel

open Zkrnl32.Machine Zkrnl32.Memory Zkrnl32.Vga
open Zkrnl32.Memory.Paging (BootState)

/-! ## The state -/

/-- The kernel's statics and the machine behind them: `VGA_WRITER`, the memory subsystem with
    physical memory, and `PANICKING`.  The statics and the frames of the running functions have
    their bytes in `.data` and `.bss`, but are kept beside `boot.mem` here, which does not follow
    them: what a run leaves unchanged is said of memory outside `KernelLayout.dataBytes`. -/
structure State where
  writer : VgaWriter
  boot : BootState
  panicking : Bool

/-- The statics as they are compiled, over memory and the control registers. -/
def State.start (mem : Memory) (cr3 cr0 : U32) : State :=
  ⟨.new, ⟨⟨.new, []⟩, mem, [], cr3, cr0⟩, false⟩

theorem start_inRange (mem : Memory) (cr3 cr0 : U32) :
    (State.start mem cr3 cr0).writer.InRange := by
  have hnew : VgaWriter.new.InRange := ⟨by decide, by decide⟩
  exact hnew

/-- The console; the text buffer is part of memory. -/
def State.console (s : State) : Console := ⟨s.writer, ⟨s.boot.mem, []⟩⟩

def State.setConsole (c : Console) (s : State) : State :=
  { s with writer := c.writer, boot := { s.boot with mem := c.bus.mem } }

/-- Runs an operation of the console. -/
def onConsole {α : Type} (x : Exec Console α) : Exec State α :=
  Exec.zoom State.console State.setConsole x

/-! ## The stack dump on the console -/

/-- `(addr as *const u32).read_volatile()`.  The stack is mapped at `KERNEL_VIRTUAL_BASE` above its
    physical place, by the bootstrap directory and by the one `paging::init` builds. -/
def readDword (addr : Nat) : Exec State U32 := do
  return (← get).boot.mem.load32 (addr - kernelVirtualBase)

/-- The loop body of `dump_stack_from`. -/
def dumpDword (p : Profile) (start i : Nat) : Exec State Unit := do
  let offset ← mul p 32 i 4
  let addr ← add p 32 start offset
  let value ← readDword addr
  onConsole (printk p (hexPadded 8 addr ++ ": " ++ hexPadded 8 value.toNat ++ "\n"))

/-- Dumps `dwordCount` words from `addr` on, as far as they lie on the stack. -/
def dumpStackFrom (p : Profile) (k : KernelLayout) (addr dwordCount : Nat) : Exec State Unit := do
  onConsole (printk p "stack dump: ")
  let misalignment := addr % 4
  let addr ← sub p 32 addr misalignment
  if addr < k.stackBottom || k.stackTop ≤ addr then
    onConsole (printk p (hexPadded 8 addr ++ " not within stack bounds " ++
      hexPadded 8 k.stackBottom ++ "-" ++ hexPadded 8 k.stackTop ++ "\n"))
  else
    let room ← sub p 32 k.stackTop addr
    let availableDwords := room / 4
    let dwordCount := min dwordCount availableDwords
    onConsole (printk p (toString dwordCount ++ "/" ++ toString availableDwords))
    if misalignment ≠ 0 then
      let given ← add p 32 addr misalignment
      onConsole (printk p (" misaligned start address " ++ hexPadded 8 given))
    onConsole (printk p "\n")
    forM (List.range dwordCount) (dumpDword p addr)

/-! ## The panic handler -/

/-- `Color::White.on(Color::Red)`. -/
def panicColor : U8 := Color.white.on .red

/-- The panic handler up to the loop that halts the processor, with `info` as the formatted panic
    message and location and `esp` as the stack pointer that `dump_stack!` reads. -/
def panicHandler (p : Profile) (k : KernelLayout) (esp : Nat) (info : List U8) :
    Exec State Unit := do
  let entered := (← get).panicking
  modify fun s => { s with panicking := true }
  if !entered then
    onConsole (printColor p panicColor [ascii "\nKERNEL PANIC\n", info, ascii "\n"])
    dumpStackFrom p k esp 16

/-! ## Printing -/

/-- The console shows the last rows of `text`, typed behind the rows that were there before. -/
def State.ShowsBehind (Blank : Cell → Prop) (rows : List (List Cell)) (text : List Cell)
    (s : State) : Prop := Vga.ShowsBehind Blank rows text s.console

/-- What printing leaves as it was. -/
structure Prints (s s' : State) : Prop where
  color_eq : s'.writer.color = s.writer.color
  boot_eq : s'.boot = { s.boot with mem := s'.boot.mem }
  mem_eq : ∀ x ∉ vgaBytes, s'.boot.mem x = s.boot.mem x
  panicking_eq : s'.panicking = s.panicking

theorem Prints.refl (s : State) : Prints s s := ⟨rfl, rfl, fun _ _ => rfl, rfl⟩

theorem Prints.trans {s₁ s₂ s₃ : State} (h : Prints s₁ s₂) (h' : Prints s₂ s₃) : Prints s₁ s₃ where
  color_eq := h'.color_eq.trans h.color_eq
  boot_eq := by
    rw [h'.boot_eq, h.boot_eq]
  mem_eq := fun x hx => (h'.mem_eq x hx).trans (h.mem_eq x hx)
  panicking_eq := h'.panicking_eq.trans h.panicking_eq

section Printing

variable {p : Profile} {Blank : Cell → Prop} {rows : List (List Cell)} {text : List Cell}
  {s : State}

theorem onConsole_prints {x : Exec Console Unit} {c' : Console} (hrun : x s.console = .ok () c')
    (h : Printed s.console c') :
    onConsole x s = .ok () (s.setConsole c') ∧ Prints s (s.setConsole c') := by
  refine ⟨zoom_eq_ok.mpr ⟨c', hrun, rfl⟩, h.color_eq, rfl, fun x hx => h.mem_eq rfl x hx, rfl⟩

theorem setConsole_showsBehind {c' : Console} (h : Vga.ShowsBehind Blank rows text c') :
    (s.setConsole c').ShowsBehind Blank rows text := by
  obtain ⟨screen, hdisplays, hrest⟩ := h
  exact ⟨screen, ⟨hdisplays.row_eq, hdisplays.col_eq, hdisplays.cells⟩, hrest⟩

/-- Printing returns, whatever the console showed. -/
theorem printk_prints (p : Profile) (line : String) (h : s.writer.InRange) :
    ∃ s', onConsole (printk p line) s = .ok () s' ∧ Prints s s' ∧ s'.writer.InRange := by
  obtain ⟨screen, -, -, hdisplays, hin, -⟩ := exists_shows s.console h
  obtain ⟨c', hrun, hdraws⟩ := print_draws p [ascii line] hdisplays hin
  have hprinted : Printed s.console c' := ⟨hdraws.color_eq, fun hempty x hx =>
    ((print_logged p _).of_ok hrun).mem_eq hdraws.confined hempty hx⟩
  obtain ⟨hrun', hprints⟩ := onConsole_prints hrun hprinted
  have hin' := typeBytes_inBounds hin s.writer.color [ascii line].flatten
  exact ⟨_, hrun', hprints, lt_of_eq_of_lt hdraws.displays.row_eq hin'.1,
    le_of_eq_of_le hdraws.displays.col_eq hin'.2⟩

theorem printk_shows (p : Profile) (line : String) (h : s.ShowsBehind Blank rows text)
    (hblank : ∀ color, Blank (blank color)) :
    ∃ s', onConsole (printk p line) s = .ok () s' ∧ Prints s s' ∧
      s'.ShowsBehind Blank rows (text ++ colored s.writer.color (ascii line)) := by
  obtain ⟨c', hrun, hprinted, hshows⟩ := print_shows p [ascii line] h hblank
  obtain ⟨hrun', hprints⟩ := onConsole_prints hrun hprinted
  refine ⟨_, hrun', hprints, setConsole_showsBehind ?_⟩
  rw [List.flatten_singleton] at hshows
  exact hshows

theorem printkColor_shows (p : Profile) (color : U8) (line : String)
    (h : s.ShowsBehind Blank rows text) (hblank : ∀ color, Blank (blank color)) :
    ∃ s', onConsole (printkColor p color line) s = .ok () s' ∧ Prints s s' ∧
      s'.ShowsBehind Blank rows (text ++ colored color (ascii line)) := by
  obtain ⟨c', hrun, hprinted, hshows⟩ := printColor_shows p color [ascii line] h hblank
  obtain ⟨hrun', hprints⟩ := onConsole_prints hrun hprinted
  refine ⟨_, hrun', hprints, setConsole_showsBehind ?_⟩
  rw [List.flatten_singleton] at hshows
  exact hshows

/-! ## The dump refines the one that collects its text -/

/-- The dump in progress: the memory that the collecting dump reads is the stack, and what it has
    collected is on the console. -/
structure Dumping (k : KernelLayout) (s₀ : State) (Blank : Cell → Prop) (rows : List (List Cell))
    (text : List Cell) (d : Stack.DumpState) (s : State) : Prop where
  stack : ∀ v, k.stackBottom ≤ v → v < k.stackTop → d.bus.mem v = s.boot.mem (v - kernelVirtualBase)
  prints : Prints s₀ s
  shows : s.ShowsBehind Blank rows (text ++ colored s₀.writer.color (ascii d.printed))

variable {k : LinkedLayout} {s₀ : State}

/-- The stack lies above the text buffer. -/
theorem stack_not_mem_vgaBytes {v : Nat} (hv : k.stackBottom ≤ v) :
    v - kernelVirtualBase ∉ vgaBytes := by
  have hload := k.loaded_at
  have hphys := k.phys_le_virt
  have hvd := k.virt_le_data
  have hguard := k.data_le_guard
  have hbottom : k.stackBottom = k.stackGuard + 4096 := rfl
  have hend : vgaBuffer + vgaSize ≤ 0x100000 := by decide
  rw [kernelLma] at hload
  rintro ⟨-, hlt⟩
  omega

theorem printk_simulates (p : Profile) (line : String) (hblank : ∀ color, Blank (blank color)) :
    Simulates (Dumping k.toKernelLayout s₀ Blank rows text) (Stack.printk line)
      (onConsole (printk p line)) := by
  refine simulates_of_run fun d s h => ?_
  obtain ⟨s', hrun, hprints, hshows⟩ := printk_shows p line h.shows hblank
  refine ⟨(), _, s', rfl, hrun, fun v hlo hhi => ?_, h.prints.trans hprints, ?_⟩
  · rw [hprints.mem_eq _ (stack_not_mem_vgaBytes hlo)]
    exact h.stack v hlo hhi
  · rw [h.prints.color_eq] at hshows
    rw [ascii_append, colored_append, ← List.append_assoc]
    exact hshows

theorem base_le_stackBottom (k : LinkedLayout) : kernelVirtualBase ≤ k.stackBottom := by
  have hphys := k.phys_le_virt
  have hvd := k.virt_le_data
  have hguard := k.data_le_guard
  have hbottom : k.stackBottom = k.stackGuard + 4096 := rfl
  omega

theorem readDword_simulates {addr : Nat} (hlo : k.stackBottom ≤ addr)
    (hhi : addr + 4 ≤ k.stackTop) :
    Simulates (Dumping k.toKernelLayout s₀ Blank rows text) (Stack.readDword addr)
      (readDword addr) := by
  refine simulates_of_run fun d s h => ?_
  have hbase := base_le_stackBottom k
  have hload : d.bus.mem.load addr 4 = s.boot.mem.load (addr - kernelVirtualBase) 4 := by
    refine List.map_congr_left fun i hi => ?_
    rw [List.mem_range] at hi
    rw [h.stack _ (by omega) (by omega), Nat.sub_add_comm (by omega)]
  refine ⟨BitVec.ofNat 32 (leNat (d.bus.mem.load addr 4)), _, s, rfl, ?_, h.stack, h.prints,
    h.shows⟩
  rw [hload]
  rfl

/-- One word of the dump, on the stack. -/
theorem dumpDword_simulates {start i : Nat} (hblank : ∀ color, Blank (blank color))
    (hlo : k.stackBottom ≤ start) (hhi : start + 4 * i + 4 ≤ k.stackTop) :
    Simulates (Dumping k.toKernelLayout s₀ Blank rows text) (Stack.dumpDword p start i)
      (dumpDword p start i) := by
  have htop : k.stackTop < 2 ^ 32 := by
    have hend := k.stack_le_end
    have hlimit := k.end_le
    omega
  refine Simulates.lift_bind _ fun offset hoffset => Simulates.lift_bind _ fun addr haddr => ?_
  obtain rfl : 4 * i = offset := by
    rw [mul_eq_ok (by omega), Nat.mul_comm] at hoffset
    exact Except.ok.inj hoffset
  obtain rfl : start + 4 * i = addr := by
    rw [add_eq_ok (by omega)] at haddr
    exact Except.ok.inj haddr
  exact (readDword_simulates (by omega) hhi).bind fun _ => printk_simulates p _ hblank

/-- **The dump on the console is the dump**: for every start and count, it prints what the dump that
    only collects its text collects, and it ends alike. -/
theorem dumpStackFrom_simulates (p : Profile) (hblank : ∀ color, Blank (blank color))
    (addr dwordCount : Nat) :
    Simulates (Dumping k.toKernelLayout s₀ Blank rows text)
      (Stack.dumpStackFrom p k.stackBottom k.stackTop addr dwordCount)
      (dumpStackFrom p k.toKernelLayout addr dwordCount) := by
  unfold Stack.dumpStackFrom dumpStackFrom
  refine (printk_simulates p _ hblank).bind fun _ => Simulates.lift_bind _ fun start hstart => ?_
  refine Simulates.ite (fun _ => printk_simulates p _ hblank) fun hin => ?_
  have hrange : k.stackBottom ≤ start ∧ start < k.stackTop := by
    simpa using hin
  refine Simulates.lift_bind _ fun room hroom => ?_
  obtain rfl : k.stackTop - start = room := by
    rw [sub_eq_ok hrange.2.le] at hroom
    exact Except.ok.inj hroom
  -- The words, behind the headline in each of its two forms.
  have hwords : Simulates (Dumping k.toKernelLayout s₀ Blank rows text)
      (do
        Stack.printk "\n"
        forM (List.range (min dwordCount ((k.stackTop - start) / 4))) (Stack.dumpDword p start))
      (do
        onConsole (printk p "\n")
        forM (List.range (min dwordCount ((k.stackTop - start) / 4))) (dumpDword p start)) := by
    refine (printk_simulates p _ hblank).bind fun _ => Simulates.forM _ fun i hi => ?_
    rw [List.mem_range] at hi
    exact dumpDword_simulates hblank hrange.1 (by omega)
  refine (printk_simulates p _ hblank).bind fun _ => Simulates.ite (fun _ => ?_) fun _ => ?_
  · exact Simulates.lift_bind _ fun _ _ => (printk_simulates p _ hblank).bind fun _ => hwords
  · exact hwords

end Printing

/-! ## The text of a dump -/

section DumpText

open Zkrnl32.Stack

variable {stackBottom stackTop addr dwordCount : Nat}

/-- The first line of a dump. -/
def dumpHeadline (stackBottom stackTop addr dwordCount : Nat) : String :=
  "stack dump: " ++
    if stackBottom ≤ firstDword addr ∧ firstDword addr < stackTop then
      toString (dumpedDwords stackBottom stackTop addr dwordCount) ++ "/" ++
        toString ((stackTop - firstDword addr) / 4) ++
        if addr % 4 = 0 then "" else " misaligned start address " ++ hexPadded 8 addr
    else
      hexPadded 8 (firstDword addr) ++ " not within stack bounds " ++ hexPadded 8 stackBottom ++
        "-" ++ hexPadded 8 stackTop

/-- The line of the word at `a`. -/
def dumpLine (mem : Memory) (a : Nat) : String :=
  hexPadded 8 a ++ ": " ++ hexPadded 8 (mem.load32 a).toNat

/-- The lines of a dump. -/
def dumpLines (stackBottom stackTop : Nat) (mem : Memory) (addr dwordCount : Nat) : List String :=
  dumpHeadline stackBottom stackTop addr dwordCount ::
    (List.range (dumpedDwords stackBottom stackTop addr dwordCount)).map fun i =>
      dumpLine mem (firstDword addr + 4 * i)

theorem forM_dumpDword_prints (p : Profile) {start n : Nat} (h : start + 4 * n ≤ 2 ^ 32)
    (s : DumpState) :
    ∃ s', forM (List.range n) (Stack.dumpDword p start) s = .ok () s' ∧
      ascii s'.printed = ascii s.printed ++
        endLines ((List.range n).map fun i => dumpLine s.bus.mem (start + 4 * i)) := by
  have hends : Ends (forM (List.range n) (Stack.dumpDword p start) s)
      (fun _ s' => s'.bus.mem = s.bus.mem ∧ ascii s'.printed = ascii s.printed ++
        endLines ((List.range n).map fun i => dumpLine s.bus.mem (start + 4 * i)))
      fun _ _ => False := by
    refine forM_range_ends (fun i (s' : DumpState) => s'.bus.mem = s.bus.mem ∧ ascii s'.printed =
      ascii s.printed ++ endLines ((List.range i).map fun i => dumpLine s.bus.mem (start + 4 * i)))
      (fun i hi s₁ hI => ?_) ⟨rfl, by simp⟩
    refine ends_of_ok (dumpDword_run p (by omega) s₁) ⟨hI.1, ?_⟩
    rw [ascii_append, hI.2, List.range_succ, List.map_append, List.map_singleton, endLines_append,
      hI.1]
    simp [dumpLine, ascii_newline]
  obtain ⟨_, s', hrun, -, hprinted⟩ := hends.exists_ok
  exact ⟨s', hrun, hprinted⟩

/-- What a dump prints, whatever its arguments. -/
theorem dumpStackFrom_prints (p : Profile) (htop : stackTop < 2 ^ 32) (haddr : addr < 2 ^ 32)
    (dwordCount : Nat) (s : DumpState) :
    ∃ s', Stack.dumpStackFrom p stackBottom stackTop addr dwordCount s = .ok () s' ∧
      ascii s'.printed = ascii s.printed ++
        endLines (dumpLines stackBottom stackTop s.bus.mem addr dwordCount) := by
  have hround : sub p 32 addr (addr % 4) = .ok (firstDword addr) := by
    rw [sub_eq_ok (Nat.mod_le addr 4), firstDword]
    congr 1
    omega
  unfold Stack.dumpStackFrom
  rw [run_printk_bind]
  simp only []
  rw [run_lift_bind hround]
  by_cases hin : stackBottom ≤ firstDword addr ∧ firstDword addr < stackTop
  · obtain ⟨hlo, hhi⟩ := hin
    have hroom : sub p 32 stackTop (firstDword addr) = .ok (stackTop - firstDword addr) :=
      sub_eq_ok hhi.le
    have hsum : add p 32 (firstDword addr) (addr % 4) = .ok addr := by
      rw [firstDword, add_eq_ok (by omega), Nat.div_add_mod]
    have hcond : ¬ (decide (firstDword addr < stackBottom) ||
        decide (stackTop ≤ firstDword addr)) = true := by
      simp [hlo, hhi]
    have hcount : dumpedDwords stackBottom stackTop addr dwordCount =
        min dwordCount ((stackTop - firstDword addr) / 4) := by
      rw [dumpedDwords, if_pos ⟨hlo, hhi⟩]
    -- The words follow the headline, in each of its two forms.
    have hloop : ∀ s₁ : DumpState, s₁.bus = s.bus →
        ascii s₁.printed = ascii s.printed ++
          ascii (dumpHeadline stackBottom stackTop addr dwordCount) ++ [lineFeed] →
        ∃ s', forM (List.range (min dwordCount ((stackTop - firstDword addr) / 4)))
            (Stack.dumpDword p (firstDword addr)) s₁ = .ok () s' ∧
          ascii s'.printed = ascii s.printed ++
            endLines (dumpLines stackBottom stackTop s.bus.mem addr dwordCount) := by
      intro s₁ hbus hprinted
      obtain ⟨s', hrun, hprinted'⟩ := forM_dumpDword_prints p
        (show firstDword addr + 4 * min dwordCount ((stackTop - firstDword addr) / 4) ≤ 2 ^ 32 by
          omega) s₁
      refine ⟨s', hrun, ?_⟩
      rw [hprinted', hprinted, hbus, dumpLines, hcount]
      simp
    rw [if_neg hcond, run_lift_bind hroom, run_printk_bind]
    by_cases haligned : addr % 4 = 0
    · rw [if_neg (not_not.mpr haligned), run_printk_bind]
      refine hloop _ rfl ?_
      simp [dumpHeadline, hlo, hhi, hcount, haligned, ascii_newline]
    · rw [if_pos haligned, run_lift_bind hsum, run_printk_bind, run_printk_bind]
      refine hloop _ rfl ?_
      simp [dumpHeadline, hlo, hhi, hcount, haligned, ascii_newline]
  · have hcond : (decide (firstDword addr < stackBottom) ||
        decide (stackTop ≤ firstDword addr)) = true := by
      simpa [or_iff_not_imp_left] using hin
    rw [if_pos hcond]
    refine ⟨_, rfl, ?_⟩
    simp [dumpLines, dumpHeadline, dumpedDwords, hin, ascii_newline]

theorem fits_hex {n : Nat} (h : n < 2 ^ 32) : Fits 10 (hexPadded 8 n) := by
  have hfits : Fits (max 8 8 + 2) (hexPadded 8 n) := fits_hexPadded (by decide) h
  exact hfits

theorem fits_dumpHeadline (hbottom : stackBottom < 2 ^ 32) (htop : stackTop < 2 ^ 32)
    (haddr : addr < 2 ^ 32) (dwordCount : Nat) :
    Fits vgaWidth (dumpHeadline stackBottom stackTop addr dwordCount) := by
  have hfirst : firstDword addr < 2 ^ 32 := by
    rw [firstDword]
    omega
  have hhead : Fits 12 "stack dump: " := by decide
  unfold dumpHeadline
  split
  next hin =>
    have hcount : Fits 10 (toString (dumpedDwords stackBottom stackTop addr dwordCount)) := by
      rw [dumpedDwords, if_pos hin]
      exact fits_toString (by decide) (lt_of_le_of_lt (Nat.min_le_right ..) (by omega))
    have havailable : Fits 10 (toString ((stackTop - firstDword addr) / 4)) :=
      fits_toString (by decide) (by omega)
    have htail : Fits 36
        (if addr % 4 = 0 then "" else " misaligned start address " ++ hexPadded 8 addr) := by
      split
      · decide
      · exact Fits.append (n := 26) (by decide) (fits_hex haddr)
    have hslash : Fits 1 "/" := by decide
    exact (hhead.append (((hcount.append hslash).append havailable).append htail)).mono (by decide)
  next =>
    have hnot : Fits 25 " not within stack bounds " := by decide
    have hdash : Fits 1 "-" := by decide
    exact (hhead.append (((((fits_hex hfirst).append hnot).append (fits_hex hbottom)).append
      hdash).append (fits_hex htop))).mono (by decide)

theorem length_dumpLines_le (stackBottom stackTop : Nat) (mem : Memory) (addr dwordCount : Nat) :
    (dumpLines stackBottom stackTop mem addr dwordCount).length ≤ dwordCount + 1 := by
  rw [dumpLines, List.length_cons, List.length_map, List.length_range, dumpedDwords]
  split <;> omega

/-- A dump shows nothing but the stack. -/
theorem dumpLines_congr {mem mem' : Memory}
    (h : ∀ v, stackBottom ≤ v → v < stackTop → mem' v = mem v) :
    dumpLines stackBottom stackTop mem' addr dwordCount =
      dumpLines stackBottom stackTop mem addr dwordCount := by
  refine congrArg _ (List.map_congr_left fun i hi => ?_)
  have hon := dumped_on_stack (List.mem_range.mp hi)
  rw [dumpLine, dumpLine, Memory.load32_congr fun x hx hx' => h x (by omega) (by omega)]

/-- Every line of a dump is one row. -/
theorem fits_dumpLines (hbottom : stackBottom < 2 ^ 32) (htop : stackTop < 2 ^ 32)
    (haddr : addr < 2 ^ 32) (mem : Memory) (dwordCount : Nat) :
    ∀ line ∈ dumpLines stackBottom stackTop mem addr dwordCount, Fits vgaWidth line := by
  intro line hline
  rcases List.mem_cons.mp hline with rfl | hline
  · exact fits_dumpHeadline hbottom htop haddr dwordCount
  · obtain ⟨i, hi, rfl⟩ := List.mem_map.mp hline
    have hon := dumped_on_stack (List.mem_range.mp hi)
    have hsep : Fits 2 ": " := by decide
    exact (((fits_hex (by omega)).append hsep).append (fits_hex (mem.load32 _).isLt)).mono
      (by decide)

end DumpText

/-! ## The report on the screen -/

/-- Rows of cells are on the screen, from row `top` on. -/
def State.Displays (s : State) (top : Nat) (rows : List (List Cell)) : Prop :=
  ∀ r row, rows[r]? = some row → top + r < vgaHeight ∧ ∀ c cell, row[c]? = some cell →
    c < vgaWidth ∧ cellAt s.boot.mem (top + r) c = cell

/-- What stands at the virtual addresses of the stack. -/
def State.stack (s : State) : Memory := fun v => s.boot.mem (v - kernelVirtualBase)

/-- The text of a panic report, behind the line end it begins with. -/
def reportText (color : U8) (info : List U8) (lines : List String) : List Cell :=
  colored panicColor (ascii "KERNEL PANIC" ++ lineFeed :: (info ++ [lineFeed])) ++
    colored color (endLines lines)

/-- The rows of a panic report: the heading and the message in the loud colour, and the dump. -/
def reportRows (color : U8) (info : List U8) (lines : List String) : List (List Cell) :=
  colored panicColor (ascii "KERNEL PANIC") ::
    wrapRows vgaWidth isNewline (colored panicColor info) ++
    lines.map fun line => colored color (ascii line)

section Report

variable {rows : List (List Cell)} {text : List Cell} {s : State}

/-- A text of at most 25 rows is on the screen. -/
theorem State.ShowsBehind.displays {Blank : Cell → Prop} (h : s.ShowsBehind Blank rows text)
    {shown : List (List Cell)} (hrows : wrapRows vgaWidth isNewline text = shown ++ [[]])
    (hfit : shown.length < vgaHeight) : ∃ top ≤ rows.length, s.Displays top shown := by
  obtain ⟨screen, hdisplays, -, hshows⟩ := h
  have hlen : (wrapRows vgaWidth isNewline text).length = shown.length + 1 := by
    rw [hrows, List.length_append, List.length_singleton]
  obtain ⟨top, hle, htop, hcells⟩ := hshows.visible vgaWidth_pos (by omega)
  refine ⟨top, hle, fun r row hr => ?_⟩
  have hr' : r < shown.length := (List.getElem?_eq_some_iff.mp hr).1
  rw [← List.getElem?_append_left hr', ← hrows] at hr
  refine ⟨by omega, fun c cell hcell => ?_⟩
  obtain ⟨hc, heq⟩ := hcells r row hr c cell hcell
  exact ⟨hc, (hdisplays.cells _ (by omega) c hc).trans heq⟩

/-- The rows of the whole report, with the empty one behind it. -/
theorem wrapRows_report (color : U8) (info : List U8) {lines : List String}
    (hlines : ∀ line ∈ lines, Fits vgaWidth line) :
    wrapRows vgaWidth isNewline (reportText color info lines) =
      reportRows color info lines ++ [[]] := by
  have hline : isNewline ⟨lineFeed, panicColor⟩ = true := rfl
  have hheading : Fits vgaWidth "KERNEL PANIC" := by decide
  have hcells : reportText color info lines =
      colored panicColor (ascii "KERNEL PANIC") ++ ⟨lineFeed, panicColor⟩ ::
        (colored panicColor info ++ ⟨lineFeed, panicColor⟩ :: colored color (endLines lines)) := by
    simp [reportText, colored]
  rw [hcells, wrapRows_newline hline, wrapRows_newline hline, wrapRows_endLines hlines,
    wrapRows_line (colored_ne_newline hheading.oneLine panicColor) ?_]
  · simp [reportRows]
  · rw [colored, List.length_map, length_ascii]
    exact hheading.length_le

/-- The stack dump, from any console state: what it prints. -/
theorem dumpStackFrom_shows (p : Profile) {k : LinkedLayout} {Blank : Cell → Prop}
    (h : s.ShowsBehind Blank rows text) (hblank : ∀ color, Blank (blank color)) {addr : Nat}
    (haddr : addr < 2 ^ 32) (dwordCount : Nat) :
    ∃ s', dumpStackFrom p k.toKernelLayout addr dwordCount s = .ok () s' ∧ Prints s s' ∧
      s'.ShowsBehind Blank rows (text ++ colored s.writer.color
        (endLines (dumpLines k.stackBottom k.stackTop s.stack addr dwordCount))) := by
  have htop : k.stackTop < 2 ^ 32 := by
    have hend := k.stack_le_end
    have hlimit := k.end_le
    omega
  obtain ⟨d, hrun, hprinted⟩ : ∃ d, Stack.dumpStackFrom p k.stackBottom k.stackTop addr dwordCount
      ⟨⟨s.stack, []⟩, ""⟩ = .ok () d ∧ ascii d.printed = ascii "" ++
        endLines (dumpLines k.stackBottom k.stackTop s.stack addr dwordCount) :=
    dumpStackFrom_prints p htop haddr dwordCount _
  have hstart : Dumping k.toKernelLayout s Blank rows text ⟨⟨s.stack, []⟩, ""⟩ s :=
    ⟨fun _ _ _ => rfl, Prints.refl s, by simpa [colored, ascii] using h⟩
  obtain ⟨s', hrun', hdumped⟩ :=
    (dumpStackFrom_simulates p hblank addr dwordCount).of_ok hstart hrun
  refine ⟨s', hrun', hdumped.prints, ?_⟩
  have hshows := hdumped.shows
  rw [hprinted] at hshows
  exact hshows

/-- A handler that has been entered before changes nothing. -/
theorem panicHandler_reentry (p : Profile) (k : KernelLayout) (esp : Nat) (info : List U8)
    (h : s.panicking = true) : panicHandler p k esp info s = .ok () s := by
  obtain ⟨writer, boot, panicking⟩ := s
  obtain rfl : panicking = true := h
  rfl

/-- The first entry of the handler: what it prints. -/
theorem panicHandler_shows (p : Profile) (k : LinkedLayout) (esp : U32) (info : List U8)
    (hwriter : s.writer.InRange) (hfirst : s.panicking = false) :
    ∃ rows s', panicHandler p k.toKernelLayout esp.toNat info s = .ok () s' ∧
      s'.ShowsBehind (fun _ => True) rows (reportText s.writer.color info
        (dumpLines k.stackBottom k.stackTop s.stack esp.toNat 16)) ∧
      (∀ x ∉ vgaBytes, s'.boot.mem x = s.boot.mem x) ∧ s'.panicking = true := by
  have hpieces : [ascii "\nKERNEL PANIC\n", info, ascii "\n"].flatten =
      lineFeed :: (ascii "KERNEL PANIC" ++ lineFeed :: (info ++ [lineFeed])) := by
    have hheading : ascii "\nKERNEL PANIC\n" =
        lineFeed :: (ascii "KERNEL PANIC" ++ [lineFeed]) := by decide
    rw [hheading, ascii_newline]
    simp
  -- The heading and the message.
  let s₁ : State := { s with panicking := true }
  obtain ⟨rows, c', hprint, hprinted, hshows⟩ := printColor_newline_shows (c := s₁.console) p
    panicColor hpieces hwriter
  obtain ⟨hrun₂, hprints₂⟩ := onConsole_prints (s := s₁) hprint hprinted
  -- The dump.
  obtain ⟨s₃, hrun₃, hprints₃, hshows₃⟩ := dumpStackFrom_shows p (k := k)
    (setConsole_showsBehind (s := s₁) hshows) (fun _ => trivial) esp.isLt 16
  have hprints := hprints₂.trans hprints₃
  have hlines : dumpLines k.stackBottom k.stackTop (s₁.setConsole c').stack esp.toNat 16 =
      dumpLines k.stackBottom k.stackTop s.stack esp.toNat 16 :=
    dumpLines_congr fun v hlo _ => hprints₂.mem_eq _ (stack_not_mem_vgaBytes hlo)
  have hcolor : (s₁.setConsole c').writer.color = s.writer.color := hprints₂.color_eq
  rw [hlines, hcolor] at hshows₃
  refine ⟨rows, s₃, ?_, hshows₃, hprints.mem_eq, hprints.panicking_eq⟩
  rw [panicHandler, run_get_bind]
  simp only [hfirst]
  rw [run_modify_bind]
  simp only [Bool.not_false, if_true]
  rw [run_bind_of_ok hrun₂]
  exact hrun₃

/-- A report with a message of at most six rows is on the screen as a whole. -/
theorem reportText_displays {Blank : Cell → Prop} {k : LinkedLayout} {color : U8} {info : List U8}
    {mem : Memory} {esp : U32}
    (h : s.ShowsBehind Blank rows (reportText color info
      (dumpLines k.stackBottom k.stackTop mem esp.toNat 16)))
    (hinfo : (wrapRows vgaWidth isNewline (colored panicColor info)).length ≤ 6) :
    ∃ top, s.Displays top (reportRows color info
      (dumpLines k.stackBottom k.stackTop mem esp.toNat 16)) := by
  have htop : k.stackTop < 2 ^ 32 := by
    have hend := k.stack_le_end
    have hlimit := k.end_le
    omega
  have hbottom : k.stackBottom < 2 ^ 32 := by
    have hle : k.stackTop = k.stackBottom + 65536 := rfl
    omega
  have hrows := wrapRows_report color info (fits_dumpLines hbottom htop esp.isLt mem 16)
  have hcount : (reportRows color info
      (dumpLines k.stackBottom k.stackTop mem esp.toNat 16)).length < vgaHeight := by
    have hdump := length_dumpLines_le k.stackBottom k.stackTop mem esp.toNat 16
    rw [reportRows, List.length_append, List.length_cons, List.length_map, vgaHeight_eq]
    omega
  obtain ⟨top, -, hdisplays⟩ := h.displays hrows hcount
  exact ⟨top, hdisplays⟩

/-- **A panic report is on the screen as a whole.**  Whatever the console showed, whatever `esp` and
    the stack hold, the first entry of the handler reaches the halt.  The heading, the message and
    the stack dump are then on the screen, row by row, if the message takes at most six rows; memory
    outside the text buffer and the kernel's own data is as it was.  Every later entry goes straight
    to the halt. -/
theorem panic_report_visible (p : Profile) (k : LinkedLayout) (esp : U32) (info : List U8)
    (s : State) (hwriter : s.writer.InRange) (hfirst : s.panicking = false)
    (hinfo : (wrapRows vgaWidth isNewline (colored panicColor info)).length ≤ 6) :
    ∃ s' top, panicHandler p k.toKernelLayout esp.toNat info s = .ok () s' ∧
      s'.Displays top (reportRows s.writer.color info
        (dumpLines k.stackBottom k.stackTop s.stack esp.toNat 16)) ∧
      (∀ x ∉ vgaBytes ∪ k.dataBytes, s'.boot.mem x = s.boot.mem x) ∧
      ∀ esp' info', panicHandler p k.toKernelLayout esp' info' s' = .ok () s' := by
  obtain ⟨rows, s', hrun, hshows, hmem, hentered⟩ := panicHandler_shows p k esp info hwriter hfirst
  obtain ⟨top, hdisplays⟩ := reportText_displays hshows hinfo
  exact ⟨s', top, hrun, hdisplays, fun x hx => hmem x (not_or.mp hx).1,
    fun esp' info' => panicHandler_reentry p _ esp' info' hentered⟩

/-- A panic on a console that has printed nothing, with `esp` outside the stack. -/
theorem panic_report_visible_start :
    ∃ s : State, s.writer.InRange ∧ s.panicking = false ∧ ∃ s' top,
      panicHandler .dev LinkedLayout.smallest.toKernelLayout 0 (ascii "halted") s = .ok () s' ∧
      s'.Displays top (reportRows s.writer.color (ascii "halted")
        (dumpLines LinkedLayout.smallest.stackBottom LinkedLayout.smallest.stackTop
          s.stack 0 16)) := by
  have hline : Fits vgaWidth "halted" := by decide
  have hrows : (wrapRows vgaWidth isNewline (colored panicColor (ascii "halted"))).length ≤ 6 := by
    rw [wrapRows_line (colored_ne_newline hline.oneLine panicColor) (by decide)]
    decide
  obtain ⟨s', top, hrun, hdisplays, -⟩ := panic_report_visible .dev .smallest 0 (ascii "halted")
    (State.start (fun _ => 0) 0 0) (start_inRange _ 0 0) rfl hrows
  exact ⟨_, start_inRange _ 0 0, rfl, s', top, hrun, hdisplays⟩

end Report

end Zkrnl32.Kernel
