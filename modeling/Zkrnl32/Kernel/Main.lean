import Zkrnl32.Kernel.Report
import Zkrnl32.Memory.Handoff

/-!
# The Kernel's Entry

Model of `kernel_main` (`src/lib.rs`), from the hand-off of the boot stub to the loop it ends in.

- `kernelMain`: the source up to the loop; a panic is a stop.
- `runKernel`: the boot as a whole.  A panic goes on in the panic handler, which halts.
- `Readable`, `MapEnds`: what the source relies on the loader for, so that the hand-off can be read
  and its memory map has an end.
- `boot_contained`: whatever the loader handed over, and whichever way the boot ends, it changes the
  text buffer, the kernel's own data and frames that the memory map publishes, and no other memory.
-/

namespace Zkrnl32.Kernel

open Zkrnl32.Machine Zkrnl32.Memory Zkrnl32.Vga
open Zkrnl32.Memory.Paging (BootState)
open Zkrnl32.Multiboot (MemoryMap MemoryRegion MultibootInfo multibootInfoSize flagMmap
  Slice)

/-! ## The source -/

/-- `BOOTLOADER_MAGIC`. -/
def bootloaderMagic : U32 := 0x2BADB002

/-- Runs an operation of the memory subsystem. -/
def onBoot {α : Type} (x : Exec BootState α) : Exec State α :=
  Exec.zoom State.boot (fun boot s => { s with boot := boot }) x

/-- `kernel_main` up to the loop it spins in.  The information structure is read at its physical
    address, as the bootstrap directory maps it, and the borrow `&*info` itself does nothing: the
    checks for null and misaligned pointers that a dev build puts in front of it and into
    `from_raw_parts` are left out, and so are page faults.  `Readable` says when none of them
    strikes. -/
def kernelMain (p : Profile) (fuel : Nat) (k : KernelLayout) (magic : U32) (info : Nat) :
    Exec State Unit := do
  if magic ≠ bootloaderMagic then
    throw (.panicked ("not booted by a multiboot loader: magic=" ++ hexPadded 0 magic.toNat))
  onConsole (clear p)
  onConsole (printk p "zkrnl32 booting\n")
  printMemoryMap p fuel info
  onBoot (Memory.init p fuel k info)
  onConsole (printk p "memory: paging active, frame allocator online\n")

/-- Where a boot ends: in the loop of `kernel_main`, or in the one of the panic handler. -/
inductive Outcome where
  | spinning
  | halted
  deriving DecidableEq, Repr

/-- The boot as a whole.  `render` formats the message and the location of a panic, and `esp` is the
    stack pointer in the handler.  A loop that does not end is no panic. -/
def runKernel (p : Profile) (fuel : Nat) (k : KernelLayout) (render : Stop → List U8) (esp : U32)
    (magic : U32) (info : Nat) : Exec State Outcome := fun s =>
  match kernelMain p fuel k magic info s with
  | .ok () s' => .ok .spinning s'
  | .error .outOfFuel s' => .error .outOfFuel s'
  | .error e s' => (do
      panicHandler p k esp.toNat (render e)
      return .halted : Exec State Outcome) s'

/-! ## The hand-off -/

section Handoff

variable {mem mem' : Memory} {info : Nat}

/-- The bytes of the hand-off that are read: the information structure, and the memory map if its
    flags announce one. -/
def readBytes (mem : Memory) (info : Nat) : Set Nat :=
  let fields := MultibootInfo.read mem info
  Set.Ico info (info + multibootInfoSize) ∪ { x | fields.flags &&& flagMmap ≠ 0 ∧
    x ∈ Set.Ico fields.mmapAddr.toNat (fields.mmapAddr.toNat + fields.mmapLength.toNat) }

theorem readBytes_subset : readBytes mem info ⊆ handoffBytes mem info :=
  Set.union_subset_union_right _ fun _ hx => hx.2

/-- A hand-off that the kernel can read: neither pointer is null and the structure is aligned, as
    the checks of a dev build want it; all bytes lie below 4 MiB, where the bootstrap directory maps
    them; and none lies in the text buffer or in the kernel's own data, which change while the
    hand-off is read. -/
structure Readable (k : KernelLayout) (mem : Memory) (info : Nat) : Prop where
  info_ne : info ≠ 0
  info_aligned : 4 ∣ info
  map_ne : (MultibootInfo.read mem info).flags &&& flagMmap ≠ 0 →
    (MultibootInfo.read mem info).mmapAddr ≠ 0
  below : ∀ x ∈ readBytes mem info, x < 0x400000
  apart : Disjoint (readBytes mem info) (vgaBytes ∪ k.dataBytes)

/-- The walk over the memory map, if there is one, comes to its end, in fewer than `fuel` steps. -/
def MapEnds (p : Profile) (fuel : Nat) (mem : Memory) (info : Nat) : Prop :=
  ∀ map, (MultibootInfo.read mem info).memoryMap mem = some map →
    ∃ regions map', Yields (MemoryMap.next p) map regions map' ∧ regions.length < fuel

theorem Readable.screen {k : KernelLayout} (h : Readable k mem info) :
    Disjoint (readBytes mem info) vgaBytes :=
  h.apart.mono_right Set.subset_union_left

/-- A read of the information structure depends on the bytes of the hand-off only. -/
theorem read_congr (h : ∀ x ∈ readBytes mem info, mem' x = mem x) :
    MultibootInfo.read mem' info = MultibootInfo.read mem info := by
  have hfield : ∀ offset, offset + 4 ≤ multibootInfoSize →
      mem'.load32 (info + offset) = mem.load32 (info + offset) := by
    intro offset hoffset
    exact Memory.load32_congr fun x hlo hhi => h x (Or.inl ⟨by omega, by omega⟩)
  have hflags := hfield 0 (by decide)
  rw [Nat.add_zero] at hflags
  rw [MultibootInfo.read, hfield 44 (by decide), hfield 48 (by decide), hflags]
  rfl

theorem memoryMap_congr (h : ∀ x ∈ readBytes mem info, mem' x = mem x) :
    (MultibootInfo.read mem' info).memoryMap mem' =
      (MultibootInfo.read mem info).memoryMap mem := by
  rw [read_congr h, MultibootInfo.memoryMap, MultibootInfo.memoryMap]
  by_cases hflag : (MultibootInfo.read mem info).flags &&& flagMmap = 0
  · rw [if_pos hflag, if_pos hflag]
  · have hload : mem'.load (MultibootInfo.read mem info).mmapAddr.toNat
        (MultibootInfo.read mem info).mmapLength.toNat =
        mem.load (MultibootInfo.read mem info).mmapAddr.toNat
          (MultibootInfo.read mem info).mmapLength.toNat :=
      Memory.load_congr fun x hlo hhi => h x (Or.inr ⟨hflag, hlo, hhi⟩)
    simp only [if_neg hflag, hload]

theorem readBytes_congr (h : ∀ x ∈ readBytes mem info, mem' x = mem x) :
    readBytes mem' info = readBytes mem info := by
  rw [readBytes, read_congr h]
  rfl

theorem MapEnds.congr {p : Profile} {fuel : Nat} (hwalk : MapEnds p fuel mem info)
    (h : ∀ x ∈ readBytes mem info, mem' x = mem x) : MapEnds p fuel mem' info := by
  rw [MapEnds, memoryMap_congr h]
  exact hwalk

/-- A hand-off stays readable while its bytes stay. -/
theorem Readable.congr {k : KernelLayout} (hreadable : Readable k mem info)
    (h : ∀ x ∈ readBytes mem info, mem' x = mem x) : Readable k mem' info := by
  refine ⟨hreadable.info_ne, hreadable.info_aligned, ?_, ?_, ?_⟩
  · rw [read_congr h]
    exact hreadable.map_ne
  · rw [readBytes_congr h]
    exact hreadable.below
  · rw [readBytes_congr h]
    exact hreadable.apart

end Handoff

/-! ## The way to the memory subsystem -/

theorem State.ShowsBehind.inRange {Blank : Cell → Prop} {rows : List (List Cell)}
    {text : List Cell} {s : State} (h : s.ShowsBehind Blank rows text) : s.writer.InRange := by
  obtain ⟨screen, hdisplays, hin, -⟩ := h
  exact ⟨lt_of_eq_of_lt hdisplays.row_eq hin.1, le_of_eq_of_le hdisplays.col_eq hin.2⟩

/-- A console at the start of the screen, after `clear`. -/
theorem clear_shows (p : Profile) (mem : Memory) (cr3 cr0 : U32) :
    ∃ s, onConsole (clear p) (State.start mem cr3 cr0) = .ok () s ∧
      Prints (State.start mem cr3 cr0) s ∧ s.ShowsBehind IsBlank [] [] := by
  let c := (State.start mem cr3 cr0).console
  have hstart : Displays c ⟨cellAt mem, 0, 0⟩ := ⟨rfl, rfl, fun _ _ _ _ => rfl⟩
  obtain ⟨c', hrun, -, hdraws⟩ := clear_draws p hstart
  have hprinted : Printed c c' := ⟨hdraws.color_eq, fun hempty x hx =>
    ((clear_logged p).of_ok hrun).mem_eq hdraws.confined hempty hx⟩
  obtain ⟨hrun', hprints⟩ := onConsole_prints hrun hprinted
  exact ⟨_, hrun', hprints, setConsole_showsBehind ⟨_, hdraws.displays,
    ⟨vgaHeight_pos, Nat.zero_le _⟩, Screen.showsBehind_blank vgaHeight_pos rfl⟩⟩

section Start

variable {p : Profile} {fuel : Nat} {k : KernelLayout} {magic : U32} {info : Nat} {mem : Memory}
  {cr3 cr0 : U32}

/-- The colour of the console at boot, white on black. -/
def bootColor : U8 := VgaWriter.new.color

/-- `kernel_main` behind its banner. -/
def afterBanner (p : Profile) (fuel : Nat) (k : KernelLayout) (info : Nat) : Exec State Unit := do
  printMemoryMap p fuel info
  onBoot (Memory.init p fuel k info)
  onConsole (printk p "memory: paging active, frame allocator online\n")

/-- With the loader's magic, `kernel_main` gets to the memory map. -/
theorem kernelMain_banner (p : Profile) (fuel : Nat) (k : KernelLayout) (info : Nat) (mem : Memory)
    (cr3 cr0 : U32) :
    ∃ s, kernelMain p fuel k bootloaderMagic info (State.start mem cr3 cr0) =
        afterBanner p fuel k info s ∧
      Prints (State.start mem cr3 cr0) s ∧
      s.ShowsBehind IsBlank [] (colored bootColor (endLines ["zkrnl32 booting"])) := by
  obtain ⟨s₁, hclear, hprints₁, hshows₁⟩ := clear_shows p mem cr3 cr0
  obtain ⟨s₂, hbanner, hprints₂, hshows₂⟩ := printk_shows p "zkrnl32 booting\n" hshows₁
    (fun _ => rfl)
  refine ⟨s₂, ?_, hprints₁.trans hprints₂, ?_⟩
  · rw [kernelMain, if_neg (not_not.mpr rfl)]
    simp only []
    rw [run_bind_of_ok hclear, run_bind_of_ok hbanner]
    rfl
  · rw [hprints₁.color_eq] at hshows₂
    exact hshows₂

/-- `print_memory_map` keeps to the console, whichever way it ends. -/
theorem printMemoryMap_ends (p : Profile) {Blank : Cell → Prop} {rows : List (List Cell)}
    {text : List Cell} {s : State} (h : s.ShowsBehind Blank rows text)
    (hblank : ∀ color, Blank (blank color)) (fuel info : Nat) :
    Ends (printMemoryMap p fuel info s)
      (fun _ s' => Prints s s' ∧ s'.writer.InRange)
      fun _ s' => Prints s s' ∧ s'.writer.InRange := by
  have hagree := reportMap_agree p h hblank fuel
    ((MultibootInfo.read s.boot.mem info).memoryMap s.boot.mem)
  rw [printMemoryMap_run, Exec.zoom]
  generalize Multiboot.printMemoryMap p fuel _ _ = collected at hagree
  generalize reportMap p fuel _ _ = printed at hagree
  cases hagree with
  | ok hreported => exact ⟨hreported.prints, hreported.shows.inRange⟩
  | error hreported => exact ⟨hreported.prints, hreported.shows.inRange⟩

end Start

/-! ## What a boot may change -/

/-- The bytes of the frames that `paging::init` may be issued: published by a region of the map,
    other than frame 0, apart from the image and below 4 MiB. -/
def bootBytes (p : Profile) (k : KernelLayout) (mem : Memory) (info : Nat) : Set Nat :=
  { x | ∃ map region, (MultibootInfo.read mem info).memoryMap mem = some map ∧
      Yielded (MemoryMap.next p) map region ∧ x / 4096 ∈ publishedFrames region ∧ x / 4096 ≠ 0 ∧
      Disjoint (frameBytes (x / 4096)) k.image.bytes ∧ x < 0x400000 }

/-- Memory differs in these bytes only. -/
def ChangesOnly (bytes : Set Nat) (mem mem' : Memory) : Prop := ∀ x, mem' x ≠ mem x → x ∈ bytes

theorem ChangesOnly.trans {bytes bytes' : Set Nat} {mem₁ mem₂ mem₃ : Memory}
    (h : ChangesOnly bytes mem₁ mem₂) (h' : ChangesOnly bytes' mem₂ mem₃) :
    ChangesOnly (bytes ∪ bytes') mem₁ mem₃ := by
  intro x hx
  by_cases hx' : mem₂ x = mem₁ x
  · exact Or.inr (h' x (hx' ▸ hx))
  · exact Or.inl (h x hx')

theorem ChangesOnly.mono {bytes bytes' : Set Nat} {mem mem' : Memory}
    (h : ChangesOnly bytes mem mem') (hle : bytes ⊆ bytes') : ChangesOnly bytes' mem mem' :=
  fun x hx => hle (h x hx)

theorem Prints.changesOnly {s s' : State} (h : Prints s s') :
    ChangesOnly vgaBytes s.boot.mem s'.boot.mem := by
  intro x hx
  by_contra hout
  exact hx (h.mem_eq x hout)

/-- `memory::init` changes published frames only, whichever way it ends. -/
theorem init_changesOnly (p : Profile) (fuel : Nat) (k : KernelLayout) (info : Nat) {b : BootState}
    (hledger : b.ledger = ⟨.new, []⟩) :
    Ends (Memory.init p fuel k info b)
      (fun _ b' => ChangesOnly (bootBytes p k b.mem info) b.mem b'.mem)
      fun _ b' => ChangesOnly (bootBytes p k b.mem info) b.mem b'.mem := by
  unfold Memory.init
  rw [run_get_bind]
  cases hmap : (MultibootInfo.read b.mem info).memoryMap b.mem with
  | none => exact fun x hx => absurd rfl hx
  | some map =>
    refine Ends.bind ?_
    -- The allocator is not part of memory.
    simp only [Exec.zoom, Ledger.onAllocator, hledger]
    cases hinit : FrameBitmap.init p fuel k.image map .new with
    | error e st => exact fun x hx => absurd rfl hx
    | ok _ st =>
      have hhint : st.searchHint ≤ wordCount := (owns_of_init (Nat.zero_le _) hinit).hint_le
      have hframe : ∀ {frames : List Nat} {b' : BootState},
          Paging.Footprint { b with ledger := ⟨st, []⟩ } b' frames →
          ChangesOnly (bootBytes p k b.mem info) b.mem b'.mem := by
        intro frames b' hfoot x hx
        obtain ⟨f, hf, hlow, hin⟩ := hfoot.unchanged x hx
        obtain rfl : x / 4096 = f := mem_frameBytes_iff.mp hin
        obtain ⟨⟨region, hy, hpub⟩, hne, himage⟩ :=
          (mem_freeFrames_of_init hinit).mp (hfoot.consumed.nodup.2 _ hf)
        exact ⟨map, region, hmap, hy, hpub, hne, disjoint_image_of_not_mem himage, by omega⟩
      refine (Paging.init_ends p k hhint).mono (fun _ b' h => ?_) fun _ b' h => ?_
      · obtain ⟨frames, hfoot, -⟩ := h
        exact hframe hfoot
      · obtain ⟨frames, hfoot⟩ := h
        exact hframe hfoot

/-- What `kernel_main` may change: the text buffer and the kernel's own data, and with the loader's
    magic also the bytes of published frames. -/
def touchedBytes (p : Profile) (k : KernelLayout) (magic : U32) (mem : Memory) (info : Nat) :
    Set Nat :=
  vgaBytes ∪ k.dataBytes ∪ { x | magic = bootloaderMagic ∧ x ∈ bootBytes p k mem info }

/-- They depend on the memory map only, and without the loader's magic on nothing. -/
theorem touchedBytes_congr {p : Profile} {k : KernelLayout} {magic : U32} {mem mem' : Memory}
    {info : Nat} (h : magic = bootloaderMagic → (MultibootInfo.read mem' info).memoryMap mem' =
      (MultibootInfo.read mem info).memoryMap mem) :
    touchedBytes p k magic mem' info = touchedBytes p k magic mem info := by
  ext x
  refine or_congr_right (and_congr_right fun hmagic => ?_)
  have hbytes : bootBytes p k mem' info = bootBytes p k mem info := by
    rw [bootBytes, h hmagic]
    rfl
  rw [hbytes]

/-- A kernel that has not panicked, and what it has changed since memory was `mem`. -/
structure Running (bytes : Set Nat) (mem : Memory) (s : State) : Prop where
  changes : ChangesOnly bytes mem s.boot.mem
  inRange : s.writer.InRange
  color_eq : s.writer.color = bootColor
  first : s.panicking = false

/-- Printing goes on within bytes that hold the text buffer. -/
theorem Running.prints {bytes : Set Nat} {mem : Memory} {s s' : State} (h : Running bytes mem s)
    (hprints : Prints s s') (hin : s'.writer.InRange) (hvga : vgaBytes ⊆ bytes) :
    Running bytes mem s' :=
  ⟨(h.changes.trans hprints.changesOnly).mono (Set.union_subset (subset_refl _) hvga), hin,
    hprints.color_eq.trans h.color_eq, hprints.panicking_eq.trans h.first⟩

theorem running_start (bytes : Set Nat) (mem : Memory) (cr3 cr0 : U32) :
    Running bytes mem (State.start mem cr3 cr0) :=
  ⟨fun _ hx => absurd rfl hx, start_inRange mem cr3 cr0, rfl, rfl⟩

theorem kernelMain_contained (p : Profile) (fuel : Nat) (k : KernelLayout) (magic : U32)
    (info : Nat) (mem : Memory) (cr3 cr0 : U32)
    (hapart : magic = bootloaderMagic → Disjoint (readBytes mem info) vgaBytes) :
    Ends (kernelMain p fuel k magic info (State.start mem cr3 cr0))
      (fun _ s' => Running (touchedBytes p k magic mem info) mem s')
      fun _ s' => Running (touchedBytes p k magic mem info) mem s' := by
  by_cases hmagic : magic = bootloaderMagic
  · obtain ⟨s₁, hbanner, hprints₁, hshows₁⟩ := kernelMain_banner p fuel k info mem cr3 cr0
    rw [← hmagic] at hbanner
    have hvga : vgaBytes ⊆ touchedBytes p k magic mem info := fun _ hx => Or.inl (Or.inl hx)
    have hstart := running_start (touchedBytes p k magic mem info) mem cr3 cr0
    rw [hbanner, afterBanner]
    refine Ends.bind ((printMemoryMap_ends p hshows₁ (fun _ => rfl) fuel info).mono ?_
      fun _ s₂ h => hstart.prints (hprints₁.trans h.1) h.2 hvga)
    rintro _ s₂ ⟨hprints₂, hin₂⟩
    have hprints := hprints₁.trans hprints₂
    -- Printing has left the hand-off alone, so `init` reads the loader's map.
    have hmap : (MultibootInfo.read s₂.boot.mem info).memoryMap s₂.boot.mem =
        (MultibootInfo.read mem info).memoryMap mem := memoryMap_congr fun x hx =>
      hprints.mem_eq x (Set.disjoint_left.mp (hapart hmagic) hx)
    have hbytes : bootBytes p k s₂.boot.mem info = bootBytes p k mem info := by
      rw [bootBytes, hmap]
      rfl
    have hledger : s₂.boot.ledger = ⟨.new, []⟩ := by
      rw [hprints.boot_eq]
      rfl
    have hrunning : ∀ b', ChangesOnly (bootBytes p k s₂.boot.mem info) s₂.boot.mem b'.mem →
        Running (touchedBytes p k magic mem info) mem { s₂ with boot := b' } := by
      intro b' hchanges
      rw [hbytes] at hchanges
      refine ⟨(hprints.changesOnly.trans hchanges).mono ?_, hin₂, hprints.color_eq,
        hprints.panicking_eq⟩
      exact Set.union_subset hvga fun x hx => Or.inr ⟨hmagic, hx⟩
    have hinit := init_changesOnly p fuel k info hledger
    refine Ends.bind ?_
    rw [onBoot, Exec.zoom]
    generalize Memory.init p fuel k info s₂.boot = result at hinit
    cases result with
    | error e b' => exact hrunning b' hinit
    | ok _ b' =>
      have hrunning₃ := hrunning b' hinit
      obtain ⟨s₄, hrun₄, hprints₄, hin₄⟩ := printk_prints p
        "memory: paging active, frame allocator online\n" hrunning₃.inRange
      change Ends (onConsole _ _) _ _
      exact ends_of_ok hrun₄ (hrunning₃.prints hprints₄ hin₄ hvga)
  · rw [kernelMain, if_pos hmagic]
    exact running_start _ mem cr3 cr0

/-- A stop of `kernel_main` ends in the panic handler. -/
theorem runKernel_of_stop {p : Profile} {fuel : Nat} {k : KernelLayout} {render : Stop → List U8}
    {esp magic : U32} {info : Nat} {s s₁ s' : State} {e : Stop}
    (hrun : kernelMain p fuel k magic info s = .error e s₁) (he : e ≠ .outOfFuel)
    (hhandler : panicHandler p k esp.toNat (render e) s₁ = .ok () s') :
    runKernel p fuel k render esp magic info s = .ok .halted s' := by
  rw [runKernel, hrun]
  cases e with
  | outOfFuel => exact absurd rfl he
  | _ => exact run_bind_of_ok hhandler

/-- The handler prints only. -/
theorem handler_changesOnly {p : Profile} {k : KernelLayout} {magic : U32} {info : Nat}
    {mem mem₁ mem' : Memory} (h : ChangesOnly (touchedBytes p k magic mem info) mem mem₁)
    (hmem : ∀ x ∉ vgaBytes, mem' x = mem₁ x) :
    ChangesOnly (touchedBytes p k magic mem info) mem mem' := by
  intro x hx
  by_cases hvga : x ∈ vgaBytes
  · exact Or.inl (Or.inl hvga)
  · rw [hmem x hvga] at hx
    exact h x hx

/-- **A boot stays within its bounds.**  From any memory, with any magic and any information
    structure apart from the text buffer and the kernel's own data, a boot that spins, halts or does
    not end has changed the text buffer and its own data and nothing else, or with the loader's
    magic also frames below 4 MiB that the memory map publishes, none of them frame 0 or a frame of
    the image. -/
theorem boot_contained (p : Profile) (fuel : Nat) (k : LinkedLayout) (render : Stop → List U8)
    (esp magic : U32) (info : Nat) (mem : Memory) (cr3 cr0 : U32)
    (hapart : magic = bootloaderMagic →
      Disjoint (readBytes mem info) (vgaBytes ∪ k.dataBytes)) :
    Ends (runKernel p fuel k.toKernelLayout render esp magic info (State.start mem cr3 cr0))
      (fun _ s' => ChangesOnly (touchedBytes p k.toKernelLayout magic mem info) mem s'.boot.mem)
      fun _ s' => ChangesOnly (touchedBytes p k.toKernelLayout magic mem info) mem s'.boot.mem := by
  have hends := kernelMain_contained p fuel k.toKernelLayout magic info mem cr3 cr0
    fun h => (hapart h).mono_right Set.subset_union_left
  cases hrun : kernelMain p fuel k.toKernelLayout magic info (State.start mem cr3 cr0) with
  | ok _ s₁ =>
    rw [runKernel, hrun]
    exact (hends.of_eq_ok hrun).changes
  | error e s₁ =>
    have hs₁ := hends.of_eq_error hrun
    by_cases hfuel : e = .outOfFuel
    · rw [runKernel, hrun, hfuel]
      exact hs₁.changes
    · obtain ⟨_, s', hhandler, -, hmem, -⟩ := panicHandler_shows p k esp (render e) hs₁.inRange
        hs₁.first
      exact ends_of_ok (runKernel_of_stop hrun hfuel hhandler)
        (handler_changesOnly hs₁.changes hmem)

section Frame9

variable {map : Slice}

/-- A hand-off in frame 9, with a map that ends there. -/
theorem handoffMemory_frame (hmap : map.bytes.length ≤ 0xF00) {x : Nat}
    (hx : x ∈ handoffBytes (handoffMemory 0x9000 0x9100 map) 0x9000) :
    0x9000 ≤ x ∧ x < 0xA000 := by
  have hbytes := (mem_handoffBytes (by decide) (by decide)).mp hx
  omega

theorem handoffMemory_apart (hmap : map.bytes.length ≤ 0xF00) :
    Disjoint (handoffBytes (handoffMemory 0x9000 0x9100 map) 0x9000)
      (vgaBytes ∪ LinkedLayout.smallest.dataBytes) := by
  rw [Set.disjoint_left]
  rintro x hx (⟨hlo, -⟩ | ⟨hlo, -⟩)
  · have hstart : vgaBuffer = 0xB8000 := rfl
    have := handoffMemory_frame hmap hx
    omega
  · have hstart : LinkedLayout.smallest.dataStart - kernelVirtualBase = 0x204000 := rfl
    have := handoffMemory_frame hmap hx
    omega

theorem handoffMemory_readable (hmap : map.bytes.length ≤ 0xF00) :
    Readable LinkedLayout.smallest.toKernelLayout (handoffMemory 0x9000 0x9100 map) 0x9000 := by
  refine ⟨by decide, by decide, fun _ => ?_, fun x hx => ?_,
    (handoffMemory_apart hmap).mono_left readBytes_subset⟩
  · rw [handoffMemory_read (by decide)]
    exact (by decide : BitVec.ofNat 32 0x9100 ≠ 0)
  · have := handoffMemory_frame hmap (readBytes_subset hx)
    omega

theorem handoffMemory_mapEnds {p : Profile} {fuel : Nat} {map' : MemoryMap}
    {regions : List MemoryRegion} (hyields : Yields (MemoryMap.next p) (.start map) regions map')
    (hfuel : regions.length < fuel) :
    MapEnds p fuel (handoffMemory 0x9000 0x9100 map) 0x9000 := by
  intro map₁ hmap₁
  have hmap := handoffMemory_memoryMap 0x9000 0x9100 map (by decide) (by decide)
  obtain rfl := Option.some.inj (hmap.symm.trans hmap₁)
  exact ⟨regions, map', hyields, hfuel⟩

end Frame9

/-- A boot of the smallest kernel, on a map that publishes the frames 1 to 4, leaves the interrupt
    vectors of frame 0 and the kernel's own code alone. -/
theorem boot_contained_smallest :
    Readable LinkedLayout.smallest.toKernelLayout (handoffMemory 0x9000 0x9100) 0x9000 ∧
      ∀ outcome s', runKernel .dev 2 LinkedLayout.smallest.toKernelLayout (fun _ => []) 0
          bootloaderMagic 0x9000 (State.start (handoffMemory 0x9000 0x9100) 0 0) =
            .ok outcome s' →
        s'.boot.mem 0 = (handoffMemory 0x9000 0x9100) 0 ∧
          s'.boot.mem 0x202000 = (handoffMemory 0x9000 0x9100) 0x202000 := by
  refine ⟨handoffMemory_readable (by decide), fun outcome s' hrun => ?_⟩
  -- For any magic first: with the loader's one the run would be evaluated.
  have hchanges : ∀ magic, runKernel .dev 2 LinkedLayout.smallest.toKernelLayout (fun _ => []) 0
      magic 0x9000 (State.start (handoffMemory 0x9000 0x9100) 0 0) = .ok outcome s' →
      ChangesOnly (touchedBytes .dev LinkedLayout.smallest.toKernelLayout magic
        (handoffMemory 0x9000 0x9100) 0x9000) (handoffMemory 0x9000 0x9100) s'.boot.mem :=
    fun magic hrun => (boot_contained .dev 2 LinkedLayout.smallest (fun _ => []) 0 magic 0x9000
      (handoffMemory 0x9000 0x9100) 0 0 fun _ =>
        (handoffMemory_readable (by decide)).apart).of_eq_ok hrun
  constructor
  · by_contra hne
    rcases hchanges bootloaderMagic hrun 0 hne with
      (hvga | hdata) | ⟨-, -, -, -, -, -, hframe, -⟩
    · exact absurd hvga.1 (by decide)
    · exact absurd hdata.1 (by decide)
    · exact hframe rfl
  · by_contra hne
    rcases hchanges bootloaderMagic hrun 0x202000 hne with
      (hvga | hdata) | ⟨-, -, -, -, -, -, -, himage, -⟩
    · exact absurd hvga.2 (by decide)
    · exact absurd hdata.1 (by decide)
    · exact Set.disjoint_left.mp himage (show 0x202000 ∈ frameBytes (0x202000 / 4096) by
        rw [mem_frameBytes_iff]) ⟨by decide, by decide⟩

end Zkrnl32.Kernel
