import Zkrnl32.Kernel.Fault

/-!
# How a Boot Ends

`kernel_main` gets to its loop exactly when the loader handed over a memory map with three low
frames to spare, and otherwise the panic handler halts the machine.

- `kernelMain_ends`: `kernel_main` gets to its loop, or stops for a reason of `BootFault`.
- `boot_fault_exact`: the reason of a stop is the one that holds.
- `boot_spins_iff`: when the boot gets through, and what is on the screen if it does not.
- `boot_log_shown`: what a boot that gets through leaves on the screen and in the page tables.
-/

namespace Zkrnl32.Memory.Paging

open Zkrnl32.Machine

/-! ## What `paging::init` leaves -/

/-- Issued frames are part of the total. -/
theorem owned_subset {l : Ledger} {total : Set Nat} (h : l.Owns total) : l.pool.owned ⊆ total :=
  fun _ hf => h.conserves.union ▸ Set.mem_union_right _ hf

/-- A directory that `init` has built stands, whatever happens to memory outside the frames that
    were free before.  It lies with its tables in the frames that were issued. -/
theorem spells_of_init {p : Profile} {fuel : Nat} {k : KernelLayout} {map : Multiboot.MemoryMap}
    {st : FrameBitmap} {s s' : BootState}
    (hinit : FrameBitmap.init p fuel k.image map .new = .ok () st) (hledger : s.ledger = ⟨st, []⟩)
    (hrun : init p k s = .ok () s') {mem' : Memory}
    (hmem : ∀ x, x / 4096 ∈ st.freeFrames → mem' x = s'.mem x) :
    ∃ space, Represents mem' s'.directory space ∧
      (∀ page, space.entry page = finalEntry k page) ∧ s'.ledger.Owns st.freeFrames ∧
      s'.directory ∈ s'.ledger.pool.owned ∧
      ∀ i f, space.table i = some f → f ∈ s'.ledger.pool.owned := by
  have howns : s.ledger.Owns st.freeFrames := hledger ▸ owns_of_init (Nat.zero_le _) hinit
  obtain ⟨dir, space, hbuilding, hcr3, hentry⟩ := init_eq_ok howns hrun
  have hlow := hbuilding.dir_low
  have hdir : s'.directory = dir := by
    rw [BootState.directory, hcr3, BitVec.toNat_ofNat, Nat.mod_eq_of_lt (by omega)]
    omega
  -- The directory and its tables are held, hence were free.
  have hheld : ∀ f ∈ s'.ledger.pool.owned, ∀ j < 1024, mem'.entry f j = s'.mem.entry f j := by
    intro f hf j hj
    refine Memory.load32_congr fun x hlo hhi => hmem x ?_
    obtain rfl : x / 4096 = f := by omega
    exact owned_subset hbuilding.owns hf
  rw [hdir]
  refine ⟨space, hbuilding.represents.congr fun f hf => ?_, hentry, hbuilding.owns,
    hbuilding.dir_held, hbuilding.table_held⟩
  rcases hf with rfl | ⟨i, hi⟩
  · exact hheld f hbuilding.dir_held
  · exact hheld f (hbuilding.table_held i f hi)

/-- The calls do not touch the control registers; `init` itself sets `CR0.WP`. -/
theorem MapRun.cr0_eq {dir : Nat} {space space' : AddressSpace} {s s' : BootState}
    {calls : List MapCall} (h : MapRun dir space s calls space' s') : s'.cr0 = s.cr0 := by
  induction h with
  | nil => rfl
  | snoc _ _ hstep ih => cases hstep <;> exact ih

theorem cr0_of_init {p : Profile} {k : KernelLayout} {s s' : BootState}
    (hhint : s.ledger.allocator.searchHint ≤ wordCount) (hrun : init p k s = .ok () s') :
    s'.cr0 = s.cr0 ||| cr0Wp := by
  obtain ⟨dir, st, space₁, s₁, space₂, s₂, -, -, hrun₁, hrun₂, rfl⟩ := init_calls hhint hrun
  rw [hrun₂.cr0_eq, hrun₁.cr0_eq]
  rfl

end Zkrnl32.Memory.Paging

namespace Zkrnl32.Kernel

open Zkrnl32.Machine Zkrnl32.Memory Zkrnl32.Vga
open Zkrnl32.Memory.Paging (BootState finalTranslation)
open Zkrnl32.Multiboot (MemoryMap MemoryRegion MultibootInfo)

/-! ## When the boot gets through -/

/-- `kernel_main` behind the memory map. -/
def afterReport (p : Profile) (fuel : Nat) (k : KernelLayout) (info : Nat) : Exec State Unit := do
  onBoot (Memory.init p fuel k info)
  onConsole (printk p "memory: paging active, frame allocator online\n")

section Reported

variable {p : Profile} {fuel : Nat} {k : KernelLayout} {info : Nat} {mem : Memory} {cr3 cr0 : U32}
  {map map' : MemoryMap} {regions : List MemoryRegion}

/-- Printing leaves the hand-off alone. -/
theorem memoryMap_of_prints (hapart : Disjoint (readBytes mem info) vgaBytes) {s : State}
    (hprints : Prints (State.start mem cr3 cr0) s) :
    (MultibootInfo.read s.boot.mem info).memoryMap s.boot.mem =
      (MultibootInfo.read mem info).memoryMap mem :=
  memoryMap_congr fun x hx => hprints.mem_eq x (Set.disjoint_left.mp hapart hx)

theorem ledger_of_prints {s : State} (hprints : Prints (State.start mem cr3 cr0) s) :
    s.boot.ledger = ⟨.new, []⟩ := by
  rw [hprints.boot_eq]
  rfl

/-- With a map whose walk ends, `kernel_main` gets to the memory subsystem, and the report is on the
    console. -/
theorem kernelMain_reported (k : KernelLayout)
    (hapart : Disjoint (readBytes mem info) vgaBytes)
    (hmap : (MultibootInfo.read mem info).memoryMap mem = some map)
    (hyields : Yields (MemoryMap.next p) map regions map') (hfuel : regions.length < fuel)
    (cr3 cr0 : U32) :
    ∃ s, kernelMain p fuel k bootloaderMagic info (State.start mem cr3 cr0) =
        afterReport p fuel k info s ∧
      Prints (State.start mem cr3 cr0) s ∧
      s.ShowsBehind IsBlank []
        (colored bootColor (endLines ("zkrnl32 booting" :: reportTexts regions))) := by
  obtain ⟨s₁, hrun₁, hprints₁, hshows₁⟩ := kernelMain_banner p fuel k info mem cr3 cr0
  rw [← memoryMap_of_prints hapart hprints₁] at hmap
  obtain ⟨s₂, hrun₂, hprints₂, hshows₂⟩ := printMemoryMap_shows p hshows₁ (fun _ => rfl) hmap
    hyields hfuel
  refine ⟨s₂, ?_, hprints₁.trans hprints₂, ?_⟩
  · rw [hrun₁, afterBanner, run_bind_of_ok hrun₂]
    rfl
  · have hcolor : s₁.writer.color = bootColor := hprints₁.color_eq
    rw [hcolor, ← colored_append, ← endLines_append] at hshows₂
    exact hshows₂

/-- Without a map, it gets there with a warning. -/
theorem kernelMain_unreported (p : Profile) (fuel : Nat) (k : KernelLayout)
    (hapart : Disjoint (readBytes mem info) vgaBytes)
    (hmap : (MultibootInfo.read mem info).memoryMap mem = none) (cr3 cr0 : U32) :
    ∃ s, kernelMain p fuel k bootloaderMagic info (State.start mem cr3 cr0) =
        afterReport p fuel k info s ∧
      Prints (State.start mem cr3 cr0) s ∧ s.writer.InRange := by
  obtain ⟨s₁, hrun₁, hprints₁, hshows₁⟩ := kernelMain_banner p fuel k info mem cr3 cr0
  rw [← memoryMap_of_prints hapart hprints₁] at hmap
  obtain ⟨s₂, hrun₂, hprints₂, hshows₂⟩ := printMemoryMap_shows_none p fuel hshows₁
    (fun _ => rfl) hmap
  refine ⟨s₂, ?_, hprints₁.trans hprints₂, hshows₂.inRange⟩
  rw [hrun₁, afterBanner, run_bind_of_ok hrun₂]
  rfl

end Reported

section Outcome

variable {p : Profile} {fuel : Nat} {k : LinkedLayout} {magic : U32} {info : Nat} {mem : Memory}

/-- The last part returns exactly when `memory::init` does, and stops for its reason. -/
theorem afterReport_ends {p : Profile} {fuel : Nat} {k : KernelLayout} {info : Nat} {s : State}
    {Q : Prop} {E : Stop → Prop} (hin : s.writer.InRange)
    (h : Ends (Memory.init p fuel k info s.boot) (fun _ _ => Q) fun e _ => E e) :
    Ends (afterReport p fuel k info s) (fun _ _ => Q) fun e _ => E e := by
  refine Ends.bind ?_
  rw [onBoot, Exec.zoom]
  generalize Memory.init p fuel k info s.boot = result at h
  cases result with
  | error e b => exact h
  | ok _ b =>
    obtain ⟨s', hrun, -⟩ := printk_prints (s := { s with boot := b }) p
      "memory: paging active, frame allocator online\n" hin
    change Ends (onConsole _ _) _ _
    exact ends_of_ok hrun h

/-- `kernel_main` gets to its loop, or stops for the reason that holds. -/
theorem kernelMain_ends (hend : k.physEnd ≤ 0x400000)
    (hapart : magic = bootloaderMagic → Disjoint (readBytes mem info) vgaBytes)
    (hwalk : magic = bootloaderMagic → MapEnds p fuel mem info)
    (cr3 cr0 : U32) :
    Ends (kernelMain p fuel k.toKernelLayout magic info (State.start mem cr3 cr0))
      (fun _ _ => Bootable p k.toKernelLayout magic mem info)
      fun e _ => BootFault p k.toKernelLayout magic mem info e := by
  by_cases hmagic : magic = bootloaderMagic
  · have hapart := hapart hmagic
    cases hmap : (MultibootInfo.read mem info).memoryMap mem with
    | none =>
      obtain ⟨s, hrun, hprints, hin⟩ := kernelMain_unreported p fuel k.toKernelLayout hapart hmap
        cr3 cr0
      have hmap' := (memoryMap_of_prints hapart hprints).trans hmap
      rw [← hmagic] at hrun
      rw [hrun]
      exact afterReport_ends hin (ends_of_error (init_of_none p fuel k.toKernelLayout hmap')
        (.noMap hmagic hmap))
    | some map =>
      obtain ⟨regions, map', hyields, hfuel⟩ := hwalk hmagic map hmap
      obtain ⟨s, hrun, hprints, hshows⟩ := kernelMain_reported k.toKernelLayout hapart hmap hyields
        hfuel cr3 cr0
      have hmap' := (memoryMap_of_prints hapart hprints).trans hmap
      have hinit := memory_init_ends hend (ledger_of_prints hprints) hmap' hyields hfuel
      rw [← hmagic] at hrun
      rw [hrun]
      refine afterReport_ends hshows.inRange
        (hinit.mono (fun _ _ henough => ?_) fun e _ hfault => ?_)
      · exact ⟨hmagic, map, regions, map', hmap, hyields, henough⟩
      · exact .map hmagic hmap hyields hfault
  · rw [kernelMain, if_pos hmagic]
    exact .magic hmagic

/-- **The reason of a panic is the true one.**  For an image that ends within the first 4 MiB and,
    with the loader's magic, a readable hand-off whose map has an end if there is one, `kernel_main`
    stops with `e` exactly when `e` is the fault of what the loader left: a wrong magic, a missing
    map, a region whose end overflows, or too few frames below 4 MiB.  The last one says whether
    there are frames at all, and names the lowest one above. -/
theorem boot_fault_exact (p : Profile) (fuel : Nat) (k : LinkedLayout) (magic : U32) (info : Nat)
    (mem : Memory) (cr3 cr0 : U32) (hend : k.physEnd ≤ 0x400000)
    (hreadable : magic = bootloaderMagic → Readable k.toKernelLayout mem info)
    (hwalk : magic = bootloaderMagic → MapEnds p fuel mem info)
    (e : Stop) :
    (∃ s₁, kernelMain p fuel k.toKernelLayout magic info (State.start mem cr3 cr0) =
        .error e s₁) ↔
      BootFault p k.toKernelLayout magic mem info e := by
  have hends := kernelMain_ends hend (fun h => (hreadable h).screen) hwalk cr3 cr0
  refine ⟨fun ⟨s₁, hrun⟩ => hends.of_eq_error hrun, fun hfault => ?_⟩
  cases hrun : kernelMain p fuel k.toKernelLayout magic info (State.start mem cr3 cr0) with
  | ok _ s' => exact absurd (hends.of_eq_ok hrun) hfault.not_bootable
  | error e' s₁ =>
    obtain rfl := hfault.unique (hends.of_eq_error hrun)
    exact ⟨s₁, rfl⟩

/-- The walk over `topMap`, whose one region ends at 4 GiB. -/
theorem topMap_yields (p : Profile) : ∃ map', Yields (MemoryMap.next p) (.start topMap)
    [⟨0x100000, 0xFFF00000, .available⟩] map' := by
  obtain ⟨map', hyields, -⟩ := Multiboot.yields_encoded p topMap [.plain 0x100000 0xFFF00000 1] []
    (by decide) [] rfl
  exact ⟨map', hyields⟩

/-- No frame of it can be had. -/
theorem topMap_usableFrames (k : KernelLayout) :
    usableFrames k [⟨0x100000, 0xFFF00000, .available⟩] = ∅ := by
  have hpublished : publishedBy [(⟨0x100000, 0xFFF00000, .available⟩ : MemoryRegion)] = ∅ := by
    rw [Set.eq_empty_iff_forall_notMem]
    rintro f ⟨region, hregion, hpub⟩
    obtain rfl := List.mem_singleton.mp hregion
    exact absurd (mem_publishedFrames.mp hpub).2.1 (by decide)
  rw [usableFrames, hpublished, Set.empty_sdiff, Set.empty_sdiff]

/-- The smallest kernel on `topMap`: the `dev` build stops at the end of the region, which
    overflows, and the `release` build for want of frames. -/
theorem boot_fault_exact_smallest :
    (∃ s₁, kernelMain .dev 2 LinkedLayout.smallest.toKernelLayout bootloaderMagic 0x9000
        (State.start (handoffMemory 0x9000 0x9100 topMap) 0 0) = .error .overflow s₁) ∧
      ∃ s₁, kernelMain .release 2 LinkedLayout.smallest.toKernelLayout bootloaderMagic 0x9000
        (State.start (handoffMemory 0x9000 0x9100 topMap) 0 0) = .error
          (.panicked "out of physical frames while building the page directory") s₁ := by
  have hmap := handoffMemory_memoryMap 0x9000 0x9100 topMap (by decide) (by decide)
  have hexact : ∀ p magic e, magic = bootloaderMagic →
      MapFault p LinkedLayout.smallest.toKernelLayout [⟨0x100000, 0xFFF00000, .available⟩] e →
      ∃ s₁, kernelMain p 2 LinkedLayout.smallest.toKernelLayout magic 0x9000
        (State.start (handoffMemory 0x9000 0x9100 topMap) 0 0) = .error e s₁ := by
    intro p magic e hmagic hfault
    obtain ⟨map', hyields⟩ := topMap_yields p
    exact (boot_fault_exact p 2 LinkedLayout.smallest magic 0x9000 _ 0 0 (by decide)
      (fun _ => handoffMemory_readable (by decide))
      (fun _ => handoffMemory_mapEnds hyields (by decide)) e).mpr
      (.map hmagic hmap hyields hfault)
  refine ⟨hexact .dev _ _ rfl (.traps ⟨_, List.mem_singleton_self _, rfl, ⟨rfl, ?_⟩, ?_⟩),
    hexact .release _ _ rfl (.shortage ?_ ?_ (.exhausted ?_))⟩
  · decide
  · decide
  · rintro region - ⟨hdev, -⟩
    cases hdev
  · rw [bootFrames, topMap_usableFrames, Set.empty_inter, Set.ncard_empty]
    decide
  · rw [topMap_usableFrames, Set.empty_inter]

/-- The two ends of a boot. -/
theorem runKernel_cases (render : Stop → List U8) (esp cr3 cr0 : U32)
    (hend : k.physEnd ≤ 0x400000)
    (hapart : magic = bootloaderMagic → Disjoint (readBytes mem info) vgaBytes)
    (hwalk : magic = bootloaderMagic → MapEnds p fuel mem info) :
    (Bootable p k.toKernelLayout magic mem info ∧ ∃ s', runKernel p fuel k.toKernelLayout render
        esp magic info (State.start mem cr3 cr0) = .ok .spinning s' ∧
      ChangesOnly (touchedBytes p k.toKernelLayout magic mem info) mem s'.boot.mem) ∨
    (¬ Bootable p k.toKernelLayout magic mem info ∧ ∃ s', runKernel p fuel k.toKernelLayout render
        esp magic info (State.start mem cr3 cr0) = .ok .halted s' ∧
      ChangesOnly (touchedBytes p k.toKernelLayout magic mem info) mem s'.boot.mem ∧
      s'.panicking = true ∧ ∃ e s₁ rows, BootFault p k.toKernelLayout magic mem info e ∧
        kernelMain p fuel k.toKernelLayout magic info (State.start mem cr3 cr0) = .error e s₁ ∧
        s'.ShowsBehind (fun _ => True) rows (reportText bootColor (render e)
          (dumpLines k.stackBottom k.stackTop s₁.stack esp.toNat 16))) := by
  have hends := kernelMain_ends hend hapart hwalk cr3 cr0
  have hrunning := kernelMain_contained p fuel k.toKernelLayout magic info mem cr3 cr0 hapart
  cases hrun : kernelMain p fuel k.toKernelLayout magic info (State.start mem cr3 cr0) with
  | ok _ s' =>
    refine Or.inl ⟨hends.of_eq_ok hrun, s', ?_, (hrunning.of_eq_ok hrun).changes⟩
    rw [runKernel, hrun]
  | error e s₁ =>
    have hfault := hends.of_eq_error hrun
    have hs₁ := hrunning.of_eq_error hrun
    obtain ⟨rows, s', hhandler, hshows, hmem, hentered⟩ := panicHandler_shows p k esp (render e)
      hs₁.inRange hs₁.first
    rw [hs₁.color_eq] at hshows
    exact Or.inr ⟨hfault.not_bootable, s', runKernel_of_stop hrun hfault.ne_outOfFuel hhandler,
      handler_changesOnly hs₁.changes hmem, hentered, e, s₁, rows, hfault, rfl, hshows⟩

end Outcome

theorem lowMap_published :
    publishedBy [(⟨0x1000, 0x4000, .available⟩ : MemoryRegion)] = Set.Icc 1 4 := by
  ext f
  rw [Set.mem_Icc, ← mem_publishedFrames_low]
  exact ⟨fun ⟨region, hregion, hpub⟩ => List.mem_singleton.mp hregion ▸ hpub,
    fun hpub => ⟨_, List.mem_singleton_self _, hpub⟩⟩

/-- The image does not reach down to the frames 1 to 4. -/
theorem usableFrames_low (k : LinkedLayout) {regions : List MemoryRegion}
    (h : publishedBy regions = Set.Icc 1 4) :
    usableFrames k.toKernelLayout regions = Set.Icc 1 4 := by
  ext f
  have hload : k.image.physStart = 0x200000 := k.loaded_at
  simp only [usableFrames, KernelImage.frames, Set.mem_sdiff, h, Set.mem_singleton_iff, Set.mem_Ico,
    Set.mem_Icc, hload]
  omega

/-- They are enough for a boot. -/
theorem three_le_bootFrames (k : LinkedLayout) {regions : List MemoryRegion}
    (h : publishedBy regions = Set.Icc 1 4) :
    3 ≤ (bootFrames k.toKernelLayout regions).ncard := by
  have hlow : (Set.Icc 1 4 : Set Nat) ⊆ Set.Iio 1024 :=
    fun _ hf => lt_of_le_of_lt hf.2 (by decide)
  have hframes : bootFrames k.toKernelLayout regions = Set.Icc 1 4 := by
    rw [bootFrames, usableFrames_low k h, Set.inter_eq_left.mpr hlow]
  rw [hframes, Set.ncard_eq_toFinset_card', Set.toFinset_Icc, Nat.card_Icc]
  decide

/-- `lowMap` has frames enough for a kernel, and leaves the text buffer alone. -/
theorem lowMap_bootFrames (k : LinkedLayout) :
    (∀ region ∈ [(⟨0x1000, 0x4000, .available⟩ : MemoryRegion)], ¬ TrapsOn .dev region) ∧
      3 ≤ (bootFrames k.toKernelLayout [⟨0x1000, 0x4000, .available⟩]).ncard ∧
      0xB8 ∉ publishedBy [(⟨0x1000, 0x4000, .available⟩ : MemoryRegion)] := by
  refine ⟨?_, three_le_bootFrames k lowMap_published, ?_⟩
  · rw [List.forall_mem_singleton]
    rintro ⟨-, ⟨-, -, hreach⟩, -⟩
    exact absurd hreach (by decide)
  · rw [lowMap_published]
    decide

/-- The lines that a boot prints. -/
def bootLog (regions : List MemoryRegion) : List String :=
  "zkrnl32 booting" :: reportTexts regions ++ ["memory: paging active, frame allocator online"]

theorem frame_of_mem_vgaBytes {x : Nat} (hx : x ∈ vgaBytes) : x / 4096 = 0xB8 := by
  have hend : vgaBuffer + vgaSize ≤ 0xB9000 := by decide
  have hstart : vgaBuffer = 0xB8000 := rfl
  obtain ⟨hlo, hhi⟩ := hx
  omega

/-- What the console shows depends on the text buffer only. -/
theorem State.ShowsBehind.congr {Blank : Cell → Prop} {rows : List (List Cell)} {text : List Cell}
    {s s' : State} (h : s.ShowsBehind Blank rows text) (hwriter : s'.writer = s.writer)
    (hmem : ∀ x ∈ vgaBytes, s'.boot.mem x = s.boot.mem x) : s'.ShowsBehind Blank rows text := by
  obtain ⟨screen, hdisplays, hrest⟩ := h
  refine ⟨screen, ⟨?_, ?_, fun r hr c hc => ?_⟩, hrest⟩
  · exact (congrArg VgaWriter.row hwriter).trans hdisplays.row_eq
  · exact (congrArg VgaWriter.col hwriter).trans hdisplays.col_eq
  · have hcell : (r * vgaWidth + c) * 2 + 1 < vgaSize := by
      rw [vgaHeight_eq] at hr
      rw [vgaWidth_eq] at hc ⊢
      rw [vgaSize, vgaWidth_eq, vgaHeight_eq]
      omega
    rw [← hdisplays.cells r hr c hc]
    change cellAt s'.boot.mem r c = cellAt s.boot.mem r c
    rw [cellAt, cellAt, hmem _ ⟨by omega, by omega⟩, hmem _ ⟨by omega, by omega⟩]

/-- Rows of a log of at most 20 regions that all end below `2 ^ 56`. -/
theorem bootLog_displays {regions : List MemoryRegion} {s : State}
    (h : s.ShowsBehind IsBlank [] (colored bootColor (endLines (bootLog regions))))
    (htotal : usableTotal regions < 2 ^ 64) (hcount : regions.length ≤ 20)
    (hregions : ∀ region ∈ regions, region.base.toNat + region.length.toNat < 2 ^ 56) :
    s.Displays 0 ((bootLog regions).map fun line => colored bootColor (ascii line)) := by
  have hfits : ∀ line ∈ bootLog regions, Fits vgaWidth line := by
    intro line hline
    rw [bootLog, List.mem_append, List.mem_cons, List.mem_singleton] at hline
    rcases hline with (rfl | hreport) | rfl
    · decide
    · exact fits_reportTexts htotal hregions line hreport
    · decide
  have hlen : ((bootLog regions).map fun line => colored bootColor (ascii line)).length <
      vgaHeight := by
    simp only [bootLog, reportTexts, List.length_map, List.length_append, List.length_cons,
      List.length_nil, vgaHeight_eq]
    omega
  obtain ⟨top, htop, hdisplays⟩ := h.displays (wrapRows_endLines hfits bootColor) hlen
  rwa [Nat.le_zero.mp htop] at hdisplays

/-- A boot that got through: the report was done in `s₂`, the allocator was set up as `st`,
    `memory::init` left `b`, and the kernel is in its loop in `s'`. -/
structure Reached (p : Profile) (fuel : Nat) (k : KernelLayout) (info : Nat) (map : MemoryMap)
    (s₂ : State) (st : FrameBitmap) (b : BootState) (s' : State) : Prop where
  frames : FrameBitmap.init p fuel k.image map .new = .ok () st
  paging : Paging.init p k { s₂.boot with ledger := ⟨st, []⟩ } = .ok () b
  memory : Memory.init p fuel k info s₂.boot = .ok () b
  last : onConsole (printk p "memory: paging active, frame allocator online\n")
    { s₂ with boot := b } = .ok () s'
  prints : Prints { s₂ with boot := b } s'

section Reached

variable {p : Profile} {fuel : Nat} {k : LinkedLayout} {info : Nat} {mem : Memory}
  {map map' : MemoryMap} {regions : List MemoryRegion}

theorem runKernel_reached (hend : k.physEnd ≤ 0x400000)
    (hapart : Disjoint (readBytes mem info) vgaBytes)
    (hmap : (MultibootInfo.read mem info).memoryMap mem = some map)
    (hyields : Yields (MemoryMap.next p) map regions map') (hfuel : regions.length < fuel)
    (hno : ∀ region ∈ regions, ¬ TrapsOn p region)
    (hthree : 3 ≤ (bootFrames k.toKernelLayout regions).ncard) (render : Stop → List U8)
    (esp cr3 cr0 : U32) :
    ∃ s₂ st b s', Prints (State.start mem cr3 cr0) s₂ ∧
      s₂.ShowsBehind IsBlank []
        (colored bootColor (endLines ("zkrnl32 booting" :: reportTexts regions))) ∧
      Reached p fuel k.toKernelLayout info map s₂ st b s' ∧
      runKernel p fuel k.toKernelLayout render esp bootloaderMagic info
        (State.start mem cr3 cr0) = .ok .spinning s' := by
  obtain ⟨s₂, hrun₂, hprints₂, hshows₂⟩ := kernelMain_reported k.toKernelLayout hapart hmap hyields
    hfuel cr3 cr0
  have hmap₂ := (memoryMap_of_prints hapart hprints₂).trans hmap
  have hledger := ledger_of_prints hprints₂
  obtain ⟨_, b, hinit, -⟩ := ((memory_init_ends hend hledger hmap₂ hyields hfuel).mono
    (fun _ _ h => h) fun _ _ hfault => hfault.not_enough ⟨hno, hthree⟩).exists_ok
  obtain ⟨st, hframes, hpaging⟩ := (init_eq_ok_iff hmap₂).mp hinit
  rw [hledger] at hframes hpaging
  obtain ⟨s', hrun', hprints', -⟩ := printk_prints (s := { s₂ with boot := b }) p
    "memory: paging active, frame allocator online\n" hshows₂.inRange
  refine ⟨s₂, st, b, s', hprints₂, hshows₂, ⟨hframes, hpaging, hinit, hrun', hprints'⟩, ?_⟩
  have hrun₃ : onBoot (Memory.init p fuel k.toKernelLayout info) s₂ =
      .ok () { s₂ with boot := b } := zoom_eq_ok.mpr ⟨b, hinit, rfl⟩
  rw [runKernel, hrun₂, afterReport, run_bind_of_ok hrun₃, hrun']

/-- A map that does not publish the frame of the text buffer leaves it out of the allocator. -/
theorem Reached.unpublished {s₂ s' : State} {st : FrameBitmap} {b : BootState}
    (h : Reached p fuel k.toKernelLayout info map s₂ st b s')
    (hyields : Yields (MemoryMap.next p) map regions map') (hscreen : 0xB8 ∉ publishedBy regions)
    {x : Nat} (hx : x ∈ vgaBytes) : x / 4096 ∉ st.freeFrames := by
  intro hfree
  obtain ⟨⟨region, hy, hpub⟩, -⟩ := (mem_freeFrames_of_init h.frames).mp hfree
  rw [frame_of_mem_vgaBytes hx] at hpub
  exact hscreen ⟨region, hyields.mem_iff.mpr hy, hpub⟩

/-- The loaded directory still spells the intended entries after the last print. -/
theorem Reached.spells {s₂ s' : State} {st : FrameBitmap} {b : BootState}
    (h : Reached p fuel k.toKernelLayout info map s₂ st b s')
    (hyields : Yields (MemoryMap.next p) map regions map')
    (hscreen : 0xB8 ∉ publishedBy regions) :
    ∃ space, Represents s'.boot.mem s'.boot.directory space ∧
      (∀ page, space.entry page = Paging.finalEntry k.toKernelLayout page) ∧
      s'.boot.ledger.Owns st.freeFrames ∧ s'.boot.directory ∈ s'.boot.ledger.pool.owned ∧
      ∀ i f, space.table i = some f → f ∈ s'.boot.ledger.pool.owned := by
  have hdir : s'.boot.directory = b.directory := by rw [h.prints.boot_eq]; rfl
  have hledger : s'.boot.ledger = b.ledger := by rw [h.prints.boot_eq]
  rw [hdir, hledger]
  exact Paging.spells_of_init h.frames rfl h.paging fun x hx =>
    h.prints.mem_eq x fun hvga => h.unpublished hyields hscreen hvga hx

end Reached

/-- **What a boot leaves.**  Where a boot gets through from a readable hand-off and the map does not
    publish the frame of the text buffer, the console shows the last rows of the log (the banner,
    the memory map line by line, the usable memory and the last message) and blanks elsewhere.  For
    a map of at most 20 regions below `2 ^ 56` the whole log is on the screen, from its first row
    on.  The machine runs on the intended address space, also after the last print. -/
theorem boot_log_shown (p : Profile) (fuel : Nat) (k : LinkedLayout) (render : Stop → List U8)
    (esp : U32) (info : Nat) (mem : Memory) (cr3 cr0 : U32) {map map' : MemoryMap}
    {regions : List MemoryRegion} (hend : k.physEnd ≤ 0x400000)
    (hreadable : Readable k.toKernelLayout mem info)
    (hmap : (MultibootInfo.read mem info).memoryMap mem = some map)
    (hyields : Yields (MemoryMap.next p) map regions map') (hfuel : regions.length < fuel)
    (hno : ∀ region ∈ regions, ¬ TrapsOn p region)
    (hthree : 3 ≤ (bootFrames k.toKernelLayout regions).ncard)
    (hscreen : 0xB8 ∉ publishedBy regions) :
    ∃ s', runKernel p fuel k.toKernelLayout render esp bootloaderMagic info
        (State.start mem cr3 cr0) = .ok .spinning s' ∧
      s'.ShowsBehind IsBlank [] (colored bootColor (endLines (bootLog regions))) ∧
      (regions.length ≤ 20 →
        (∀ region ∈ regions, region.base.toNat + region.length.toNat < 2 ^ 56) →
        s'.Displays 0 ((bootLog regions).map fun line => colored bootColor (ascii line))) ∧
      ∀ pse, ∀ v < 0xFFC00000, s'.boot.translate pse v = finalTranslation k.toKernelLayout v := by
  obtain ⟨s₂, st, b, s', hprints₂, hshows₂, hreached, hrun⟩ := runKernel_reached hend
    hreadable.screen hmap hyields hfuel hno hthree render esp cr3 cr0
  have hmap₂ := (memoryMap_of_prints hreadable.screen hprints₂).trans hmap
  -- No published frame holds a byte of the text buffer.
  have hkept : ∀ x ∈ vgaBytes, b.mem x = s₂.boot.mem x := by
    intro x hx
    by_contra hne
    obtain ⟨map₁, region, hmap₁, hy, hpub, -⟩ := (init_changesOnly p fuel k.toKernelLayout info
      (ledger_of_prints hprints₂)).of_eq_ok hreached.memory x hne
    obtain rfl : map = map₁ := Option.some.inj (hmap₂.symm.trans hmap₁)
    rw [frame_of_mem_vgaBytes hx] at hpub
    exact hscreen ⟨region, hyields.mem_iff.mpr hy, hpub⟩
  have hshows₃ : ({ s₂ with boot := b } : State).ShowsBehind IsBlank []
      (colored bootColor (endLines ("zkrnl32 booting" :: reportTexts regions))) :=
    hshows₂.congr rfl hkept
  have hlog : s'.ShowsBehind IsBlank [] (colored bootColor (endLines (bootLog regions))) := by
    obtain ⟨s₄, hrun₄, -, hshows₄⟩ := printk_shows p
      "memory: paging active, frame allocator online\n" hshows₃ (fun _ => rfl)
    obtain rfl : s' = s₄ := (EStateM.Result.ok.inj (hreached.last.symm.trans hrun₄)).2
    have hcolor : s₂.writer.color = bootColor := hprints₂.color_eq
    rw [bootLog, endLines_append, colored_append]
    rw [hcolor] at hshows₄
    exact hshows₄
  refine ⟨s', hrun, hlog, bootLog_displays hlog (usableTotal_lt_of_yields hyields),
    fun pse v hv => ?_⟩
  obtain ⟨space, hspells, hentry, -⟩ := hreached.spells hyields hscreen
  rw [BootState.translate, hspells.walk_below pse hv, Paging.translate_finalEntry hentry hv]

/-- The log of the smallest kernel on `lowMap`. -/
theorem boot_log_shown_smallest :
    ∃ s', runKernel .dev 2 LinkedLayout.smallest.toKernelLayout (fun _ => []) 0 bootloaderMagic
        0x9000 (State.start (handoffMemory 0x9000 0x9100) 0 0) = .ok .spinning s' ∧
      s'.Displays 0 ((bootLog [⟨0x1000, 0x4000, .available⟩]).map fun line =>
        colored bootColor (ascii line)) ∧
      s'.boot.translate true 0xB8000 = some ⟨0xB8000, true, false⟩ := by
  obtain ⟨map', hyields⟩ := lowMap_yields .dev
  obtain ⟨hno, hthree, hscreen⟩ := lowMap_bootFrames LinkedLayout.smallest
  obtain ⟨s', hrun, -, hdisplays, htranslate⟩ := boot_log_shown .dev 2
    LinkedLayout.smallest (fun _ => []) 0 0x9000 (handoffMemory 0x9000 0x9100) 0 0 (by decide)
    (handoffMemory_readable (by decide))
    (handoffMemory_memoryMap 0x9000 0x9100 lowMap (by decide) (by decide)) hyields (by decide) hno
    hthree hscreen
  refine ⟨s', hrun, hdisplays (by decide) ?_, ?_⟩
  · rw [List.forall_mem_singleton]
    decide
  · exact htranslate true 0xB8000 (by decide)

end Zkrnl32.Kernel
