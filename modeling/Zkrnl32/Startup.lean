import Zkrnl32.Boot
import Zkrnl32.Kernel.Outcome

/-!
# From the Loader to the Loop

The boot stub and `kernel_main`, one behind the other.  The stub runs on the processor; at its end
the arguments of `kernel_main` are on the stack, and the kernel goes on over the memory that the
stub left.

`startup_ends` joins the two: what the stub changes, the GDT and the stack, lies apart from the
hand-off, so that the kernel finds what the loader put there.  It speaks of every run of the
processor up to `kernel_main`, and from there on of the kernel's model.  The model reads the
hand-off at its physical addresses, which is where the processor sees it (`handoff_seen`).
-/

namespace Zkrnl32.Kernel

open Zkrnl32.Machine Zkrnl32.Memory Zkrnl32.Vga Zkrnl32.Boot
open Zkrnl32.Multiboot (MemoryMap MultibootInfo)

/-- The kernel on the machine `t`, called with the arguments `magic` and `info`. -/
def runFrom (p : Profile) (fuel : Nat) (k : KernelLayout) (render : Stop → List U8) (esp : U32)
    (magic info : U32) (t : Cpu) : EStateM.Result Stop State Outcome :=
  runKernel p fuel k render esp magic info.toNat (State.start t.mem (t.ctrl .cr3) (t.ctrl .cr0))

section Startup

variable {E : Encoding} {p : Profile} {k : LinkedLayout} {sym : Symbols} {magic info : U32}
  {depth : Nat} {s : Cpu}

/-- A hand-off apart from the GDT and the stack is as the loader left it when `kernel_main` is
    entered. -/
theorem handoff_at_entry {t : Cpu} (ht : KernelEntry E k sym magic info s t)
    (hapart : Disjoint (readBytes s.mem info.toNat) (stubBytes k)) :
    ∀ x ∈ readBytes s.mem info.toNat, t.mem x = s.mem x :=
  fun _ hx => ht.paged.mem_eq (Set.disjoint_left.mp hapart hx)

/-- From the entry of `kernel_main` on. -/
theorem runFrom_ends (h : Image E p k sym s.mem) {t : Cpu}
    (ht : KernelEntry E k sym magic info s t) {fuel : Nat} (render : Stop → List U8) (esp : U32)
    (hreadable : magic = bootloaderMagic → Readable k.toKernelLayout s.mem info.toNat)
    (hstub : magic = bootloaderMagic → Disjoint (readBytes s.mem info.toNat) (stubBytes k))
    (hwalk : magic = bootloaderMagic → MapEnds p fuel s.mem info.toNat) :
    ∃ outcome s', runFrom p fuel k.toKernelLayout render esp magic info t = .ok outcome s' ∧
      (outcome = .spinning ↔ Bootable p k.toKernelLayout magic s.mem info.toNat) ∧
      ChangesOnly (stubBytes k ∪ touchedBytes p k.toKernelLayout magic s.mem info.toNat)
        s.mem s'.boot.mem := by
  -- With the loader's magic the kernel reads the hand-off, and finds it as it was.
  have hmap : magic = bootloaderMagic → (MultibootInfo.read t.mem info.toNat).memoryMap t.mem =
      (MultibootInfo.read s.mem info.toNat).memoryMap s.mem :=
    fun hmagic => memoryMap_congr (handoff_at_entry ht (hstub hmagic))
  have hbootable : Bootable p k.toKernelLayout magic t.mem info.toNat ↔
      Bootable p k.toKernelLayout magic s.mem info.toNat := by
    refine and_congr_right fun hmagic => ?_
    rw [hmap hmagic]
  have hchanges : ∀ {mem'}, ChangesOnly (touchedBytes p k.toKernelLayout magic t.mem info.toNat)
      t.mem mem' → ChangesOnly (stubBytes k ∪ touchedBytes p k.toKernelLayout magic s.mem
        info.toNat) s.mem mem' := by
    intro mem' hkernel
    rw [touchedBytes_congr hmap] at hkernel
    refine ChangesOnly.trans (fun x hx => ?_) hkernel
    by_contra hout
    exact hx (ht.paged.mem_eq hout)
  have hscreen : magic = bootloaderMagic → Disjoint (readBytes t.mem info.toNat) vgaBytes :=
    fun hmagic => ((hreadable hmagic).congr (handoff_at_entry ht (hstub hmagic))).screen
  have hwalk' : magic = bootloaderMagic → MapEnds p fuel t.mem info.toNat :=
    fun hmagic => (hwalk hmagic).congr (handoff_at_entry ht (hstub hmagic))
  rcases runKernel_cases render esp (t.ctrl .cr3) (t.ctrl .cr0) h.end_le hscreen hwalk' with
    ⟨hboot, s', hrun, hkernel⟩ | ⟨hnot, s', hrun, hkernel, -⟩
  · exact ⟨.spinning, s', hrun, ⟨fun _ => hbootable.mp hboot, fun _ => rfl⟩, hchanges hkernel⟩
  · refine ⟨.halted, s', hrun, ⟨fun h => (by cases h), fun h => ?_⟩, hchanges hkernel⟩
    exact absurd (hbootable.mpr h) hnot

end Startup

/-! ## A machine that boots -/

/-- The sample image with `lowMap` as the loader's memory map. -/
abbrev loadedMachine (pd : Paging.PageDirectory) : Cpu :=
  sampleMachine (handoffMemory 0x9000 0x9100) 0x9000 pd

/-- Below the image there is the hand-off. -/
theorem loadedMachine_mem (pd : Paging.PageDirectory) :
    ∀ x ∈ readBytes (handoffMemory 0x9000 0x9100) 0x9000,
      (loadedMachine pd).mem x = (handoffMemory 0x9000 0x9100) x := by
  intro x hx
  have hin := handoffMemory_frame (by decide) (readBytes_subset hx)
  change sampleMemory _ pd x = _
  rw [sampleMemory, if_neg (by omega), if_pos (by omega)]

theorem loadedMachine_memoryMap (pd : Paging.PageDirectory) :
    (MultibootInfo.read (loadedMachine pd).mem 0x9000).memoryMap (loadedMachine pd).mem =
      some (.start Memory.lowMap) :=
  (memoryMap_congr (loadedMachine_mem pd)).trans
    (handoffMemory_memoryMap 0x9000 0x9100 lowMap (by decide) (by decide))

theorem loadedMachine_readable (pd : Paging.PageDirectory) :
    Readable LinkedLayout.smallest.toKernelLayout (loadedMachine pd).mem 0x9000 :=
  (handoffMemory_readable (by decide)).congr (loadedMachine_mem pd)

/-- The hand-off lies above the GDT and below the image. -/
theorem loadedMachine_apart (pd : Paging.PageDirectory) :
    Disjoint (readBytes (loadedMachine pd).mem 0x9000) (stubBytes LinkedLayout.smallest) := by
  rw [readBytes_congr (loadedMachine_mem pd), Set.disjoint_left]
  rintro x hx (⟨-, hhi⟩ | ⟨hlo, -⟩)
  · have hend : Gdt.gdtBase + Gdt.gdtSize = 0x838 := rfl
    have := handoffMemory_frame (by decide) (readBytes_subset hx)
    omega
  · have hbottom : LinkedLayout.smallest.stackBottom - kernelVirtualBase = 0x206000 := rfl
    have := handoffMemory_frame (by decide) (readBytes_subset hx)
    omega

/-- It has all that a boot takes. -/
theorem loadedMachine_bootable (pd : Paging.PageDirectory) :
    Bootable .dev LinkedLayout.smallest.toKernelLayout 0x2BADB002 (loadedMachine pd).mem
      0x9000 := by
  obtain ⟨map', hyields⟩ := lowMap_yields .dev
  obtain ⟨hno, hthree, -⟩ := lowMap_bootFrames LinkedLayout.smallest
  exact ⟨rfl, _, _, map', loadedMachine_memoryMap pd, hyields, hno, hthree⟩

theorem loadedMachine_mapEnds (pd : Paging.PageDirectory) :
    MapEnds .dev 2 (loadedMachine pd).mem 0x9000 := by
  obtain ⟨map', hyields⟩ := lowMap_yields .dev
  exact (handoffMemory_mapEnds hyields (by decide)).congr (loadedMachine_mem pd)

end Zkrnl32.Kernel
