import Zkrnl32.Machine.Exec
import Zkrnl32.Machine.Bytes

/-!
# Addresses and Kernel Layout

Model of `src/memory/address.rs`, `src/memory/layout.rs` and of the symbols that
`boot/linker.ld` and `boot/boot.asm` define.

The layout types carry what the linker script guarantees as fields, so that a
layout the script could not produce cannot be built:

- `KernelImage`: the physical extent alone, which is all the frame allocator reads.
- `KernelLayout`: the virtual extent with its read-only part and the stack guard page.
- `LinkedLayout`: additionally the fixed load address and the whole boot stack.

The descriptor table of `src/gdt.rs` has a fixed place in low memory, outside the image.
-/

namespace Zkrnl32.Memory

open Zkrnl32.Machine

/-! ## Typed addresses -/

/-- A byte address in the physical address space. -/
structure PhysAddr where
  raw : U32
  deriving DecidableEq, Repr

/-- A byte address in the virtual address space. -/
structure VirtAddr where
  raw : U32
  deriving DecidableEq, Repr

/-- Index of a 4 KiB frame in physical memory. -/
structure FrameNumber where
  index : Nat
  deriving DecidableEq, Repr

/-- The frame the address falls in (rounds down). -/
def PhysAddr.frameFloor (addr : PhysAddr) : FrameNumber := ⟨(addr.raw / 4096).toNat⟩

/-- First whole frame at or after the address, as an exclusive end index (rounds up). -/
def PhysAddr.frameCeil (addr : PhysAddr) : FrameNumber := ⟨divCeil addr.raw.toNat 4096⟩

/-- Page-directory index: the top 10 bits. -/
def VirtAddr.pdIndex (addr : VirtAddr) : Nat := (addr.raw >>> 22).toNat

/-- Page-table index: the middle 10 bits. -/
def VirtAddr.ptIndex (addr : VirtAddr) : Nat := ((addr.raw >>> 12) &&& 0x3FF).toNat

def FrameNumber.baseAddr (p : Profile) (frame : FrameNumber) : Checked PhysAddr := do
  let addr ← mul p 32 frame.index 4096
  return ⟨BitVec.ofNat 32 addr⟩

@[simp] theorem PhysAddr.index_frameFloor (addr : PhysAddr) :
    addr.frameFloor.index = addr.raw.toNat / 4096 := by
  simp [PhysAddr.frameFloor]

@[simp] theorem VirtAddr.pdIndex_eq (addr : VirtAddr) :
    addr.pdIndex = addr.raw.toNat / 2 ^ 22 := by
  simp [VirtAddr.pdIndex, Nat.shiftRight_eq_div_pow]

@[simp] theorem VirtAddr.ptIndex_eq (addr : VirtAddr) :
    addr.ptIndex = addr.raw.toNat / 4096 % 1024 := by
  have hmask : (0x3FF : U32).toNat = 2 ^ 10 - 1 := rfl
  simp only [VirtAddr.ptIndex, BitVec.toNat_and, BitVec.toNat_ushiftRight, hmask,
    Nat.shiftRight_eq_div_pow, Nat.and_two_pow_sub_one_eq_mod]

/-- Frames below 4 GiB have a base address: the multiplication does not overflow. -/
theorem FrameNumber.baseAddr_eq_ok {p : Profile} {frame : FrameNumber}
    (h : frame.index < 2 ^ 20) :
    frame.baseAddr p = .ok ⟨BitVec.ofNat 32 (frame.index * 4096)⟩ := by
  unfold FrameNumber.baseAddr
  rw [mul_eq_ok (by omega)]
  rfl

/-! ## Kernel layout -/

/-- `KERNEL_VIRTUAL_BASE`, equal to `KERNEL_VMA` in the linker script. -/
def kernelVirtualBase : Nat := 0xC0000000

/-- `KERNEL_LMA`: the 2 MiB load address. -/
def kernelLma : Nat := 0x200000

@[simp] theorem kernelVirtualBase_eq : kernelVirtualBase = 0xC0000000 := rfl

/-- The physical extent of the loaded image, `[kernel_phys_start, kernel_phys_end)`. -/
structure KernelImage where
  physStart : Nat
  physEnd : Nat
  start_le_end : physStart ≤ physEnd
  end_lt : physEnd < 2 ^ 32

/-- The symbols of a linked kernel that the paging code reads, with what the linker
    script guarantees about them. -/
structure KernelLayout where
  physStart : Nat
  virtStart : Nat
  dataStart : Nat
  virtEnd : Nat
  stackGuard : Nat
  physStart_aligned : 4096 ∣ physStart
  virtStart_aligned : 4096 ∣ virtStart
  dataStart_aligned : 4096 ∣ dataStart
  virtEnd_aligned : 4096 ∣ virtEnd
  stackGuard_aligned : 4096 ∣ stackGuard
  /-- The high half begins at or after `kernel_phys_start`, shifted up by `KERNEL_VMA`. -/
  phys_le_virt : physStart + kernelVirtualBase ≤ virtStart
  virt_le_data : virtStart ≤ dataStart
  data_le_end : dataStart ≤ virtEnd
  end_le : virtEnd ≤ 0xFFC00000
  /-- The guard page lies in the writable tail (`.bss`). -/
  data_le_guard : dataStart ≤ stackGuard
  guard_lt_end : stackGuard < virtEnd

/-- `kernel_phys_end = kernel_virt_end - KERNEL_VMA`. -/
def KernelLayout.physEnd (k : KernelLayout) : Nat := k.virtEnd - kernelVirtualBase

/-- The physical extent of a linked kernel. -/
def KernelLayout.image (k : KernelLayout) : KernelImage where
  physStart := k.physStart
  physEnd := k.physEnd
  start_le_end := by
    have := k.phys_le_virt
    have := k.virt_le_data
    have := k.data_le_end
    simp only [KernelLayout.physEnd]
    omega
  end_lt := by
    have := k.end_le
    simp only [KernelLayout.physEnd, kernelVirtualBase_eq]
    omega

/-- `stack_bottom`: one page above the guard page. -/
def KernelLayout.stackBottom (k : KernelLayout) : Nat := k.stackGuard + 4096

/-- `stack_top`: 64 KiB above the bottom. -/
def KernelLayout.stackTop (k : KernelLayout) : Nat := k.stackBottom + 65536

/-- The physical bytes of `.data` and `.bss`: the kernel's statics and its stack. -/
def KernelLayout.dataBytes (k : KernelLayout) : Set Nat :=
  Set.Ico (k.dataStart - kernelVirtualBase) (k.virtEnd - kernelVirtualBase)

/-- A layout with the load address and the whole stack as the script places them. -/
structure LinkedLayout extends KernelLayout where
  loaded_at : physStart = kernelLma
  stack_le_end : toKernelLayout.stackTop ≤ virtEnd

/-- The smallest linked kernel: two pages of `.boot`, for its code and for the bootstrap directory,
    a page each of `.text`, `.rodata` and `.data`, and a `.bss` that holds the guard page, the stack
    and the frame bitmap with its hint. -/
def LinkedLayout.smallest : LinkedLayout where
  physStart := 0x200000
  virtStart := 0xC0202000
  dataStart := 0xC0204000
  virtEnd := 0xC0237000
  stackGuard := 0xC0205000
  physStart_aligned := by decide
  virtStart_aligned := by decide
  dataStart_aligned := by decide
  virtEnd_aligned := by decide
  stackGuard_aligned := by decide
  phys_le_virt := by decide
  virt_le_data := by decide
  data_le_end := by decide
  end_le := by decide
  data_le_guard := by decide
  guard_lt_end := by decide
  loaded_at := rfl
  stack_le_end := by decide

end Zkrnl32.Memory

/-! ## The descriptor table -/

namespace Zkrnl32.Gdt

/-- `GDT_BASE`. -/
def gdtBase : Nat := 0x800

/-- `GDT_ENTRY_COUNT`. -/
def gdtEntryCount : Nat := 7

/-- The bytes of the table: its entries have 8 bytes each. -/
def gdtSize : Nat := gdtEntryCount * 8

end Zkrnl32.Gdt
