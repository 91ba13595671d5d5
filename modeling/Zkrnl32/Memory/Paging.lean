import Zkrnl32.Machine.Mmu
import Zkrnl32.Memory.Frame.Ownership

/-!
# Paging

Model of `src/memory/paging.rs`: flags and entries, the bootstrap directory, and `init`,
which builds the real directory in physical memory and switches to it.

The code reaches physical memory through the bootstrap identity map, so a pointer to a
paging frame is its physical address.  Every store goes through `writeBytes`, which also
logs the range it writes.
-/

namespace Zkrnl32.Memory.Paging

open Zkrnl32.Machine

/-- `PAGE_SIZE`. -/
def pageSize : Nat := 4096

/-- `ENTRY_COUNT`. -/
def entryCount : Nat := 1024

/-- `PAGE_TABLE_SPAN`: the bytes one page table maps. -/
def pageTableSpan : Nat := pageSize * entryCount

/-- `FLAGS_MASK`: the low bits of an entry that hold its flags. -/
def flagsMask : U32 := 0xFFF

/-- `ADDRESS_MASK`: the high bits of an entry that hold its frame address. -/
def addressMask : U32 := ~~~ flagsMask

/-! ## Flags -/

/-- Control bits shared by directory and table entries. -/
structure PageFlags where
  bits : U32
  deriving DecidableEq, Repr

namespace PageFlags

def present : PageFlags := ⟨1⟩
def writable : PageFlags := ⟨1 <<< 1⟩
def user : PageFlags := ⟨1 <<< 2⟩
def writeThrough : PageFlags := ⟨1 <<< 3⟩
def cacheDisable : PageFlags := ⟨1 <<< 4⟩
def accessed : PageFlags := ⟨1 <<< 5⟩
def dirty : PageFlags := ⟨1 <<< 6⟩
def global : PageFlags := ⟨1 <<< 8⟩

/-- No bits set. -/
def empty : PageFlags := ⟨0⟩

/-- Recovers the flags from a raw entry, discarding its address field. -/
def fromBits (bits : U32) : PageFlags := ⟨bits &&& flagsMask⟩

def union (flags other : PageFlags) : PageFlags := ⟨flags.bits ||| other.bits⟩

/-- Whether every bit set in `other` is also set in `flags`. -/
def contains (flags other : PageFlags) : Bool := flags.bits &&& other.bits == other.bits

def kernelRo : PageFlags := present
def kernelRw : PageFlags := present.union writable
def userRo : PageFlags := present.union user
def userRw : PageFlags := (present.union writable).union user

end PageFlags

/-! ## Entries -/

/-- One page-table entry: maps a single 4 KiB page. -/
structure PageTableEntry where
  raw : U32
  deriving DecidableEq, Repr

namespace PageTableEntry

def new (p : Profile) (frame : FrameNumber) (flags : PageFlags) : Checked PageTableEntry := do
  let base ← frame.baseAddr p
  return ⟨base.raw ||| flags.bits⟩

def flags (e : PageTableEntry) : PageFlags := .fromBits e.raw

def frame (e : PageTableEntry) : FrameNumber := (PhysAddr.mk (e.raw &&& addressMask)).frameFloor

def isPresent (e : PageTableEntry) : Bool := e.flags.contains .present

end PageTableEntry

/-- One page-directory entry: points at a page table, or maps a 4 MiB page. -/
structure PageDirectoryEntry where
  raw : U32
  deriving DecidableEq, Repr

namespace PageDirectoryEntry

/-- `PAGE_SIZE_BIT`: bit 7. -/
def pageSizeBit : U32 := 1 <<< 7

def empty : PageDirectoryEntry := ⟨0⟩

/-- Points the entry at the page table stored in `frame`. -/
def forTable (p : Profile) (frame : FrameNumber) (flags : PageFlags) :
    Checked PageDirectoryEntry := do
  let base ← frame.baseAddr p
  return ⟨base.raw ||| flags.bits⟩

/-- Maps a single 4 MiB page at `base`. -/
def forHugePage (p : Profile) (base : PhysAddr) (flags : PageFlags) :
    Checked PageDirectoryEntry := do
  debugAssert p (base.raw.toNat % pageTableSpan = 0)
  return ⟨base.raw ||| pageSizeBit ||| flags.bits⟩

def flags (e : PageDirectoryEntry) : PageFlags := .fromBits e.raw

def isHuge (e : PageDirectoryEntry) : Bool := e.raw &&& pageSizeBit != 0

def isPresent (e : PageDirectoryEntry) : Bool := e.flags.contains .present

/-- The frame holding the page table this entry points at. -/
def tableFrame (e : PageDirectoryEntry) : FrameNumber :=
  (PhysAddr.mk (e.raw &&& addressMask)).frameFloor

end PageDirectoryEntry

/-- The top-level table, indexed by the high 10 bits of a virtual address. -/
abbrev PageDirectory := Vector PageDirectoryEntry entryCount

/-- The bootstrap directory: the first 4 MiB of physical memory, identity-mapped and mapped
    at the base of the high half. -/
def PageDirectory.bootstrap (p : Profile) : Checked PageDirectory := do
  let entries := Vector.replicate entryCount PageDirectoryEntry.empty
  let low ← PageDirectoryEntry.forHugePage p ⟨0⟩ .kernelRw
  let entries := entries.set 0 low (by decide)
  let high ← PageDirectoryEntry.forHugePage p ⟨0⟩ .kernelRw
  return entries.set (kernelVirtualBase / pageTableSpan) high (by decide)

/-! ## The machine while paging is set up -/

/-- What `init` works on: the allocator with the runs it has leaked, physical memory, and the
    control registers.  `stores` logs the ranges written, the latest first. -/
structure BootState where
  ledger : Ledger
  mem : Memory
  stores : List (Nat × Nat)
  cr3 : U32
  cr0 : U32

def writeBytes (addr : Nat) (bytes : List U8) : Exec BootState Unit :=
  modify fun s =>
    { s with mem := s.mem.store addr bytes, stores := (addr, bytes.length) :: s.stores }

/-- Reads entry `index` of the table at the address `table`. -/
def loadEntry (table index : Nat) : Exec BootState U32 := do
  if index < entryCount then
    return (← get).mem.load32 (table + 4 * index)
  else
    throw .outOfBounds

/-- Writes entry `index` of the table at the address `table`. -/
def storeEntry (table index : Nat) (raw : U32) : Exec BootState Unit :=
  if index < entryCount then
    writeBytes (table + 4 * index) (leBytes 4 raw.toNat)
  else
    throw .outOfBounds

/-! ## Building the directory -/

/-- `RECURSIVE_INDEX`: the directory's last slot points at the directory itself. -/
def recursiveIndex : Nat := entryCount - 1

/-- `BOOTSTRAP_IDENTITY_LIMIT`. -/
def bootstrapIdentityLimit : Nat := pageTableSpan

/-- `CR0_WP`. -/
def cr0Wp : U32 := 1 <<< 16

/-- Allocates one frame for paging structures, leaking the run. -/
def allocFrame (p : Profile) : Exec BootState FrameNumber := do
  let issued ← Exec.zoom BootState.ledger (fun l s => { s with ledger := l })
    (Ledger.allocateOne p)
  match issued with
  | some run => return run.start
  | none => throw (.panicked "out of physical frames while building the page directory")

/-- The address of a paging frame, through the bootstrap identity map of the low 4 MiB. -/
def bootstrapFramePtr (p : Profile) (frame : FrameNumber) : Checked Nat := do
  let base ← frame.baseAddr p
  let phys := base.raw.toNat
  if phys < bootstrapIdentityLimit then
    return phys
  else
    throw (.panicked ("paging frame at 0x" ++ String.ofList (Nat.toDigits 16 phys) ++
      " lies above the bootstrap identity map"))

/-- Zeroes a freshly allocated paging frame in place. -/
def zeroFrame (p : Profile) (frame : FrameNumber) : Exec BootState Unit := do
  let ptr ← bootstrapFramePtr p frame
  writeBytes ptr (List.replicate pageSize 0)

/-- The table for a directory slot that has none: a zeroed new frame, linked into the slot. -/
def addTable (p : Profile) (pd index : Nat) : Exec BootState FrameNumber := do
  let frame ← allocFrame p
  zeroFrame p frame
  let entry ← PageDirectoryEntry.forTable p frame .kernelRw
  storeEntry pd index entry.raw
  return frame

/-- Maps `virt` to `phys` in the directory at `pd`, allocating the page table for its
    directory slot on first use. -/
def mapBootstrap (p : Profile) (pd : Nat) (virt : VirtAddr) (phys : PhysAddr)
    (flags : PageFlags) : Exec BootState Unit := do
  let index := virt.pdIndex
  let slot : PageDirectoryEntry := ⟨← loadEntry pd index⟩
  -- a present slot is taken to hold a table: no huge page is ever entered here
  let tableFrame ← if slot.isPresent then pure slot.tableFrame else addTable p pd index
  let table ← bootstrapFramePtr p tableFrame
  let entry ← PageTableEntry.new p phys.frameFloor flags
  storeEntry table virt.ptIndex entry.raw

/-- The body of the kernel loop of `init`. -/
def mapKernelPage (p : Profile) (k : KernelLayout) (pd virt : Nat) : Exec BootState Unit := do
  -- the stack guard page stays absent: a push past the stack's end must fault
  if virt = k.stackGuard then
    return ()
  let flags := if virt < k.dataStart then PageFlags.kernelRo else PageFlags.kernelRw
  let phys ← sub p 32 virt kernelVirtualBase
  mapBootstrap p pd ⟨BitVec.ofNat 32 virt⟩ ⟨BitVec.ofNat 32 phys⟩ flags

/-- The body of the identity loop of `init`. -/
def mapIdentityPage (p : Profile) (pd phys : Nat) : Exec BootState Unit :=
  mapBootstrap p pd ⟨BitVec.ofNat 32 phys⟩ ⟨BitVec.ofNat 32 phys⟩ .kernelRw

/-- Builds the real directory and switches to it. -/
def init (p : Profile) (k : KernelLayout) : Exec BootState Unit := do
  let pdFrame ← allocFrame p
  -- cleared first, so that every slot not written below stays absent
  zeroFrame p pdFrame
  let pd ← bootstrapFramePtr p pdFrame
  let recursive ← PageDirectoryEntry.forTable p pdFrame .kernelRw
  storeEntry pd recursiveIndex recursive.raw
  forM (rangeStepBy k.virtStart k.virtEnd pageSize) (mapKernelPage p k pd)
  forM (rangeStepBy 0 k.physStart pageSize) (mapIdentityPage p pd)
  -- the switch, then write protection for ring 0
  let base ← pdFrame.baseAddr p
  modify fun s => { s with cr3 := base.raw, cr0 := s.cr0 ||| cr0Wp }

end Zkrnl32.Memory.Paging
