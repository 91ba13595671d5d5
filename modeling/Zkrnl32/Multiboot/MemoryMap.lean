import Zkrnl32.Machine.Loop
import Zkrnl32.Machine.Bytes

/-!
# The Multiboot Memory Map

Model of `src/multiboot.rs`: the boot hand-off structure, the packed memory-map
entries, the iterator over them, and the console report.

## The walk

`MemoryMap::next` reads a whole 24-byte entry at its cursor and then strides by the
entry's own `size + 4`, not by 24.  The read is `entryAt`; the stride mixes a plain
32-bit addition with a saturating one, and `MemoryMap.next` keeps both.
-/

namespace Zkrnl32.Multiboot

open Zkrnl32.Machine

/-! ## Slices -/

/-- A byte slice of the 32-bit target: its length is a `usize`. -/
structure Slice where
  bytes : List U8
  length_lt : bytes.length < 2 ^ 32

/-- `bytes.get(start..)`. -/
def getFrom (bytes : List U8) (start : Nat) : Option (List U8) :=
  if start ≤ bytes.length then some (bytes.drop start) else none

/-- `bytes.get(..stop)`. -/
def getTo (bytes : List U8) (stop : Nat) : Option (List U8) :=
  if stop ≤ bytes.length then some (bytes.take stop) else none

/-! ## Entries and regions -/

/-- One raw entry, `#[repr(C, packed)]`.  `size` counts the bytes after itself. -/
structure MmapEntry where
  size : U32
  baseAddr : U64
  length : U64
  kind : U32
  deriving DecidableEq, Repr

/-- `size_of::<MmapEntry>()`. -/
def mmapEntrySize : Nat := 24

/-- `read_unaligned` of a packed little-endian entry from its 24 bytes. -/
def MmapEntry.readUnaligned (bytes : List U8) : MmapEntry where
  size := BitVec.ofNat 32 (leNat (bytes.take 4))
  baseAddr := BitVec.ofNat 64 (leNat ((bytes.drop 4).take 8))
  length := BitVec.ofNat 64 (leNat ((bytes.drop 12).take 8))
  kind := BitVec.ofNat 32 (leNat ((bytes.drop 20).take 4))

/-- The kind of a region, as classified by the firmware. -/
inductive RegionKind where
  | available
  | acpiReclaimable
  | acpiNvs
  | defective
  /-- Type 2, or any other code: must not be allocated. -/
  | reserved (raw : U32)
  deriving DecidableEq, Repr

def RegionKind.fromRaw (raw : U32) : RegionKind :=
  match raw.toNat with
  -- 2 is reserved by definition and shares the catch-all with unknown codes
  | 1 => .available
  | 3 => .acpiReclaimable
  | 4 => .acpiNvs
  | 5 => .defective
  | _ => .reserved raw

def RegionKind.isAvailable (kind : RegionKind) : Bool :=
  match kind with
  | .available => true
  | _ => false

/-- A single region of the physical address space. -/
structure MemoryRegion where
  base : U64
  length : U64
  kind : RegionKind
  deriving DecidableEq, Repr

def MemoryRegion.isAvailable (region : MemoryRegion) : Bool :=
  region.kind.isAvailable

/-- The bytes of the region, as the firmware reports it. -/
def MemoryRegion.bytes (region : MemoryRegion) : Set Nat :=
  Set.Ico region.base.toNat (region.base.toNat + region.length.toNat)

/-- `LIMIT`: one past the last byte a 32-bit kernel can address. -/
def addressLimit : Nat := 1 <<< 32

/-- The number of bytes of the region below the 4 GiB limit, as a `u64`. -/
def MemoryRegion.addressableBytes (p : Profile) (region : MemoryRegion) : Checked Nat :=
  if addressLimit ≤ region.base.toNat then
    .ok 0
  else
    sub p 64 (min (saturatingAdd 64 region.base.toNat region.length.toNat) addressLimit)
      region.base.toNat

/-- The region an entry describes. -/
def MmapEntry.region (entry : MmapEntry) : MemoryRegion where
  base := entry.baseAddr
  length := entry.length
  kind := RegionKind.fromRaw entry.kind

/-! ## The iterator -/

/-- The iterator: the buffer and the byte offset of the next entry. -/
structure MemoryMap where
  buf : Slice
  offset : Nat

/-- A walk begins at offset 0. -/
def MemoryMap.start (buf : Slice) : MemoryMap := ⟨buf, 0⟩

/-- The entry at a byte offset, when a whole entry's worth of bytes is left there. -/
def entryAt (bytes : List U8) (offset : Nat) : Option MmapEntry := do
  let rest ← getFrom bytes offset
  let entry ← getTo rest mmapEntrySize
  return MmapEntry.readUnaligned entry

def MemoryMap.next (p : Profile) (map : MemoryMap) :
    Checked (Option MemoryRegion × MemoryMap) :=
  match entryAt map.buf.bytes map.offset with
  -- `?` on either `get`: the cursor stays, so every later call returns `None` too
  | none => .ok (none, map)
  | some entry => do
    -- the stride is a plain `usize` addition; only the cursor saturates
    let stride ← add p 32 entry.size.toNat 4
    let offset := saturatingAdd 32 map.offset stride
    return (some entry.region, { map with offset })

/-! ## The hand-off structure and the console report -/

/-- The fields of the Multiboot information structure that the kernel reads. -/
structure MultibootInfo where
  flags : U32
  mmapLength : U32
  mmapAddr : U32

/-- `size_of::<MultibootInfo>()`. -/
def multibootInfoSize : Nat := 52

/-- The structure at an address; ten words the kernel does not read lie between `flags` and
    the fields of the memory map. -/
def MultibootInfo.read (mem : Memory) (addr : Nat) : MultibootInfo where
  flags := mem.load32 addr
  mmapLength := mem.load32 (addr + 44)
  mmapAddr := mem.load32 (addr + 48)

/-- Bit 6 of `flags`: the memory map is valid. -/
def flagMmap : U32 := 1 <<< 6

/-- The memory map in memory, or `none` when the loader did not provide one. -/
def MultibootInfo.memoryMap (mem : Memory) (info : MultibootInfo) : Option MemoryMap :=
  if info.flags &&& flagMmap = 0 then
    none
  else
    some (.start
      { bytes := mem.load info.mmapAddr.toNat info.mmapLength.toNat
        length_lt := by
          rw [Memory.length_load]
          exact info.mmapLength.isLt })

/-- One line of the report. -/
inductive ReportLine where
  /-- `"multiboot: no memory map provided"`. -/
  | noMemoryMap
  /-- `"multiboot memory map:"`. -/
  | header
  /-- `"[base, end) kib KiB kind"`. -/
  | region (base stop kib : Nat) (kind : RegionKind)
  /-- `"usable RAM: kib KiB"`. -/
  | usable (kib : Nat)
  deriving DecidableEq, Repr

/-- What `print_memory_map` accumulates: the lines printed and its `u64` total. -/
structure Report where
  lines : List ReportLine
  usableBytes : Nat

/-- The loop body of `print_memory_map`. -/
def printRegion (p : Profile) (region : MemoryRegion) : Exec Report Unit := do
  let base := region.base.toNat
  let stop := saturatingAdd 64 base region.length.toNat
  let kib := region.length.toNat / 1024
  modify fun report =>
    { report with lines := report.lines ++ [.region base stop kib region.kind] }
  -- only available memory counts, and of it only what lies below 4 GiB
  if region.isAvailable then
    let bytes ← region.addressableBytes p
    let total ← add p 64 (← get).usableBytes bytes
    modify fun report => { report with usableBytes := total }

def printMemoryMap (p : Profile) (fuel : Nat) (map : Option MemoryMap) : Exec Report Unit :=
  match map with
  | none => modify fun report => { report with lines := report.lines ++ [.noMemoryMap] }
  | some map => do
    modify fun report => { lines := report.lines ++ [.header], usableBytes := 0 }
    forEach (MemoryMap.next p) (printRegion p) fuel map
    modify fun report =>
      { report with lines := report.lines ++ [.usable (report.usableBytes / 1024)] }

/-! ## What single calls do -/

@[simp] theorem isAvailable_iff (region : MemoryRegion) :
    region.isAvailable = true ↔ region.kind = .available := by
  unfold MemoryRegion.isAvailable RegionKind.isAvailable
  cases region.kind <;> simp

/-- `addressable_bytes` never underflows: it is the length of the clamped region. -/
theorem addressableBytes_eq (p : Profile) (region : MemoryRegion) :
    region.addressableBytes p = .ok (if 2 ^ 32 ≤ region.base.toNat then 0 else
      min (region.base.toNat + region.length.toNat) (2 ^ 32) - region.base.toNat) := by
  have hbase := region.base.isLt
  have hlen := region.length.isLt
  have hlimit : addressLimit = 2 ^ 32 := rfl
  unfold MemoryRegion.addressableBytes
  rw [hlimit]
  split
  · rfl
  · rw [sub_eq_ok (by unfold saturatingAdd; omega)]
    -- saturation at `2 ^ 64 - 1` is invisible below the 4 GiB clamp
    have hsat : min (saturatingAdd 64 region.base.toNat region.length.toNat) (2 ^ 32) =
        min (region.base.toNat + region.length.toNat) (2 ^ 32) := by
      unfold saturatingAdd
      omega
    rw [hsat]

theorem entryAt_eq_none {bytes : List U8} {offset : Nat} :
    entryAt bytes offset = none ↔ bytes.length < offset + 24 := by
  unfold entryAt getFrom getTo mmapEntrySize
  -- Either slice can fail: the cursor is past the buffer, or less than an entry is left.
  by_cases hoff : offset ≤ bytes.length
  · by_cases hlen : 24 ≤ (bytes.drop offset).length
    · simp only [hoff, if_true, hlen, Option.bind_eq_bind, Option.bind_some, Option.pure_def]
      simp only [List.length_drop] at hlen
      simp
      omega
    · simp only [hoff, if_true, hlen, if_false, Option.bind_eq_bind, Option.bind_some]
      simp only [List.length_drop] at hlen
      simp
      omega
  · simp [hoff]
    omega

theorem le_length_of_entryAt {bytes : List U8} {offset : Nat} {entry : MmapEntry}
    (h : entryAt bytes offset = some entry) : offset + 24 ≤ bytes.length := by
  by_contra hlt
  rw [entryAt_eq_none.mpr (by omega)] at h
  cases h

theorem next_of_none {p : Profile} {map : MemoryMap}
    (h : entryAt map.buf.bytes map.offset = none) : map.next p = .ok (none, map) := by
  rw [MemoryMap.next, h]

/-- A call on an entry whose stride fits 32 bits yields its region and strides. -/
theorem next_of_some {p : Profile} {map : MemoryMap} {entry : MmapEntry}
    (h : entryAt map.buf.bytes map.offset = some entry)
    (hsize : entry.size.toNat + 4 < 2 ^ 32) :
    map.next p = .ok (some entry.region,
      { map with offset := saturatingAdd 32 map.offset (entry.size.toNat + 4) }) := by
  rw [MemoryMap.next, h]
  simp only [add_eq_ok hsize, checked_ok_bind]
  rfl

/-- Inversion: what a yielding call read, and how far it moved. -/
theorem next_eq_some {p : Profile} {map map' : MemoryMap} {region : MemoryRegion}
    (h : map.next p = .ok (some region, map')) :
    ∃ entry stride, entryAt map.buf.bytes map.offset = some entry ∧ region = entry.region ∧
      add p 32 entry.size.toNat 4 = .ok stride ∧
      map' = { map with offset := saturatingAdd 32 map.offset stride } := by
  rw [MemoryMap.next] at h
  cases hentry : entryAt map.buf.bytes map.offset with
  | none => simp [hentry] at h
  | some entry =>
    simp only [hentry] at h
    obtain ⟨stride, hstride, hret⟩ := checked_bind_eq_ok.mp h
    cases hret
    exact ⟨entry, stride, rfl, rfl, hstride, rfl⟩

end Zkrnl32.Multiboot
