import Zkrnl32.Memory.Address
import Zkrnl32.Multiboot.MemoryMap
import Zkrnl32.Utils.Bits

/-!
# The Frame Allocator

Model of `src/memory/frame.rs`: a bitmap with one bit per 4 KiB frame of the 4 GiB
physical address space (`1` free, `0` occupied) and a search hint.

Every operation is code over a `FrameBitmap` state.  Array accesses are checked,
`usize` arithmetic is 32 bits wide, and the loops follow the source: `word_masks` is
an iterator with three counters, `scan_for_run` goes frame by frame.
-/

namespace Zkrnl32.Memory

open Zkrnl32.Machine Zkrnl32.Multiboot Zkrnl32.Utils

/-- `FRAME_SIZE`. -/
def frameSize : Nat := 4096

/-- `FRAME_COUNT`: frames of the 4 GiB physical address space. -/
def frameCount : Nat := 1 <<< 20

/-- `WORD_COUNT`: words of the bitmap. -/
def wordCount : Nat := frameCount / wordBits

@[simp] theorem frameSize_eq : frameSize = 4096 := rfl

@[simp] theorem frameCount_eq : frameCount = 1048576 := rfl

@[simp] theorem wordCount_eq : wordCount = 32768 := rfl

/-! ## Runs -/

/-- `NonZeroUsize`. -/
structure NonZeroUsize where
  get : Nat
  pos : 0 < get
  lt : get < 2 ^ 32

def NonZeroUsize.new (n : Nat) : Option NonZeroUsize :=
  if h : 0 < n ∧ n < 2 ^ 32 then some ⟨n, h.1, h.2⟩ else none

/-- `NonZeroUsize::MIN`. -/
def NonZeroUsize.min : NonZeroUsize := ⟨1, by decide, by decide⟩

/-- Owned, non-empty run of contiguous frames. -/
structure FrameRun where
  start : FrameNumber
  len : NonZeroUsize

def FrameRun.new (p : Profile) (start : Nat) (len : NonZeroUsize) : Checked FrameRun := do
  debugAssert p (start < frameCount)
  debugAssert p (len.get ≤ frameCount - start)
  return ⟨⟨start⟩, len⟩

/-! ## Word masks -/

/-- The three counters of the `word_masks` iterator. -/
structure WordMasks where
  wordI : Nat
  bit : Nat
  remaining : Nat

def wordMasks (start len : Nat) : WordMasks := ⟨start / wordBits, start % wordBits, len⟩

def WordMasks.next (p : Profile) (it : WordMasks) : Checked (Option (Nat × U32) × WordMasks) :=
  if it.remaining = 0 then
    return (none, it)
  else do
    let (mask, taken) ← clippedBitRangeMask p it.bit it.remaining
    let remaining ← sub p 32 it.remaining taken
    let wordI ← add p 32 it.wordI 1
    return (some (it.wordI, mask), ⟨wordI, 0, remaining⟩)

/-! ## The bitmap -/

/-- The allocator: the bitmap and the word index the next search starts from. -/
structure FrameBitmap where
  bitmap : Vector U32 wordCount
  searchHint : Nat

/-- Every frame starts occupied. -/
def FrameBitmap.new : FrameBitmap where
  bitmap := Vector.replicate wordCount 0
  searchHint := 0

/-- `self.bitmap[i]`. -/
def wordAt (i : Nat) : Exec FrameBitmap U32 := do
  match (← get).bitmap[i]? with
  | some word => pure word
  | none => throw .outOfBounds

/-- `self.bitmap[i] = word`. -/
def setWord (i : Nat) (word : U32) : Exec FrameBitmap Unit :=
  if h : i < wordCount then
    modify fun st => { st with bitmap := st.bitmap.set i word h }
  else
    throw .outOfBounds

/-- `self.bitmap[word_i] = op(self.bitmap[word_i], mask)`. -/
def updateWord (op : U32 → U32 → U32) (item : Nat × U32) : Exec FrameBitmap Unit := do
  let word ← wordAt item.1
  setWord item.1 (op word item.2)

/-- Applies `op` to every word that the frames `[start, start + len)` touch. -/
def updateWords (p : Profile) (op : U32 → U32 → U32) (start : FrameNumber) (len : Nat) :
    Exec FrameBitmap Unit :=
  forEach (WordMasks.next p) (updateWord op) (len + 1) (wordMasks start.index len)

/-- Sets the bits of `[start, start + len)`, marking the frames free. -/
def setFree (p : Profile) (start : FrameNumber) (len : Nat) : Exec FrameBitmap Unit :=
  updateWords p (fun word mask => word ||| mask) start len

/-- Clears the bits of `[start, start + len)`, marking the frames occupied. -/
def setOccupied (p : Profile) (start : FrameNumber) (len : Nat) : Exec FrameBitmap Unit :=
  updateWords p (fun word mask => word &&& ~~~mask) start len

/-- `self.bitmap[word_i] & mask != 0`. -/
def testWord (item : Nat × U32) : Exec FrameBitmap Bool := do
  let word ← wordAt item.1
  return word &&& item.2 != 0

/-- Whether any frame in `[start, start + len)` is free. -/
def anyFreeIn (p : Profile) (start len : Nat) : Exec FrameBitmap Bool :=
  anyOf (WordMasks.next p) testWord (len + 1) (wordMasks start len)

/-- Whether `frame` is free. -/
def isFree (p : Profile) (frame : Nat) : Exec FrameBitmap Bool := do
  let word ← wordAt (frame / wordBits)
  let bit ← shl p (1 : U32) (frame % wordBits)
  return word &&& bit != 0

/-! ## Searching -/

/-- The loop of `scan_for_run` over the `remaining` frames from `frame`, with its two
    accumulators. -/
def scanLoop (p : Profile) (count : Nat) :
    (remaining frame runStart runLen : Nat) → Exec FrameBitmap (Option Nat)
  | 0, _, _, _ => pure none
  | remaining + 1, frame, runStart, runLen => do
    let free ← isFree p frame
    -- an occupied frame ends the run; `run_start` is stale until the next free frame
    if !free then
      scanLoop p count remaining (frame + 1) runStart 0
    else
      let runStart := if runLen = 0 then frame else runStart
      let runLen ← add p 32 runLen 1
      if runLen = count then
        return some runStart
      else
        scanLoop p count remaining (frame + 1) runStart runLen

/-- Scans `[start, FRAME_COUNT)` for `count` contiguous free frames. -/
def scanForRun (p : Profile) (start count : Nat) : Exec FrameBitmap (Option Nat) :=
  scanLoop p count (frameCount - start) start 0 0

/-- Scans from the hint first, then the full bitmap. -/
def findFreeRun (p : Profile) (count : Nat) : Exec FrameBitmap (Option Nat) := do
  let hinted ← mul p 32 (← get).searchHint wordBits
  match ← scanForRun p hinted count with
  | some start => return some start
  | none => scanForRun p 0 count

/-! ## Allocating and freeing -/

/-- Allocates exactly `count` contiguous frames, or `none` if no gap that large exists. -/
def allocate (p : Profile) (count : NonZeroUsize) : Exec FrameBitmap (Option FrameRun) := do
  -- no gap can be larger than the bitmap
  if frameCount < count.get then
    return none
  match ← findFreeRun p count.get with
  | none => return none
  | some start =>
    setOccupied p ⟨start⟩ count.get
    -- the next search resumes in the word of the frame after the run
    let past ← add p 32 start count.get
    modify fun st => { st with searchHint := past / wordBits }
    let run ← FrameRun.new p start count
    return some run

def allocateOne (p : Profile) : Exec FrameBitmap (Option FrameRun) :=
  allocate p NonZeroUsize.min

/-- Releases a run.  The double-free check runs before any bit is flipped. -/
def free (p : Profile) (run : FrameRun) : Exec FrameBitmap Unit := do
  let start := run.start.index
  let len := run.len.get
  let anyFree ← anyFreeIn p start len
  if anyFree then
    throw (.panicked "double free of physical frames")
  setFree p ⟨start⟩ len
  modify fun st => { st with searchHint := min st.searchHint (start / wordBits) }

/-! ## Initialisation -/

/-- Marks `count` frames from `start` free; idempotent, no double-free check. -/
def markFree (p : Profile) (start : FrameNumber) (count : NonZeroUsize) :
    Exec FrameBitmap Unit := do
  setFree p start count.get
  modify fun st => { st with searchHint := min st.searchHint (start.index / wordBits) }

/-- Marks every frame that `[addr, addr + len)` touches occupied (rounds outward). -/
def reserveBytes (p : Profile) (addr len : Nat) : Exec FrameBitmap Unit := do
  -- floor and ceiling round outward, so partly used frames are taken whole
  let start := (PhysAddr.mk (BitVec.ofNat 32 addr)).frameFloor
  let past ← add p 32 addr len
  let stop := (PhysAddr.mk (BitVec.ofNat 32 past)).frameCeil
  let count ← sub p 32 stop.index start.index
  setOccupied p start count

/-- The loop body of `FrameBitmap::init`: frees the whole frames of an available region. -/
def publishRegion (p : Profile) (region : MemoryRegion) : Exec FrameBitmap Unit := do
  -- `as usize` truncates the `u64` to 32 bits
  let addressable ← region.addressableBytes p
  let bytes := addressable % 2 ^ 32
  if !region.isAvailable || bytes = 0 then
    return ()
  -- start rounds up and stop rounds down, so partial frames are never freed
  let base := region.base.toNat % 2 ^ 32
  let start : FrameNumber := ⟨divCeil base frameSize⟩
  let past ← add p 32 base bytes
  let stop := past / frameSize
  match NonZeroUsize.new (stop - start.index) with
  | some len => markFree p start len
  | none => return ()

/-- Builds the initial picture of usable memory, with fuel for the memory-map walk. -/
def FrameBitmap.init (p : Profile) (fuel : Nat) (image : KernelImage) (mmap : MemoryMap) :
    Exec FrameBitmap Unit := do
  forEach (MemoryMap.next p) (publishRegion p) fuel mmap
  -- frame 0 holds the GDT
  reserveBytes p 0 frameSize
  let kstart := image.physStart
  let klen ← sub p 32 image.physEnd kstart
  reserveBytes p kstart klen

end Zkrnl32.Memory
