import Mathlib.Data.Set.Function
import Zkrnl32.Machine.Mmu
import Zkrnl32.Machine.Run

/-!
# The i386 in Protected Mode

The part of the processor that start-up code depends on: segment registers with their hidden
descriptors, the control registers, paging, and the instructions that set them up.

- `Descriptor.decode`: what the processor makes of an 8-byte descriptor.
- `Cpu.translate`, `Cpu.locate`: a memory access, through segmentation and then through paging.
  A refused access is `none`: without an interrupt table a fault resets the machine.
- `Cpu.loadSegment`: the checks of a segment load.  The processor marks the descriptor as accessed,
  in memory.
- `Instr`, `exec`: the instructions.  Arithmetic flags are left out, since nothing here branches.
- `Encoding`: machine code is known by how it decodes, and its bytes are read from memory, so code
  that is overwritten is not run any more.  `Encoding.Listing` places a listing.
- `Step`: one instruction, or one call of a compiled function that is known by its contract.

Accessed and dirty bits of paging entries are not tracked, and a far return stays in its ring.
-/

namespace Zkrnl32.Machine

abbrev U16 := BitVec 16

/-! ## Descriptors -/

/-- A segment descriptor: a range of linear addresses and what may be done with it. -/
structure Descriptor where
  base : Nat
  /-- The last offset. -/
  limit : Nat
  dpl : Nat
  present : Bool
  /-- A code or data segment, not a system segment. -/
  segment : Bool
  code : Bool
  /-- Code: conforming.  Data: the valid offsets lie above the limit. -/
  dc : Bool
  /-- Code: readable.  Data: writable. -/
  rw : Bool
  /-- 32-bit operands and offsets. -/
  big : Bool
  deriving DecidableEq, Repr

/-- The fields of a raw descriptor.  The accessed bit, bit 40, has no part in them. -/
def Descriptor.decode (raw : U64) : Descriptor where
  base := (raw.extractLsb' 16 24).toNat + 2 ^ 24 * (raw.extractLsb' 56 8).toNat
  limit :=
    let units := (raw.extractLsb' 0 16).toNat + 2 ^ 16 * (raw.extractLsb' 48 4).toNat
    -- with the granularity bit the limit counts pages
    if raw.getLsbD 55 then 4096 * units + 4095 else units
  dpl := (raw.extractLsb' 45 2).toNat
  present := raw.getLsbD 47
  segment := raw.getLsbD 44
  code := raw.getLsbD 43
  dc := raw.getLsbD 42
  rw := raw.getLsbD 41
  big := raw.getLsbD 54

/-- A 32-bit segment of ring `dpl` that spans the whole address space. -/
def Descriptor.flat (code : Bool) (dpl : Nat) : Descriptor where
  base := 0
  limit := 0xFFFFFFFF
  dpl := dpl
  present := true
  segment := true
  code := code
  dc := false
  rw := true
  big := true

inductive AccessKind where
  | read
  | write
  | fetch
  deriving DecidableEq, Repr

/-- Whether the type of the segment admits an access. -/
def Descriptor.permits (d : Descriptor) : AccessKind → Bool
  | .read => !d.code || d.rw
  | .write => !d.code && d.rw
  | .fetch => d.code && d.big

/-- Whether `size` bytes at an offset lie within the limit. -/
def Descriptor.contains (d : Descriptor) (offset size : Nat) : Bool :=
  if !d.code && d.dc then
    -- a segment that expands downwards
    d.limit < offset && offset + size ≤ (if d.big then 2 ^ 32 else 2 ^ 16)
  else offset + size ≤ d.limit + 1

/-! ## The state -/

inductive Reg where
  | eax | ecx | edx | ebx | esp | ebp | esi | edi
  deriving DecidableEq, Repr

inductive SegReg where
  | es | cs | ss | ds | fs | gs
  deriving DecidableEq, Repr

inductive CtrlReg where
  | cr0 | cr3 | cr4
  deriving DecidableEq, Repr

/-- A segment register: the visible selector and the hidden descriptor, which a null selector
    leaves empty. -/
structure Segment where
  selector : U16
  hidden : Option Descriptor
  deriving DecidableEq, Repr

/-- The descriptor-table register. -/
structure TableRegister where
  base : U32
  limit : U16
  deriving DecidableEq, Repr

structure Cpu where
  reg : Reg → U32
  eip : U32
  seg : SegReg → Segment
  gdtr : TableRegister
  ctrl : CtrlReg → U32
  /-- The interrupt flag. -/
  interrupts : Bool
  /-- Physical memory. -/
  mem : Memory

namespace Cpu

def setReg (r : Reg) (v : U32) (s : Cpu) : Cpu := { s with reg := Function.update s.reg r v }

def goto (target : U32) (s : Cpu) : Cpu := { s with eip := target }

/-- The current privilege level: the low two bits of `CS`. -/
def cpl (s : Cpu) : Nat := ((s.seg .cs).selector.extractLsb' 0 2).toNat

/-- User mode, for the page rights. -/
def user (s : Cpu) : Bool := s.cpl = 3

/-! ## Memory access -/

/-- The physical address behind a linear one, if the page rights admit the access.  The processor
    also sets the accessed and dirty bits of the entries that it goes through.  That is left out: an
    access changes no paging entry here, and no translation depends on these bits. -/
def translate (s : Cpu) (kind : AccessKind) (user : Bool) (linear : Nat) : Option Nat :=
  -- `CR0.PG`
  if !(s.ctrl .cr0).getLsbD 31 then some linear
  -- `CR4.PAE`: another table format, not modelled
  else if (s.ctrl .cr4).getLsbD 5 then none
  else do
    let tr ← walk ((s.ctrl .cr4).getLsbD 4) s.mem ((s.ctrl .cr3).toNat / 4096) linear
    -- ring 0 may write to a read-only page unless `CR0.WP` is set
    if kind = .write ∧ !tr.writable ∧ (user ∨ (s.ctrl .cr0).getLsbD 16) then none
    else if user ∧ !tr.user then none
    else some tr.phys

/-- The physical addresses of `size` bytes from a linear address on, translated one by one. -/
def locateLinear (s : Cpu) (kind : AccessKind) (user : Bool) (linear size : Nat) :
    Option (List Nat) :=
  (List.range size).mapM fun i => s.translate kind user ((linear + i) % 2 ^ 32)

/-- The physical addresses of `size` bytes at an offset in a segment. -/
def locate (s : Cpu) (r : SegReg) (kind : AccessKind) (offset size : Nat) :
    Option (List Nat) := do
  let d ← (s.seg r).hidden
  if d.permits kind && d.contains offset size then
    s.locateLinear kind s.user (d.base + offset) size
  else none

/-- Bytes stored one by one at given addresses. -/
def scatter (mem : Memory) : List Nat → List U8 → Memory
  | a :: addrs, b :: bytes => scatter (mem.store a [b]) addrs bytes
  | _, _ => mem

def read (s : Cpu) (r : SegReg) (offset size : Nat) : Option (List U8) := do
  let addrs ← s.locate r .read offset size
  return addrs.map s.mem

def write (r : SegReg) (offset : Nat) (bytes : List U8) (s : Cpu) : Option Cpu := do
  let addrs ← s.locate r .write offset bytes.length
  return { s with mem := scatter s.mem addrs bytes }

/-- A read by the processor itself, with the rights of ring 0. -/
def readSystem (s : Cpu) (linear size : Nat) : Option (List U8) := do
  let addrs ← s.locateLinear .read false linear size
  return addrs.map s.mem

def writeSystem (linear : Nat) (bytes : List U8) (s : Cpu) : Option Cpu := do
  let addrs ← s.locateLinear .write false linear bytes.length
  return { s with mem := scatter s.mem addrs bytes }

/-- The byte of code at an offset in the code segment. -/
def codeByte (s : Cpu) (offset : Nat) : Option U8 := do
  let addrs ← s.locate .cs .fetch offset 1
  return s.mem (← addrs.head?)

/-! ## The stack -/

/-- Pushes need a 32-bit stack segment: 16-bit stacks are not modelled. -/
def push (v : U32) (s : Cpu) : Option Cpu := do
  let d ← (s.seg .ss).hidden
  if !d.big then none
  else
    let esp := s.reg .esp - 4
    let s ← s.write .ss esp.toNat (leBytes 4 v.toNat)
    return s.setReg .esp esp

def pop (s : Cpu) : Option (U32 × Cpu) := do
  let d ← (s.seg .ss).hidden
  if !d.big then none
  else
    let bytes ← s.read .ss (s.reg .esp).toNat 4
    return (BitVec.ofNat 32 (leNat bytes), s.setReg .esp (s.reg .esp + 4))

/-! ## Segment loads -/

/-- The linear address of a selector's descriptor. -/
def descriptorAddr (s : Cpu) (selector : U16) : Nat :=
  s.gdtr.base.toNat + 8 * (selector.toNat / 8)

/-- The raw descriptor of a selector, if it lies within the table. -/
def fetchDescriptor (s : Cpu) (selector : U16) : Option U64 :=
  -- bit 2 asks for a local table, of which there is none
  if selector.getLsbD 2 then none
  else if selector.toNat / 8 * 8 + 7 ≤ s.gdtr.limit.toNat then do
    let bytes ← s.readSystem (s.descriptorAddr selector) 8
    return BitVec.ofNat 64 (leNat bytes)
  else none

/-- The processor sets bit 40 of a descriptor it loads, unless it is set. -/
def markAccessed (selector : U16) (raw : U64) (s : Cpu) : Option Cpu :=
  if raw.getLsbD 40 then some s
  else s.writeSystem (s.descriptorAddr selector + 5) [raw.extractLsb' 40 8 ||| 1]

end Cpu

/-- Whether a descriptor may be loaded into a register at level `cpl` by a selector of level
    `rpl`.  For `CS` this is a far return to the same level: a return to an outer level, which
    switches stacks, is not modelled. -/
def Descriptor.loadable (d : Descriptor) (r : SegReg) (cpl rpl : Nat) : Bool :=
  d.present && d.segment &&
    match r with
    | .ss => !d.code && d.rw && rpl = cpl && d.dpl = cpl
    | .cs => d.code && rpl = cpl && (if d.dc then d.dpl ≤ rpl else d.dpl = rpl)
    | _ => (!d.code || d.rw) && (d.code && d.dc || (cpl ≤ d.dpl && rpl ≤ d.dpl))

namespace Cpu

/-- Loads a segment register. -/
def loadSegment (r : SegReg) (selector : U16) (s : Cpu) : Option Cpu :=
  if selector.toNat / 4 = 0 then
    -- a null selector is accepted for data only, and the segment cannot be used then
    if r = .ss ∨ r = .cs then none
    else some { s with seg := Function.update s.seg r ⟨selector, none⟩ }
  else do
    let raw ← s.fetchDescriptor selector
    let d := Descriptor.decode raw
    if d.loadable r s.cpl (selector.extractLsb' 0 2).toNat then
      let s ← s.markAccessed selector raw
      return { s with seg := Function.update s.seg r ⟨selector, some d⟩ }
    else none

/-- Loads a control register.  Paging needs protection: `CR0.PG` without `CR0.PE` faults. -/
def setCtrl (r : CtrlReg) (v : U32) (s : Cpu) : Option Cpu :=
  if s.cpl ≠ 0 ∨ r = .cr0 ∧ v.getLsbD 31 ∧ !v.getLsbD 0 then none
  else some { s with ctrl := Function.update s.ctrl r v }

end Cpu

/-! ## Instructions -/

inductive Instr where
  /-- `mov dst, src`. -/
  | mov (dst src : Reg)
  /-- `mov dst, imm`. -/
  | movImm (dst : Reg) (imm : U32)
  /-- `mov dst, imm` for the low 16 bits of a register. -/
  | movImm16 (dst : Reg) (imm : U16)
  /-- `mov crN, src`. -/
  | movToCtrl (dst : CtrlReg) (src : Reg)
  /-- `mov dst, crN`. -/
  | movFromCtrl (dst : Reg) (src : CtrlReg)
  /-- `mov sreg, src`, from the low 16 bits. -/
  | movToSeg (dst : SegReg) (src : Reg)
  | orImm (dst : Reg) (imm : U32)
  | addImm (dst : Reg) (imm : U32)
  | subImm (dst : Reg) (imm : U32)
  /-- `lea dst, [addr]`. -/
  | lea (dst : Reg) (addr : U32)
  | push (src : Reg)
  | pushImm (imm : U32)
  /-- A near call or jump, by the address it goes to. -/
  | call (target : U32)
  | jmp (target : U32)
  /-- `jmp src`. -/
  | jmpReg (src : Reg)
  | ret
  | retf
  /-- `lgdt seg:[addr]`. -/
  | lgdt (seg : SegReg) (addr : Reg)
  | cli
  | hlt
  deriving DecidableEq, Repr

/-- The effect of an instruction, whose end is at `next`. -/
def exec (i : Instr) (next : U32) (s : Cpu) : Option Cpu :=
  match i with
  | .mov dst src => some ((s.setReg dst (s.reg src)).goto next)
  | .movImm dst imm => some ((s.setReg dst imm).goto next)
  | .movImm16 dst imm =>
    some ((s.setReg dst (s.reg dst &&& 0xFFFF0000 ||| imm.setWidth 32)).goto next)
  | .movToCtrl dst src => (s.setCtrl dst (s.reg src)).map (·.goto next)
  | .movFromCtrl dst src =>
    if s.cpl ≠ 0 then none else some ((s.setReg dst (s.ctrl src)).goto next)
  | .movToSeg dst src =>
    -- `CS` is loaded by control transfers only
    if dst = .cs then none
    else (s.loadSegment dst ((s.reg src).setWidth 16)).map (·.goto next)
  | .orImm dst imm => some ((s.setReg dst (s.reg dst ||| imm)).goto next)
  | .addImm dst imm => some ((s.setReg dst (s.reg dst + imm)).goto next)
  | .subImm dst imm => some ((s.setReg dst (s.reg dst - imm)).goto next)
  | .lea dst addr => some ((s.setReg dst addr).goto next)
  | .push src => (s.push (s.reg src)).map (·.goto next)
  | .pushImm imm => (s.push imm).map (·.goto next)
  | .call target => (s.push next).map (·.goto target)
  | .jmp target => some (s.goto target)
  | .jmpReg src => some (s.goto (s.reg src))
  | .ret => do
    let (target, s) ← s.pop
    return s.goto target
  | .retf => do
    let (target, s) ← s.pop
    let (selector, s) ← s.pop
    let s ← s.loadSegment .cs (selector.setWidth 16)
    return s.goto target
  | .lgdt seg addr =>
    if s.cpl ≠ 0 then none
    else do
      let bytes ← s.read seg (s.reg addr).toNat 6
      let limit := BitVec.ofNat 16 (leNat (bytes.take 2))
      let base := BitVec.ofNat 32 (leNat (bytes.drop 2))
      return { s with gdtr := ⟨base, limit⟩, eip := next }
  | .cli => if s.cpl ≠ 0 then none else some { s with interrupts := false, eip := next }
  -- the state after an interrupt has woken the processor
  | .hlt => if s.cpl ≠ 0 then none else some (s.goto next)

/-! ## Code -/

/-- How bytes decode to instructions.  The view of the bytes is partial: code that cannot be
    fetched does not decode. -/
structure Encoding where
  /-- The instruction at an address, and its length. -/
  decode : (Nat → Option U8) → Nat → Option (Instr × Nat)
  /-- An instruction has a byte. -/
  length_pos : ∀ {view a i n}, decode view a = some (i, n) → 0 < n
  /-- Only the bytes of the instruction matter. -/
  decode_congr : ∀ {view view' a i n}, decode view a = some (i, n) →
    (∀ x, a ≤ x → x < a + n → view' x = view x) → decode view' a = some (i, n)

/-- The listing `is` lies at the addresses `[a, e)`, one instruction behind the other. -/
def Encoding.Listing (E : Encoding) (view : Nat → Option U8) : Nat → List Instr → Nat → Prop
  | a, [], e => a = e
  | a, i :: is, e => ∃ n, E.decode view a = some (i, n) ∧ E.Listing view (a + n) is e

/-- One instruction. -/
def Cpu.step (E : Encoding) (s : Cpu) : Option Cpu := do
  let (i, n) ← E.decode s.codeByte s.eip.toNat
  exec i (s.eip + BitVec.ofNat 32 n) s

/-- What a caller knows of a compiled function: the states it may return in. -/
abbrev Contract := Cpu → Cpu → Prop

/-- Word `i` of the stack. -/
def Cpu.stackWord (s : Cpu) (i : Nat) : Option U32 := do
  let bytes ← s.read .ss ((s.reg .esp).toNat + 4 * i) 4
  return BitVec.ofNat 32 (leNat bytes)

/-- The physical bytes behind the linear addresses `[lo, hi)`. -/
def Cpu.behind (s : Cpu) (lo hi : Nat) : Set Nat :=
  { x | ∃ v, lo ≤ v ∧ v < hi ∧ s.translate .write false v = some x }

/-- The C calling convention for a function of two words, as its caller sees it.  The arguments
    lie above the return address.  On return they are still there, `EAX`, `ECX` and `EDX` hold
    anything, and so do the `depth` bytes below the stack pointer that the function may use. -/
inductive Cdecl (depth : Nat) (body : U32 → U32 → Cpu → Option Cpu) (s : Cpu) : Cpu → Prop where
  | intro {ret first second : U32} {mem : Memory} {t : Cpu} {reg : Reg → U32} :
      s.stackWord 0 = some ret → s.stackWord 1 = some first → s.stackWord 2 = some second →
      Set.EqOn mem s.mem (s.behind ((s.reg .esp).toNat - depth) (s.reg .esp).toNat)ᶜ →
      body first second { s with mem := mem } = some t →
      (∀ r, r = .ebx ∨ r = .ebp ∨ r = .esi ∨ r = .edi → reg r = s.reg r) →
      reg .esp = s.reg .esp + 4 → Cdecl depth body s { t with reg := reg, eip := ret }

/-- One step: an instruction, or a whole call of a function that is known by its contract. -/
inductive Step (E : Encoding) (known : Nat → Option Contract) (s s' : Cpu) : Prop where
  | instr : known s.eip.toNat = none → s.step E = some s' → Step E known s s'
  | returns {R : Contract} : known s.eip.toNat = some R → R s s' → Step E known s s'

end Zkrnl32.Machine
