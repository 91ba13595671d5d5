import Zkrnl32.Machine.Cpu.Flat
import Zkrnl32.Memory.Paging.Translate

/-!
# The Global Descriptor Table

Model of `src/gdt.rs`: the flat descriptors, `write_gdt`, which spells them out in memory, and
`install_gdt`, which is assembly that loads them.

- `flatCode`, `flatData`, `bootstrap`: the table, bit by bit as the source packs it.
  `decode_flatCode` and `decode_flatData` say what the processor makes of it.
- `installGdtEntry`, `installGdtExit`: the two halves of the listing, split at its label `2`.
- `Callable.leads`: whatever maps the memory it uses, the listing returns to its caller with the
  table loaded, and it changes the table and the stack below only.
-/

namespace Zkrnl32.Gdt

open Zkrnl32.Machine

/-! ## The table -/

/-- `KERNEL_CODE_SELECTOR`. -/
def kernelCodeSelector : U16 := 0b01000

/-- `KERNEL_DATA_SELECTOR`. -/
def kernelDataSelector : U16 := 0b10000

/-- `KERNEL_STACK_SELECTOR`. -/
def kernelStackSelector : U16 := 0b11000

inductive PrivilegeLevel where
  | ring0
  | ring1
  | ring2
  | ring3
  deriving DecidableEq, Repr

/-- `privilege as u8`. -/
def PrivilegeLevel.toU8 : PrivilegeLevel → U8
  | .ring0 => 0
  | .ring1 => 1
  | .ring2 => 2
  | .ring3 => 3

/-- An entry of the table. -/
structure RawDescriptor where
  bits : U64
  deriving DecidableEq, Repr

def RawDescriptor.null : RawDescriptor := ⟨0⟩

/-- A descriptor of a segment. -/
structure SegmentDescriptor where
  bits : U64
  deriving DecidableEq, Repr

namespace SegmentDescriptor

def raw (d : SegmentDescriptor) : RawDescriptor := ⟨d.bits⟩

/-- A segment of 4 GiB at address 0 with the given access byte. -/
def flat (access : U8) : SegmentDescriptor :=
  let flags : U64 := (1 : U64) <<< 2 ||| (1 : U64) <<< 3
  let limit : U64 := 0xFFFFF
  let raw := limit &&& 0xFFFF
  let raw := raw ||| access.setWidth 64 <<< 40
  let raw := raw ||| (limit >>> 16 &&& 0xF) <<< 48
  let raw := raw ||| (flags &&& 0xF) <<< 52
  ⟨raw⟩

def flatCode (privilege : PrivilegeLevel) : SegmentDescriptor :=
  flat (0b10011010 ||| privilege.toU8 <<< 5)

def flatData (privilege : PrivilegeLevel) : SegmentDescriptor :=
  flat (0b10010010 ||| privilege.toU8 <<< 5)

end SegmentDescriptor

end Zkrnl32.Gdt

/-- The entries of a table. -/
abbrev Zkrnl32.Gdt := Vector Zkrnl32.Gdt.RawDescriptor Zkrnl32.Gdt.gdtEntryCount

namespace Zkrnl32.Gdt

open Zkrnl32.Machine

open SegmentDescriptor in
def bootstrap : Gdt :=
  #v[.null, (flatCode .ring0).raw, (flatData .ring0).raw, (flatData .ring0).raw,
    (flatCode .ring3).raw, (flatData .ring3).raw, (flatData .ring3).raw]

/-- The table in memory. -/
def bytes (gdt : Gdt) : List U8 := gdt.toList.flatMap fun d => leBytes 8 d.bits.toNat

/-- The operand of `lgdt`, packed. -/
structure Gdtr where
  limit : U16
  base : U32
  deriving DecidableEq, Repr

def Gdtr.bytes (gdtr : Gdtr) : List U8 := leBytes 2 gdtr.limit.toNat ++ leBytes 4 gdtr.base.toNat

/-- Writes the table to `dstAddr` and a matching operand of `lgdt` to `outGdtr`. -/
def writeGdt (dstAddr outGdtr : U32) (s : Cpu) : Option Cpu := do
  let s ← s.write .ds dstAddr.toNat bootstrap.bytes
  let gdtr : Gdtr := { limit := BitVec.ofNat 16 (gdtSize - 1), base := dstAddr }
  s.write .ds outGdtr.toNat gdtr.bytes

/-! ## The listing -/

/-- `install_gdt` up to the far return to its label `2`. -/
def installGdtEntry (writeGdt label : U32) : List Instr :=
  [.subImm .esp 6, .mov .eax .esp,
   .push .eax, .pushImm (BitVec.ofNat 32 gdtBase), .call writeGdt, .addImm .esp 8,
   .lgdt .ss .esp,
   .movImm16 .eax kernelDataSelector,
   .movToSeg .ds .eax, .movToSeg .es .eax, .movToSeg .fs .eax, .movToSeg .gs .eax,
   .movImm16 .eax kernelStackSelector, .movToSeg .ss .eax,
   .pushImm (kernelCodeSelector.setWidth 32), .lea .eax label, .push .eax, .retf]

/-- `install_gdt` from its label `2` on. -/
def installGdtExit : List Instr := [.addImm .esp 6, .ret]

/-! ## What the processor makes of the descriptors -/

theorem decode_flatCode (privilege : PrivilegeLevel) :
    Descriptor.decode (SegmentDescriptor.flatCode privilege).bits =
      .flat true privilege.toU8.toNat := by
  cases privilege <;> decide

theorem decode_flatData (privilege : PrivilegeLevel) :
    Descriptor.decode (SegmentDescriptor.flatData privilege).bits =
      .flat false privilege.toU8.toNat := by
  cases privilege <;> decide

/-- Entry `i` of the table in memory, once the processor has marked the entries `set`. -/
def marked (set : Finset Nat) (i : Nat) : U64 :=
  let raw := (bootstrap.toList.getD i .null).bits
  if i ∈ set then raw ||| accessedBit else raw

/-- Marking one more entry. -/
theorem update_marked (set : Finset Nat) (j : Nat) :
    Function.update (marked set) j (marked set j ||| accessedBit) = marked (insert j set) := by
  funext i
  by_cases hij : i = j
  · subst hij
    rw [Function.update_self, marked, marked, if_pos (Finset.mem_insert_self i set)]
    split
    next => rw [BitVec.or_assoc, BitVec.or_self]
    next => rfl
  · rw [Function.update_of_ne hij]
    simp only [marked, Finset.mem_insert, hij, false_or]

/-- Marks do not matter to the processor. -/
theorem decode_marked (set : Finset Nat) (i : Nat) :
    Descriptor.decode (marked set i) = .decode (bootstrap.toList.getD i .null).bits := by
  unfold marked
  split
  next => exact decode_or_accessedBit _
  next => rfl

theorem decode_marked_code (set : Finset Nat) :
    Descriptor.decode (marked set 1) = .flat true 0 :=
  (decode_marked set 1).trans (decode_flatCode .ring0)

theorem decode_marked_data (set : Finset Nat) {i : Nat} (hi : i = 2 ∨ i = 3) :
    Descriptor.decode (marked set i) = .flat false 0 := by
  rcases hi with rfl | rfl
  · exact (decode_marked set 2).trans (decode_flatData .ring0)
  · exact (decode_marked set 3).trans (decode_flatData .ring0)

/-- One of several spelled values of the same length. -/
theorem take_drop_flatMap {α β : Type} {f : α → List β} {k : Nat} (hf : ∀ x, (f x).length = k)
    {l : List α} {i : Nat} {x : α} (hx : l[i]? = some x) :
    ((l.flatMap f).drop (k * i)).take k = f x := by
  induction l generalizing i with
  | nil => simp at hx
  | cons y l ih =>
    rw [List.flatMap_cons]
    cases i with
    | zero =>
      obtain rfl : y = x := by simpa using hx
      rw [Nat.mul_zero, List.drop_zero, ← hf y, List.take_left]
    | succ i =>
      rw [Nat.mul_succ, Nat.add_comm, ← List.drop_drop, ← hf y, List.drop_left, hf y]
      exact ih (by simpa using hx)

theorem length_bytes_bootstrap : bootstrap.bytes.length = gdtSize := by decide

/-- `write_gdt` leaves the table in memory, unmarked. -/
theorem tableAt_store_bootstrap (mem : Memory) (phys : Nat) :
    TableAt (mem.store phys bootstrap.bytes) phys gdtEntryCount (marked ∅) := by
  intro i hi
  have hlen : 8 * i + 8 ≤ bootstrap.bytes.length := by
    rw [length_bytes_bootstrap]
    simp only [gdtEntryCount, gdtSize] at hi ⊢
    omega
  have hentry : bootstrap.toList[i]? = some (bootstrap.toList.getD i .null) := by
    have hlt : i < bootstrap.toList.length := by simpa using hi
    rw [List.getD_eq_getElem?_getD, List.getElem?_eq_getElem hlt, Option.getD_some]
  rw [mem.load_store_within phys hlen, bytes,
    take_drop_flatMap (fun d => length_leBytes 8 _) hentry]
  rfl

/-! ## Calling `install_gdt` -/

/-- The physical bytes that a call may change: the table, and the stack below the return address
    as far as `install_gdt` and the `depth` bytes of `write_gdt` below it reach. -/
def touched (esp depth stackShift gdtShift : Nat) : Set Nat :=
  Set.Ico (gdtBase - gdtShift) (gdtBase - gdtShift + gdtSize) ∪
    Set.Ico (esp - (18 + depth) - stackShift) (esp - stackShift)

/-- `install_gdt` is about to run in the stretch of code `c`, with its return address on the stack
    at `esp`.  The stack and the place of the table are mapped, at any distance, and writing to
    them changes neither a mapping nor code. -/
structure Callable {E : Encoding} {known : Nat → Option Contract} (c : Code E known) (s : Cpu)
    (writeAt label finish esp depth stackShift gdtShift : Nat) : Prop where
  flat : s.Flat
  esp_eq : (s.reg .esp).toNat = esp
  known_eq : known writeAt = some (Cdecl depth writeGdt)
  writeAt_lt : writeAt < 2 ^ 32
  entry : c.Listed s.eip.toNat (installGdtEntry (.ofNat 32 writeAt) (.ofNat 32 label)) label
  exit : c.Listed label installGdtExit finish
  seen : ∀ t : Cpu, t.Flat → t.ctrl = s.ctrl →
    Set.EqOn t.mem s.mem (touched esp depth stackShift gdtShift)ᶜ → c.SeenBy t
  room : 18 + depth ≤ esp
  stack : s.Keeps (touched esp depth stackShift gdtShift) (esp - (18 + depth)) (esp + 4) stackShift
  table : s.Keeps (touched esp depth stackShift gdtShift) gdtBase (gdtBase + gdtSize) gdtShift
  apart : ∀ x, gdtBase - gdtShift ≤ x → x < gdtBase - gdtShift + gdtSize →
    ¬ (esp - (18 + depth) - stackShift ≤ x ∧ x < esp + 4 - stackShift)

/-- What the whole run of `install_gdt` from `s` keeps. -/
structure Related (W : Set Nat) (s t : Cpu) : Prop where
  flat : t.Flat
  ctrl_eq : t.ctrl = s.ctrl
  interrupts_eq : t.interrupts = s.interrupts
  saved : ∀ r, r = .ebx ∨ r = .ebp ∨ r = .esi ∨ r = .edi → t.reg r = s.reg r
  mem_eq : Set.EqOn t.mem s.mem Wᶜ

section InstallGdt

variable {E : Encoding} {known : Nat → Option Contract} {c : Code E known} {s t : Cpu}
  {writeAt label finish esp depth stackShift gdtShift : Nat} {P : Cpu → Prop}

theorem Callable.related (h : Callable c s writeAt label finish esp depth stackShift gdtShift) :
    Related (touched esp depth stackShift gdtShift) s s :=
  ⟨h.flat, rfl, rfl, fun _ _ => rfl, fun _ _ => rfl⟩

theorem Callable.seenBy (h : Callable c s writeAt label finish esp depth stackShift gdtShift)
    (ht : Related (touched esp depth stackShift gdtShift) s t) : c.SeenBy t :=
  h.seen t ht.flat ht.ctrl_eq ht.mem_eq

theorem Callable.showsStack (h : Callable c s writeAt label finish esp depth stackShift gdtShift)
    (ht : Related (touched esp depth stackShift gdtShift) s t) :
    t.Shows (esp - (18 + depth)) (esp + 4) stackShift :=
  h.stack.shows ht.ctrl_eq ht.mem_eq

theorem Callable.showsTable (h : Callable c s writeAt label finish esp depth stackShift gdtShift)
    (ht : Related (touched esp depth stackShift gdtShift) s t) :
    t.Shows gdtBase (gdtBase + gdtSize) gdtShift :=
  h.table.shows ht.ctrl_eq ht.mem_eq

/-- Registers that the caller does not expect back may change. -/
theorem Related.setReg {W : Set Nat} (h : Related W s t) {r : Reg}
    (hr : ¬ (r = .ebx ∨ r = .ebp ∨ r = .esi ∨ r = .edi)) (v : U32) :
    Related W s (t.setReg r v) where
  flat := h.flat.congr rfl
  ctrl_eq := h.ctrl_eq
  interrupts_eq := h.interrupts_eq
  saved := fun r' hr' => by
    rw [Cpu.reg_setReg_of_ne (by rintro rfl; exact hr hr')]
    exact h.saved r' hr'
  mem_eq := h.mem_eq

theorem Related.goto {W : Set Nat} (h : Related W s t) (target : U32) :
    Related W s (t.goto target) :=
  ⟨h.flat.congr rfl, h.ctrl_eq, h.interrupts_eq, h.saved, h.mem_eq⟩

/-- The touched bytes may change. -/
theorem Related.setMem {W V : Set Nat} (h : Related W s t) {mem : Memory}
    (hmem : Set.EqOn mem t.mem Vᶜ) (hV : V ⊆ W) : Related W s { t with mem := mem } where
  flat := h.flat.congr rfl
  ctrl_eq := h.ctrl_eq
  interrupts_eq := h.interrupts_eq
  saved := h.saved
  mem_eq := (hmem.mono (Set.compl_subset_compl.mpr hV)).trans h.mem_eq

theorem stack_subset_touched {lo hi : Nat} (hlo : esp - (18 + depth) - stackShift ≤ lo)
    (hhi : hi ≤ esp - stackShift) :
    Set.Ico lo hi ⊆ touched esp depth stackShift gdtShift :=
  fun _ hx => Or.inr ⟨hlo.trans hx.1, hx.2.trans_le hhi⟩

/-- A push below the return address. -/
theorem Callable.push (h : Callable c s writeAt label finish esp depth stackShift gdtShift)
    (ht : Related (touched esp depth stackShift gdtShift) s t) {a : Nat}
    (hesp : (t.reg .esp).toNat = a + 4) (hlo : esp - (18 + depth) ≤ a) (hhi : a + 4 ≤ esp)
    (v : U32) :
    ∃ u, t.push v = some u ∧ Related (touched esp depth stackShift gdtShift) s u ∧
      Cpu.Pushed stackShift a v t u := by
  have hstack := h.showsStack ht
  have hshift := hstack.shift_le
  obtain ⟨u, hpush, hu⟩ := Cpu.push_flat ht.flat hstack hesp hlo (by omega) v
  have hmem : Set.EqOn u.mem t.mem (Set.Ico (a - stackShift) (a - stackShift + 4))ᶜ :=
    hu.mem_eq ▸ t.mem.store32_eqOn _ v
  have hsub : Set.Ico (a - stackShift) (a - stackShift + 4) ⊆
      touched esp depth stackShift gdtShift := stack_subset_touched (by omega) (by omega)
  refine ⟨u, hpush, ⟨ht.flat.congr hu.seg_eq, hu.ctrl_eq.trans ht.ctrl_eq,
    hu.interrupts_eq.trans ht.interrupts_eq, fun r hr => ?_, ?_⟩, hu⟩
  · rw [hu.reg_eq r (by rintro rfl; simp at hr), ht.saved r hr]
  · exact (hmem.mono (Set.compl_subset_compl.mpr hsub)).trans ht.mem_eq

/-- A pop at or below the return address. -/
theorem Callable.pop (h : Callable c s writeAt label finish esp depth stackShift gdtShift)
    (ht : Related (touched esp depth stackShift gdtShift) s t) {a : Nat}
    (hesp : (t.reg .esp).toNat = a) (hlo : esp - (18 + depth) ≤ a) (hhi : a ≤ esp) :
    t.pop = some (t.mem.load32 (a - stackShift), t.setReg .esp (BitVec.ofNat 32 (a + 4))) :=
  Cpu.pop_flat ht.flat (h.showsStack ht) hesp hlo (by omega)

/-! ### Up to `write_gdt` -/

/-- At the entry of `write_gdt`: its return address and its arguments are on the stack. -/
structure AtWriteGdt (c : Code E known) (s : Cpu)
    (writeAt label esp depth stackShift gdtShift : Nat) (t : Cpu) : Prop where
  related : Related (touched esp depth stackShift gdtShift) s t
  eip_eq : t.eip = BitVec.ofNat 32 writeAt
  esp_eq : (t.reg .esp).toNat = esp - 18
  rest : c.Listed (t.mem.load32 (esp - 18 - stackShift)).toNat
    ((installGdtEntry (.ofNat 32 writeAt) (.ofNat 32 label)).drop 5) label
  dst : t.mem.load32 (esp - 14 - stackShift) = BitVec.ofNat 32 gdtBase
  out : t.mem.load32 (esp - 10 - stackShift) = BitVec.ofNat 32 (esp - 6)

theorem Callable.leads_writeGdt
    (h : Callable c s writeAt label finish esp depth stackShift gdtShift)
    (hnext : ∀ t, AtWriteGdt c s writeAt label esp depth stackShift gdtShift t →
      Leads (Step E known) P t) : Leads (Step E known) P s := by
  have hroom := h.room
  have hshift := (h.showsStack h.related).shift_le
  have hat : s.At c _ label := ⟨h.seenBy h.related, h.entry⟩
  -- Room for the operand of `lgdt`, whose address is the second argument.
  refine hat.leads_setReg (fun _ => rfl) fun n₁ hat₁ => ?_
  refine hat₁.leads_setReg (fun _ => rfl) fun n₂ hat₂ => ?_
  generalize hs₂ : Cpu.goto n₂ _ = s₂ at hat₂ ⊢
  have hrel₂ : Related (touched esp depth stackShift gdtShift) s s₂ :=
    hs₂ ▸ ((h.related.setReg (by decide) _).goto _ |>.setReg (by decide) _).goto _
  have heax₂ : s₂.reg .eax = s₂.reg .esp := by
    subst hs₂
    rfl
  have hesp₂ : (s₂.reg .esp).toNat = esp - 6 := by
    subst hs₂
    exact (toNat_sub_ofNat (k := 6) (by rw [h.esp_eq]; omega)).trans (by rw [h.esp_eq])
  -- The two arguments and the return address.
  obtain ⟨s₃, hpush₃, hrel₃, hs₃⟩ := h.push hrel₂ (a := esp - 10)
    (by rw [hesp₂]; omega) (by omega) (by omega) (s₂.reg .eax)
  refine hat₂.leads_goto s₃ (fun _ => by simp [exec, hpush₃]) (h.seenBy hrel₃) fun n₃ hat₃ => ?_
  obtain ⟨s₄, hpush₄, hrel₄, hs₄⟩ := h.push (hrel₃.goto n₃) (a := esp - 14)
    (by rw [Cpu.reg_goto, hs₃.esp_eq]; omega) (by omega) (by omega) (BitVec.ofNat 32 gdtBase)
  refine hat₃.leads_goto s₄ (fun _ => by simp [exec, hpush₄]) (h.seenBy hrel₄) fun n₄ hat₄ => ?_
  refine hat₄.leads fun ret hrest => ?_
  obtain ⟨s₅, hpush₅, hrel₅, hs₅⟩ := h.push (hrel₄.goto n₄) (a := esp - 18)
    (by rw [Cpu.reg_goto, hs₄.esp_eq]; omega) (by omega) (by omega) ret
  refine ⟨s₅.goto (BitVec.ofNat 32 writeAt), by simp [exec, hpush₅], hnext _ ?_⟩
  have hmem : s₅.mem = ((s₂.mem.store32 (esp - 10 - stackShift) (s₂.reg .eax)).store32
      (esp - 14 - stackShift) (BitVec.ofNat 32 gdtBase)).store32 (esp - 18 - stackShift) ret := by
    rw [hs₅.mem_eq, Cpu.mem_goto, hs₄.mem_eq, Cpu.mem_goto, hs₃.mem_eq]
  refine ⟨hrel₅.goto _, rfl, hs₅.esp_eq, ?_, ?_, ?_⟩
  · rw [Cpu.mem_goto, hmem, Memory.load32_store32_self]
    exact hrest
  · rw [Cpu.mem_goto, hmem, Memory.load32_store32_of_disjoint _ _ (by omega),
      Memory.load32_store32_self]
  · rw [Cpu.mem_goto, hmem, Memory.load32_store32_of_disjoint _ _ (by omega),
      Memory.load32_store32_of_disjoint _ _ (by omega), Memory.load32_store32_self, heax₂, ← hesp₂,
      BitVec.ofNat_toNat, BitVec.setWidth_eq]

/-! ### `write_gdt` -/

/-- The operand of `lgdt` that `write_gdt` leaves behind. -/
def bootstrapGdtr : Gdtr := { limit := 55, base := BitVec.ofNat 32 gdtBase }

/-- The memory after `write_gdt`. -/
def written (esp stackShift gdtShift : Nat) (mem : Memory) : Memory :=
  (mem.store (gdtBase - gdtShift) bootstrap.bytes).store (esp - 6 - stackShift) bootstrapGdtr.bytes

theorem toNat_gdtBase : (BitVec.ofNat 32 gdtBase).toNat = gdtBase := rfl

theorem length_bytes_gdtr (gdtr : Gdtr) : gdtr.bytes.length = 6 := by
  simp [Gdtr.bytes]

theorem written_eqOn (h : Callable c s writeAt label finish esp depth stackShift gdtShift)
    (mem : Memory) :
    Set.EqOn (written esp stackShift gdtShift mem) mem
      (touched esp depth stackShift gdtShift)ᶜ := by
  have hroom := h.room
  have hshift := (h.showsStack h.related).shift_le
  intro x hx
  have hnot : ¬ (gdtBase - gdtShift ≤ x ∧ x < gdtBase - gdtShift + gdtSize) :=
    fun h => hx (Or.inl h)
  have hnot' : ¬ (esp - (18 + depth) - stackShift ≤ x ∧ x < esp - stackShift) :=
    fun h => hx (Or.inr h)
  rw [written, Memory.store_apply_of_not_mem, Memory.store_apply_of_not_mem]
  · rwa [length_bytes_bootstrap]
  · rw [length_bytes_gdtr]
    omega

theorem writeGdt_eq (h : Callable c s writeAt label finish esp depth stackShift gdtShift)
    (ht : Related (touched esp depth stackShift gdtShift) s t) :
    writeGdt (BitVec.ofNat 32 gdtBase) (BitVec.ofNat 32 (esp - 6)) t =
      some { t with mem := written esp stackShift gdtShift t.mem } := by
  have hroom := h.room
  have hmax := (h.showsStack ht).hi_le
  have htable := h.showsTable ht
  have hfirst : t.write .ds gdtBase bootstrap.bytes =
      some { t with mem := t.mem.store (gdtBase - gdtShift) bootstrap.bytes } :=
    Cpu.write_flat ht.flat.cpl_eq ht.flat.ds_eq htable le_rfl (by rw [length_bytes_bootstrap])
  have hsub : Set.Ico (gdtBase - gdtShift) (gdtBase - gdtShift + bootstrap.bytes.length) ⊆
      touched esp depth stackShift gdtShift := by
    rw [length_bytes_bootstrap]
    exact Set.subset_union_left
  have ht₁ := ht.setMem (t.mem.store_eqOn _ _) hsub
  have hroom₁ : esp - 6 + bootstrapGdtr.bytes.length ≤ esp + 4 := by
    rw [length_bytes_gdtr]
    omega
  have hsecond := Cpu.write_flat ht₁.flat.cpl_eq ht₁.flat.ds_eq (h.showsStack ht₁)
    (show esp - (18 + depth) ≤ esp - 6 by omega) hroom₁
  have htoNat : (BitVec.ofNat 32 (esp - 6)).toNat = esp - 6 := by
    rw [BitVec.toNat_ofNat]
    omega
  simp only [writeGdt, toNat_gdtBase, htoNat, hfirst, Option.bind_eq_bind, Option.bind_some]
  exact hsecond

/-- Back from `write_gdt`: the table and the operand of `lgdt` are in memory. -/
structure Written (c : Code E known) (s : Cpu)
    (writeAt label esp depth stackShift gdtShift : Nat) (t : Cpu) : Prop where
  related : Related (touched esp depth stackShift gdtShift) s t
  listed : c.Listed t.eip.toNat
    ((installGdtEntry (.ofNat 32 writeAt) (.ofNat 32 label)).drop 5) label
  esp_eq : (t.reg .esp).toNat = esp - 14
  table : TableAt t.mem (gdtBase - gdtShift) gdtEntryCount (marked ∅)
  operand : t.mem.load (esp - 6 - stackShift) 6 = bootstrapGdtr.bytes

/-- The table and the operand do not overlap. -/
theorem tableAt_written (h : Callable c s writeAt label finish esp depth stackShift gdtShift)
    (mem : Memory) :
    TableAt (written esp stackShift gdtShift mem) (gdtBase - gdtShift) gdtEntryCount
      (marked ∅) := by
  have hroom := h.room
  have hshift := (h.showsStack h.related).shift_le
  refine (tableAt_store_bootstrap mem _).congr fun x hlo hhi => ?_
  have hapart := h.apart x hlo hhi
  refine Memory.store_apply_of_not_mem _ _ _ ?_
  rw [length_bytes_gdtr]
  omega

theorem Callable.stackWord (h : Callable c s writeAt label finish esp depth stackShift gdtShift)
    (ht : AtWriteGdt c s writeAt label esp depth stackShift gdtShift t) {i : Nat} (hi : i ≤ 2) :
    t.stackWord i = some (t.mem.load32 (esp - 18 + 4 * i - stackShift)) := by
  have hroom := h.room
  have hread := Cpu.read_flat ht.related.flat.cpl_eq ht.related.flat.ss_eq
    (h.showsStack ht.related) (show esp - (18 + depth) ≤ esp - 18 + 4 * i by omega)
    (show esp - 18 + 4 * i + 4 ≤ esp + 4 by omega)
  rw [Cpu.stackWord, ht.esp_eq, hread]
  rfl

theorem Callable.leads_written (h : Callable c s writeAt label finish esp depth stackShift gdtShift)
    (ht : AtWriteGdt c s writeAt label esp depth stackShift gdtShift t)
    (hnext : ∀ u, Written c s writeAt label esp depth stackShift gdtShift u →
      Leads (Step E known) P u) : Leads (Step E known) P t := by
  have hroom := h.room
  have hstack := h.showsStack ht.related
  have hshift := hstack.shift_le
  have hret := h.stackWord ht (show 0 ≤ 2 by decide)
  have hdst := h.stackWord ht (show 1 ≤ 2 by decide)
  have hout := h.stackWord ht (show 2 ≤ 2 by decide)
  rw [show esp - 18 + 4 * 0 - stackShift = esp - 18 - stackShift by omega] at hret
  rw [show esp - 18 + 4 * 1 - stackShift = esp - 14 - stackShift by omega, ht.dst] at hdst
  rw [show esp - 18 + 4 * 2 - stackShift = esp - 10 - stackShift by omega, ht.out] at hout
  have hknown : known t.eip.toNat = some (Cdecl depth writeGdt) := by
    rw [ht.eip_eq, BitVec.toNat_ofNat, Nat.mod_eq_of_lt h.writeAt_lt]
    exact h.known_eq
  refine leads_returns hknown ?_ fun u hu => ?_
  · -- A function that restores every register is one of those that the contract allows.
    let back : Cpu :=
      { t with
        reg := fun r => if r = .esp then t.reg .esp + 4 else t.reg r
        eip := t.mem.load32 (esp - 18 - stackShift)
        mem := written esp stackShift gdtShift t.mem }
    exact ⟨back, .intro hret hdst hout (fun _ _ => rfl) (writeGdt_eq h ht.related)
      (by rintro r (rfl | rfl | rfl | rfl) <;> rfl) rfl⟩
  · obtain @⟨ret, dst, out, mem, v, reg, hret', hdst', hout', hmem, hrun, hsaved, hesp⟩ := hu
    obtain rfl := Option.some.inj (hret.symm.trans hret')
    obtain rfl := Option.some.inj (hdst.symm.trans hdst')
    obtain rfl := Option.some.inj (hout.symm.trans hout')
    -- What the function leaves of its own on the stack is below the return address.
    have hbelow : t.behind ((t.reg .esp).toNat - depth) (t.reg .esp).toNat ⊆
        touched esp depth stackShift gdtShift := by
      rintro x ⟨w, hlo, hhi, hw⟩
      rw [ht.esp_eq] at hlo hhi
      rw [hstack.translate_eq w (by omega) (by omega)] at hw
      obtain rfl := Option.some.inj hw
      exact Or.inr ⟨by omega, by omega⟩
    have hrel := ht.related.setMem hmem hbelow
    rw [writeGdt_eq h hrel] at hrun
    obtain rfl := Option.some.inj hrun
    have hesp' : (reg .esp).toNat = esp - 14 := by
      have hmax := hstack.hi_le
      rw [hesp]
      refine (toNat_add_ofNat (k := 4) ?_).trans ?_
      · rw [ht.esp_eq]
        omega
      · rw [ht.esp_eq]
        omega
    refine hnext _ ⟨⟨hrel.flat.congr rfl, hrel.ctrl_eq, hrel.interrupts_eq, ?_, ?_⟩, ht.rest, hesp',
      tableAt_written h mem, ?_⟩
    · exact fun r hr => (hsaved r hr).trans (ht.related.saved r hr)
    · exact (written_eqOn h mem).trans hrel.mem_eq
    · have hload := Memory.load_store_self
        (mem.store (gdtBase - gdtShift) bootstrap.bytes) (esp - 6 - stackShift) bootstrapGdtr.bytes
      rwa [length_bytes_gdtr] at hload

/-! ### The segment registers -/

/-- While the segments are loaded: the processor uses the table, and has marked the entries
    `set`. -/
structure Loading (s : Cpu) (esp depth stackShift gdtShift : Nat) (set : Finset Nat) (t : Cpu) :
    Prop where
  related : Related (touched esp depth stackShift gdtShift) s t
  esp_eq : (t.reg .esp).toNat = esp - 6
  gdtr_eq : t.gdtr = ⟨BitVec.ofNat 32 gdtBase, 55⟩
  table : TableAt t.mem (gdtBase - gdtShift) gdtEntryCount (marked set)

theorem Loading.goto {set : Finset Nat} (h : Loading s esp depth stackShift gdtShift set t)
    (target : U32) : Loading s esp depth stackShift gdtShift set (t.goto target) :=
  ⟨h.related.goto target, h.esp_eq, h.gdtr_eq, h.table⟩

theorem Loading.setEax {set : Finset Nat} (h : Loading s esp depth stackShift gdtShift set t)
    (v : U32) : Loading s esp depth stackShift gdtShift set (t.setReg .eax v) :=
  ⟨h.related.setReg (by decide) v, h.esp_eq, h.gdtr_eq, h.table⟩

/-- A load of a segment register from the table. -/
theorem Callable.loadSegment (h : Callable c s writeAt label finish esp depth stackShift gdtShift)
    {set : Finset Nat} (ht : Related (touched esp depth stackShift gdtShift) s t)
    (hgdtr : t.gdtr = ⟨BitVec.ofNat 32 gdtBase, 55⟩)
    (htable : TableAt t.mem (gdtBase - gdtShift) gdtEntryCount (marked set)) {r : SegReg}
    {selector : U16} {j : Nat} (hselector : selector.toNat = 8 * j) (hj : 0 < j) (hlt : j < 7)
    (hload : (Descriptor.decode (marked set j)).loadable r 0 0 = true) :
    ∃ mem', t.loadSegment r selector = some
        { t with
          seg := Function.update t.seg r ⟨selector, some (.decode (marked set j))⟩
          mem := mem' } ∧
      TableAt mem' (gdtBase - gdtShift) gdtEntryCount (marked (insert j set)) ∧
      Related (touched esp depth stackShift gdtShift) s { t with mem := mem' } := by
  have hrpl : (selector.extractLsb' 0 2).toNat = 0 := by
    rw [BitVec.extractLsb'_toNat, Nat.shiftRight_zero, hselector]
    omega
  have hti : selector.getLsbD 2 = false := by
    rw [← BitVec.testBit_toNat, hselector, Nat.testBit_eq_decide_div_mod_eq]
    simp only [decide_eq_false_iff_not]
    omega
  obtain ⟨mem', hrun, htable', hmem⟩ := Cpu.loadSegment_eq (s := t) (r := r)
    (by rw [hgdtr]; rfl) (by rw [hgdtr]; rfl) (h.showsTable ht) htable hti (by omega) hj hlt
    (by rw [ht.flat.cpl_eq, hrpl]; exact hload)
  rw [update_marked] at htable'
  exact ⟨mem', hrun, htable', ht.setMem hmem Set.subset_union_left⟩

/-- A data segment register may be loaded with a flat segment. -/
theorem Related.setSeg {W : Set Nat} (h : Related W s t) {r : SegReg} (hr : r ≠ .cs)
    (selector : U16) :
    Related W s
      { t with seg := Function.update t.seg r ⟨selector, some (.flat false 0)⟩ } := by
  have hcs : Function.update t.seg r ⟨selector, some (.flat false 0)⟩ .cs = t.seg .cs :=
    Function.update_of_ne hr.symm ..
  have hdata : ∀ r', (t.seg r').hidden = some (.flat false 0) →
      (Function.update t.seg r ⟨selector, some (.flat false 0)⟩ r').hidden =
        some (.flat false 0) := by
    intro r' hflat
    by_cases heq : r' = r
    · rw [heq, Function.update_self]
    · rw [Function.update_of_ne heq, hflat]
  refine ⟨⟨?_, ?_, hdata .ss h.flat.ss_eq, hdata .ds h.flat.ds_eq⟩, h.ctrl_eq, h.interrupts_eq,
    h.saved, h.mem_eq⟩
  · exact (congrArg (fun g : Segment => (g.selector.extractLsb' 0 2).toNat) hcs).trans h.flat.cpl_eq
  · exact (congrArg Segment.hidden hcs).trans h.flat.cs_eq

/-- `mov sreg, ax` with the selector of a data segment. -/
theorem Callable.leads_movToSeg
    (h : Callable c s writeAt label finish esp depth stackShift gdtShift) {set : Finset Nat}
    (ht : Loading s esp depth stackShift gdtShift set t) {r : SegReg} {is : List Instr}
    (hat : t.At c (.movToSeg r .eax :: is) label) (hr : r ≠ .cs) {selector : U16} {j : Nat}
    (heax : (t.reg .eax).setWidth 16 = selector) (hselector : selector.toNat = 8 * j)
    (hj : j = 2 ∨ j = 3)
    (hnext : ∀ u, u.At c is label → Loading s esp depth stackShift gdtShift (insert j set) u →
      u.seg = Function.update t.seg r ⟨selector, some (.flat false 0)⟩ → u.reg = t.reg →
      Leads (Step E known) P u) : Leads (Step E known) P t := by
  have hdecode := decode_marked_data set hj
  have hload : (Descriptor.decode (marked set j)).loadable r 0 0 = true := by
    rw [hdecode]
    cases r with
    | cs => exact absurd rfl hr
    | _ => rfl
  obtain ⟨mem', hrun, htable, hrel⟩ := h.loadSegment ht.related ht.gdtr_eq ht.table hselector
    (by omega) (by omega) hload
  rw [hdecode] at hrun
  have hrel' := hrel.setSeg hr selector
  refine hat.leads_goto _ (fun next => ?_) (h.seenBy hrel') fun next hat' => ?_
  · rw [exec, if_neg hr, heax, hrun]
    rfl
  · exact hnext _ hat' ⟨hrel'.goto next, ht.esp_eq, ht.gdtr_eq, htable⟩ rfl rfl

/-- The low half of a register that was set. -/
theorem setWidth_low16 (x : U32) (v : U16) :
    (x &&& 0xFFFF0000 ||| v.setWidth 32).setWidth 16 = v := by
  apply BitVec.eq_of_getLsbD_eq
  intro i hi
  have hmask : ∀ i < 16, (0xFFFF0000 : U32).getLsbD i = false := by decide
  simp only [BitVec.getLsbD_setWidth, BitVec.getLsbD_or, BitVec.getLsbD_and, hmask i hi,
    Bool.and_false, Bool.false_or, decide_eq_true hi, Bool.true_and,
    decide_eq_true (show i < 32 by omega)]

/-- All data segments are loaded. -/
structure Loaded (s : Cpu) (esp depth stackShift gdtShift : Nat) (t : Cpu) : Prop where
  loading : Loading s esp depth stackShift gdtShift {2, 3} t
  data : ∀ r, r = .ds ∨ r = .es ∨ r = .fs ∨ r = .gs →
    t.seg r = ⟨kernelDataSelector, some (.flat false 0)⟩
  stack : t.seg .ss = ⟨kernelStackSelector, some (.flat false 0)⟩

theorem Callable.leads_loaded (h : Callable c s writeAt label finish esp depth stackShift gdtShift)
    (ht : Written c s writeAt label esp depth stackShift gdtShift t)
    (hnext : ∀ u, Loaded s esp depth stackShift gdtShift u →
      u.At c ((installGdtEntry (.ofNat 32 writeAt) (.ofNat 32 label)).drop 14) label →
      Leads (Step E known) P u) : Leads (Step E known) P t := by
  have hroom := h.room
  have hat : t.At c _ label := ⟨h.seenBy ht.related, ht.listed⟩
  -- The arguments go, and the operand of `lgdt` is on top of the stack.
  refine hat.leads_setReg (fun _ => rfl) fun n₁ hat₁ => ?_
  generalize ht₁ : Cpu.goto n₁ _ = t₁ at hat₁ ⊢
  have hrel₁ : Related (touched esp depth stackShift gdtShift) s t₁ :=
    ht₁ ▸ (ht.related.setReg (by decide) _).goto _
  have hmem₁ : t₁.mem = t.mem := by
    subst ht₁
    rfl
  have hesp₁ : (t₁.reg .esp).toNat = esp - 6 := by
    have hmax := (h.showsStack hrel₁).hi_le
    subst ht₁
    refine (toNat_add_ofNat (k := 8) ?_).trans ?_
    · rw [ht.esp_eq]
      omega
    · rw [ht.esp_eq]
      omega
  have hread := Cpu.read_flat hrel₁.flat.cpl_eq hrel₁.flat.ss_eq (h.showsStack hrel₁)
    (show esp - (18 + depth) ≤ esp - 6 by omega) (show esp - 6 + 6 ≤ esp + 4 by omega)
  rw [hmem₁, ht.operand] at hread
  have hloading : Loading s esp depth stackShift gdtShift ∅
      { t₁ with gdtr := ⟨BitVec.ofNat 32 gdtBase, 55⟩ } :=
    ⟨⟨hrel₁.flat.congr rfl, hrel₁.ctrl_eq, hrel₁.interrupts_eq, hrel₁.saved, hrel₁.mem_eq⟩, hesp₁,
      rfl, hmem₁ ▸ ht.table⟩
  refine hat₁.leads_goto _ (fun next => ?_) (h.seenBy hloading.related) fun n₂ hat₂ => ?_
  · rw [exec, hrel₁.flat.cpl_eq, hesp₁, hread]
    rfl
  -- The four data segments take the data selector, the stack segment its own.
  refine hat₂.leads_setReg (fun _ => rfl) fun n₃ hat₃ => ?_
  refine h.leads_movToSeg ((hloading.goto n₂).setEax _ |>.goto n₃) hat₃ (by decide)
    (setWidth_low16 _ kernelDataSelector) rfl (Or.inl rfl) fun u₁ hat₄ hu₁ hseg₁ hreg₁ => ?_
  have heax₁ : (u₁.reg .eax).setWidth 16 = kernelDataSelector := by
    rw [hreg₁]
    exact setWidth_low16 _ kernelDataSelector
  refine h.leads_movToSeg hu₁ hat₄ (by decide) heax₁ rfl (Or.inl rfl)
    fun u₂ hat₅ hu₂ hseg₂ hreg₂ => ?_
  rw [← hreg₂] at heax₁
  refine h.leads_movToSeg hu₂ hat₅ (by decide) heax₁ rfl (Or.inl rfl)
    fun u₃ hat₆ hu₃ hseg₃ hreg₃ => ?_
  rw [← hreg₃] at heax₁
  refine h.leads_movToSeg hu₃ hat₆ (by decide) heax₁ rfl (Or.inl rfl)
    fun u₄ hat₇ hu₄ hseg₄ _ => ?_
  refine hat₇.leads_setReg (fun _ => rfl) fun n₄ hat₈ => ?_
  refine h.leads_movToSeg (hu₄.setEax _ |>.goto n₄) hat₈ (by decide)
    (setWidth_low16 _ kernelStackSelector) rfl (Or.inr rfl) fun u₅ hat₉ hu₅ hseg₅ _ => ?_
  have hseg : u₅.seg =
      Function.update u₄.seg .ss ⟨kernelStackSelector, some (.flat false 0)⟩ := hseg₅
  refine hnext u₅ ⟨?_, ?_, ?_⟩ hat₉
  · have hset : insert 3 (insert 2 (insert 2 (insert 2 (insert 2 (∅ : Finset Nat))))) = {2, 3} := by
      decide
    exact hset ▸ hu₅
  · rintro r (rfl | rfl | rfl | rfl) <;>
      simp [hseg, hseg₄, hseg₃, hseg₂, hseg₁]
  · rw [hseg, Function.update_self]

/-! ### The return -/

/-- `install_gdt` has returned to the address on top of its caller's stack. -/
structure Installed (s : Cpu) (esp depth stackShift gdtShift : Nat) (t : Cpu) : Prop where
  related : Related (touched esp depth stackShift gdtShift) s t
  eip_eq : t.eip = s.mem.load32 (esp - stackShift)
  esp_eq : t.reg .esp = s.reg .esp + 4
  gdtr_eq : t.gdtr = ⟨BitVec.ofNat 32 gdtBase, 55⟩
  code : t.seg .cs = ⟨kernelCodeSelector, some (.flat true 0)⟩
  data : ∀ r, r = .ds ∨ r = .es ∨ r = .fs ∨ r = .gs →
    t.seg r = ⟨kernelDataSelector, some (.flat false 0)⟩
  stack : t.seg .ss = ⟨kernelStackSelector, some (.flat false 0)⟩
  table : TableAt t.mem (gdtBase - gdtShift) gdtEntryCount (marked {1, 2, 3})

/-- `CS` may be loaded with the kernel's code segment. -/
theorem Related.setCode {W : Set Nat} (h : Related W s t) :
    Related W s
      { t with seg := Function.update t.seg .cs ⟨kernelCodeSelector, some (.flat true 0)⟩ } := by
  have hcs : Function.update t.seg .cs ⟨kernelCodeSelector, some (.flat true 0)⟩ .cs =
      ⟨kernelCodeSelector, some (.flat true 0)⟩ := Function.update_self ..
  have hother : ∀ r, r ≠ .cs →
      Function.update t.seg .cs ⟨kernelCodeSelector, some (.flat true 0)⟩ r = t.seg r :=
    fun r hr => Function.update_of_ne hr ..
  refine ⟨⟨?_, congrArg Segment.hidden hcs, ?_, ?_⟩, h.ctrl_eq, h.interrupts_eq, h.saved,
    h.mem_eq⟩
  · exact congrArg (fun g : Segment => (g.selector.extractLsb' 0 2).toNat) hcs
  · exact (congrArg Segment.hidden (hother .ss (by decide))).trans h.flat.ss_eq
  · exact (congrArg Segment.hidden (hother .ds (by decide))).trans h.flat.ds_eq

/-- The far return loads `CS` and goes to the label. -/
theorem Callable.retf (h : Callable c s writeAt label finish esp depth stackShift gdtShift)
    (ht : Loaded s esp depth stackShift gdtShift t) {u : Cpu}
    (hu : Related (touched esp depth stackShift gdtShift) s u) (hseg : u.seg = t.seg)
    (hgdtr : u.gdtr = t.gdtr) (hesp : (u.reg .esp).toNat = esp - 14)
    (htable : TableAt u.mem (gdtBase - gdtShift) gdtEntryCount (marked {2, 3}))
    (hlabel : u.mem.load32 (esp - 14 - stackShift) = BitVec.ofNat 32 label)
    (hselector : u.mem.load32 (esp - 10 - stackShift) = kernelCodeSelector.setWidth 32)
    (next : U32) :
    ∃ v, exec .retf next u = some (v.goto (BitVec.ofNat 32 label)) ∧
      Related (touched esp depth stackShift gdtShift) s v ∧ (v.reg .esp).toNat = esp - 6 ∧
      v.gdtr = t.gdtr ∧ v.seg = Function.update t.seg .cs
        ⟨kernelCodeSelector, some (.flat true 0)⟩ ∧
      TableAt v.mem (gdtBase - gdtShift) gdtEntryCount (marked {1, 2, 3}) := by
  have hroom := h.room
  have hmax := (h.showsStack hu).hi_le
  have hpop₁ := h.pop hu hesp (by omega) (by omega)
  rw [hlabel, show esp - 14 + 4 = esp - 10 by omega] at hpop₁
  have hu₁ := hu.setReg (r := .esp) (by decide) (BitVec.ofNat 32 (esp - 10))
  have hesp₁ : ((u.setReg .esp (BitVec.ofNat 32 (esp - 10))).reg .esp).toNat = esp - 10 := by
    rw [Cpu.reg_setReg_self, BitVec.toNat_ofNat]
    omega
  have hpop₂ := h.pop hu₁ hesp₁ (by omega) (by omega)
  rw [show (u.setReg .esp (BitVec.ofNat 32 (esp - 10))).mem = u.mem from rfl, hselector,
    show esp - 10 + 4 = esp - 6 by omega] at hpop₂
  have hu₂ := hu₁.setReg (r := .esp) (by decide) (BitVec.ofNat 32 (esp - 6))
  have hesp₂ : (((u.setReg .esp (BitVec.ofNat 32 (esp - 10))).setReg .esp
      (BitVec.ofNat 32 (esp - 6))).reg .esp).toNat = esp - 6 := by
    rw [Cpu.reg_setReg_self, BitVec.toNat_ofNat]
    omega
  have hcode := decode_marked_code {2, 3}
  have hindex : kernelCodeSelector.toNat = 8 * 1 := rfl
  obtain ⟨mem', hload, htable', hrel⟩ := h.loadSegment (r := .cs) hu₂
    (hgdtr.trans ht.loading.gdtr_eq) htable hindex (by decide) (by decide) (by rw [hcode]; rfl)
  rw [hcode] at hload
  refine ⟨_, ?_, hrel.setCode, hesp₂, hgdtr, ?_, htable'⟩
  · have hwidth : (kernelCodeSelector.setWidth 32 : U32).setWidth 16 = kernelCodeSelector := by
      decide
    rw [exec, hpop₁]
    simp only [Option.bind_eq_bind, Option.bind_some, hpop₂, hwidth, hload]
    rfl
  · rw [← hseg]
    rfl

/-- The return address was not touched. -/
theorem Callable.returnAddress
    (h : Callable c s writeAt label finish esp depth stackShift gdtShift)
    (ht : Related (touched esp depth stackShift gdtShift) s t) :
    t.mem.load32 (esp - stackShift) = s.mem.load32 (esp - stackShift) := by
  have hroom := h.room
  have hshift := (h.showsStack ht).shift_le
  refine Memory.load32_congr fun x hlo hhi => ht.mem_eq ?_
  rintro (⟨hx, hx'⟩ | ⟨_, hx'⟩)
  · exact h.apart x hx hx' ⟨by omega, by omega⟩
  · omega

theorem Callable.leads_installed
    (h : Callable c s writeAt label finish esp depth stackShift gdtShift)
    (ht : Loaded s esp depth stackShift gdtShift t)
    (hat : t.At c ((installGdtEntry (.ofNat 32 writeAt) (.ofNat 32 label)).drop 14) label) :
    Leads (Step E known) (Installed s esp depth stackShift gdtShift) t := by
  have hroom := h.room
  have hstack := h.showsStack ht.loading.related
  have hshift := hstack.shift_le
  have hmax := hstack.hi_le
  -- The code selector and the address of the label, for the far return.
  obtain ⟨t₁, hpush₁, hrel₁, ht₁⟩ := h.push ht.loading.related
    (a := esp - 10) (by rw [ht.loading.esp_eq]; omega) (by omega) (by omega)
    (kernelCodeSelector.setWidth 32)
  refine hat.leads_goto t₁ (fun _ => by simp [exec, hpush₁]) (h.seenBy hrel₁) fun n₁ hat₁ => ?_
  refine hat₁.leads_setReg (fun _ => rfl) fun n₂ hat₂ => ?_
  have hrel₂ := ((hrel₁.goto n₁).setReg (r := .eax) (by decide) (BitVec.ofNat 32 label)).goto n₂
  obtain ⟨t₃, hpush₃, hrel₃, ht₃⟩ := h.push hrel₂ (a := esp - 14)
    (ht₁.esp_eq.trans (by omega)) (by omega) (by omega) (BitVec.ofNat 32 label)
  refine hat₂.leads_goto t₃ (fun _ => ?_) (h.seenBy hrel₃) fun n₃ hat₃ => ?_
  · exact congrArg (Option.map _) hpush₃
  have hmem : t₃.mem =
      (t.mem.store32 (esp - 10 - stackShift) (kernelCodeSelector.setWidth 32)).store32
        (esp - 14 - stackShift) (BitVec.ofNat 32 label) := by
    rw [ht₃.mem_eq, ← ht₁.mem_eq]
    rfl
  have htable₃ : TableAt t₃.mem (gdtBase - gdtShift) gdtEntryCount (marked {2, 3}) := by
    refine ht.loading.table.congr fun x hlo hhi => ?_
    have hapart := h.apart x hlo hhi
    rw [hmem, Memory.store32_eqOn _ _ _ (fun hin => hapart ⟨?_, ?_⟩),
      Memory.store32_eqOn _ _ _ (fun hin => hapart ⟨?_, ?_⟩)]
    all_goals
      rw [Set.mem_Ico] at hin
      omega
  refine hat₃.leads fun next _ => ?_
  obtain ⟨v, hexec, hrelv, hespv, hgdtrv, hsegv, htablev⟩ := h.retf ht (hrel₃.goto n₃)
    (ht₃.seg_eq.trans ht₁.seg_eq) (ht₃.gdtr_eq.trans ht₁.gdtr_eq) ht₃.esp_eq htable₃
    (by rw [Cpu.mem_goto, hmem, Memory.load32_store32_self])
    (by rw [Cpu.mem_goto, hmem, Memory.load32_store32_of_disjoint _ _ (by omega),
      Memory.load32_store32_self]) next
  refine ⟨_, hexec, ?_⟩
  -- Behind the label: the operand of `lgdt` goes, and the caller's return address is on top.
  have hlabel : (BitVec.ofNat 32 label).toNat = label := by
    have hend := c.hi_lt
    have hle := h.exit.listing.le
    have hhi := h.exit.le_hi
    rw [BitVec.toNat_ofNat]
    omega
  have hat₄ : (v.goto (BitVec.ofNat 32 label)).At c installGdtExit finish :=
    ⟨h.seenBy (hrelv.goto _), by rw [Cpu.eip_goto, hlabel]; exact h.exit⟩
  refine hat₄.leads_setReg (fun _ => rfl) fun n₅ hat₅ => ?_
  refine hat₅.leads fun next' _ => ?_
  have hrel₅ := ((hrelv.goto (BitVec.ofNat 32 label)).setReg (r := .esp) (by decide)
    (v.reg .esp + 6)).goto n₅
  have hesp₅ : (v.reg .esp + 6).toNat = esp := by
    refine (toNat_add_ofNat (k := 6) ?_).trans ?_
    · rw [hespv]
      omega
    · rw [hespv]
      omega
  have hpop := h.pop hrel₅ hesp₅ (by omega) le_rfl
  rw [h.returnAddress hrel₅] at hpop
  refine ⟨_, by rw [exec]; exact congrArg (· >>= _) hpop, .here ?_⟩
  have hespEq : BitVec.ofNat 32 (esp + 4) = s.reg .esp + 4 := by
    apply BitVec.eq_of_toNat_eq
    rw [BitVec.toNat_add, h.esp_eq, BitVec.toNat_ofNat]
    rfl
  refine ⟨(hrel₅.setReg (by decide) _).goto _, rfl, hespEq, hgdtrv.trans ht.loading.gdtr_eq, ?_, ?_,
    ?_, htablev⟩
  · exact (congrFun hsegv .cs).trans (Function.update_self ..)
  · rintro r hr
    have hne : r ≠ .cs := by rintro rfl; simp at hr
    exact (congrFun hsegv r).trans ((Function.update_of_ne hne ..).trans (ht.data r hr))
  · exact (congrFun hsegv .ss).trans ((Function.update_of_ne (by decide) ..).trans ht.stack)

/-- The whole run of `install_gdt`. -/
theorem Callable.leads (h : Callable c s writeAt label finish esp depth stackShift gdtShift) :
    Leads (Step E known) (Installed s esp depth stackShift gdtShift) s :=
  h.leads_writeGdt fun _ ht =>
    h.leads_written ht fun _ hu =>
      h.leads_loaded hu fun _ hv hat => h.leads_installed hv hat

end InstallGdt

end Zkrnl32.Gdt
