import Zkrnl32.Gdt

/-!
# The Boot Stub

Model of `boot/boot.asm`: the way from the Multiboot loader to `kernel_main`.

The stub starts with paging off, at its physical address.  It turns paging on while it runs, goes
to the high half, sets up a stack there and has `install_gdt` replace the loader's segments.

- `startListing`, `higherHalfListing`, `hangListing`: the source, label by label.
- `Image`: the linked image is in memory: the listings, and the bootstrap directory.
- `Entered`: the machine state that a Multiboot loader hands over.
- `boot_enters_kernel_main`: every run of the stub arrives at `kernel_main`, with the loader's magic
  and information pointer as its arguments, and only the GDT and the stack have changed.
- `parked_forever`: behind `kernel_main` the processor stays parked.

The accessed and dirty bits that a processor sets in paging entries are not modelled, so what is
said about unchanged memory leaves them out.
-/

namespace Zkrnl32.Boot

open Zkrnl32.Machine Zkrnl32.Memory Zkrnl32.Gdt
open Zkrnl32.Memory.Paging (PageDirectory)

/-! ## The listings -/

/-- The addresses that the linker gives to the labels of the stub, to the ends of its listings and
    to the symbols it refers to. -/
structure Symbols where
  start : Nat
  startEnd : Nat
  higherHalf : Nat
  hang : Nat
  higherHalfEnd : Nat
  installGdt : Nat
  installGdtLabel : Nat
  installGdtEnd : Nat
  writeGdt : Nat
  kernelMain : Nat
  /-- `BOOT_PAGE_DIRECTORY`. -/
  directory : Nat

/-- `_start`, in `.boot.text`. -/
def startListing (sym : Symbols) : List Instr :=
  [.mov .esi .eax,
   .movImm .eax (BitVec.ofNat 32 sym.directory), .movToCtrl .cr3 .eax,
   .movFromCtrl .eax .cr4, .orImm .eax ((1 : U32) <<< 4), .movToCtrl .cr4 .eax,
   .movFromCtrl .eax .cr0, .orImm .eax ((1 : U32) <<< 31), .movToCtrl .cr0 .eax,
   .movImm .ecx (BitVec.ofNat 32 sym.higherHalf), .jmpReg .ecx]

/-- `higher_half`, in `.text`. -/
def higherHalfListing (k : LinkedLayout) (sym : Symbols) : List Instr :=
  [.movImm .esp (BitVec.ofNat 32 k.stackTop),
   .subImm .esp 8, .push .ebx, .push .esi,
   .call (BitVec.ofNat 32 sym.installGdt),
   .call (BitVec.ofNat 32 sym.kernelMain),
   .cli]

/-- `.hang`. -/
def hangListing (sym : Symbols) : List Instr := [.hlt, .jmp (BitVec.ofNat 32 sym.hang)]

/-! ## The image in memory -/

/-- The functions that are known by their contract: `write_gdt`, compiled to use `depth` bytes of
    stack. -/
def Symbols.known (sym : Symbols) (depth : Nat) (a : Nat) : Option Contract :=
  if a = sym.writeGdt then some (Cdecl depth Gdt.writeGdt) else none

/-- What lies at the link addresses of `.boot`: they are physical addresses. -/
def lowView (mem : Memory) (v : Nat) : Option U8 := some (mem v)

/-- What lies at the link addresses of the high half. -/
def highView (mem : Memory) (v : Nat) : Option U8 := some (mem (v - kernelVirtualBase))

/-- The linked image is in physical memory, within the first 4 MiB. -/
structure Image (E : Encoding) (p : Profile) (k : LinkedLayout) (sym : Symbols) (mem : Memory) :
    Prop where
  end_le : k.physEnd ≤ 0x400000
  start : E.Listing (lowView mem) sym.start (startListing sym) sym.startEnd
  start_hi : sym.startEnd + kernelVirtualBase ≤ k.virtStart
  higherHalf : E.Listing (highView mem) sym.higherHalf (higherHalfListing k sym) sym.hang
  hang : E.Listing (highView mem) sym.hang (hangListing sym) sym.higherHalfEnd
  higherHalf_lo : k.virtStart ≤ sym.higherHalf
  higherHalf_hi : sym.higherHalfEnd ≤ k.dataStart
  installGdt : E.Listing (highView mem) sym.installGdt
    (installGdtEntry (.ofNat 32 sym.writeGdt) (.ofNat 32 sym.installGdtLabel)) sym.installGdtLabel
  installGdt_exit : E.Listing (highView mem) sym.installGdtLabel installGdtExit sym.installGdtEnd
  installGdt_lo : k.virtStart ≤ sym.installGdt
  installGdt_hi : sym.installGdtEnd ≤ k.dataStart
  writeGdt_mem : k.virtStart ≤ sym.writeGdt ∧ sym.writeGdt < k.dataStart
  writeGdt_apart : ¬ (sym.higherHalf ≤ sym.writeGdt ∧ sym.writeGdt < sym.higherHalfEnd) ∧
    ¬ (sym.installGdt ≤ sym.writeGdt ∧ sym.writeGdt < sym.installGdtEnd)
  directory_aligned : 4096 ∣ sym.directory
  directory_lo : k.physStart ≤ sym.directory
  directory_hi : sym.directory + 4096 + kernelVirtualBase ≤ k.virtStart
  directory : ∃ pd, PageDirectory.bootstrap p = .ok pd ∧
    ∀ (i : Nat) (h : i < 1024), mem.load32 (sym.directory + 4 * i) = pd[i].raw

/-- The machine state of the Multiboot hand-off: the magic in `EAX`, the information pointer in
    `EBX`, flat 32-bit segments, protection on, paging off. -/
structure Entered (sym : Symbols) (magic info : U32) (s : Cpu) : Prop where
  flat : s.Flat
  eip_eq : s.eip = BitVec.ofNat 32 sym.start
  eax_eq : s.reg .eax = magic
  ebx_eq : s.reg .ebx = info
  protection : (s.ctrl .cr0).getLsbD 0 = true
  paging : (s.ctrl .cr0).getLsbD 31 = false
  pae : (s.ctrl .cr4).getLsbD 5 = false

/-- The physical bytes that the stub may change: the GDT and the boot stack. -/
def stubBytes (k : LinkedLayout) : Set Nat :=
  Set.Ico gdtBase (gdtBase + gdtSize) ∪
    Set.Ico (k.stackBottom - kernelVirtualBase) (k.stackTop - kernelVirtualBase)

/-! ## Paging by the bootstrap directory -/

/-- The control registers once the stub has turned paging on. -/
def pagedCtrl (sym : Symbols) (s : Cpu) : CtrlReg → U32
  | .cr0 => s.ctrl .cr0 ||| (1 : U32) <<< 31
  | .cr3 => BitVec.ofNat 32 sym.directory
  | .cr4 => s.ctrl .cr4 ||| (1 : U32) <<< 4

section Paged

variable {E : Encoding} {p : Profile} {k : LinkedLayout} {sym : Symbols} {magic info : U32}
  {depth : Nat} {s t : Cpu}

theorem Image.bounds {mem : Memory} (h : Image E p k sym mem) :
    k.physStart = 0x200000 ∧ k.physStart + 0xC0000000 ≤ k.virtStart ∧ k.virtStart ≤ k.dataStart ∧
      k.dataStart + 4096 ≤ k.stackBottom ∧ k.stackTop = k.stackBottom + 65536 ∧
      k.stackTop ≤ 0xC0400000 ∧ 4096 ∣ k.stackBottom := by
  have hend := h.end_le
  have hload := k.loaded_at
  have hphys := k.phys_le_virt
  have hguard := k.data_le_guard
  have hstack := k.stack_le_end
  have hvd := k.virt_le_data
  obtain ⟨g, hg⟩ := k.stackGuard_aligned
  have hbottom : k.stackBottom = k.stackGuard + 4096 := rfl
  have htop : k.stackTop = k.stackBottom + 65536 := rfl
  simp only [KernelLayout.physEnd, kernelVirtualBase_eq, kernelLma] at hend hload hphys
  exact ⟨hload, hphys, hvd, by omega, htop, by omega, ⟨g + 1, by omega⟩⟩

/-- Both views of the first 4 MiB, while the bootstrap directory is loaded and unchanged. -/
theorem Image.shows (h : Image E p k sym s.mem) (hs : Entered sym magic info s)
    (hctrl : t.ctrl = pagedCtrl sym s) (hmem : Set.EqOn t.mem s.mem (stubBytes k)ᶜ) :
    t.Shows 0 0x400000 0 ∧
      t.Shows kernelVirtualBase (kernelVirtualBase + 0x400000) kernelVirtualBase := by
  obtain ⟨hload, hphys, hvd, hbottom, htop, hend, -⟩ := h.bounds
  have hlo := h.directory_lo
  have hhi := h.directory_hi
  obtain ⟨d, hd⟩ := h.directory_aligned
  obtain ⟨pd, hpd, hentries⟩ := h.directory
  obtain ⟨pd', hpd', hboot⟩ := Paging.bootstrap_translate p
  obtain rfl : pd = pd' := Except.ok.inj (hpd.symm.trans hpd')
  simp only [kernelVirtualBase_eq] at hhi
  -- The stub does not write to the directory.
  have hentry : ∀ i, i < 1024 → t.mem.entry (sym.directory / 4096) i = s.mem.load32
      (sym.directory + 4 * i) := by
    intro i hi
    rw [Memory.entry, show 4096 * (sym.directory / 4096) + 4 * i = sym.directory + 4 * i by omega]
    refine Memory.load32_congr fun x hx hx' => hmem ?_
    have hgdt : gdtBase + gdtSize ≤ 0x1000 := by decide
    rintro (⟨_, hx₂⟩ | ⟨hx₁, _⟩)
    · omega
    · rw [kernelVirtualBase_eq] at hx₁
      omega
  have hcr3 : (pagedCtrl sym s .cr3).toNat / 4096 = sym.directory / 4096 := by
    rw [pagedCtrl, BitVec.toNat_ofNat, Nat.mod_eq_of_lt (by omega)]
  have hpg : (pagedCtrl sym s .cr0).getLsbD 31 = true := by
    simp [pagedCtrl]
  have hpae : (pagedCtrl sym s .cr4).getLsbD 5 = false := by
    rw [pagedCtrl, BitVec.getLsbD_or, hs.pae]
    rfl
  have hpse : (pagedCtrl sym s .cr4).getLsbD 4 = true := by
    simp [pagedCtrl]
  have hwalk : ∀ v, v / 2 ^ 22 = 0 ∨ v / 2 ^ 22 = 768 →
      walk true t.mem (sym.directory / 4096) v = some ⟨v % 2 ^ 22, true, false⟩ := by
    intro v hv
    have hslot : v / 2 ^ 22 < 1024 := by omega
    have hget : pd[v / 2 ^ 22]? = some pd[v / 2 ^ 22] := getElem?_pos pd _ hslot
    have hwalk := hboot t.mem v hv
    rw [PageDirectory.translate, hget, Option.bind_some] at hwalk
    rw [walk, hentry _ hslot, hentries _ hslot, hwalk]
  have htranslate : ∀ v, v / 2 ^ 22 = 0 ∨ v / 2 ^ 22 = 768 → ∀ kind,
      t.translate kind false v = some (v % 2 ^ 22) := by
    intro v hv kind
    rw [Cpu.translate, hctrl, hpg, hpae, hpse, hcr3, hwalk v hv]
    simp
  constructor
  · refine ⟨le_rfl, by norm_num, fun v _ hv kind => ?_⟩
    rw [htranslate v (Or.inl (by omega)), Nat.mod_eq_of_lt (by omega), Nat.sub_zero]
  · refine ⟨le_rfl, by rw [kernelVirtualBase_eq]; norm_num, fun v hv hv' kind => ?_⟩
    rw [kernelVirtualBase_eq] at hv hv' ⊢
    have hlow : v % 2 ^ 22 = v - 0xC0000000 := by omega
    rw [htranslate v (Or.inr (by omega)), hlow]

/-- The state of the stub in the high half: paging is on, and only the GDT and the stack have
    changed. -/
structure Paged (k : LinkedLayout) (sym : Symbols) (s t : Cpu) : Prop where
  flat : t.Flat
  ctrl_eq : t.ctrl = pagedCtrl sym s
  interrupts_eq : t.interrupts = s.interrupts
  mem_eq : Set.EqOn t.mem s.mem (stubBytes k)ᶜ

theorem Paged.congr (h : Paged k sym s t) {u : Cpu} (hseg : u.seg = t.seg) (hctrl : u.ctrl = t.ctrl)
    (hinterrupts : u.interrupts = t.interrupts) (hmem : Set.EqOn u.mem t.mem (stubBytes k)ᶜ) :
    Paged k sym s u :=
  ⟨h.flat.congr hseg, hctrl.trans h.ctrl_eq, hinterrupts.trans h.interrupts_eq,
    hmem.trans h.mem_eq⟩

theorem Paged.setReg (h : Paged k sym s t) (r : Reg) (v : U32) : Paged k sym s (t.setReg r v) :=
  h.congr rfl rfl rfl fun _ _ => rfl

theorem Paged.goto (h : Paged k sym s t) (target : U32) : Paged k sym s (t.goto target) :=
  h.congr rfl rfl rfl fun _ _ => rfl

/-- Code of the high half is seen in every such state. -/
theorem Image.seenBy (h : Image E p k sym s.mem) (hs : Entered sym magic info s)
    {known : Nat → Option Contract} {c : Code E known} (hview : c.view = highView s.mem)
    (hlo : k.virtStart ≤ c.lo) (hhi : c.hi ≤ k.dataStart) (hflat : t.Flat)
    (hctrl : t.ctrl = pagedCtrl sym s) (hmem : Set.EqOn t.mem s.mem (stubBytes k)ᶜ) :
    c.SeenBy t := by
  obtain ⟨hload, hphys, hvd, hbottom, htop, hend, -⟩ := h.bounds
  have hbase := kernelVirtualBase_eq
  have hgdt : gdtBase + gdtSize ≤ 0x1000 := by decide
  intro x hx hx'
  have hout : x - kernelVirtualBase ∈ (stubBytes k)ᶜ := by
    rintro (⟨_, hx₂⟩ | ⟨hx₁, _⟩)
    · omega
    · omega
  rw [Cpu.codeByte_flat hflat (h.shows hs hctrl hmem).2 (by omega) (by omega), hmem hout, hview,
    highView]

/-- A push on the boot stack. -/
theorem Image.push (h : Image E p k sym s.mem) (hs : Entered sym magic info s)
    (ht : Paged k sym s t) {a : Nat} (hesp : (t.reg .esp).toNat = a + 4) (hlo : k.stackBottom ≤ a)
    (hhi : a + 4 ≤ k.stackTop) (v : U32) :
    ∃ u, t.push v = some u ∧ Paged k sym s u ∧ Cpu.Pushed kernelVirtualBase a v t u := by
  obtain ⟨hload, hphys, hvd, hbottom, htop, hend, -⟩ := h.bounds
  have hbase := kernelVirtualBase_eq
  have hshows := (h.shows hs ht.ctrl_eq ht.mem_eq).2
  obtain ⟨u, hpush, hu⟩ := Cpu.push_flat ht.flat hshows hesp (by omega) (by omega) v
  refine ⟨u, hpush, ht.congr hu.seg_eq hu.ctrl_eq hu.interrupts_eq ?_, hu⟩
  rw [hu.mem_eq]
  refine (t.mem.store32_eqOn _ v).mono (Set.compl_subset_compl.mpr fun x hx => Or.inr ?_)
  rw [Set.mem_Ico] at hx ⊢
  omega

/-! ## From the loader to the high half -/

/-- The stretch of `.boot.text`. -/
def startCode (h : Image E p k sym s.mem) (depth : Nat) : Code E (sym.known depth) where
  view := lowView s.mem
  lo := sym.start
  hi := sym.startEnd
  hi_lt := by
    obtain ⟨hload, hphys, hvd, hbottom, htop, hend, -⟩ := h.bounds
    have hhi := h.start_hi
    omega
  unknown := by
    intro a _ ha
    have hhi := h.start_hi
    have hlo := h.writeGdt_mem.1
    rw [Symbols.known, if_neg (by omega)]

theorem startCode_seenBy (h : Image E p k sym s.mem) (hflat : t.Flat) (hmem : t.mem = s.mem)
    (hshows : t.Shows 0 0x400000 0) : (startCode h depth).SeenBy t := by
  obtain ⟨hload, hphys, hvd, hbottom, htop, hend, -⟩ := h.bounds
  have hhi := h.start_hi
  rw [kernelVirtualBase_eq] at hhi
  intro x hx hx'
  have hlt : x < sym.startEnd := hx'
  rw [Cpu.codeByte_flat hflat hshows (Nat.zero_le x) (by omega), hmem]
  rfl

/-- While `_start` runs: the magic is saved, and the control registers are `ctrl`. -/
structure Starting (magic info : U32) (s : Cpu) (ctrl : CtrlReg → U32) (t : Cpu) : Prop where
  flat : t.Flat
  ctrl_eq : t.ctrl = ctrl
  interrupts_eq : t.interrupts = s.interrupts
  mem_eq : t.mem = s.mem
  esi_eq : t.reg .esi = magic
  ebx_eq : t.reg .ebx = info

theorem Starting.setReg {ctrl : CtrlReg → U32} (h : Starting magic info s ctrl t) {r : Reg}
    (hr : r ≠ .esi ∧ r ≠ .ebx) (v : U32) : Starting magic info s ctrl (t.setReg r v) where
  flat := h.flat.congr rfl
  ctrl_eq := h.ctrl_eq
  interrupts_eq := h.interrupts_eq
  mem_eq := h.mem_eq
  esi_eq := (Cpu.reg_setReg_of_ne hr.1.symm v t).trans h.esi_eq
  ebx_eq := (Cpu.reg_setReg_of_ne hr.2.symm v t).trans h.ebx_eq

theorem Starting.goto {ctrl : CtrlReg → U32} (h : Starting magic info s ctrl t) (target : U32) :
    Starting magic info s ctrl (t.goto target) :=
  ⟨h.flat.congr rfl, h.ctrl_eq, h.interrupts_eq, h.mem_eq, h.esi_eq, h.ebx_eq⟩

theorem Starting.setCtrl {ctrl : CtrlReg → U32} (h : Starting magic info s ctrl t) (r : CtrlReg)
    {src : Reg} {v : U32} (hv : t.reg src = v) :
    Starting magic info s (Function.update ctrl r v)
      { t with ctrl := Function.update t.ctrl r (t.reg src) } := by
  refine ⟨h.flat.congr rfl, ?_, h.interrupts_eq, h.mem_eq, h.esi_eq, h.ebx_eq⟩
  rw [h.ctrl_eq, hv]

/-- `mov eax, crN` and `or eax, mask`. -/
theorem Starting.leads_orCtrl {ctrl : CtrlReg → U32} {known : Nat → Option Contract}
    {c : Code E known} {P : Cpu → Prop} (h : Starting magic info s ctrl t) {r : CtrlReg}
    {mask : U32} {is : List Instr} {e : Nat}
    (hat : t.At c (.movFromCtrl .eax r :: .orImm .eax mask :: is) e)
    (hnext : ∀ u, Starting magic info s ctrl u → u.reg .eax = ctrl r ||| mask → u.At c is e →
      Leads (Step E known) P u) : Leads (Step E known) P t := by
  refine hat.leads_setReg (fun n => Cpu.exec_movFromCtrl h.flat.cpl_eq _ _ n) fun n₁ hat₁ => ?_
  refine hat₁.leads_setReg (fun _ => rfl) fun n₂ hat₂ => ?_
  refine hnext _ (((h.setReg (by decide) _).goto n₁).setReg (by decide) _ |>.goto n₂) ?_ hat₂
  rw [Cpu.reg_goto, Cpu.reg_setReg_self, Cpu.reg_goto, Cpu.reg_setReg_self, h.ctrl_eq]

/-- Nothing is translated as long as `CR0` is not written. -/
theorem Starting.seenBy {ctrl : CtrlReg → U32} (h : Image E p k sym s.mem)
    (ht : Starting magic info s ctrl t) (hcr0 : (ctrl .cr0).getLsbD 31 = false) :
    (startCode h depth).SeenBy t := by
  refine startCode_seenBy h ht.flat ht.mem_eq (Cpu.shows_of_paging_off ?_ (by norm_num))
  rw [ht.ctrl_eq, hcr0]

/-- The registers `CR3`, `CR4` and `CR0`, in the order in which `_start` loads them. -/
theorem update_eq_pagedCtrl (sym : Symbols) (s : Cpu) :
    Function.update (Function.update (Function.update s.ctrl .cr3 (BitVec.ofNat 32 sym.directory))
      .cr4 (s.ctrl .cr4 ||| (1 : U32) <<< 4)) .cr0 (s.ctrl .cr0 ||| (1 : U32) <<< 31) =
        pagedCtrl sym s := by
  funext r
  cases r <;> simp [pagedCtrl]

/-- The first part of `_start`: the tables are named, and nothing is translated yet. -/
theorem leads_paging (h : Image E p k sym s.mem) (hs : Entered sym magic info s) {P : Cpu → Prop}
    (hnext : ∀ t, Starting magic info s (Function.update (Function.update s.ctrl .cr3
        (BitVec.ofNat 32 sym.directory)) .cr4 (s.ctrl .cr4 ||| (1 : U32) <<< 4)) t →
      t.At (startCode h depth) ((startListing sym).drop 6) sym.startEnd →
      Leads (Step E (sym.known depth)) P t) : Leads (Step E (sym.known depth)) P s := by
  obtain ⟨hload, hphys, hvd, hbottom, htop, hend, -⟩ := h.bounds
  have hhi := h.start_hi
  have hle := h.start.le
  have hoff : s.Shows 0 0x400000 0 := Cpu.shows_of_paging_off hs.paging (by norm_num)
  have hat : s.At (startCode h depth) (startListing sym) sym.startEnd := by
    refine ⟨startCode_seenBy h hs.flat rfl hoff, ?_, ?_, le_rfl⟩
    all_goals
      rw [hs.eip_eq, BitVec.toNat_ofNat, Nat.mod_eq_of_lt (by omega)]
    · exact h.start
    · exact le_rfl
  refine hat.leads_setReg (fun _ => rfl) fun n₁ hat₁ => ?_
  have h₁ : Starting magic info s s.ctrl ((s.setReg .esi (s.reg .eax)).goto n₁) :=
    ⟨hs.flat.congr rfl, rfl, rfl, rfl, hs.eax_eq, hs.ebx_eq⟩
  -- `CR3`.
  refine hat₁.leads_setReg (fun _ => rfl) fun n₂ hat₂ => ?_
  have h₂ := (h₁.setReg (r := .eax) (by decide) (BitVec.ofNat 32 sym.directory)).goto n₂
  have hdir : (((((s.setReg .esi (s.reg .eax)).goto n₁).setReg .eax
      (BitVec.ofNat 32 sym.directory)).goto n₂).reg .eax) = BitVec.ofNat 32 sym.directory := rfl
  have h₃ := h₂.setCtrl .cr3 hdir
  refine hat₂.leads_goto _ (fun n => Cpu.exec_movToCtrl h₂.flat.cpl_eq (by simp) n)
    (h₃.seenBy h hs.paging) fun n₃ hat₃ => ?_
  -- `CR4`.
  refine (h₃.goto n₃).leads_orCtrl hat₃ fun t h₄ heax hat₄ => ?_
  have h₅ := h₄.setCtrl .cr4 heax
  refine hat₄.leads_goto _ (fun n => Cpu.exec_movToCtrl h₄.flat.cpl_eq (by simp) n)
    (h₅.seenBy h hs.paging) fun n₅ hat₅ => ?_
  exact hnext _ (h₅.goto n₅) hat₅

/-- `_start`: the magic is saved, paging is on, and the processor is in the high half. -/
theorem leads_higherHalf (h : Image E p k sym s.mem) (hs : Entered sym magic info s)
    {P : Cpu → Prop}
    (hnext : ∀ t, Paged k sym s t → t.mem = s.mem → t.eip = BitVec.ofNat 32 sym.higherHalf →
      t.reg .esi = magic → t.reg .ebx = info → Leads (Step E (sym.known depth)) P t) :
    Leads (Step E (sym.known depth)) P s := by
  refine leads_paging h hs fun t ht hat => ?_
  refine ht.leads_orCtrl hat fun t₁ h₁ heax hat₁ => ?_
  have hprotected : (t₁.reg .eax).getLsbD 0 = true := by
    rw [heax, BitVec.getLsbD_or]
    exact (congrArg (· || _) hs.protection).trans (Bool.true_or _)
  have h₂ := h₁.setCtrl .cr0 heax
  rw [show (Function.update (Function.update s.ctrl .cr3 (BitVec.ofNat 32 sym.directory)) .cr4
    (s.ctrl .cr4 ||| (1 : U32) <<< 4)) .cr0 = s.ctrl .cr0 from rfl, update_eq_pagedCtrl] at h₂
  -- From the next fetch on every address is translated; this code is mapped at its own address.
  have hshows := (h.shows hs h₂.ctrl_eq fun _ _ => congrFun h₂.mem_eq _).1
  refine hat₁.leads_goto _ (fun n => Cpu.exec_movToCtrl h₁.flat.cpl_eq (by simp [hprotected]) n)
    (startCode_seenBy h h₂.flat h₂.mem_eq hshows) fun n₂ hat₂ => ?_
  refine hat₂.leads_setReg (fun _ => rfl) fun n₃ hat₃ => ?_
  have h₃ := (h₂.goto n₂).setReg (r := .ecx) (by decide) (BitVec.ofNat 32 sym.higherHalf) |>.goto n₃
  refine hat₃.leads fun next _ => ⟨_, rfl, hnext _ ?_ h₃.mem_eq ?_ h₃.esi_eq h₃.ebx_eq⟩
  · exact ⟨h₃.flat.congr rfl, h₃.ctrl_eq, h₃.interrupts_eq, fun _ _ => congrFun h₃.mem_eq _⟩
  · rfl

/-! ## From the high half to `kernel_main` -/

/-- A stretch of `.text` without `write_gdt`. -/
def textCode (h : Image E p k sym s.mem) (depth lo hi : Nat) (hhi : hi ≤ k.dataStart)
    (hapart : ¬ (lo ≤ sym.writeGdt ∧ sym.writeGdt < hi)) : Code E (sym.known depth) where
  view := highView s.mem
  lo := lo
  hi := hi
  hi_lt := by
    obtain ⟨hload, hphys, hvd, hbottom, htop, hend, -⟩ := h.bounds
    omega
  unknown := by
    intro a hlo ha
    rw [Symbols.known, if_neg (by omega)]

/-- What the stub changes while `install_gdt` runs. -/
theorem Image.touched_subset (h : Image E p k sym s.mem) (hdepth : depth + 38 ≤ 65536) :
    touched (k.stackTop - 20) depth kernelVirtualBase 0 ⊆ stubBytes k := by
  obtain ⟨hload, hphys, hvd, hbottom, htop, hend, -⟩ := h.bounds
  have hbase := kernelVirtualBase_eq
  rintro x (hx | ⟨hx, hx'⟩)
  · exact Or.inl hx
  · exact Or.inr ⟨by omega, by omega⟩

/-- `install_gdt` can be called in the high half, with its return address below the arguments of
    `kernel_main`. -/
theorem Image.callable (h : Image E p k sym s.mem) (hs : Entered sym magic info s)
    (hdepth : depth + 38 ≤ 65536) (ht : Paged k sym s t)
    (heip : t.eip = BitVec.ofNat 32 sym.installGdt)
    (hesp : (t.reg .esp).toNat = k.stackTop - 20) :
    Callable (textCode h depth sym.installGdt sym.installGdtEnd h.installGdt_hi h.writeGdt_apart.2)
      t sym.writeGdt sym.installGdtLabel sym.installGdtEnd (k.stackTop - 20) depth
      kernelVirtualBase 0 := by
  obtain ⟨hload, hphys, hvd, hbottom, htop, hend, -⟩ := h.bounds
  have hbase := kernelVirtualBase_eq
  have hgdt : gdtBase + gdtSize ≤ 0x1000 := by decide
  have hle := h.installGdt.le
  have hle' := h.installGdt_exit.le
  have hhi := h.installGdt_hi
  have hlo := h.installGdt_lo
  have hwrite := h.writeGdt_mem
  have hsub : (stubBytes k)ᶜ ⊆ (touched (k.stackTop - 20) depth kernelVirtualBase 0)ᶜ :=
    Set.compl_subset_compl.mpr (h.touched_subset hdepth)
  have heip' : t.eip.toNat = sym.installGdt := by
    rw [heip, BitVec.toNat_ofNat, Nat.mod_eq_of_lt (by omega)]
  have hmem : ∀ mem, Set.EqOn mem t.mem (touched (k.stackTop - 20) depth kernelVirtualBase 0)ᶜ →
      Set.EqOn mem s.mem (stubBytes k)ᶜ := fun mem hmem => (hmem.mono hsub).trans ht.mem_eq
  constructor
  · exact ht.flat
  · exact hesp
  · rw [Symbols.known, if_pos rfl]
  · omega
  · exact ⟨by rw [heip']; exact h.installGdt, heip'.ge, hle'⟩
  · exact ⟨h.installGdt_exit, hle, le_rfl⟩
  · exact fun u hflat hctrl hu =>
      h.seenBy hs rfl hlo hhi hflat (hctrl.trans ht.ctrl_eq) (hmem u.mem hu)
  · omega
  · intro mem hu
    exact (h.shows (t := { t with mem := mem }) hs ht.ctrl_eq (hmem mem hu)).2.mono (by omega)
      (by omega)
  · intro mem hu
    exact (h.shows (t := { t with mem := mem }) hs ht.ctrl_eq (hmem mem hu)).1.mono (Nat.zero_le _)
      (by omega)
  · intro x _ hx hx'
    omega

/-- At the entry of `kernel_main`, called by the C convention. -/
structure KernelEntry (E : Encoding) (k : LinkedLayout) (sym : Symbols) (magic info : U32)
    (s t : Cpu) : Prop where
  eip_eq : t.eip = BitVec.ofNat 32 sym.kernelMain
  /-- The arguments lie at the aligned end of the stack, below 8 bytes of padding. -/
  esp_eq : (t.reg .esp).toNat + 4 = k.stackTop - 16
  esp_aligned : 16 ∣ (t.reg .esp).toNat + 4
  magic_eq : t.stackWord 1 = some magic
  info_eq : t.stackWord 2 = some info
  /-- The return address is that of `cli`. -/
  return_eq : ∃ ret, t.stackWord 0 = some ret ∧ sym.higherHalf ≤ ret.toNat ∧
    E.Listing (highView s.mem) ret.toNat [.cli] sym.hang
  /-- Flat segments of the kernel's own table. -/
  code : t.seg .cs = ⟨kernelCodeSelector, some (.flat true 0)⟩
  data : ∀ r, r = .ds ∨ r = .es ∨ r = .fs ∨ r = .gs →
    t.seg r = ⟨kernelDataSelector, some (.flat false 0)⟩
  stack : t.seg .ss = ⟨kernelStackSelector, some (.flat false 0)⟩
  gdtr_eq : t.gdtr = ⟨BitVec.ofNat 32 gdtBase, 55⟩
  table : TableAt t.mem gdtBase gdtEntryCount (marked {1, 2, 3})
  paged : Paged k sym s t

/-- A word of the boot stack. -/
theorem Image.stackWord (h : Image E p k sym s.mem) (hs : Entered sym magic info s)
    (ht : Paged k sym s t) {i a : Nat} (hesp : (t.reg .esp).toNat + 4 * i = a)
    (hlo : k.stackBottom ≤ a) (hhi : a + 4 ≤ k.stackTop) :
    t.stackWord i = some (t.mem.load32 (a - kernelVirtualBase)) := by
  obtain ⟨hload, hphys, hvd, hbottom, htop, hend, -⟩ := h.bounds
  have hbase := kernelVirtualBase_eq
  have hread := Cpu.read_flat ht.flat.cpl_eq ht.flat.ss_eq (h.shows hs ht.ctrl_eq ht.mem_eq).2
    (show kernelVirtualBase ≤ a by omega) (show a + 4 ≤ kernelVirtualBase + 0x400000 by omega)
  rw [Cpu.stackWord, hesp, hread]
  rfl

/-- The stretch of `higher_half`. -/
abbrev higherHalfCode (h : Image E p k sym s.mem) (depth : Nat) : Code E (sym.known depth) :=
  textCode h depth sym.higherHalf sym.higherHalfEnd h.higherHalf_hi h.writeGdt_apart.1

theorem higherHalfCode_seenBy (h : Image E p k sym s.mem) (hs : Entered sym magic info s)
    (ht : Paged k sym s t) : (higherHalfCode h depth).SeenBy t :=
  h.seenBy hs rfl h.higherHalf_lo h.higherHalf_hi ht.flat ht.ctrl_eq ht.mem_eq

/-- At the entry of `install_gdt`: the arguments of `kernel_main` above the return address, which
    is that of the call of `kernel_main`. -/
structure Framed (h : Image E p k sym s.mem) (depth : Nat) (magic info : U32) (t : Cpu) :
    Prop where
  paged : Paged k sym s t
  eip_eq : t.eip = BitVec.ofNat 32 sym.installGdt
  esp_eq : (t.reg .esp).toNat = k.stackTop - 20
  return_eq : (higherHalfCode h depth).Listed
    (t.mem.load32 (k.stackTop - 20 - kernelVirtualBase)).toNat
    [.call (BitVec.ofNat 32 sym.kernelMain), .cli] sym.hang
  magic_eq : t.mem.load32 (k.stackTop - 16 - kernelVirtualBase) = magic
  info_eq : t.mem.load32 (k.stackTop - 12 - kernelVirtualBase) = info

/-- The stack, with 8 bytes of padding. -/
theorem Paged.leads_stack (h : Image E p k sym s.mem) (ht : Paged k sym s t) {is : List Instr}
    {e : Nat} (hat : t.At (higherHalfCode h depth)
      (.movImm .esp (BitVec.ofNat 32 k.stackTop) :: .subImm .esp 8 :: is) e) {P : Cpu → Prop}
    (hnext : ∀ u, Paged k sym s u → (u.reg .esp).toNat = k.stackTop - 12 + 4 →
      u.reg .esi = t.reg .esi → u.reg .ebx = t.reg .ebx → u.At (higherHalfCode h depth) is e →
      Leads (Step E (sym.known depth)) P u) : Leads (Step E (sym.known depth)) P t := by
  obtain ⟨hload, hphys, hvd, hbottom, htop, hend, -⟩ := h.bounds
  have hesp : (BitVec.ofNat 32 k.stackTop - 8).toNat = k.stackTop - 12 + 4 := by
    have h8 : (8 : U32).toNat = 8 := rfl
    rw [BitVec.toNat_sub, BitVec.toNat_ofNat, h8]
    omega
  refine hat.leads_setReg (fun _ => rfl) fun n₁ hat₁ => ?_
  refine hat₁.leads_setReg (fun _ => rfl) fun n₂ hat₂ => ?_
  refine hnext _ (((ht.setReg .esp _).goto n₁).setReg .esp _ |>.goto n₂) ?_ rfl rfl hat₂
  rw [Cpu.reg_goto, Cpu.reg_setReg_self, Cpu.reg_goto, Cpu.reg_setReg_self, hesp]

/-- `higher_half` up to the entry of `install_gdt`. -/
theorem leads_frame (h : Image E p k sym s.mem) (hs : Entered sym magic info s)
    (ht : Paged k sym s t) (heip : t.eip = BitVec.ofNat 32 sym.higherHalf)
    (hesi : t.reg .esi = magic) (hebx : t.reg .ebx = info) {P : Cpu → Prop}
    (hnext : ∀ u, Framed h depth magic info u → Leads (Step E (sym.known depth)) P u) :
    Leads (Step E (sym.known depth)) P t := by
  obtain ⟨hload, hphys, hvd, hbottom, htop, hend, -⟩ := h.bounds
  have hbase := kernelVirtualBase_eq
  have hle := h.higherHalf.le
  have hle' := h.hang.le
  have hhi := h.higherHalf_hi
  have hat : t.At (higherHalfCode h depth) (higherHalfListing k sym) sym.hang := by
    have heip' : t.eip.toNat = sym.higherHalf := by
      rw [heip, BitVec.toNat_ofNat, Nat.mod_eq_of_lt (by omega)]
    exact ⟨higherHalfCode_seenBy h hs ht, by rw [heip']; exact h.higherHalf, heip'.ge, hle'⟩
  refine ht.leads_stack h hat fun t₂ ht₂ hesp₂ hesi₂ hebx₂ hat₂ => ?_
  -- The arguments, from right to left.
  obtain ⟨t₃, hpush₃, ht₃, hu₃⟩ := h.push hs ht₂ hesp₂ (by omega) (by omega) info
  refine hat₂.leads_goto t₃ (fun _ => ?_) (higherHalfCode_seenBy h hs ht₃) fun n₃ hat₃ => ?_
  · rw [← hebx, ← hebx₂] at hpush₃
    exact congrArg (Option.map _) hpush₃
  obtain ⟨t₄, hpush₄, ht₄, hu₄⟩ := h.push hs (ht₃.goto n₃) (a := k.stackTop - 16)
    (hu₃.esp_eq.trans (by omega)) (by omega) (by omega) magic
  refine hat₃.leads_goto t₄ (fun _ => ?_) (higherHalfCode_seenBy h hs ht₄) fun n₄ hat₄ => ?_
  · have hesi₃ : (t₃.goto n₃).reg .esi = magic :=
      (hu₃.reg_eq .esi (by decide)).trans (hesi₂.trans hesi)
    rw [← hesi₃] at hpush₄
    exact congrArg (Option.map _) hpush₄
  refine hat₄.leads fun next hrest => ?_
  obtain ⟨t₅, hpush₅, ht₅, hu₅⟩ := h.push hs (ht₄.goto n₄) (a := k.stackTop - 20)
    (hu₄.esp_eq.trans (by omega)) (by omega) (by omega) next
  have hmem : t₅.mem = ((t₃.mem.store32 (k.stackTop - 16 - kernelVirtualBase) magic)).store32
      (k.stackTop - 20 - kernelVirtualBase) next := by
    rw [hu₅.mem_eq, Cpu.mem_goto, hu₄.mem_eq, Cpu.mem_goto]
  refine ⟨_, congrArg (Option.map _) hpush₅, hnext _ ⟨ht₅.goto _, rfl, hu₅.esp_eq, ?_, ?_, ?_⟩⟩
  · rw [Cpu.mem_goto, hmem, Memory.load32_store32_self]
    exact hrest
  · rw [Cpu.mem_goto, hmem, Memory.load32_store32_of_disjoint _ _ (by omega),
      Memory.load32_store32_self]
  · rw [Cpu.mem_goto, hmem, Memory.load32_store32_of_disjoint _ _ (by omega),
      Memory.load32_store32_of_disjoint _ _ (by omega), hu₃.mem_eq, Memory.load32_store32_self]

/-- `install_gdt` leaves the arguments of `kernel_main` alone. -/
theorem Image.load32_eq (h : Image E p k sym s.mem) {u : Cpu}
    (hu : Related (touched (k.stackTop - 20) depth kernelVirtualBase 0) t u) {a : Nat}
    (hlo : k.stackTop - 20 ≤ a) (hhi : a + 4 ≤ k.stackTop) :
    u.mem.load32 (a - kernelVirtualBase) = t.mem.load32 (a - kernelVirtualBase) := by
  obtain ⟨hload, hphys, hvd, hbottom, htop, hend, -⟩ := h.bounds
  have hbase := kernelVirtualBase_eq
  have hgdt : gdtBase + gdtSize ≤ 0x1000 := by decide
  refine Memory.load32_congr fun x hx hx' => hu.mem_eq ?_
  rintro (⟨_, hx₂⟩ | ⟨_, hx₂⟩)
  · omega
  · omega

/-- Behind `install_gdt`: the call of `kernel_main`. -/
theorem Framed.leads_kernelMain {h : Image E p k sym s.mem} (hs : Entered sym magic info s)
    (hdepth : depth + 38 ≤ 65536) (ht : Framed h depth magic info t) {u : Cpu}
    (hu : Installed t (k.stackTop - 20) depth kernelVirtualBase 0 u) :
    Leads (Step E (sym.known depth)) (KernelEntry E k sym magic info s) u := by
  obtain ⟨hload, hphys, hvd, hbottom, htop, hend, page, hpage⟩ := h.bounds
  have hbase := kernelVirtualBase_eq
  have hgdt : gdtBase + gdtSize ≤ 0x1000 := by decide
  have hpaged : Paged k sym s u :=
    ⟨hu.related.flat, hu.related.ctrl_eq.trans ht.paged.ctrl_eq,
      hu.related.interrupts_eq.trans ht.paged.interrupts_eq,
      (hu.related.mem_eq.mono (Set.compl_subset_compl.mpr (h.touched_subset hdepth))).trans
        ht.paged.mem_eq⟩
  have hesp : (u.reg .esp).toNat = k.stackTop - 20 + 4 := by
    have h4 : (4 : U32).toNat = 4 := rfl
    rw [hu.esp_eq, BitVec.toNat_add, ht.esp_eq, h4]
    omega
  have hat : u.At (higherHalfCode h depth) [.call (BitVec.ofNat 32 sym.kernelMain), .cli]
      sym.hang :=
    ⟨higherHalfCode_seenBy h hs hpaged, by rw [hu.eip_eq]; exact ht.return_eq⟩
  refine hat.leads fun next hrest => ?_
  obtain ⟨v, hpush, hpagedv, hv⟩ := h.push hs hpaged hesp (by omega) (by omega) next
  have hword : ∀ i, 1 ≤ i → i ≤ 2 → (v.goto (BitVec.ofNat 32 sym.kernelMain)).stackWord i =
      some (t.mem.load32 (k.stackTop - 20 + 4 * i - kernelVirtualBase)) := by
    intro i hi hi'
    rw [h.stackWord hs (hpagedv.goto _) (a := k.stackTop - 20 + 4 * i)
      (by rw [Cpu.reg_goto, hv.esp_eq]) (by omega) (by omega), Cpu.mem_goto, hv.mem_eq,
      Memory.load32_store32_of_disjoint _ _ (by omega),
      h.load32_eq hu.related (by omega) (by omega)]
  refine ⟨_, congrArg (Option.map _) hpush, .here ?_⟩
  constructor
  · rfl
  · rw [Cpu.reg_goto, hv.esp_eq]
    omega
  · rw [Cpu.reg_goto, hv.esp_eq]
    omega
  · rw [hword 1 le_rfl (by omega), show k.stackTop - 20 + 4 * 1 = k.stackTop - 16 by omega,
      ht.magic_eq]
  · rw [hword 2 (by omega) le_rfl, show k.stackTop - 20 + 4 * 2 = k.stackTop - 12 by omega,
      ht.info_eq]
  · refine ⟨next, ?_, hrest.lo_le, hrest.listing⟩
    rw [h.stackWord hs (hpagedv.goto _) (a := k.stackTop - 20)
      (by rw [Cpu.reg_goto, hv.esp_eq, Nat.mul_zero, Nat.add_zero]) (by omega) (by omega),
      Cpu.mem_goto, hv.mem_eq, Memory.load32_store32_self]
  · exact (congrFun hv.seg_eq _).trans hu.code
  · exact fun r hr => (congrFun hv.seg_eq r).trans (hu.data r hr)
  · exact (congrFun hv.seg_eq _).trans hu.stack
  · exact hv.gdtr_eq.trans hu.gdtr_eq
  · refine hu.table.congr fun x hx hx' => ?_
    rw [Cpu.mem_goto, hv.mem_eq]
    refine Memory.store32_eqOn _ _ _ fun hin => ?_
    rw [Set.mem_Ico] at hin
    have hsize : gdtBase - 0 + 8 * gdtEntryCount ≤ 0x1000 := by decide
    omega
  · exact hpagedv.goto _

/-- The stub from its first instruction on. -/
theorem leads_entry (h : Image E p k sym s.mem) (hs : Entered sym magic info s)
    (hdepth : depth + 38 ≤ 65536) {P : Cpu → Prop}
    (hnext : ∀ t, KernelEntry E k sym magic info s t → Leads (Step E (sym.known depth)) P t) :
    Leads (Step E (sym.known depth)) P s := by
  refine leads_higherHalf h hs fun t ht _ heip hesi hebx => ?_
  refine leads_frame h hs ht heip hesi hebx fun u hu => ?_
  refine (h.callable hs hdepth hu.paged hu.eip_eq hu.esp_eq).leads.trans fun v hv => ?_
  exact (hu.leads_kernelMain hs hdepth hv).trans hnext

/-! ## A sample image

The smallest kernel in an encoding with one zero byte for each instruction, and a machine that it is
loaded into. -/

/-- Each instruction is a zero byte; its address tells which one it is. -/
def byAddress (table : Nat → Option Instr) : Encoding where
  decode view a := if view a = some 0 then (table a).map (·, 1) else none
  length_pos := by
    intro view a i n h
    split at h
    · obtain ⟨_, -, heq⟩ := Option.map_eq_some_iff.mp h
      have hn : 1 = n := congrArg Prod.snd heq
      omega
    · simp at h
  decode_congr := by
    intro view view' a i n h hview
    split at h
    · obtain ⟨_, -, heq⟩ := Option.map_eq_some_iff.mp h
      have hn : 1 = n := congrArg Prod.snd heq
      rw [hview a le_rfl (by omega), if_pos (by assumption), h]
    · simp at h

theorem listing_byAddress {table : Nat → Option Instr} {view : Nat → Option U8} (is : List Instr)
    (a : Nat) (hview : ∀ x, a ≤ x → x < a + is.length → view x = some 0)
    (htable : ∀ j < is.length, table (a + j) = is[j]?) :
    (byAddress table).Listing view a is (a + is.length) := by
  induction is generalizing a with
  | nil => rfl
  | cons i is ih =>
    rw [List.length_cons] at hview htable ⊢
    refine ⟨1, ?_, ?_⟩
    · have hi := htable 0 (by omega)
      rw [Nat.add_zero, List.getElem?_cons_zero] at hi
      simp only [byAddress, hview a le_rfl (by omega), if_true, hi, Option.map_some]
    · have hrest := ih (a + 1) (fun x hx hx' => hview x (by omega) (by omega)) fun j hj => by
        rw [Nat.add_assoc, Nat.add_comm 1 j, htable (j + 1) (by omega), List.getElem?_cons_succ]
      rwa [Nat.add_assoc, Nat.add_comm 1] at hrest

/-- The instruction at `x`, if the listing `is` starts at `a`. -/
def placed (a : Nat) (is : List Instr) (x : Nat) : Option Instr :=
  if a ≤ x then is[x - a]? else none

/-- Where the smallest kernel has the code of the stub and its directory. -/
def sampleSymbols : Symbols where
  start := 0x200000
  startEnd := 0x20000B
  higherHalf := 0xC0202000
  hang := 0xC0202007
  higherHalfEnd := 0xC0202009
  installGdt := 0xC0202009
  installGdtLabel := 0xC020201B
  installGdtEnd := 0xC020201D
  writeGdt := 0xC020201D
  kernelMain := 0xC020201E
  directory := 0x201000

/-- The listings of `.text`, one behind the other. -/
def sampleText : List Instr :=
  higherHalfListing LinkedLayout.smallest sampleSymbols ++ hangListing sampleSymbols ++
    installGdtEntry (.ofNat 32 sampleSymbols.writeGdt) (.ofNat 32 sampleSymbols.installGdtLabel) ++
    installGdtExit

def sampleEncoding : Encoding :=
  byAddress fun x => (placed 0xC0202000 sampleText x).or
    (placed 0x200000 (startListing sampleSymbols) x)

/-- Physical memory with `low` below the image, a directory at `0x201000`, and zeros elsewhere. -/
def sampleMemory (low : Memory) (pd : PageDirectory) : Memory := fun x =>
  if 0x201000 ≤ x then
    match pd[(x - 0x201000) / 4]? with
    | some e => e.raw.extractLsb' (8 * ((x - 0x201000) % 4)) 8
    | none => 0
  else if x < 0x200000 then low x
  else 0

theorem sampleMemory_directory (low : Memory) (pd : PageDirectory) {i : Nat} (h : i < 1024) :
    (sampleMemory low pd).load32 (0x201000 + 4 * i) = pd[i].raw := by
  have hbytes : (sampleMemory low pd).load (0x201000 + 4 * i) 4 = leBytes 4 pd[i].raw.toNat := by
    rw [load_eq_leBytes_iff]
    intro j hj
    have hslot : (0x201000 + 4 * i + j - 0x201000) / 4 = i := by omega
    have hbyte : (0x201000 + 4 * i + j - 0x201000) % 4 = j := by omega
    rw [sampleMemory, if_pos (by omega), hslot, hbyte, getElem?_pos pd i h]
  rw [Memory.load32, hbytes, ofNat_leNat_leBytes _ (by norm_num)]

theorem lowView_sampleMemory (low : Memory) (pd : PageDirectory) (x : Nat) (hlo : 0x200000 ≤ x)
    (hx : x < 0x20000B) : lowView (sampleMemory low pd) x = some 0 := by
  rw [lowView, sampleMemory, if_neg (by omega), if_neg (by omega)]

theorem highView_sampleMemory (low : Memory) (pd : PageDirectory) {x : Nat} (hx : 0xC0202000 ≤ x) :
    highView (sampleMemory low pd) x = some 0 := by
  have hcount : Paging.entryCount = 1024 := rfl
  have hbase := kernelVirtualBase_eq
  rw [highView, sampleMemory, if_pos (by omega), getElem?_neg pd _ (by omega)]

theorem sampleImage (low : Memory) (p : Profile) {pd : PageDirectory}
    (hpd : PageDirectory.bootstrap p = .ok pd) :
    Image sampleEncoding p LinkedLayout.smallest sampleSymbols (sampleMemory low pd) := by
  have hhigh : ∀ {a : Nat}, 0xC0202000 ≤ a → ∀ e x, a ≤ x → x < e →
      highView (sampleMemory low pd) x = some 0 :=
    fun ha _ _ hx _ => highView_sampleMemory low pd (ha.trans hx)
  constructor
  case start =>
    exact listing_byAddress (startListing sampleSymbols) _ (lowView_sampleMemory low pd)
      (by decide +kernel)
  case higherHalf =>
    exact listing_byAddress (higherHalfListing LinkedLayout.smallest sampleSymbols) _
      (hhigh (by decide) _) (by decide +kernel)
  case hang =>
    exact listing_byAddress (hangListing sampleSymbols) _ (hhigh (by decide) _)
      (by decide +kernel)
  case installGdt =>
    exact listing_byAddress (installGdtEntry _ _) _ (hhigh (by decide) _) (by decide +kernel)
  case installGdt_exit =>
    exact listing_byAddress installGdtExit _ (hhigh (by decide) _) (by decide +kernel)
  case directory => exact ⟨pd, hpd, fun i hi => sampleMemory_directory low pd hi⟩
  all_goals decide

/-- A machine at the entry of the sample image. -/
def sampleMachine (low : Memory) (info : U32) (pd : PageDirectory) : Cpu where
  reg := Function.update (Function.update (fun _ => 0) .eax 0x2BADB002) .ebx info
  eip := 0x200000
  seg
    | .cs => ⟨8, some (.flat true 0)⟩
    | _ => ⟨16, some (.flat false 0)⟩
  gdtr := ⟨0, 0⟩
  ctrl
    | .cr0 => 1
    | _ => 0
  interrupts := false
  mem := sampleMemory low pd

theorem sampleEntered (low : Memory) (info : U32) (pd : PageDirectory) :
    Entered sampleSymbols 0x2BADB002 info (sampleMachine low info pd) where
  flat := ⟨by simp [sampleMachine, Cpu.cpl], rfl, rfl, rfl⟩
  eip_eq := rfl
  eax_eq := rfl
  ebx_eq := rfl
  protection := by simp [sampleMachine]
  paging := by simp [sampleMachine]
  pae := by simp [sampleMachine]

/-- The sample image in memory that is blank below it. -/
abbrev blankMachine (pd : PageDirectory) : Cpu := sampleMachine (fun _ => 0) 0 pd

/-! ## The whole stub -/

/-- The stretch of `.hang`. -/
abbrev hangCode (h : Image E p k sym s.mem) (depth : Nat) : Code E (sym.known depth) :=
  textCode h depth sym.hang sym.higherHalfEnd h.higherHalf_hi fun hin =>
    h.writeGdt_apart.1 ⟨h.higherHalf.le.trans hin.1, hin.2⟩

/-- At one of the instructions behind the call of `kernel_main`, and otherwise as it returned in
    `r`.  Interrupts are off from the second instruction on. -/
structure Parked (h : Image E p k sym s.mem) (depth : Nat) (r u : Cpu) : Prop where
  rest_eq : u = { r with eip := u.eip, interrupts := u.interrupts }
  place : u = r ∨ u.interrupts = false ∧ (u.eip.toNat = sym.hang ∨
    (hangCode h depth).Listed u.eip.toNat [.jmp (BitVec.ofNat 32 sym.hang)] sym.higherHalfEnd)

/-- At `hlt`, with interrupts off. -/
def Halting (sym : Symbols) (u : Cpu) : Prop := u.eip.toNat = sym.hang ∧ u.interrupts = false

/-- A parked processor has one step.  The step keeps it parked and leads to `hlt`, unless it was
    there. -/
theorem Parked.step {h : Image E p k sym s.mem} {r u : Cpu}
    (hat : r.At (higherHalfCode h depth) [.cli] sym.hang) (hcpl : r.cpl = 0)
    (hu : Parked h depth r u) :
    ∃ u', Parked h depth r u' ∧ (Halting sym u ∨ Halting sym u') ∧
      ∀ v, Step E (sym.known depth) u v ↔ u' = v := by
  have hcplu : u.cpl = 0 := by
    rw [hu.rest_eq]
    exact hcpl
  have hseen : (hangCode h depth).SeenBy u := by
    rw [hu.rest_eq]
    exact fun x hlo hhi => hat.seen x (h.higherHalf.le.trans hlo) hhi
  rcases hu.place with rfl | ⟨hoff, hplace⟩
  · -- `cli`.
    obtain ⟨next, hrest, hiff⟩ := hat.step_iff
    have hexec : exec .cli next u = some { u with interrupts := false, eip := next } := by
      simp [exec, hcpl]
    have hnext : next.toNat = sym.hang := hrest.listing
    refine ⟨{ u with interrupts := false, eip := next }, ⟨rfl, Or.inr ⟨rfl, Or.inl hnext⟩⟩,
      Or.inr ⟨hnext, rfl⟩, fun v => ?_⟩
    rw [hiff, hexec, Option.some_inj]
  rcases hplace with hplace | hplace
  · -- `hlt`.
    have hhang : u.At (hangCode h depth) (hangListing sym) sym.higherHalfEnd :=
      ⟨hseen, by rw [hplace]; exact h.hang, hplace.ge, le_rfl⟩
    obtain ⟨next, hrest, hiff⟩ := hhang.step_iff
    have hexec : exec .hlt next u = some (u.goto next) := by
      simp [exec, hcplu]
    refine ⟨u.goto next, ⟨?_, Or.inr ⟨hoff, Or.inr hrest⟩⟩, Or.inl ⟨hplace, hoff⟩, fun v => ?_⟩
    · rw [hu.rest_eq]
      rfl
    · rw [hiff, hexec, Option.some_inj]
  · -- `jmp .hang`.
    have hjump : u.At (hangCode h depth) [.jmp (BitVec.ofNat 32 sym.hang)] sym.higherHalfEnd :=
      ⟨hseen, hplace⟩
    obtain ⟨next, -, hiff⟩ := hjump.step_iff
    have hnext : (BitVec.ofNat 32 sym.hang).toNat = sym.hang := by
      have hlt := (hangCode h depth).hi_lt
      have hle : sym.hang ≤ sym.higherHalfEnd := h.hang.le
      have hhi : (hangCode h depth).hi = sym.higherHalfEnd := rfl
      rw [BitVec.toNat_ofNat, Nat.mod_eq_of_lt (by omega)]
    refine ⟨u.goto (BitVec.ofNat 32 sym.hang), ⟨?_, Or.inr ⟨hoff, Or.inl hnext⟩⟩,
      Or.inr ⟨hnext, hoff⟩, fun v => ?_⟩
    · rw [hu.rest_eq]
      rfl
    · rw [hiff, exec, Option.some_inj]

/-- Nothing but the three instructions is run. -/
theorem Parked.place_bounds {h : Image E p k sym s.mem} {r u : Cpu} (hu : Parked h depth r u) :
    u = r ∨ u.interrupts = false ∧ sym.hang ≤ u.eip.toNat ∧ u.eip.toNat < sym.higherHalfEnd := by
  refine hu.place.imp_right fun ⟨hoff, hplace⟩ => ⟨hoff, ?_⟩
  rcases hplace with heip | hlisted
  · have hhang : (hangCode h depth).Listed sym.hang (hangListing sym) sym.higherHalfEnd :=
      ⟨h.hang, le_rfl, le_rfl⟩
    exact ⟨heip.ge, heip ▸ hhang.lt_hi⟩
  · exact ⟨hlisted.lo_le, hlisted.lt_hi⟩

/-- **A return of `kernel_main` parks the processor for good.**  Let `kernel_main` return to the
    address that the stub left on the stack, in ring 0 and with the code of the stub still mapped.
    From there the processor runs on for ever.  Behind its first instruction it never leaves
    `.hang`, with interrupts off, and it comes to `hlt` again and again.  Apart from `EIP` and the
    interrupt flag no register changes any more, be it a general, segment or control register or
    the one of the descriptor table, and no byte of memory does, the accessed bits of paging entries
    apart. -/
theorem parked_forever (h : Image E p k sym s.mem) (ht : KernelEntry E k sym magic info s t)
    {r : Cpu} (hret : t.stackWord 0 = some r.eip) (hcpl : r.cpl = 0)
    (hseen : (higherHalfCode h depth).SeenBy r) {u : Cpu}
    (hrun : Relation.ReflTransGen (Step E (sym.known depth)) r u) :
    (∃ v, Step E (sym.known depth) u v) ∧
      (u = r ∨ u.interrupts = false ∧ sym.hang ≤ u.eip.toNat ∧
        u.eip.toNat < sym.higherHalfEnd) ∧
      Leads (Step E (sym.known depth)) (Halting sym) u ∧
      u = { r with eip := u.eip, interrupts := u.interrupts } := by
  obtain ⟨ret, hword, hlo, hlist⟩ := ht.return_eq
  obtain rfl : ret = r.eip := Option.some.inj (hword.symm.trans hret)
  have hat : r.At (higherHalfCode h depth) [.cli] sym.hang := ⟨hseen, hlist, hlo, h.hang.le⟩
  have hparked : Parked h depth r u := by
    refine always_of_invariant (fun v v' hv hstep => ?_) ⟨rfl, Or.inl rfl⟩ hrun
    obtain ⟨v'', hv'', -, hiff⟩ := hv.step hat hcpl
    exact (hiff v').mp hstep ▸ hv''
  obtain ⟨v, -, hhalting, hiff⟩ := hparked.step hat hcpl
  refine ⟨⟨v, (hiff v).mpr rfl⟩, hparked.place_bounds, ?_, hparked.rest_eq⟩
  rcases hhalting with hu | hv
  · exact .here hu
  · exact leads_of_step ((hiff v).mpr rfl) (fun t ht => ((hiff t).mp ht).symm) (.here hv)

/-- The sample machine, if its `kernel_main` returned at once. -/
theorem parked_forever_sample :
    ∃ pd t ret, KernelEntry sampleEncoding LinkedLayout.smallest sampleSymbols 0x2BADB002 0
        (blankMachine pd) t ∧ t.stackWord 0 = some ret ∧
      ∀ u, Relation.ReflTransGen (Step sampleEncoding (sampleSymbols.known 1024)) (t.goto ret) u →
        u.mem = t.mem ∧ Leads (Step sampleEncoding (sampleSymbols.known 1024))
          (Halting sampleSymbols) u := by
  obtain ⟨pd, hpd, -⟩ := Paging.bootstrap_translate .dev
  have himage : Image sampleEncoding .dev LinkedLayout.smallest sampleSymbols
      (blankMachine pd).mem := sampleImage (fun _ => 0) .dev hpd
  have hentered := sampleEntered (fun _ => 0) 0 pd
  have hleads : Leads (Step sampleEncoding (sampleSymbols.known 1024))
      (KernelEntry sampleEncoding LinkedLayout.smallest sampleSymbols 0x2BADB002 0
        (blankMachine pd)) (blankMachine pd) :=
    leads_entry himage hentered (by decide) fun _ ht => .here ht
  obtain ⟨t, -, ht⟩ := hleads.exists_reachable
  obtain ⟨ret, hret, -⟩ := ht.return_eq
  refine ⟨pd, t, ret, ht, hret, fun u hrun => ?_⟩
  obtain ⟨-, -, hhalts, hrest⟩ := parked_forever himage ht (r := t.goto ret) hret
    ht.paged.flat.cpl_eq (higherHalfCode_seenBy himage hentered (ht.paged.goto ret)) hrun
  refine ⟨?_, hhalts⟩
  rw [hrest]
  rfl

end Paged

end Zkrnl32.Boot
