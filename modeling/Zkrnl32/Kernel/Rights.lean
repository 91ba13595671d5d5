import Zkrnl32.Startup

/-!
# What the Processor Enforces

The kernel in its loop, seen from the processor again: the control registers and the memory that
`memory::init` left decide which linear addresses can be read, written and executed in which ring.

- `Enforces`: paging runs on the intended address space, write protection included.
- `loop_rights`: it does once the kernel is in its loop, and what follows for every address.
- `stack_overflow_faults`: pushes stay on the boot stack, or fault on the guard page.
-/

namespace Zkrnl32.Kernel

open Zkrnl32.Machine Zkrnl32.Memory Zkrnl32.Vga Zkrnl32.Boot
open Zkrnl32.Memory.Paging (finalEntry finalTranslation)
open Zkrnl32.Multiboot (MemoryMap MemoryRegion MultibootInfo)

/-- The processor with the memory and the control registers of `s`, and otherwise as in `t`. -/
def State.onCpu (s : State) (t : Cpu) : Cpu :=
  { t with
    mem := s.boot.mem
    ctrl := fun
      | .cr0 => s.boot.cr0
      | .cr3 => s.boot.cr3
      | .cr4 => t.ctrl .cr4 }

/-- The frame of the loaded directory. -/
def directoryOf (u : Cpu) : Nat := (u.ctrl .cr3).toNat / 4096

/-- Paging runs on the intended address space, and also ring 0 respects read-only pages.  The
    directory and its tables lie outside the image. -/
structure Enforces (k : KernelLayout) (u : Cpu) : Prop where
  paging : (u.ctrl .cr0).getLsbD 31 = true
  protect : (u.ctrl .cr0).getLsbD 16 = true
  pae : (u.ctrl .cr4).getLsbD 5 = false
  spells : ∃ space, Represents u.mem (directoryOf u) space ∧
    (∀ page, space.entry page = finalEntry k page) ∧ directoryOf u ∉ k.image.frames ∧
    ∀ i f, space.table i = some f → f ∉ k.image.frames

/-- Where an access goes by a translation, if its rights grant it. -/
def granted (kind : AccessKind) (user : Bool) (tr : Translation) : Option Nat :=
  if kind = .write ∧ tr.writable = false then none
  else if user = true ∧ tr.user = false then none
  else some tr.phys

section Enforces

variable {k : KernelLayout} {u u' : Cpu}

theorem Enforces.translate_eq (h : Enforces k u) (kind : AccessKind) (user : Bool) (v : Nat) :
    u.translate kind user v =
      (walk ((u.ctrl .cr4).getLsbD 4) u.mem (directoryOf u) v).bind (granted kind user) := by
  simp only [Cpu.translate, h.paging, h.protect, h.pae, Bool.not_true, Bool.false_eq_true, if_false,
    Option.bind_eq_bind, or_true, and_true, Bool.not_eq_true']
  rfl

/-- Below the recursive window ring 0 has what the address space is intended to give. -/
theorem Enforces.translate_below (h : Enforces k u) (kind : AccessKind) {v : Nat}
    (hv : v < 0xFFC00000) :
    u.translate kind false v = (finalTranslation k v).bind (granted kind false) := by
  obtain ⟨space, hspells, hentry, -⟩ := h.spells
  rw [h.translate_eq, hspells.walk_below _ hv, Paging.translate_finalEntry hentry hv]

/-- Ring 3 reaches nothing. -/
theorem Enforces.translate_user (h : Enforces k u) (kind : AccessKind) {v : Nat} (hv : v < 2 ^ 32) :
    u.translate kind true v = none := by
  obtain ⟨space, hspells, -⟩ := h.spells
  rw [h.translate_eq]
  cases hwalk : walk ((u.ctrl .cr4).getLsbD 4) u.mem (directoryOf u) v with
  | none => rfl
  | some tr =>
    have huser := hspells.walk_user hv hwalk
    simp only [Option.bind_some, granted, huser, and_self, if_true, ite_self]

/-- No write reaches the read-only part of the image, whatever the address. -/
theorem Enforces.write_apart (h : Enforces k u) {v x : Nat} (hv : v < 2 ^ 32)
    (hwrite : u.translate .write false v = some x) :
    x ∉ Set.Ico (k.virtStart - kernelVirtualBase) (k.dataStart - kernelVirtualBase) := by
  have hphys := k.phys_le_virt
  have hvd := k.virt_le_data
  obtain ⟨space, hspells, hentry, hdir, htable⟩ := h.spells
  rw [h.translate_eq] at hwrite
  obtain ⟨tr, hwalk, hadmit⟩ := Option.bind_eq_some_iff.mp hwrite
  obtain ⟨hwritable, rfl⟩ : tr.writable = true ∧ tr.phys = x := by
    simp only [granted, true_and, Bool.false_eq_true, false_and, if_false] at hadmit
    split at hadmit
    · cases hadmit
    next hw => exact ⟨by simpa using hw, Option.some.inj hadmit⟩
  intro hread
  by_cases hbelow : v < 0xFFC00000
  · rw [hspells.walk_below _ hbelow, Paging.translate_finalEntry hentry hbelow] at hwalk
    obtain ⟨hlo, hhi⟩ := hread
    rcases Paging.finalTranslation_eq_some hwalk with ⟨_, _, hp, hdata⟩ | ⟨_, hp⟩
    · have := hdata hwritable
      omega
    · omega
  · -- The window shows the directory and the tables, which lie outside the image.
    obtain ⟨i, hi, hpresent, rfl⟩ := hspells.walk_window_cases (by omega) hv hwalk
    have hframe : (4096 * entryFrame (u.mem.entry (directoryOf u) i) + v % 4096) / 4096 =
        entryFrame (u.mem.entry (directoryOf u) i) := by omega
    have himage := Paging.mem_image_of_readOnly hread
    rw [hframe] at himage
    rcases hspells.slot_cases hi with hzero | ⟨f, hf, hlt, hwhich⟩
    · simp [hzero] at hpresent
    · rw [hf, entryFrame_tableEntry hlt] at himage
      rcases hwhich with ⟨-, rfl⟩ | htab
      · exact hdir himage
      · exact htable i f htab himage

end Enforces

/-! ## In the loop -/

section Loop

variable {E : Encoding} {p : Profile} {k : LinkedLayout} {sym : Symbols} {magic info : U32}
  {s t : Cpu} {fuel : Nat} {map map' : MemoryMap} {regions : List MemoryRegion} {s' : State}

theorem Reached.enforces {s₂ : State} {st : FrameBitmap} {b : Paging.BootState} {n : Nat}
    (h : Reached p fuel k.toKernelLayout n map s₂ st b s')
    (hyields : Yields (MemoryMap.next p) map regions map') (hscreen : 0xB8 ∉ publishedBy regions)
    (hpaging : s₂.boot.cr0.getLsbD 31 = true) (hpae : (t.ctrl .cr4).getLsbD 5 = false) :
    Enforces k.toKernelLayout (s'.onCpu t) := by
  obtain ⟨space, hspells, hentry, howns, hdir, htable⟩ := h.spells hyields hscreen
  have hhint : st.searchHint ≤ wordCount := (owns_of_init (Nat.zero_le _) h.frames).hint_le
  have hb : b.cr0 = s₂.boot.cr0 ||| Paging.cr0Wp :=
    Paging.cr0_of_init (s := { s₂.boot with ledger := ⟨st, []⟩ }) hhint h.paging
  have hcr0 : s'.boot.cr0 = s₂.boot.cr0 ||| Paging.cr0Wp := by
    rw [h.prints.boot_eq]
    exact hb
  have himage : ∀ f ∈ s'.boot.ledger.pool.owned, f ∉ k.image.frames := fun f hf =>
    ((mem_freeFrames_of_init h.frames).mp (Paging.owned_subset howns hf)).2.2
  refine ⟨?_, ?_, hpae, space, hspells, hentry, himage _ hdir,
    fun i f hf => himage _ (htable i f hf)⟩
  · change s'.boot.cr0.getLsbD 31 = true
    rw [hcr0, BitVec.getLsbD_or, hpaging, Bool.true_or]
  · change s'.boot.cr0.getLsbD 16 = true
    rw [hcr0, BitVec.getLsbD_or, show Paging.cr0Wp.getLsbD 16 = true from rfl, Bool.or_true]

/-- A processor that came from the loader enforces the intended rights once the kernel is in its
    loop. -/
theorem enforces_of_spinning (h : Image E p k sym s.mem) (hs : Entered sym magic info s)
    (ht : KernelEntry E k sym magic info s t) {render : Stop → List U8} {esp : U32}
    (hreadable : Readable k.toKernelLayout s.mem info.toNat)
    (hstub : Disjoint (readBytes s.mem info.toNat) (stubBytes k))
    (hmap : (MultibootInfo.read s.mem info.toNat).memoryMap s.mem = some map)
    (hyields : Yields (MemoryMap.next p) map regions map') (hfuel : regions.length < fuel)
    (hunused : 0xB8 ∉ publishedBy regions)
    (hrun : runFrom p fuel k.toKernelLayout render esp magic info t = .ok .spinning s') :
    Enforces k.toKernelLayout (s'.onCpu t) := by
  have hsame := handoff_at_entry ht hstub
  have hmap' := (memoryMap_congr hsame).trans hmap
  have hscreen := (hreadable.congr hsame).screen
  have hboot : Bootable p k.toKernelLayout magic t.mem info.toNat := by
    rcases runKernel_cases render esp (t.ctrl .cr3) (t.ctrl .cr0) h.end_le (fun _ => hscreen)
        (fun (_ : magic = bootloaderMagic) map₁ hmap₁ => by
          obtain rfl := Option.some.inj (hmap'.symm.trans hmap₁)
          exact ⟨regions, map', hyields, hfuel⟩) with ⟨hboot, -⟩ | ⟨-, s₁, hrun₁, -⟩
    · exact hboot
    · cases hrun.symm.trans hrun₁
  obtain ⟨hmagic, map₁, regions₁, map₁', hmap₁, hyields₁, hno, hthree⟩ := hboot
  obtain rfl := Option.some.inj (hmap'.symm.trans hmap₁)
  obtain rfl := hyields₁.unique hyields
  rw [runFrom, hmagic] at hrun
  obtain ⟨s₂, st, b, s₁, hprints, -, hreached, hrun₁⟩ := runKernel_reached h.end_le hscreen hmap'
    hyields hfuel hno hthree render esp (t.ctrl .cr3) (t.ctrl .cr0)
  obtain rfl : s' = s₁ := (EStateM.Result.ok.inj (hrun.symm.trans hrun₁)).2
  have hcr0 : s₂.boot.cr0 = s.ctrl .cr0 ||| (1 : U32) <<< 31 := by
    rw [hprints.boot_eq]
    exact congrFun ht.paged.ctrl_eq .cr0
  refine hreached.enforces hyields hunused ?_ ?_
  · rw [hcr0, BitVec.getLsbD_or, show ((1 : U32) <<< 31).getLsbD 31 = true from rfl, Bool.or_true]
  · rw [ht.paged.ctrl_eq]
    change (s.ctrl .cr4 ||| (1 : U32) <<< 4).getLsbD 5 = false
    rw [BitVec.getLsbD_or, hs.pae]
    rfl

/-- **What the running kernel is guarded by.**  Let the loader have entered the image as for
    `startup_ends`, with a map that does not publish the frame of the text buffer, and let the
    kernel be in its loop.  Then the processor lets ring 3 read, write and execute nothing at all.
    It lets ring 0 do below the recursive window exactly what the address space is intended for, so
    that the guard page is out of reach.  And no write, at whatever address, gets to a byte of the
    read-only image. -/
theorem loop_rights (h : Image E p k sym s.mem) (hs : Entered sym magic info s)
    (ht : KernelEntry E k sym magic info s t) (render : Stop → List U8) (esp : U32)
    (hreadable : Readable k.toKernelLayout s.mem info.toNat)
    (hstub : Disjoint (readBytes s.mem info.toNat) (stubBytes k))
    (hmap : (MultibootInfo.read s.mem info.toNat).memoryMap s.mem = some map)
    (hyields : Yields (MemoryMap.next p) map regions map') (hfuel : regions.length < fuel)
    (hunused : 0xB8 ∉ publishedBy regions)
    (hrun : runFrom p fuel k.toKernelLayout render esp magic info t = .ok .spinning s') :
    (∀ v < 2 ^ 32, ∀ kind, (s'.onCpu t).translate kind true v = none) ∧
      (∀ v < 0xFFC00000, ∀ kind, (s'.onCpu t).translate kind false v =
        (finalTranslation k.toKernelLayout v).bind (granted kind false)) ∧
      ∀ v < 2 ^ 32, ∀ x, (s'.onCpu t).translate .write false v = some x →
        x ∉ Set.Ico (k.virtStart - kernelVirtualBase) (k.dataStart - kernelVirtualBase) := by
  have henforces := enforces_of_spinning h hs ht hreadable hstub hmap hyields hfuel hunused hrun
  exact ⟨fun v hv kind => henforces.translate_user kind hv,
    fun v hv kind => henforces.translate_below kind hv,
    fun v hv x hwrite => henforces.write_apart hv hwrite⟩

end Loop

/-- The sample machine boots: some run of it ends with the kernel in its loop. -/
theorem loadedMachine_spins : ∃ pd t s',
    Image sampleEncoding .dev LinkedLayout.smallest sampleSymbols (loadedMachine pd).mem ∧
      KernelEntry sampleEncoding LinkedLayout.smallest sampleSymbols 0x2BADB002 0x9000
        (loadedMachine pd) t ∧
      runFrom .dev 2 LinkedLayout.smallest.toKernelLayout (fun _ => []) 0 0x2BADB002 0x9000 t =
        .ok .spinning s' := by
  obtain ⟨pd, hpd, -⟩ := Paging.bootstrap_translate .dev
  have himage : Image sampleEncoding .dev LinkedLayout.smallest sampleSymbols
      (loadedMachine pd).mem := sampleImage _ .dev hpd
  have hleads : Leads (Step sampleEncoding (sampleSymbols.known 1024))
      (KernelEntry sampleEncoding LinkedLayout.smallest sampleSymbols 0x2BADB002 0x9000
        (loadedMachine pd)) (loadedMachine pd) :=
    leads_entry himage (sampleEntered _ 0x9000 pd) (by decide) fun _ ht => .here ht
  obtain ⟨t, -, hentry⟩ := hleads.exists_reachable
  obtain ⟨outcome, s', hrun, hiff, -⟩ := runFrom_ends himage hentry (fun _ => []) 0
    (fun _ => loadedMachine_readable pd) (fun _ => loadedMachine_apart pd)
    fun _ => loadedMachine_mapEnds pd
  obtain rfl : outcome = .spinning := hiff.mpr (loadedMachine_bootable pd)
  exact ⟨pd, t, s', himage, hentry, hrun⟩

/-- On the sample machine, the first byte of the read-only page can be read and executed, and not
    written. -/
theorem loop_rights_sample : ∃ (t : Cpu) (s' : State),
    runFrom .dev 2 LinkedLayout.smallest.toKernelLayout (fun _ => []) 0 0x2BADB002 0x9000 t =
        .ok .spinning s' ∧
      (s'.onCpu t).translate .fetch false 0xC0202000 = some 0x202000 ∧
      (s'.onCpu t).translate .write false 0xC0202000 = none := by
  obtain ⟨pd, t, s', himage, hentry, hrun⟩ := loadedMachine_spins
  obtain ⟨map', hyields⟩ := lowMap_yields .dev
  obtain ⟨-, -, hunused⟩ := lowMap_bootFrames LinkedLayout.smallest
  obtain ⟨-, hrights, -⟩ := loop_rights himage (sampleEntered _ 0x9000 pd) hentry (fun _ => []) 0
    (loadedMachine_readable pd) (loadedMachine_apart pd) (loadedMachine_memoryMap pd) hyields
    (by decide) hunused hrun
  exact ⟨t, s', hrun, hrights 0xC0202000 (by decide) .fetch,
    hrights 0xC0202000 (by decide) .write⟩

/-! ## The boot stack -/

/-- Pushes one value after the other. -/
def pushAll (values : List U32) (u : Cpu) : Option Cpu := values.foldlM (fun u v => u.push v) u

/-- The bytes of the boot stack below the offset `esp`, by their physical addresses. -/
def stackBelow (k : LinkedLayout) (esp : Nat) : Set Nat :=
  Set.Ico (k.stackBottom - kernelVirtualBase) (esp - kernelVirtualBase)

theorem stack_bounds (k : LinkedLayout) :
    k.physStart + kernelVirtualBase ≤ k.dataStart ∧ k.dataStart ≤ k.stackGuard ∧
      k.stackBottom = k.stackGuard + 4096 ∧ k.stackTop = k.stackBottom + 65536 ∧
      k.stackTop ≤ k.virtEnd ∧ k.virtEnd ≤ 0xFFC00000 :=
  ⟨k.phys_le_virt.trans k.virt_le_data, k.data_le_guard, rfl, rfl, k.stack_le_end, k.end_le⟩

section Stack

variable {k : LinkedLayout} {u u' : Cpu}

/-- What memory holds inside the image does not matter. -/
theorem Enforces.congr (h : Enforces k.toKernelLayout u) (hctrl : u'.ctrl = u.ctrl)
    (hmem : ∀ x, x / 4096 ∉ k.image.frames → u'.mem x = u.mem x) :
    Enforces k.toKernelLayout u' := by
  have hdirectory : directoryOf u' = directoryOf u := by rw [directoryOf, hctrl]; rfl
  obtain ⟨space, hspells, hentry, hdir, htable⟩ := h.spells
  have hkept : ∀ f, f ∉ k.image.frames → ∀ j < 1024, u'.mem.entry f j = u.mem.entry f j := by
    intro f hf j hj
    refine Memory.load32_congr fun x hlo hhi => hmem x ?_
    obtain rfl : x / 4096 = f := by omega
    exact hf
  refine ⟨hctrl ▸ h.paging, hctrl ▸ h.protect, hctrl ▸ h.pae, space, ?_, hentry,
    hdirectory ▸ hdir, htable⟩
  rw [hdirectory]
  refine hspells.congr fun f hf => ?_
  rcases hf with rfl | ⟨i, hi⟩
  · exact hkept _ hdir
  · exact hkept f (htable i f hi)

/-- The stack is mapped for everything. -/
theorem Enforces.shows_stack (h : Enforces k.toKernelLayout u) :
    u.Shows k.stackBottom k.stackTop kernelVirtualBase := by
  have hbase := kernelVirtualBase_eq
  obtain ⟨hdata, hguard, hbottom, htop, hend, hwindow⟩ := stack_bounds k
  refine ⟨by omega, by omega, fun v hlo hhi kind => ?_⟩
  have htranslation : finalTranslation k.toKernelLayout v =
      some ⟨v - kernelVirtualBase, true, false⟩ := by
    rw [finalTranslation, if_neg (by omega), if_pos (by rw [Paging.pageSize_eq]; omega)]
  rw [h.translate_below kind (by omega), htranslation]
  rw [Option.bind_some, granted, if_neg (by simp), if_neg (by simp)]

/-- The guard page is not mapped at all. -/
theorem Enforces.translate_guard (h : Enforces k.toKernelLayout u) {v : Nat}
    (hv : v ∈ Set.Ico k.stackGuard k.stackBottom) (kind : AccessKind) (user : Bool) :
    u.translate kind user v = none := by
  obtain ⟨hdata, hguard, hbottom, htop, hend, hwindow⟩ := stack_bounds k
  obtain ⟨hlo, hhi⟩ := hv
  cases user with
  | true => exact h.translate_user kind (by omega)
  | false =>
    rw [h.translate_below kind (by omega), finalTranslation, if_neg (by omega),
      if_neg (by rw [Paging.pageSize_eq]; omega), if_neg (by omega)]
    rfl

/-- The word below `esp` begins on the guard page, of which nothing can be read, written or
    executed, so that no push gets through. -/
structure FaultsOnGuard (k : LinkedLayout) (u : Cpu) : Prop where
  on_guard : (u.reg .esp - 4).toNat ∈ Set.Ico k.stackGuard k.stackBottom
  absent : ∀ v ∈ Set.Ico k.stackGuard k.stackBottom, ∀ kind user, u.translate kind user v = none
  faults : ∀ v, u.push v = none

theorem Enforces.push_guard (h : Enforces k.toKernelLayout u) (hflat : u.Flat)
    (hlo : k.stackBottom ≤ (u.reg .esp).toNat) (hhi : (u.reg .esp).toNat < k.stackBottom + 4) :
    FaultsOnGuard k u := by
  have haddr : (u.reg .esp - 4).toNat = (u.reg .esp).toNat - 4 :=
    toNat_sub_ofNat (k := 4) (by have := stack_bounds k; omega)
  have hguard : (u.reg .esp - 4).toNat ∈ Set.Ico k.stackGuard k.stackBottom := by
    have hbottom : k.stackBottom = k.stackGuard + 4096 := rfl
    rw [haddr, Set.mem_Ico]
    omega
  exact ⟨hguard, fun v hv kind user => h.translate_guard hv kind user,
    fun v => Cpu.push_eq_none hflat (h.translate_guard hguard .write _) v⟩

/-- A push with room for it. -/
theorem Enforces.push (h : Enforces k.toKernelLayout u) (hflat : u.Flat)
    (hlo : k.stackBottom + 4 ≤ (u.reg .esp).toNat) (hhi : (u.reg .esp).toNat ≤ k.stackTop)
    (v : U32) :
    ∃ u', u.push v = some u' ∧ Enforces k.toKernelLayout u' ∧ u'.Flat ∧
      (u'.reg .esp).toNat + 4 = (u.reg .esp).toNat ∧
      Set.EqOn u'.mem u.mem (stackBelow k (u.reg .esp).toNat)ᶜ := by
  have hshows := h.shows_stack
  obtain ⟨a, ha⟩ : ∃ a, (u.reg .esp).toNat = a + 4 := ⟨(u.reg .esp).toNat - 4, by omega⟩
  obtain ⟨u', hpush, hpushed⟩ := Cpu.push_flat hflat hshows ha (by omega) (by omega) v
  have hshift := hshows.shift_le
  have hbelow : Set.EqOn u'.mem u.mem (stackBelow k (u.reg .esp).toNat)ᶜ := by
    intro x hx
    rw [hpushed.mem_eq]
    refine Memory.store32_eqOn _ _ _ fun hin => hx ?_
    have hin' := Set.mem_Ico.mp hin
    exact ⟨by omega, by omega⟩
  refine ⟨u', hpush, h.congr hpushed.ctrl_eq fun x hx => hbelow fun hin => hx ?_,
    hflat.congr hpushed.seg_eq, by rw [hpushed.esp_eq]; omega, hbelow⟩
  -- The stack is a part of the image.
  obtain ⟨hdata, hguard, hbottom, htop, hend, hwindow⟩ := stack_bounds k
  have hin' := Set.mem_Ico.mp hin
  rw [KernelImage.frames, Set.mem_Ico, lt_divCeil_iff (by decide)]
  simp only [KernelLayout.image, KernelLayout.physEnd]
  omega

theorem pushAll_cons (v : U32) (values : List U32) (u : Cpu) :
    pushAll (v :: values) u = (u.push v).bind (pushAll values) := by
  rw [pushAll, List.foldlM_cons]
  rfl

theorem stackBelow_mono {esp esp' : Nat} (h : esp ≤ esp') : stackBelow k esp ⊆ stackBelow k esp' :=
  Set.Ico_subset_Ico_right (Nat.sub_le_sub_right h _)

/-- **A stack overflow faults on the guard page.**  On the boot stack, in ring 0, a sequence of
    pushes gets through exactly if there is room for it above `stack_bottom`.  The pushes then
    change bytes of the stack only, the accessed and dirty bits in the paging entries apart, and the
    rights stay in force.  Else some of the pushes get through and the next one faults on the guard
    page. -/
theorem stack_overflow_faults (h : Enforces k.toKernelLayout u) (hflat : u.Flat)
    (hlo : k.stackBottom ≤ (u.reg .esp).toNat) (hhi : (u.reg .esp).toNat ≤ k.stackTop)
    (values : List U32) :
    ((pushAll values u).isSome ↔ k.stackBottom + 4 * values.length ≤ (u.reg .esp).toNat) ∧
      (∀ u', pushAll values u = some u' →
        (u'.reg .esp).toNat + 4 * values.length = (u.reg .esp).toNat ∧
        Enforces k.toKernelLayout u' ∧
        Set.EqOn u'.mem u.mem (stackBelow k (u.reg .esp).toNat)ᶜ) ∧
      (pushAll values u = none → ∃ done v rest u', values = done ++ v :: rest ∧
        pushAll done u = some u' ∧ FaultsOnGuard k u') := by
  induction values generalizing u with
  | nil =>
    refine ⟨by simpa [pushAll] using hlo, fun u' hu' => ?_, fun hnone => by cases hnone⟩
    cases hu'
    exact ⟨rfl, h, fun _ _ => rfl⟩
  | cons v values ih =>
    rw [pushAll_cons, List.length_cons]
    by_cases hroom : k.stackBottom + 4 ≤ (u.reg .esp).toNat
    · obtain ⟨u₁, hpush, henforces, hflat₁, hesp, hmem⟩ := h.push hflat hroom hhi v
      obtain ⟨hsome, hrest, hfault⟩ := ih henforces hflat₁ (by omega) (by omega)
      rw [hpush, Option.bind_some]
      refine ⟨hsome.trans (by omega), fun u' hu' => ?_, fun hnone => ?_⟩
      · obtain ⟨hesp', henforces', hmem'⟩ := hrest u' hu'
        refine ⟨by omega, henforces', fun x hx => (hmem' fun hin => hx ?_).trans (hmem hx)⟩
        exact stackBelow_mono (by omega) hin
      · obtain ⟨done, v', rest, u', rfl, hdone, hguard⟩ := hfault hnone
        refine ⟨v :: done, v', rest, u', rfl, ?_, hguard⟩
        rw [pushAll_cons, hpush, Option.bind_some, hdone]
    · have hguard := h.push_guard hflat hlo (by omega)
      rw [hguard.faults v, Option.bind_none]
      refine ⟨⟨fun hsome => (by cases hsome), fun hle => by omega⟩, fun u' hu' => (by cases hu'),
        fun _ => ⟨[], v, values, u, rfl, rfl, hguard⟩⟩

end Stack

/-- With 8 bytes left on the stack of the sample machine, two pushes get through, and of three one
    faults. -/
theorem stack_overflow_faults_sample : ∃ u : Cpu, Enforces LinkedLayout.smallest.toKernelLayout u ∧
    (pushAll [1, 2] u).isSome = true ∧ ∃ done v rest u', [1, 2, 3] = done ++ v :: rest ∧
      pushAll done u = some u' ∧ FaultsOnGuard LinkedLayout.smallest u' := by
  obtain ⟨pd, t, s', himage, hentry, hrun⟩ := loadedMachine_spins
  obtain ⟨map', hyields⟩ := lowMap_yields .dev
  obtain ⟨-, -, hunused⟩ := lowMap_bootFrames LinkedLayout.smallest
  have henforces := enforces_of_spinning himage (sampleEntered _ 0x9000 pd) hentry
    (loadedMachine_readable pd) (loadedMachine_apart pd) (loadedMachine_memoryMap pd) hyields
    (by decide) hunused hrun
  have henforces' : Enforces LinkedLayout.smallest.toKernelLayout
      ((s'.onCpu t).setReg .esp 0xC0206008) := henforces.congr rfl fun _ _ => rfl
  have hflat : ((s'.onCpu t).setReg .esp 0xC0206008).Flat := hentry.paged.flat.congr rfl
  have hesp : (((s'.onCpu t).setReg .esp 0xC0206008).reg .esp).toNat = 0xC0206008 := by
    rw [Cpu.reg_setReg_self]
    rfl
  have hpushes := stack_overflow_faults henforces' hflat (by rw [hesp]; decide)
    (by rw [hesp]; decide)
  rw [hesp] at hpushes
  refine ⟨_, henforces', (hpushes [1, 2]).1.mpr (by decide), (hpushes [1, 2, 3]).2.2 ?_⟩
  rw [← Option.not_isSome_iff_eq_none, (hpushes [1, 2, 3]).1]
  decide

end Zkrnl32.Kernel
