import Zkrnl32.Kernel.Outcome

/-!
# The Frames That a Boot Leaves

What the frame allocator holds once the kernel is in its loop.  It depends on the usable frames
alone: the order of the regions in the loader's map, how they overlap or repeat and the build do
not matter.

- `FrameBitmap.eq_of_freeFrames`: an allocator is determined by its free frames and its hint.
- `Inventory`: the directory, the table of the kernel half and the one of the identity range have
  the three lowest usable frames, in this order, and the others are free.
- `boot_ledger_eq_iff`: two boots leave the same allocator exactly when they find the same usable
  frames.
-/

namespace Zkrnl32.Memory

open Zkrnl32.Machine

/-- The bitmap has no bits beside those of the frames. -/
theorem FrameBitmap.eq_of_freeFrames {st st' : FrameBitmap}
    (hfree : st.freeFrames = st'.freeFrames) (hhint : st.searchHint = st'.searchHint) :
    st = st' := by
  have hbit : ∀ f, st.freeBit f = st'.freeBit f :=
    fun f => Bool.eq_iff_iff.mpr (Set.ext_iff.mp hfree f)
  have hbitmap : st.bitmap = st'.bitmap := by
    ext i hi b hb
    have hword : (32 * i + b) / 32 = i := by omega
    have hplace : (32 * i + b) % 32 = b := by omega
    have hsame := hbit (32 * i + b)
    rw [freeBit_eq (by omega), freeBit_eq (by omega)] at hsame
    rw [← BitVec.getLsbD_eq_getElem, ← BitVec.getLsbD_eq_getElem]
    simpa only [hword, hplace] using hsame
  cases st
  cases st'
  cases hbitmap
  cases hhint
  rfl

end Zkrnl32.Memory

namespace Zkrnl32.Kernel

open Zkrnl32.Machine Zkrnl32.Memory Zkrnl32.Vga
open Zkrnl32.Multiboot (MemoryMap MemoryRegion MultibootInfo)

/-! ## The ledger of a boot -/

/-- The three lowest of the usable frames are held, and the others are free.  The lowest one is the
    directory.  Its slots 768 and 0 point at the tables in the other two, which stays so after the
    last print if the directory was not issued the frame of the text buffer. -/
structure Inventory (usable : Set Nat) (a b c : Nat) (s : State) : Prop where
  first : IsLeast usable a
  second : IsLeast (usable \ {a}) b
  third : IsLeast (usable \ {a, b}) c
  held_eq : s.boot.ledger.held = [FrameRun.single c, FrameRun.single b, FrameRun.single a]
  free_eq : s.boot.ledger.allocator.freeFrames = usable \ {a, b, c}
  hint_eq : s.boot.ledger.allocator.searchHint = (c + 1) / 32
  cr3_eq : s.boot.cr3 = BitVec.ofNat 32 (4096 * a)
  tables_eq : a ≠ 0xB8 →
    s.boot.mem.entry a 768 = tableEntry b ∧ s.boot.mem.entry a 0 = tableEntry c

section Inventory

variable {usable usable' : Set Nat} {a b c a' b' c' : Nat} {s s' : State}

/-- The usable frames come back from the ledger: those that are free and those that are held. -/
theorem Inventory.usable_eq (h : Inventory usable a b c s) :
    usable = s.boot.ledger.allocator.freeFrames ∪ {a, b, c} := by
  have ha := h.first.1
  have hb := h.second.1.1
  have hc := h.third.1.1
  rw [h.free_eq, Set.sdiff_union_self, Set.union_eq_left.mpr]
  rintro f (rfl | rfl | rfl)
  · exact ha
  · exact hb
  · exact hc

/-- Held runs name their frames. -/
theorem Inventory.frames_eq (h : Inventory usable a b c s) (h' : Inventory usable' a' b' c' s')
    (hledger : s.boot.ledger = s'.boot.ledger) : a = a' ∧ b = b' ∧ c = c' := by
  have hheld := h.held_eq.symm.trans ((congrArg Ledger.held hledger).trans h'.held_eq)
  simp only [FrameRun.single, List.cons.injEq, FrameRun.mk.injEq, FrameNumber.mk.injEq, and_true]
    at hheld
  exact ⟨hheld.2.2, hheld.2.1, hheld.1⟩

/-- One set of usable frames has one inventory. -/
theorem Inventory.unique (h : Inventory usable a b c s) (h' : Inventory usable a' b' c' s') :
    s.boot.ledger = s'.boot.ledger ∧ s.boot.cr3 = s'.boot.cr3 := by
  obtain rfl := h.first.unique h'.first
  obtain rfl := h.second.unique h'.second
  obtain rfl := h.third.unique h'.third
  have hallocator := FrameBitmap.eq_of_freeFrames (h.free_eq.trans h'.free_eq.symm)
    (h.hint_eq.trans h'.hint_eq.symm)
  have hheld := h.held_eq.trans h'.held_eq.symm
  exact ⟨congrArg₂ Ledger.mk hallocator hheld, h.cr3_eq.trans h'.cr3_eq.symm⟩

theorem Inventory.ledger_eq_iff (h : Inventory usable a b c s)
    (h' : Inventory usable' a' b' c' s') :
    s.boot.ledger = s'.boot.ledger ↔ usable = usable' := by
  constructor
  · intro hledger
    obtain ⟨rfl, rfl, rfl⟩ := h.frames_eq h' hledger
    rw [h.usable_eq, h'.usable_eq, hledger]
  · rintro rfl
    exact (h.unique h').1

end Inventory

/-- What the loader left can be booted, with `regions` as its memory map. -/
structure Boots (p : Profile) (fuel : Nat) (k : LinkedLayout) (mem : Memory) (info : Nat)
    (regions : List MemoryRegion) : Prop where
  apart : Disjoint (handoffBytes mem info) vgaBytes
  walk : ∃ map map', (MultibootInfo.read mem info).memoryMap mem = some map ∧
    Yields (MemoryMap.next p) map regions map'
  fuel_lt : regions.length < fuel
  untrapped : ∀ region ∈ regions, ¬ TrapsOn p region
  three_le : 3 ≤ (bootFrames k.toKernelLayout regions).ncard

theorem Boots.screen {p : Profile} {fuel : Nat} {k : LinkedLayout} {mem : Memory} {info : Nat}
    {regions : List MemoryRegion} (h : Boots p fuel k mem info regions) :
    Disjoint (readBytes mem info) vgaBytes :=
  h.apart.mono_left readBytes_subset

/-- A boot that gets through leaves the inventory of its usable frames. -/
theorem Boots.inventory {p : Profile} {fuel : Nat} {k : LinkedLayout} {mem : Memory} {info : Nat}
    {regions : List MemoryRegion} (h : Boots p fuel k mem info regions)
    (hend : k.physEnd ≤ 0x400000) (render : Stop → List U8) (esp cr3 cr0 : U32) :
    ∃ s' a b c, runKernel p fuel k.toKernelLayout render esp bootloaderMagic info
        (State.start mem cr3 cr0) = .ok .spinning s' ∧
      Inventory (usableFrames k.toKernelLayout regions) a b c s' := by
  obtain ⟨map, map', hmap, hyields⟩ := h.walk
  obtain ⟨s₂, st, boot, s', -, -, hreached, hrun⟩ := runKernel_reached hend h.screen hmap hyields
    h.fuel_lt h.untrapped h.three_le render esp cr3 cr0
  have hfree := freeFrames_of_init hreached.frames hyields
  have hpacked := packed_of_init hreached.frames
  have hlow : 3 ≤ (Paging.lowFree ⟨st, []⟩).ncard := by
    rw [show Paging.lowFree ⟨st, []⟩ = bootFrames k.toKernelLayout regions from
      congrArg (· ∩ Set.Iio 1024) hfree]
    exact h.three_le
  obtain ⟨a, b, c, st₁, st₂, st₃, boot', hinit, ha, hb, hc, hledger, hcr3, hhalf, hidentity, -⟩ :=
    Paging.init_takes_lowest (p := p) (s := { s₂.boot with ledger := ⟨st, []⟩ })
      (owns_of_init (Nat.zero_le _) hreached.frames) hpacked hlow hend
  obtain rfl : boot = boot' := (EStateM.Result.ok.inj (hreached.paging.symm.trans hinit)).2
  -- The last print leaves the ledger and `CR3` alone.
  have hledger' : s'.boot.ledger = ⟨st₃, [FrameRun.single c, FrameRun.single b,
      FrameRun.single a]⟩ := by
    rw [hreached.prints.boot_eq]
    exact hledger
  have hpacked₁ := (ha.packed hpacked).1
  have hpacked₂ := (hb.packed hpacked₁).1
  have hfree₁ : st₁.freeFrames = usableFrames k.toKernelLayout regions \ {a} := by
    rw [← hfree]
    exact ha.free_eq
  have hfree₂ : st₂.freeFrames = usableFrames k.toKernelLayout regions \ {a, b} := by
    rw [hb.free_eq, hfree₁, Set.sdiff_sdiff, Set.singleton_union]
  have hfree₃ : st₃.freeFrames = usableFrames k.toKernelLayout regions \ {a, b, c} := by
    rw [hc.free_eq, hfree₂, Set.sdiff_sdiff, Set.insert_union, Set.singleton_union]
  refine ⟨s', a, b, c, hrun, ⟨hfree ▸ ha.isLeast hpacked, hfree₁ ▸ hb.isLeast hpacked₁,
    hfree₂ ▸ hc.isLeast hpacked₂, ?_, ?_, ?_, ?_, fun hne => ?_⟩⟩
  · rw [hledger']
  · rw [hledger', hfree₃]
  · rw [hledger', hc.hint_eq]
  · rw [hreached.prints.boot_eq]
    exact hcr3
  · -- No byte of the directory is on the screen.
    have hentry : ∀ i < 1024, s'.boot.mem.entry a i = boot.mem.entry a i := by
      intro i hi
      refine Memory.load32_congr fun x hlo hhi => hreached.prints.mem_eq x fun hvga => hne ?_
      have := frame_of_mem_vgaBytes hvga
      omega
    rw [hentry 768 (by decide), hentry 0 (by decide)]
    exact ⟨hhalf, hidentity⟩

/-- **The usable frames decide what a boot leaves.**  Let two boots of one image that ends within
    the first 4 MiB get through, in whatever builds, with hand-offs in different places and maps
    that list their regions in different ways.  Each leaves the inventory of its usable frames.
    The two allocators with the runs they have issued are equal, bit by bit and with their hints,
    exactly when the usable frames are the same, and the directory is then in the same place. -/
theorem boot_ledger_eq_iff (p p' : Profile) (fuel fuel' : Nat) (k : LinkedLayout)
    (mem mem' : Memory) (info info' : Nat) {regions regions' : List MemoryRegion}
    (h : Boots p fuel k mem info regions) (h' : Boots p' fuel' k mem' info' regions')
    (hend : k.physEnd ≤ 0x400000) (render : Stop → List U8) (esp cr3 cr0 : U32) :
    ∃ s s' a b c, runKernel p fuel k.toKernelLayout render esp bootloaderMagic info
        (State.start mem cr3 cr0) = .ok .spinning s ∧
      runKernel p' fuel' k.toKernelLayout render esp bootloaderMagic info'
        (State.start mem' cr3 cr0) = .ok .spinning s' ∧
      Inventory (usableFrames k.toKernelLayout regions) a b c s ∧
      (s.boot.ledger = s'.boot.ledger ↔
        usableFrames k.toKernelLayout regions = usableFrames k.toKernelLayout regions') ∧
      (s.boot.ledger = s'.boot.ledger → s.boot.cr3 = s'.boot.cr3) := by
  obtain ⟨s, a, b, c, hrun, hinventory⟩ := h.inventory hend render esp cr3 cr0
  obtain ⟨s', a', b', c', hrun', hinventory'⟩ := h'.inventory hend render esp cr3 cr0
  refine ⟨s, s', a, b, c, hrun, hrun', hinventory, hinventory.ledger_eq_iff hinventory', ?_⟩
  intro hledger
  have husable := (hinventory.ledger_eq_iff hinventory').mp hledger
  exact (hinventory.unique (husable ▸ hinventory')).2

section Smallest

variable {p : Profile} {fuel : Nat} {map : Multiboot.Slice} {map' : MemoryMap}
  {regions : List MemoryRegion}

/-- The smallest kernel boots on a map of the frames 1 to 4. -/
theorem boots_smallest (hmap : map.bytes.length ≤ 0xF00)
    (hyields : Yields (MemoryMap.next p) (.start map) regions map') (hfuel : regions.length < fuel)
    (hno : ∀ region ∈ regions, region.base.toNat + region.length.toNat < 2 ^ 32)
    (hpublished : publishedBy regions = Set.Icc 1 4) :
    Boots p fuel LinkedLayout.smallest (handoffMemory 0x9000 0x9100 map) 0x9000 regions := by
  refine ⟨(handoffMemory_apart hmap).mono_right Set.subset_union_left,
    ⟨_, map', handoffMemory_memoryMap 0x9000 0x9100 map (by decide) (by decide), hyields⟩, hfuel,
    fun region hregion htrap => ?_, three_le_bootFrames _ hpublished⟩
  exact absurd htrap.2.1.2.2 (not_le.mpr (hno region hregion))

theorem boots_lowMap (p : Profile) : Boots p 3 LinkedLayout.smallest (handoffMemory 0x9000 0x9100)
    0x9000 [⟨0x1000, 0x4000, .available⟩] := by
  obtain ⟨map', hyields⟩ := lowMap_yields p
  exact boots_smallest (by decide) hyields (by decide) (by decide) lowMap_published

end Smallest

/-- The frames of `lowMap` in two regions, the upper one first, that share frame 3. -/
def splitMap : Multiboot.Slice :=
  ⟨Multiboot.encodeMap [.plain 0x3000 0x2000 1, .plain 0x1000 0x3000 1], by decide⟩

theorem splitMap_published : publishedBy
    [(⟨0x3000, 0x2000, .available⟩ : MemoryRegion), ⟨0x1000, 0x3000, .available⟩] =
      Set.Icc 1 4 := by
  ext f
  simp only [publishedBy, Set.mem_ofPred_eq, List.mem_cons, List.not_mem_nil, or_false,
    exists_eq_or_imp, exists_eq_left, mem_publishedFrames, true_and, BitVec.ofNat_eq_ofNat,
    BitVec.toNat_ofNat, Set.mem_Icc]
  omega

theorem boots_splitMap (p : Profile) : Boots p 3 LinkedLayout.smallest
    (handoffMemory 0x9000 0x9100 splitMap) 0x9000
      [⟨0x3000, 0x2000, .available⟩, ⟨0x1000, 0x3000, .available⟩] := by
  obtain ⟨map', hyields, -⟩ := Multiboot.yields_encoded p splitMap
    [.plain 0x3000 0x2000 1, .plain 0x1000 0x3000 1] [] (by decide) [] rfl
  exact boots_smallest (by decide) hyields (by decide) (by decide) splitMap_published

/-- The `dev` build on `lowMap` and the `release` build on `splitMap` leave the same allocator. -/
theorem boot_ledger_eq_iff_smallest :
    ∃ s s', runKernel .dev 3 LinkedLayout.smallest.toKernelLayout (fun _ => []) 0 bootloaderMagic
        0x9000 (State.start (handoffMemory 0x9000 0x9100) 0 0) = .ok .spinning s ∧
      runKernel .release 3 LinkedLayout.smallest.toKernelLayout (fun _ => []) 0 bootloaderMagic
        0x9000 (State.start (handoffMemory 0x9000 0x9100 splitMap) 0 0) = .ok .spinning s' ∧
      s.boot.ledger = s'.boot.ledger ∧ s.boot.cr3 = s'.boot.cr3 := by
  obtain ⟨s, s', _, _, _, hrun, hrun', -, hiff, hcr3⟩ := boot_ledger_eq_iff .dev .release 3 3
    LinkedLayout.smallest _ _ _ _ (boots_lowMap .dev) (boots_splitMap .release) (by decide)
    (fun _ => []) 0 0 0
  have hledger := hiff.mpr ((usableFrames_low _ lowMap_published).trans
    (usableFrames_low _ splitMap_published).symm)
  exact ⟨s, s', hrun, hrun', hledger, hcr3 hledger⟩

end Zkrnl32.Kernel
