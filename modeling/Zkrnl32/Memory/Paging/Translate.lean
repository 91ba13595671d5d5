import Zkrnl32.Memory.Paging.Progress
import Zkrnl32.Vga

/-!
# The Address Space That `init` Builds

What the MMU sees once `init` has loaded the new directory, for every virtual address.

- `Booted`: the machine states that `FrameBitmap::init` and `paging::init` leave.
- `Booted.translate_below`, `Booted.translate_window`: the translation below the recursive
  window and inside it.
- `address_space_exact`, `no_writable_alias`, `recursive_window`, `switch_keeps_live`: the
  properties the rest of the kernel relies on.
-/

namespace Zkrnl32.Memory.Paging

open Zkrnl32.Machine Zkrnl32.Multiboot
open Zkrnl32.Gdt (gdtBase gdtEntryCount gdtSize)
open Zkrnl32.Vga (vgaBuffer vgaWidth vgaHeight vgaSize)

/-! ## The translation below the window -/

/-- What the final directory does with the address `v`: the read-only and the writable part of
    the image at their physical place, low memory at its own address, and nothing else. -/
def finalTranslation (k : KernelLayout) (v : Nat) : Option Translation :=
  if k.virtStart ≤ v ∧ v < k.dataStart then
    some { phys := v - kernelVirtualBase, writable := false, user := false }
  else if k.dataStart ≤ v ∧ v < k.virtEnd ∧
      ¬ (k.stackGuard ≤ v ∧ v < k.stackGuard + pageSize) then
    some { phys := v - kernelVirtualBase, writable := true, user := false }
  else if v < k.physStart then
    some { phys := v, writable := true, user := false }
  else none

/-- What a translated address is: a byte of the image, or an address below the kernel. -/
theorem finalTranslation_eq_some {k : KernelLayout} {v : Nat} {tr : Translation}
    (h : finalTranslation k v = some tr) :
    (k.virtStart ≤ v ∧ v < k.virtEnd ∧ tr.phys = v - kernelVirtualBase ∧
      (tr.writable = true → k.dataStart ≤ v)) ∨
    (v < k.physStart ∧ tr.phys = v) := by
  have hvd := k.virt_le_data
  have hde := k.data_le_end
  unfold finalTranslation at h
  split_ifs at h with hread hwrite hlow
  · obtain rfl := Option.some.inj h
    exact Or.inl ⟨hread.1, by omega, rfl, fun hw => by cases hw⟩
  · obtain rfl := Option.some.inj h
    exact Or.inl ⟨by omega, hwrite.2.1, rfl, fun _ => hwrite.1⟩
  · obtain rfl := Option.some.inj h
    exact Or.inr ⟨hlow, rfl⟩

/-- The image without its guard page and the memory below the kernel are mapped. -/
theorem exists_finalTranslation {k : KernelLayout} {v : Nat}
    (h : (k.virtStart ≤ v ∧ v < k.virtEnd ∧
      ¬ (k.stackGuard ≤ v ∧ v < k.stackGuard + pageSize)) ∨ v < k.physStart) :
    ∃ tr, finalTranslation k v = some tr := by
  unfold finalTranslation
  split_ifs with hread hwrite hlow
  · exact ⟨_, rfl⟩
  · exact ⟨_, rfl⟩
  · exact ⟨_, rfl⟩
  · omega

/-- A present entry with the flags `flags` of `KERNEL_RO` or `KERNEL_RW`. -/
theorem translate_pageEntry {space : AddressSpace} {v frame flags : Nat}
    (hentry : space.entry (v / 4096) = pageEntry frame flags) (hframe : frame < 2 ^ 20)
    (hflags : flags = 1 ∨ flags = 3) :
    space.translate v =
      some { phys := 4096 * frame + v % 4096, writable := flags = 3, user := false } := by
  have hlt : flags < 4096 := by omega
  have hpresent : present (pageEntry frame flags) = true := by
    rw [present, getLsbD_pageEntry hlt (by decide)]
    rcases hflags with rfl | rfl <;> rfl
  have hwritable : writable (pageEntry frame flags) = decide (flags = 3) := by
    rw [writable, getLsbD_pageEntry hlt (by decide)]
    rcases hflags with rfl | rfl <;> rfl
  simp only [AddressSpace.translate, hentry, hpresent, if_true, hwritable,
    entryFrame_pageEntry hframe hlt]

/-- The entries of a finished directory spell `finalTranslation`. -/
theorem translate_finalEntry {k : KernelLayout} {space : AddressSpace}
    (hentry : ∀ page, space.entry page = finalEntry k page) {v : Nat} (hv : v < 0xFFC00000) :
    space.translate v = finalTranslation k v := by
  obtain ⟨a, ha⟩ := k.virtStart_aligned
  obtain ⟨b, hb⟩ := k.dataStart_aligned
  obtain ⟨c, hc⟩ := k.virtEnd_aligned
  obtain ⟨d, hd⟩ := k.stackGuard_aligned
  obtain ⟨e, he⟩ := k.physStart_aligned
  have hphys := k.phys_le_virt
  have hvd := k.virt_le_data
  have hde := k.data_le_end
  have hdg := k.data_le_guard
  have hge := k.guard_lt_end
  have hend := k.end_le
  -- Every bound is a page boundary, so comparing `v` or its page makes no difference.
  have hpage := hentry (v / 4096)
  unfold finalEntry kernelEntry at hpage
  unfold finalTranslation
  have hbase := kernelVirtualBase_eq
  have hsize := pageSize_eq
  by_cases hkern : k.virtStart ≤ v ∧ v < k.virtEnd ∧
      ¬ (k.stackGuard ≤ v ∧ v < k.stackGuard + 4096)
  · rw [if_pos (by omega)] at hpage
    rw [translate_pageEntry hpage (by omega) (by split <;> simp)]
    by_cases hdata : v < k.dataStart
    · rw [if_pos (by omega), if_pos (by omega)]
      simp only [Nat.reduceEqDiff, decide_false, Option.some.injEq, Translation.mk.injEq, and_true]
      omega
    · rw [if_neg (by omega), if_neg (by omega), if_pos (by omega)]
      simp only [decide_true, Option.some.injEq, Translation.mk.injEq, and_true]
      omega
  · rw [if_neg (by omega)] at hpage
    rw [if_neg (by omega), if_neg (by omega)]
    by_cases hlow : v < k.physStart
    · rw [if_pos (by omega)] at hpage
      rw [if_pos hlow, translate_pageEntry hpage (by omega) (Or.inr rfl)]
      simp only [decide_true, Option.some.injEq, Translation.mk.injEq, and_true]
      omega
    · rw [if_neg (by omega)] at hpage
      rw [if_neg hlow, AddressSpace.translate, hpage]
      rfl

/-! ## Machines that have been brought up -/

/-- `Booted p k s`: `FrameBitmap::init` returned on some memory map and then `paging::init`
    returned, leaving the machine in `s`. -/
inductive Booted (p : Profile) (k : KernelLayout) : BootState → Prop where
  | intro {fuel : Nat} {map : MemoryMap} {st₀ st : FrameBitmap} {s s' : BootState} :
      st₀.searchHint ≤ wordCount → FrameBitmap.init p fuel k.image map st₀ = .ok () st →
      s.ledger = ⟨st, []⟩ → init p k s = .ok () s' → Booted p k s'

/-- The frame of the directory that `CR3` points at. -/
def BootState.directory (s : BootState) : Nat := s.cr3.toNat / 4096

/-- The translation through the loaded directory. -/
def BootState.translate (s : BootState) (pse : Bool) (v : Nat) : Option Translation :=
  walk pse s.mem s.directory v

/-- The entry of the loaded directory in slot `i`. -/
def BootState.slot (s : BootState) (i : Nat) : U32 := s.mem.entry s.directory i

/-- What is known of a machine that has been brought up: the loaded directory represents the
    intended entries, and its frames are neither frame 0 nor frames of the image. -/
theorem Booted.exists_space {p : Profile} {k : KernelLayout} {s : BootState} (h : Booted p k s) :
    ∃ space, Represents s.mem s.directory space ∧ s.cr3.toNat = 4096 * s.directory ∧
      (∀ page, space.entry page = finalEntry k page) ∧ s.directory ∉ k.image.frames ∧
      ∀ i t, space.table i = some t → t ∉ k.image.frames := by
  obtain @⟨fuel, map, st₀, st, s₀, _, hhint, hinit, hledger, hrun⟩ := h
  have howns : s₀.ledger.Owns st.freeFrames := hledger ▸ owns_of_init hhint hinit
  obtain ⟨dir, space, hbuilding, hcr3, hentry⟩ := init_eq_ok howns hrun
  have hlow := hbuilding.dir_low
  have hbase : s.cr3.toNat = 4096 * dir := by
    rw [hcr3, BitVec.toNat_ofNat, Nat.mod_eq_of_lt (by omega)]
  have hdir : s.directory = dir := by
    rw [BootState.directory, hbase]
    omega
  -- Held frames are among those that `init` published, which avoid the image.
  have hheld : ∀ f ∈ s.ledger.pool.owned, f ∉ k.image.frames := by
    intro f hf
    have hfree : f ∈ st.freeFrames :=
      hbuilding.owns.conserves.union ▸ Set.mem_union_right _ hf
    obtain ⟨_, _, _, _, hset, _⟩ := Memory.init_eq_ok hinit
    rw [hset] at hfree
    exact hfree.2
  rw [hdir]
  exact ⟨space, hbuilding.represents, hbase, hentry, hheld dir hbuilding.dir_held,
    fun i t ht => hheld t (hbuilding.table_held i t ht)⟩

/-- Below the recursive window the loaded directory does exactly what is intended. -/
theorem Booted.translate_below {p : Profile} {k : KernelLayout} {s : BootState}
    (h : Booted p k s) (pse : Bool) {v : Nat} (hv : v < 0xFFC00000) :
    s.translate pse v = finalTranslation k v := by
  obtain ⟨space, hrep, _, hentry, _⟩ := h.exists_space
  rw [BootState.translate, hrep.walk_below pse hv, translate_finalEntry hentry hv]

/-- **The exact address space**: below the recursive window the read-only part of the image, its
    writable part without the guard page and the memory below the kernel are mapped, each with
    its rights, and nothing else is present. -/
theorem address_space_exact {p : Profile} {k : KernelLayout} {s : BootState}
    (h : Booted p k s) (pse : Bool) (v : Nat) (hv : v < 0xFFC00000) :
    s.translate pse v =
      if k.virtStart ≤ v ∧ v < k.dataStart then some ⟨v - 0xC0000000, false, false⟩
      else if k.dataStart ≤ v ∧ v < k.virtEnd ∧
          ¬ (k.stackGuard ≤ v ∧ v < k.stackGuard + 4096) then
        some ⟨v - 0xC0000000, true, false⟩
      else if v < k.physStart then some ⟨v, true, false⟩
      else none :=
  h.translate_below pse hv

/-- The smallest linked kernel boots on the four low frames of `lowMap`. -/
theorem booted_smallest : ∃ s, Booted .dev LinkedLayout.smallest.toKernelLayout s := by
  obtain ⟨st, s', hinit, hrun, -⟩ := init_smallest ⟨⟨.new, []⟩, fun _ => 0, [], 0, 0⟩
  exact ⟨s', .intro (Nat.zero_le _) hinit rfl hrun⟩

/-- The smallest kernel: read-only text, an absent guard page, a writable stack. -/
theorem address_space_exact_smallest :
    ∃ s, Booted .dev LinkedLayout.smallest.toKernelLayout s ∧
      s.translate true 0xC0202004 = some ⟨0x202004, false, false⟩ ∧
      s.translate true 0xC0205000 = none ∧
      s.translate true 0xC0206FFF = some ⟨0x206FFF, true, false⟩ := by
  obtain ⟨s, h⟩ := booted_smallest
  exact ⟨s, h, address_space_exact h true 0xC0202004 (by decide),
    address_space_exact h true 0xC0205000 (by decide),
    address_space_exact h true 0xC0206FFF (by decide)⟩

/-! ## Aliases -/

/-- The loaded directory in the recursive window: it shows paging frames, writable. -/
theorem Booted.translate_window {p : Profile} {k : KernelLayout} {s : BootState}
    (h : Booted p k s) (pse : Bool) {i off : Nat} (hi : i < 1024) (hoff : off < 4096) :
    s.translate pse (0xFFC00000 + 4096 * i + off) =
      if present (s.slot i) then some ⟨4096 * entryFrame (s.slot i) + off, true, false⟩
      else none := by
  obtain ⟨space, hrep, _⟩ := h.exists_space
  exact hrep.walk_window pse hi hoff

/-- What a translated window address is: an offset in the frame of a present slot. -/
theorem Booted.window_eq_some {p : Profile} {k : KernelLayout} {s : BootState}
    (h : Booted p k s) {pse : Bool} {v : Nat} {tr : Translation} (hlo : 0xFFC00000 ≤ v)
    (hhi : v < 2 ^ 32) (htr : s.translate pse v = some tr) :
    ∃ i off, i < 1024 ∧ off < 4096 ∧ v = 0xFFC00000 + 4096 * i + off ∧
      present (s.slot i) = true ∧ tr.phys = 4096 * entryFrame (s.slot i) + off := by
  have hv : v = 0xFFC00000 + 4096 * ((v - 0xFFC00000) / 4096) + v % 4096 := by omega
  rw [hv, h.translate_window pse (by omega) (by omega)] at htr
  split at htr
  next hpresent =>
    obtain rfl := Option.some.inj htr
    exact ⟨_, _, by omega, by omega, hv, hpresent, rfl⟩
  next => cases htr

/-- A present slot points at a frame outside the image. -/
theorem Booted.slot_not_mem_image {p : Profile} {k : KernelLayout} {s : BootState}
    (h : Booted p k s) {i : Nat} (hi : i < 1024) (hpresent : present (s.slot i) = true) :
    entryFrame (s.slot i) ∉ k.image.frames := by
  obtain ⟨space, hrep, _, _, hdir, htable⟩ := h.exists_space
  rw [BootState.slot] at hpresent ⊢
  rcases hrep.slot_cases hi with hzero | ⟨t, ht, hlt, hwhich⟩
  · simp [hzero] at hpresent
  · rw [ht, entryFrame_tableEntry hlt]
    rcases hwhich with ⟨_, rfl⟩ | htab
    · exact hdir
    · exact htable i t htab

/-- The frames of the read-only part belong to the image. -/
theorem mem_image_of_readOnly {k : KernelLayout} {a : Nat}
    (ha : a ∈ Set.Ico (k.virtStart - kernelVirtualBase) (k.dataStart - kernelVirtualBase)) :
    a / 4096 ∈ k.image.frames := by
  have hphys := k.phys_le_virt
  have hde := k.data_le_end
  rw [KernelImage.frames, Set.mem_Ico, lt_divCeil_iff (by decide)]
  simp only [KernelLayout.image, KernelLayout.physEnd, Set.mem_Ico] at ha ⊢
  omega

/-- **No writable alias of kernel code**: no address is translated with write permission to a
    byte of the read-only image, and below the recursive window distinct pages have distinct
    frames. -/
theorem no_writable_alias {p : Profile} {k : KernelLayout} {s : BootState}
    (h : Booted p k s) (pse : Bool) :
    (∀ v < 2 ^ 32, ∀ tr, s.translate pse v = some tr → tr.writable = true →
      tr.phys ∉ Set.Ico (k.virtStart - kernelVirtualBase) (k.dataStart - kernelVirtualBase)) ∧
    ∀ v < 0xFFC00000, ∀ v' < 0xFFC00000, ∀ tr tr', s.translate pse v = some tr →
      s.translate pse v' = some tr' → v / 4096 ≠ v' / 4096 → tr.phys / 4096 ≠ tr'.phys / 4096 := by
  have hbase := kernelVirtualBase_eq
  have hphys := k.phys_le_virt
  have hvd := k.virt_le_data
  obtain ⟨e, he⟩ := k.physStart_aligned
  constructor
  · intro v hv tr htr hwrite hread
    by_cases hbelow : v < 0xFFC00000
    · rw [h.translate_below pse hbelow] at htr
      rw [Set.mem_Ico] at hread
      rcases finalTranslation_eq_some htr with ⟨_, _, hp, hdata⟩ | ⟨_, hp⟩
      · have := hdata hwrite
        omega
      · omega
    · -- The window shows paging frames, and those lie outside the image.
      obtain ⟨i, off, hi, hoff, _, hpresent, hp⟩ :=
        h.window_eq_some (Nat.not_lt.mp hbelow) hv htr
      have hframe : tr.phys / 4096 = entryFrame (s.slot i) := by omega
      exact h.slot_not_mem_image hi hpresent (hframe ▸ mem_image_of_readOnly hread)
  · intro v hv v' hv' tr tr' htr htr' hne
    rw [h.translate_below pse hv] at htr
    rw [h.translate_below pse hv'] at htr'
    -- Each part is mapped by one shift, and the image starts no lower than the low part ends.
    rcases finalTranslation_eq_some htr with ⟨_, _, hp, _⟩ | ⟨_, hp⟩ <;>
      rcases finalTranslation_eq_some htr' with ⟨_, _, hp', _⟩ | ⟨_, hp'⟩ <;> omega

theorem no_writable_alias_smallest :
    ∃ s, Booted .dev LinkedLayout.smallest.toKernelLayout s ∧
      (∀ v < 2 ^ 32, ∀ tr, s.translate true v = some tr → tr.writable = true →
        tr.phys ∉ Set.Ico 0x202000 0x204000) := by
  obtain ⟨s, h⟩ := booted_smallest
  exact ⟨s, h, (no_writable_alias h true).1⟩

/-! ## The recursive window -/

/-- The recursive slot is present and points at the directory. -/
theorem Booted.recursive_slot {p : Profile} {k : KernelLayout} {s : BootState}
    (h : Booted p k s) :
    present (s.slot 1023) = true ∧ 4096 * entryFrame (s.slot 1023) = s.cr3.toNat := by
  obtain ⟨space, hrep, hcr3, _⟩ := h.exists_space
  rw [BootState.slot, hrep.self, entryFrame_tableEntry hrep.dir_lt, hcr3]
  exact ⟨present_tableEntry _, rfl⟩

/-- Distinct present slots point at distinct frames. -/
theorem Booted.slot_inj {p : Profile} {k : KernelLayout} {s : BootState} (h : Booted p k s)
    {i i' : Nat} (hi : i < 1024) (hi' : i' < 1024) (hpresent : present (s.slot i) = true)
    (hpresent' : present (s.slot i') = true)
    (heq : entryFrame (s.slot i) = entryFrame (s.slot i')) : i = i' := by
  obtain ⟨space, hrep, _⟩ := h.exists_space
  simp only [BootState.slot] at hpresent hpresent' heq
  rcases hrep.slot_cases hi with hzero | ⟨t, ht, hlt, hwhich⟩
  · simp [hzero] at hpresent
  rcases hrep.slot_cases hi' with hzero | ⟨t', ht', hlt', hwhich'⟩
  · simp [hzero] at hpresent'
  rw [ht, ht', entryFrame_tableEntry hlt, entryFrame_tableEntry hlt'] at heq
  subst heq
  -- No table is the directory, and no frame is the table of two slots.
  rcases hwhich with ⟨rfl, rfl⟩ | htab <;> rcases hwhich' with ⟨rfl, hdir⟩ | htab'
  · rfl
  · exact absurd rfl (hrep.table_spec i' _ htab').2.2
  · exact absurd hdir (hrep.table_spec i _ htab).2.2
  · exact hrep.table_inj i i' t htab htab'

/-- **The recursive mapping**: word `j` of page `i` of the window is entry `j` of the table
    behind slot `i`, writable, when that slot is present, and entry `j` of the directory itself
    for the last page.  Hence the words of the window are exactly the entries of the directory
    and of its tables, each of them once. -/
theorem recursive_window {p : Profile} {k : KernelLayout} {s : BootState} (h : Booted p k s)
    (pse : Bool) :
    (∀ i < 1024, ∀ j < 1024, s.translate pse (0xFFC00000 + 4096 * i + 4 * j) =
      if present (s.slot i) then some ⟨4096 * entryFrame (s.slot i) + 4 * j, true, false⟩
      else none) ∧
    (∀ j < 1024, s.translate pse (0xFFC00000 + 4096 * 1023 + 4 * j) =
      some ⟨s.cr3.toNat + 4 * j, true, false⟩) ∧
    { a | ∃ v tr, 0xFFC00000 ≤ v ∧ v < 2 ^ 32 ∧ 4 ∣ v ∧ s.translate pse v = some tr ∧
        tr.phys = a } =
      { a | ∃ i j, i < 1024 ∧ j < 1024 ∧ present (s.slot i) = true ∧
        a = 4096 * entryFrame (s.slot i) + 4 * j } ∧
    ∀ v v' tr tr', 0xFFC00000 ≤ v → v < 2 ^ 32 → 0xFFC00000 ≤ v' → v' < 2 ^ 32 →
      s.translate pse v = some tr → s.translate pse v' = some tr' → tr.phys = tr'.phys →
      v = v' := by
  refine ⟨fun i hi j hj => h.translate_window pse hi (by omega), fun j hj => ?_, ?_, ?_⟩
  · obtain ⟨hpresent, hframe⟩ := h.recursive_slot
    rw [h.translate_window pse (by decide) (by omega), if_pos hpresent, hframe]
  · ext a
    constructor
    · rintro ⟨v, tr, hlo, hhi, hdvd, htr, rfl⟩
      obtain ⟨i, off, hi, hoff, rfl, hpresent, hphys⟩ := h.window_eq_some hlo hhi htr
      exact ⟨i, off / 4, hi, by omega, hpresent, by omega⟩
    · rintro ⟨i, j, hi, hj, hpresent, rfl⟩
      refine ⟨0xFFC00000 + 4096 * i + 4 * j, ⟨4096 * entryFrame (s.slot i) + 4 * j, true, false⟩,
        by omega, by omega, by omega, ?_, rfl⟩
      rw [h.translate_window pse hi (by omega), if_pos hpresent]
  · intro v v' tr tr' hlo hhi hlo' hhi' htr htr' heq
    obtain ⟨i, off, hi, hoff, rfl, hpresent, hphys⟩ := h.window_eq_some hlo hhi htr
    obtain ⟨i', off', hi', hoff', rfl, hpresent', hphys'⟩ := h.window_eq_some hlo' hhi' htr'
    have hslot := h.slot_inj hi hi' hpresent hpresent' (by omega)
    omega

/-- In the smallest kernel on `lowMap` the last word of the address space is the recursive slot
    itself, the window shows the kernel's table from `0xFFF00000` on, and it has no page for the
    second slot, which is empty. -/
theorem recursive_window_smallest :
    ∃ s, Booted .dev LinkedLayout.smallest.toKernelLayout s ∧
      s.translate true 0xFFFFFFFC = some ⟨0x1FFC, true, false⟩ ∧
      s.translate true 0xFFF00004 = some ⟨0x2004, true, false⟩ ∧
      s.translate true 0xFFC01000 = none := by
  obtain ⟨st, s, hinit, hrun, hcr3, hkernel, -, hempty, -⟩ :=
    init_smallest ⟨⟨.new, []⟩, fun _ => 0, [], 0, 0⟩
  have h : Booted .dev LinkedLayout.smallest.toKernelLayout s :=
    .intro (Nat.zero_le _) hinit rfl hrun
  have hdirectory : s.directory = 1 := by rw [BootState.directory, hcr3]; rfl
  obtain ⟨hpages, hself, -⟩ := recursive_window h true
  refine ⟨s, h, ?_, ?_, ?_⟩
  · rw [hself 1023 (by decide), hcr3]
    rfl
  · have hslot : s.slot 768 = tableEntry 2 := by rw [BootState.slot, hdirectory, hkernel]
    rw [hpages 768 (by decide) 1 (by decide), hslot, if_pos (present_tableEntry 2),
      entryFrame_tableEntry (by decide)]
  · have hslot : s.slot 1 = 0 := by
      rw [BootState.slot, hdirectory, hempty 1 (by decide) (by decide) (by decide)]
    rw [hpages 1 (by decide) 0 (by decide), hslot]
    rfl

/-! ## The switch of `CR3` -/

/-- The translation of `v` by a directory that is given by its entries, with `CR4.PSE` set. -/
def PageDirectory.translate (pd : PageDirectory) (mem : Memory) (v : Nat) : Option Translation :=
  pd[v / 2 ^ 22]?.bind fun pde => walkEntry true mem pde.raw v

/-- The addresses the kernel uses across the switch: the image without the guard page, the
    stack, the GDT and the text buffer. -/
def Live (k : KernelLayout) (v : Nat) : Prop :=
  (k.virtStart ≤ v ∧ v < k.virtEnd ∧ ¬ (k.stackGuard ≤ v ∧ v < k.stackGuard + pageSize)) ∨
  (k.stackBottom ≤ v ∧ v < k.stackTop) ∨
  (gdtBase ≤ v ∧ v < gdtBase + gdtSize) ∨
  (vgaBuffer ≤ v ∧ v < vgaBuffer + vgaSize)

/-- A present, writable 4 MiB entry at physical address 0. -/
theorem walkEntry_huge (mem : Memory) (v : Nat) :
    walkEntry true mem 0x83 v = some ⟨v % 2 ^ 22, true, false⟩ := by
  have hpresent : present 0x83 = true := rfl
  have hlarge : large 0x83 = true := rfl
  have hbase : (0x83 : U32).toNat / 2 ^ 22 * 2 ^ 22 = 0 := rfl
  rw [walkEntry, hpresent, hlarge, hbase, Nat.zero_add]
  rfl

/-- The bootstrap directory maps the first 4 MiB of physical memory at 0 and at the base of the
    high half. -/
theorem bootstrap_translate (p : Profile) :
    ∃ pd, PageDirectory.bootstrap p = .ok pd ∧ ∀ mem v, (v / 2 ^ 22 = 0 ∨ v / 2 ^ 22 = 768) →
      PageDirectory.translate pd mem v = some ⟨v % 2 ^ 22, true, false⟩ := by
  have hhuge : PageDirectoryEntry.forHugePage p ⟨0⟩ .kernelRw = .ok ⟨0x83⟩ := by
    cases p <;> rfl
  refine ⟨((Vector.replicate entryCount PageDirectoryEntry.empty).set 0 ⟨0x83⟩ (by decide)).set
    768 ⟨0x83⟩ (by decide), ?_, fun mem v hv => ?_⟩
  · unfold PageDirectory.bootstrap
    rw [hhuge]
    rfl
  · unfold PageDirectory.translate
    rcases hv with hv | hv
    · rw [hv, Vector.getElem?_set_ne (by decide) (by decide), Vector.getElem?_set_self]
      exact walkEntry_huge mem v
    · rw [hv, Vector.getElem?_set_self]
      exact walkEntry_huge mem v

/-- **The `CR3` switch changes no live translation**: for an image that ends within the first
    4 MiB, whatever the new directory maps below the recursive window the bootstrap directory
    maps to the same physical address, and the new directory maps every live address. -/
theorem switch_keeps_live {p : Profile} {k : LinkedLayout} {s : BootState}
    (hend : k.physEnd ≤ 0x400000) (h : Booted p k.toKernelLayout s) (pse : Bool)
    (mem : Memory) :
    ∃ pd, PageDirectory.bootstrap p = .ok pd ∧
      (∀ v < 0xFFC00000, ∀ tr, s.translate pse v = some tr →
        ∃ tr₀, PageDirectory.translate pd mem v = some tr₀ ∧ tr₀.phys = tr.phys) ∧
      ∀ v, Live k.toKernelLayout v → ∃ tr, s.translate pse v = some tr := by
  obtain ⟨pd, hpd, hboot⟩ := bootstrap_translate p
  have hbase := kernelVirtualBase_eq
  have hbounds := k.image_bounds.1
  have hstart := KernelLayout.base_le_virtStart k.toKernelLayout
  have hphysEnd : k.physEnd = k.virtEnd - kernelVirtualBase := rfl
  simp only [KernelLayout.image] at hbounds
  refine ⟨pd, hpd, fun v hv tr htr => ?_, fun v hlive => ?_⟩
  · rw [h.translate_below pse hv] at htr
    rcases finalTranslation_eq_some htr with ⟨hlo, hhi, hp, _⟩ | ⟨hlow, hp⟩
    · exact ⟨_, hboot mem v (Or.inr (by omega)), by simp only []; omega⟩
    · exact ⟨_, hboot mem v (Or.inl (by omega)), by simp only []; omega⟩
  · -- The stack lies in the image above the guard page, the GDT and the text buffer below it.
    have hmapped : (k.virtStart ≤ v ∧ v < k.virtEnd ∧
        ¬ (k.stackGuard ≤ v ∧ v < k.stackGuard + pageSize)) ∨ v < k.physStart := by
      have hloaded := k.loaded_at
      have hstack := k.stack_le_end
      have hvd := k.virt_le_data
      have hdg := k.data_le_guard
      simp only [Live, KernelLayout.stackTop, KernelLayout.stackBottom, pageSize_eq, gdtBase,
        gdtSize, gdtEntryCount, vgaBuffer, vgaSize, vgaWidth, vgaHeight, kernelLma]
        at hlive hloaded hstack ⊢
      omega
    rw [h.translate_below pse (by have := k.end_le; omega)]
    exact exists_finalTranslation hmapped

/-- The smallest linked kernel ends at `0x237000`; its stack is still mapped after the
    switch. -/
theorem switch_keeps_live_smallest :
    LinkedLayout.smallest.physEnd ≤ 0x400000 ∧
      ∃ s, Booted .dev LinkedLayout.smallest.toKernelLayout s ∧
        ∃ tr, s.translate true 0xC0215FFC = some tr := by
  obtain ⟨s, h⟩ := booted_smallest
  obtain ⟨_, _, _, hlive⟩ := switch_keeps_live (by decide) h true fun _ => 0
  exact ⟨by decide, s, h, hlive 0xC0215FFC (Or.inr (Or.inl ⟨by decide, by decide⟩))⟩

end Zkrnl32.Memory.Paging
