import Zkrnl32.Memory.Paging.Init

/-!
# When the Build Succeeds

`init` stops only for want of a frame in the low 4 MiB, and its calls return as long as every
directory slot they still have to fill can be matched with a free low frame (`Roomy`).

- `init_returns`: with one more low frame than slots to fill, `init` returns.
- `init_takes_lowest`: an image that ends within 4 MiB needs three frames, and the lowest three
  are taken.
-/

namespace Zkrnl32.Memory.Paging

open Zkrnl32.Machine

/-- **Progress**: from a packed allocator with more free low frames than directory slots to
    fill, `init` returns. -/
theorem init_returns (p : Profile) {k : KernelLayout} {total : Set Nat} {s : BootState}
    (h : s.ledger.Owns total) (hpacked : s.ledger.allocator.Packed) (slots : Finset Nat)
    (hslots : ∀ c ∈ initCalls k, c.slot ∈ slots)
    (hroom : slots.card < (lowFree s.ledger).ncard) : ∃ s', init p k s = .ok () s' := by
  rcases init_cases p k h.hint_le with ⟨e, s₁, _, hrefused⟩ | ⟨dir, st, hstart, hlow, htaken⟩
  · exact absurd hrefused (not_refused hpacked (by omega))
  -- The directory took the one low frame that is not kept for a slot.
  have hcard := ncard_lowFree_of_taken htaken hlow (FrameRun.single dir :: s.ledger.held)
  have hgoing : Going dir slots (s.withDirectory dir st) := by
    refine ⟨.empty, mapping_empty hlow htaken, (htaken.packed hpacked).1, ?_⟩
    refine (Finset.card_filter_le _ _).trans ?_
    change slots.card ≤ (lowFree ⟨st, FrameRun.single dir :: s.ledger.held⟩).ncard
    omega
  obtain ⟨s₂, hrun₂, hgoing₂⟩ := calls_return p hgoing fun c hc =>
    ⟨initCalls_valid c (List.mem_append_left _ hc), hslots c (List.mem_append_left _ hc)⟩
  obtain ⟨s₃, hrun₃, _⟩ := calls_return p hgoing₂ fun c hc =>
    ⟨initCalls_valid c (List.mem_append_right _ hc), hslots c (List.mem_append_right _ hc)⟩
  rw [hstart, run_bind_of_ok hrun₂, run_bind_of_ok hrun₃]
  exact ⟨_, rfl⟩

/-! ## Three frames -/

section SmallImage

variable {k : LinkedLayout}

/-- In an image that ends within the first 4 MiB all pages share one directory slot. -/
theorem kernelCalls_slot (hend : k.physEnd ≤ 0x400000) {c : MapCall}
    (hc : c ∈ kernelCalls k.toKernelLayout) : c.slot = 768 := by
  obtain ⟨page, hlo, hhi, _, rfl, _, _⟩ := mem_kernelCalls hc
  have hbase := KernelLayout.base_le_virtStart k.toKernelLayout
  simp only [KernelLayout.physEnd, kernelVirtualBase_eq] at hend hbase
  rw [MapCall.slot]
  omega

theorem identityCalls_slot {c : MapCall} (hc : c ∈ identityCalls k.toKernelLayout) :
    c.slot = 0 := by
  obtain ⟨page, hlt, rfl, _, _⟩ := mem_identityCalls hc
  rw [k.loaded_at, kernelLma] at hlt
  rw [MapCall.slot]
  omega

/-- The two slots of a small image. -/
theorem initCalls_slots (hend : k.physEnd ≤ 0x400000) :
    ∀ c ∈ initCalls k.toKernelLayout, c.slot ∈ ({0, 768} : Finset Nat) := by
  intro c hc
  rcases List.mem_append.mp hc with hkernel | hidentity
  · simp [kernelCalls_slot hend hkernel]
  · simp [identityCalls_slot hidentity]

/-- The loop maps at least the lowest page of the stack. -/
theorem kernelCalls_ne_nil (k : LinkedLayout) : kernelCalls k.toKernelLayout ≠ [] := by
  have hstack := k.stack_le_end
  have hguard := k.data_le_guard
  have hdata := k.virt_le_data
  obtain ⟨page, hpage⟩ := k.stackGuard_aligned
  simp only [KernelLayout.stackTop, KernelLayout.stackBottom] at hstack
  obtain ⟨c, hc, _⟩ : ∃ c ∈ kernelCalls k.toKernelLayout, c.page = page + 1 :=
    exists_kernelCall (by omega) (by omega) (by omega)
  exact List.ne_nil_of_mem hc

theorem identityCalls_ne_nil (k : LinkedLayout) : identityCalls k.toKernelLayout ≠ [] := by
  obtain ⟨c, hc, _⟩ : ∃ c ∈ identityCalls k.toKernelLayout, c.page = 0 :=
    exists_identityCall (by rw [k.loaded_at]; decide)
  exact List.ne_nil_of_mem hc

end SmallImage

/-- With three free frames below 4 MiB and an image that ends there, `init` takes the three lowest
    free frames: for the directory, the table of the kernel half and the table of the identity
    range.  The other slots below the recursive one stay empty. -/
theorem init_takes_lowest {p : Profile} {k : LinkedLayout} {s : BootState} {total : Set Nat}
    (howns : s.ledger.Owns total) (hpacked : s.ledger.allocator.Packed)
    (hlow : 3 ≤ (lowFree s.ledger).ncard) (hend : k.physEnd ≤ 0x400000) :
    ∃ a b c st₁ st₂ st₃ s', init p k.toKernelLayout s = .ok () s' ∧
      Taken s.ledger.allocator a st₁ ∧ Taken st₁ b st₂ ∧ Taken st₂ c st₃ ∧
      s'.ledger = ⟨st₃, FrameRun.single c :: FrameRun.single b :: FrameRun.single a ::
        s.ledger.held⟩ ∧
      s'.cr3 = BitVec.ofNat 32 (4096 * a) ∧
      s'.mem.entry a 768 = tableEntry b ∧ s'.mem.entry a 0 = tableEntry c ∧
      ∀ i < 1023, i ≠ 768 → i ≠ 0 → s'.mem.entry a i = 0 := by
  obtain ⟨s', hrun⟩ := init_returns p howns hpacked {0, 768} (initCalls_slots hend) hlow
  obtain ⟨a, st₁, space₁, s₁, space₂, s₂, halow, ha, hrun₁, hrun₂, rfl⟩ :=
    init_calls howns.hint_le hrun
  obtain ⟨b, st₂, hb, hledger₁, htable₁, hold₁⟩ := hrun₁.one_table
    (newSlots_eq_singleton (kernelCalls_ne_nil k) (fun c hc => kernelCalls_slot hend hc) rfl)
  obtain ⟨c, st₃, hc, hledger₂, htable₂, hold₂⟩ := hrun₂.one_table
    (newSlots_eq_singleton (identityCalls_ne_nil k) (fun c hc => identityCalls_slot hc)
      (hold₁ 0 (by decide)))
  rw [hledger₁] at hc hledger₂
  have hrep := (hrun₂.building (hrun₁.building (building_empty howns halow ha))).represents
  refine ⟨a, b, c, st₁, st₂, st₃, _, hrun, ha, hb, hc, hledger₂, rfl, ?_, ?_,
    fun i hi hne hne' => ?_⟩
  · refine (hrep.slot 768 (by decide)).trans ?_
    rw [hold₂ 768 (by decide), htable₁]
    rfl
  · refine (hrep.slot 0 (by decide)).trans ?_
    rw [htable₂]
    rfl
  · refine (hrep.slot i hi).trans ?_
    rw [hold₂ i hne', hold₁ i hne]
    rfl

/-- Taking a frame from a packed interval takes its first. -/
theorem taken_of_Icc {st st' : FrameBitmap} {f lo hi : Nat} (h : Taken st f st')
    (hpacked : st.Packed) (hfree : st.freeFrames = Set.Icc lo hi) (hle : lo ≤ hi) :
    f = lo ∧ st'.Packed ∧ st'.freeFrames = Set.Icc (lo + 1) hi := by
  have hleast := h.isLeast hpacked
  rw [hfree] at hleast
  obtain rfl := hleast.unique (isLeast_Icc hle)
  refine ⟨rfl, (h.packed hpacked).1, ?_⟩
  rw [h.free_eq, hfree]
  ext g
  simp only [Set.mem_sdiff, Set.mem_Icc, Set.mem_singleton_iff]
  omega

/-- The smallest linked kernel on the four low frames of `lowMap`: its directory is in frame 1, its
    tables are in the frames 2 and 3, and frame 4 stays free. -/
theorem init_smallest (s : BootState) :
    ∃ st s', FrameBitmap.init .dev 2 LinkedLayout.smallest.image (.start lowMap) .new = .ok () st ∧
      init .dev LinkedLayout.smallest.toKernelLayout { s with ledger := ⟨st, []⟩ } = .ok () s' ∧
      s'.cr3 = 0x1000 ∧ s'.mem.entry 1 768 = tableEntry 2 ∧ s'.mem.entry 1 0 = tableEntry 3 ∧
      (∀ i < 1023, i ≠ 768 → i ≠ 0 → s'.mem.entry 1 i = 0) ∧
      s'.ledger.allocator.freeFrames = Set.Icc 4 4 := by
  obtain ⟨st, hinit⟩ := lowMap_returns .dev LinkedLayout.smallest.image
  have hlow : 3 ≤ (lowFree ⟨st, []⟩).ncard := by
    rw [lowFree, ncard_lowFree_lowMap hinit]
    decide
  obtain ⟨a, b, c, st₁, st₂, st₃, s', hrun, ha, hb, hc, hledger, hcr3, hkernel, hidentity,
    hempty⟩ := init_takes_lowest (p := .dev) (k := LinkedLayout.smallest)
      (s := { s with ledger := ⟨st, []⟩ }) (owns_of_init (Nat.zero_le _) hinit)
      (packed_of_init hinit) hlow (by decide)
  obtain ⟨rfl, hpacked₁, hfree₁⟩ := taken_of_Icc ha (packed_of_init hinit)
    (lowMap_freeFrames hinit) (by decide)
  obtain ⟨rfl, hpacked₂, hfree₂⟩ := taken_of_Icc hb hpacked₁ hfree₁ (by decide)
  obtain ⟨rfl, _, hfree₃⟩ := taken_of_Icc hc hpacked₂ hfree₂ (by decide)
  exact ⟨st, s', hinit, hrun, hcr3, hkernel, hidentity, hempty,
    (congrArg (·.allocator.freeFrames) hledger).trans hfree₃⟩

/-- **Three low frames suffice**: from any state that `FrameBitmap::init` leaves with three free
    frames below 4 MiB, and for an image that ends there, `init` returns.  It takes the three
    lowest free frames, for the directory, the table of the kernel half and the table of the
    identity range. -/
theorem init_three_frames {p : Profile} {fuel : Nat} {image : KernelImage}
    {map : Multiboot.MemoryMap} {st : FrameBitmap} {k : LinkedLayout} {s : BootState}
    (hinit : FrameBitmap.init p fuel image map .new = .ok () st) (hs : s.ledger = ⟨st, []⟩)
    (hlow : 3 ≤ (st.freeFrames ∩ Set.Iio 1024).ncard) (hend : k.physEnd ≤ 0x400000) :
    ∃ a b c s', init p k.toKernelLayout s = .ok () s' ∧
      IsLeast st.freeFrames a ∧ IsLeast (st.freeFrames \ {a}) b ∧
      IsLeast (st.freeFrames \ {a, b}) c ∧
      s'.ledger.held = [FrameRun.single c, FrameRun.single b, FrameRun.single a] ∧
      s'.ledger.allocator.freeFrames = st.freeFrames \ {a, b, c} ∧
      s'.cr3 = BitVec.ofNat 32 (4096 * a) ∧
      s'.mem.entry a 768 = tableEntry b ∧ s'.mem.entry a 0 = tableEntry c := by
  have howns : s.ledger.Owns st.freeFrames := hs ▸ owns_of_init (Nat.zero_le _) hinit
  have hpacked : s.ledger.allocator.Packed := hs ▸ packed_of_init hinit
  have hroom : lowFree s.ledger = st.freeFrames ∩ Set.Iio 1024 := by rw [lowFree, hs]
  obtain ⟨a, b, c, st₁, st₂, st₃, s', hrun, ha, hb, hc, hledger, hcr3, hkernel, hidentity,
    -⟩ := init_takes_lowest (p := p) howns hpacked (hroom ▸ hlow) hend
  rw [hs] at hpacked ha hledger
  have hpacked₁ := (ha.packed hpacked).1
  have hpacked₂ := (hb.packed hpacked₁).1
  have hfree₂ : st₂.freeFrames = st.freeFrames \ {a, b} := by
    rw [hb.free_eq, ← Set.singleton_union, ← Set.sdiff_sdiff]
    exact congrArg (· \ {b}) ha.free_eq
  have hfree₃ : st₃.freeFrames = st.freeFrames \ {a, b, c} := by
    rw [hc.free_eq, hfree₂]
    ext f
    simp only [Set.mem_sdiff, Set.mem_insert_iff, Set.mem_singleton_iff, not_or, and_assoc]
  exact ⟨a, b, c, s', hrun, ha.isLeast hpacked, ha.free_eq ▸ hb.isLeast hpacked₁,
    hfree₂ ▸ hc.isLeast hpacked₂, congrArg Ledger.held hledger,
    (congrArg (·.allocator.freeFrames) hledger).trans hfree₃, hcr3, hkernel, hidentity⟩

/-- The smallest linked kernel on `lowMap`: its directory is in frame 1, its tables in the frames 2
    and 3. -/
theorem init_three_frames_smallest :
    ∃ st s', FrameBitmap.init .dev 2 LinkedLayout.smallest.image (.start lowMap) .new =
        .ok () st ∧
      init .dev LinkedLayout.smallest.toKernelLayout ⟨⟨st, []⟩, fun _ => 0, [], 0, 0⟩ =
        .ok () s' ∧
      s'.ledger.held = [FrameRun.single 3, FrameRun.single 2, FrameRun.single 1] := by
  obtain ⟨st, hinit⟩ := lowMap_returns .dev LinkedLayout.smallest.image
  have hlow : 3 ≤ (st.freeFrames ∩ Set.Iio 1024).ncard := by
    rw [ncard_lowFree_lowMap hinit]
    decide
  have hend : LinkedLayout.smallest.physEnd ≤ 0x400000 := by decide
  obtain ⟨a, b, c, s', hrun, ha, hb, hc, hheld, _⟩ :=
    init_three_frames hinit (s := ⟨⟨st, []⟩, fun _ => 0, [], 0, 0⟩) rfl hlow hend
  rw [lowMap_freeFrames hinit] at ha hb hc
  obtain rfl : a = 1 := ha.unique (isLeast_Icc (by decide))
  obtain rfl : b = 2 := hb.unique ⟨by simp, by rintro f ⟨hf, hne⟩; simp at hf hne; omega⟩
  obtain rfl : c = 3 := hc.unique ⟨by simp, by rintro f ⟨hf, hne⟩; simp at hf hne; omega⟩
  exact ⟨st, s', hinit, hrun, hheld⟩

end Zkrnl32.Memory.Paging
