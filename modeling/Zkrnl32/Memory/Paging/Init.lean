import Zkrnl32.Memory.Paging.Calls

/-!
# The Directory That `init` Builds

- `kernelCalls`, `identityCalls`: the two loops of `init` as sequences of calls.
- `init_cases`: `init` stops for want of a frame, or makes those calls on an empty directory.
- `init_eq_ok`: what a returning `init` has built: the entry of every page is its `finalEntry`.
-/

namespace Zkrnl32.Memory.Paging

open Zkrnl32.Machine

/-! ## The two loops of `init` -/

/-- The entry the kernel loop writes for the page at `virt`. -/
def kernelEntry (k : KernelLayout) (virt : Nat) : U32 :=
  pageEntry ((virt - kernelVirtualBase) / 4096) (if virt < k.dataStart then 1 else 3)

/-- The addresses of the kernel loop. -/
theorem mem_kernelPages {k : KernelLayout} {virt : Nat} :
    virt ∈ rangeStepBy k.virtStart k.virtEnd pageSize ↔
      4096 ∣ virt ∧ k.virtStart ≤ virt ∧ virt < k.virtEnd := by
  obtain ⟨a, ha⟩ := k.virtStart_aligned
  rw [pageSize_eq, mem_rangeStepBy (by decide)]
  constructor
  · rintro ⟨hlt, i, rfl⟩
    exact ⟨⟨a + i, by omega⟩, by omega, hlt⟩
  · rintro ⟨⟨b, rfl⟩, hle, hlt⟩
    exact ⟨hlt, b - a, by omega⟩

/-- The addresses of the identity loop. -/
theorem mem_identityPages {k : KernelLayout} {phys : Nat} :
    phys ∈ rangeStepBy 0 k.physStart pageSize ↔ 4096 ∣ phys ∧ phys < k.physStart := by
  rw [pageSize_eq, mem_rangeStepBy (by decide)]
  constructor
  · rintro ⟨hlt, i, rfl⟩
    exact ⟨⟨i, by omega⟩, hlt⟩
  · rintro ⟨⟨b, rfl⟩, hlt⟩
    exact ⟨hlt, b, by omega⟩

theorem KernelLayout.base_le_virtStart (k : KernelLayout) : kernelVirtualBase ≤ k.virtStart := by
  have := k.phys_le_virt
  omega

/-- The call of the kernel loop for the page at `virt`; the guard page is skipped. -/
def kernelCall (k : KernelLayout) (virt : Nat) : Option MapCall :=
  if virt = k.stackGuard then none
  else some
    { virt := ⟨BitVec.ofNat 32 virt⟩
      phys := ⟨BitVec.ofNat 32 (virt - kernelVirtualBase)⟩
      flags := if virt < k.dataStart then .kernelRo else .kernelRw }

/-- The calls of the kernel loop. -/
def kernelCalls (k : KernelLayout) : List MapCall :=
  (rangeStepBy k.virtStart k.virtEnd pageSize).filterMap (kernelCall k)

/-- The call of the identity loop for the page at `phys`. -/
def identityCall (phys : Nat) : MapCall where
  virt := ⟨BitVec.ofNat 32 phys⟩
  phys := ⟨BitVec.ofNat 32 phys⟩
  flags := .kernelRw

/-- The calls of the identity loop. -/
def identityCalls (k : KernelLayout) : List MapCall :=
  (rangeStepBy 0 k.physStart pageSize).map identityCall

/-- All calls that `init` makes. -/
def initCalls (k : KernelLayout) : List MapCall := kernelCalls k ++ identityCalls k

section Loops

variable {k : KernelLayout}

theorem kernelPages_eq_calls (p : Profile) (k : KernelLayout) (pd : Nat) :
    forM (rangeStepBy k.virtStart k.virtEnd pageSize) (mapKernelPage p k pd) =
      forM (kernelCalls k) (MapCall.perform p pd) := by
  refine forM_filterMap fun virt hmem => ?_
  obtain ⟨_, hlo, _⟩ := mem_kernelPages.mp hmem
  have hbase := KernelLayout.base_le_virtStart k
  unfold mapKernelPage kernelCall
  -- The source's `continue` on the guard page is the skipped item.
  by_cases hguard : virt = k.stackGuard
  · rw [if_pos hguard, if_pos hguard]
  · rw [if_neg hguard, if_neg hguard]
    funext s
    exact run_lift_bind (sub_eq_ok (by omega)) _ s

theorem identityPages_eq_calls (p : Profile) (k : KernelLayout) (pd : Nat) :
    forM (rangeStepBy 0 k.physStart pageSize) (mapIdentityPage p pd) =
      forM (identityCalls k) (MapCall.perform p pd) := by
  rw [identityCalls, ← List.filterMap_eq_map]
  exact forM_filterMap fun _ _ => rfl

/-- The page of an aligned 32-bit address. -/
theorem page_ofNat {page : Nat} (h : 4096 * page < 2 ^ 32) :
    (BitVec.ofNat 32 (4096 * page)).toNat / 4096 = page := by
  rw [BitVec.toNat_ofNat, Nat.mod_eq_of_lt h, Nat.mul_div_cancel_left page (by decide)]

/-- What the kernel loop asks for. -/
theorem mem_kernelCalls {c : MapCall} (h : c ∈ kernelCalls k) :
    ∃ page, k.virtStart ≤ 4096 * page ∧ 4096 * page < k.virtEnd ∧ 4096 * page ≠ k.stackGuard ∧
      c.page = page ∧ c.Valid ∧ c.entry = kernelEntry k (4096 * page) := by
  obtain ⟨virt, hmem, hcall⟩ := List.mem_filterMap.mp h
  obtain ⟨⟨page, rfl⟩, hlo, hhi⟩ := mem_kernelPages.mp hmem
  have hend := k.end_le
  unfold kernelCall at hcall
  split at hcall
  next => cases hcall
  next hguard =>
    cases hcall
    have hflags : (if 4096 * page < k.dataStart then PageFlags.kernelRo
        else PageFlags.kernelRw).bits.toNat = if 4096 * page < k.dataStart then 1 else 3 := by
      split <;> rfl
    have hvirt : (BitVec.ofNat 32 (4096 * page)).toNat = 4096 * page := by
      rw [BitVec.toNat_ofNat, Nat.mod_eq_of_lt (by omega)]
    have hphys : (BitVec.ofNat 32 (4096 * page - kernelVirtualBase)).toNat =
        4096 * page - kernelVirtualBase := by
      rw [BitVec.toNat_ofNat, Nat.mod_eq_of_lt (by omega)]
    refine ⟨page, hlo, hhi, hguard, ?_, ⟨?_, ?_⟩, ?_⟩
    · exact page_ofNat (by omega)
    · rw [hvirt]
      omega
    · rw [hflags]
      split <;> decide
    · rw [MapCall.entry, hphys, hflags, kernelEntry]

/-- What the identity loop asks for. -/
theorem mem_identityCalls {c : MapCall} (h : c ∈ identityCalls k) :
    ∃ page, 4096 * page < k.physStart ∧ c.page = page ∧ c.Valid ∧ c.entry = pageEntry page 3 := by
  obtain ⟨phys, hmem, rfl⟩ := List.mem_map.mp h
  obtain ⟨⟨page, rfl⟩, hlt⟩ := mem_identityPages.mp hmem
  have hbounds := k.image_bounds
  simp only [KernelLayout.image] at hbounds
  have hphys : (BitVec.ofNat 32 (4096 * page)).toNat = 4096 * page := by
    rw [BitVec.toNat_ofNat, Nat.mod_eq_of_lt (by omega)]
  have hpage : (BitVec.ofNat 32 (4096 * page)).toNat / 4096 = page := page_ofNat (by omega)
  have hflags : PageFlags.kernelRw.bits.toNat < 4096 := by decide
  refine ⟨page, hlt, hpage, ⟨?_, hflags⟩, ?_⟩
  · exact hphys.trans_lt (by omega)
  · exact congrArg₂ pageEntry hpage rfl

/-- Every page of the image but the guard page is asked for. -/
theorem exists_kernelCall {page : Nat} (hlo : k.virtStart ≤ 4096 * page)
    (hhi : 4096 * page < k.virtEnd) (hguard : 4096 * page ≠ k.stackGuard) :
    ∃ c ∈ kernelCalls k, c.page = page := by
  have hend := k.end_le
  have hmem := mem_kernelPages.mpr ⟨Nat.dvd_mul_right 4096 page, hlo, hhi⟩
  obtain ⟨c, hcall, hpage⟩ : ∃ c, kernelCall k (4096 * page) = some c ∧ c.page = page :=
    ⟨_, if_neg hguard, page_ofNat (by omega)⟩
  exact ⟨c, List.mem_filterMap.mpr ⟨_, hmem, hcall⟩, hpage⟩

theorem exists_identityCall {page : Nat} (hlt : 4096 * page < k.physStart) :
    ∃ c ∈ identityCalls k, c.page = page := by
  have hbounds := k.image_bounds
  simp only [KernelLayout.image] at hbounds
  have hmem := mem_identityPages.mpr ⟨Nat.dvd_mul_right 4096 page, hlt⟩
  exact ⟨_, List.mem_map_of_mem hmem, page_ofNat (by omega)⟩

theorem initCalls_valid : ∀ c ∈ initCalls k, c.Valid := by
  intro c hc
  rcases List.mem_append.mp hc with hkernel | hidentity
  · obtain ⟨_, _, _, _, _, hvalid, _⟩ := mem_kernelCalls hkernel
    exact hvalid
  · obtain ⟨_, _, _, hvalid, _⟩ := mem_identityCalls hidentity
    exact hvalid

end Loops

/-! ## The whole directory -/

/-- The entry that `init` leaves for a page below the recursive window. -/
def finalEntry (k : KernelLayout) (page : Nat) : U32 :=
  if k.virtStart ≤ 4096 * page ∧ 4096 * page < k.virtEnd ∧ 4096 * page ≠ k.stackGuard then
    kernelEntry k (4096 * page)
  else if 4096 * page < k.physStart then pageEntry page 3
  else 0

/-- Every call of `init` writes the final entry of its page. -/
theorem entry_of_mem_initCalls {k : KernelLayout} {c : MapCall} (h : c ∈ initCalls k) :
    c.entry = finalEntry k c.page := by
  have hbase := k.phys_le_virt
  have hbounds := k.image_bounds
  simp only [KernelLayout.image, kernelVirtualBase_eq] at hbase hbounds
  rw [finalEntry]
  rcases List.mem_append.mp h with hkernel | hidentity
  · obtain ⟨_, hlo, hhi, hguard, rfl, _, hentry⟩ := mem_kernelCalls hkernel
    rw [if_pos ⟨hlo, hhi, hguard⟩, hentry]
  · -- The identity range ends below the high half.
    obtain ⟨_, hlt, rfl, _, hentry⟩ := mem_identityCalls hidentity
    rw [if_neg (by omega), if_pos hlt, hentry]

/-- A page without a call has no final entry. -/
theorem finalEntry_of_no_call {k : KernelLayout} {page : Nat}
    (h : ∀ c ∈ initCalls k, c.page ≠ page) : finalEntry k page = 0 := by
  rw [finalEntry, if_neg, if_neg]
  · intro hlt
    obtain ⟨c, hc, hpage⟩ := exists_identityCall hlt
    exact h c (List.mem_append_right _ hc) hpage
  · rintro ⟨hlo, hhi, hguard⟩
    obtain ⟨c, hc, hpage⟩ := exists_kernelCall hlo hhi hguard
    exact h c (List.mem_append_left _ hc) hpage

/-- The state with a zeroed directory in frame `dir` and its recursive slot. -/
def BootState.withDirectory (s : BootState) (dir : Nat) (st : FrameBitmap) : BootState :=
  ((s.issue dir st).zeroed dir).withEntry dir 1023 (tableEntry dir)

/-- The first part of `init`: it stops for want of a frame, or it goes on with the calls and an
    empty directory. -/
theorem init_cases (p : Profile) (k : KernelLayout) {s : BootState}
    (hhint : s.ledger.allocator.searchHint ≤ wordCount) :
    (∃ e s', init p k s = .error e s' ∧ Refused s s') ∨
    ∃ dir st, init p k s = (do
        forM (kernelCalls k) (MapCall.perform p (4096 * dir))
        forM (identityCalls k) (MapCall.perform p (4096 * dir))
        modify fun s =>
          { s with cr3 := BitVec.ofNat 32 (4096 * dir), cr0 := s.cr0 ||| cr0Wp } :
        Exec BootState Unit) (s.withDirectory dir st) ∧
      dir < 1024 ∧ Taken s.ledger.allocator dir st := by
  rcases allocZeroed_cases p hhint (fun frame => do
    let pd ← bootstrapFramePtr p frame
    let recursive ← PageDirectoryEntry.forTable p frame .kernelRw
    storeEntry pd recursiveIndex recursive.raw
    forM (rangeStepBy k.virtStart k.virtEnd pageSize) (mapKernelPage p k pd)
    forM (rangeStepBy 0 k.physStart pageSize) (mapIdentityPage p pd)
    let base ← frame.baseAddr p
    modify fun s => { s with cr3 := base.raw, cr0 := s.cr0 ||| cr0Wp })
    with hstop | ⟨dir, st, hrun, hlow, htaken⟩
  · exact Or.inl hstop
  · have hrecursive : recursiveIndex = 1023 := rfl
    refine Or.inr ⟨dir, st, ?_, hlow, htaken⟩
    unfold init
    rw [hrun, run_lift_bind (bootstrapFramePtr_eq_ok p hlow),
      run_lift_bind (PageDirectoryEntry.forTable_eq_ok p htaken.lt), hrecursive,
      run_bind_of_ok (storeEntry_eq_ok (by decide) _), FrameNumber.baseAddr_eq_ok htaken.lt,
      Nat.mul_comm dir 4096, kernelPages_eq_calls, identityPages_eq_calls]
    rfl

/-- The new directory represents the empty space. -/
theorem mapping_empty {dir : Nat} {s : BootState} {st : FrameBitmap} (hlow : dir < 1024)
    (htaken : Taken s.ledger.allocator dir st) : Mapping dir .empty (s.withDirectory dir st) where
  hint_le := htaken.hint_le
  represents := represents_empty s.mem htaken.lt
  dir_used := by
    change dir ∉ st.freeFrames
    rw [htaken.free_eq]
    exact fun hmem => hmem.2 rfl
  dir_low := hlow
  table_used := nofun
  table_low := nofun

/-- The same in an owned ledger. -/
theorem building_empty {total : Set Nat} {dir : Nat} {s : BootState} {st : FrameBitmap}
    (h : s.ledger.Owns total) (hlow : dir < 1024) (htaken : Taken s.ledger.allocator dir st) :
    Building total dir .empty (s.withDirectory dir st) where
  toMapping := mapping_empty hlow htaken
  owns := h.take_single htaken
  dir_held := owned_issue s dir st ▸ Set.mem_insert dir _
  table_held := nofun

/-- A returning `init` made all its calls. -/
theorem init_calls {p : Profile} {k : KernelLayout} {s s' : BootState}
    (hhint : s.ledger.allocator.searchHint ≤ wordCount) (hrun : init p k s = .ok () s') :
    ∃ dir st space₁ s₁ space₂ s₂, dir < 1024 ∧ Taken s.ledger.allocator dir st ∧
      MapRun dir .empty (s.withDirectory dir st) (kernelCalls k) space₁ s₁ ∧
      MapRun dir space₁ s₁ (identityCalls k) space₂ s₂ ∧
      s' = { s₂ with cr3 := BitVec.ofNat 32 (4096 * dir), cr0 := s₂.cr0 ||| cr0Wp } := by
  rcases init_cases p k hhint with ⟨e, s₁, hstop, _⟩ | ⟨dir, st, hstart, hlow, htaken⟩
  · rw [hstop] at hrun
    cases hrun
  rw [hstart] at hrun
  obtain ⟨_, s₁, hkernel, hrun⟩ := bind_eq_ok.mp hrun
  obtain ⟨_, s₂, hidentity, hrun⟩ := bind_eq_ok.mp hrun
  cases hrun
  have hmap := mapping_empty hlow htaken
  obtain ⟨space₁, hrun₁⟩ := calls_eq_ok hmap
    (fun c hc => initCalls_valid c (List.mem_append_left _ hc)) hkernel
  obtain ⟨space₂, hrun₂⟩ := calls_eq_ok (hrun₁.mapping hmap)
    (fun c hc => initCalls_valid c (List.mem_append_right _ hc)) hidentity
  exact ⟨dir, st, space₁, s₁, space₂, s₂, hlow, htaken, hrun₁, hrun₂, rfl⟩

/-- What a returning `init` has built and loaded. -/
theorem init_eq_ok {p : Profile} {k : KernelLayout} {total : Set Nat} {s s' : BootState}
    (h : s.ledger.Owns total) (hrun : init p k s = .ok () s') :
    ∃ dir space, Building total dir space s' ∧ s'.cr3 = BitVec.ofNat 32 (4096 * dir) ∧
      ∀ page, space.entry page = finalEntry k page := by
  obtain ⟨dir, st, space₁, s₁, space₂, s₂, hlow, htaken, hrun₁, hrun₂, rfl⟩ :=
    init_calls h.hint_le hrun
  have hbuild := hrun₂.building (hrun₁.building (building_empty h hlow htaken))
  refine ⟨dir, space₂, ⟨⟨hbuild.hint_le, hbuild.represents, hbuild.dir_used, hbuild.dir_low,
    hbuild.table_used, hbuild.table_low⟩, hbuild.owns, hbuild.dir_held, hbuild.table_held⟩, rfl,
    fun page => ?_⟩
  rw [(hrun₁.append hrun₂).entry_eq page]
  cases hlast : lastCall (kernelCalls k ++ identityCalls k) page with
  | some c =>
    obtain ⟨hmem, rfl⟩ := lastCall_eq_some hlast
    exact entry_of_mem_initCalls hmem
  | none => exact (finalEntry_of_no_call (lastCall_eq_none hlast)).symm

end Zkrnl32.Memory.Paging
