import Zkrnl32.Memory.Frame.Allocate
import Zkrnl32.Multiboot.Walk

/-!
# Building the Initial Picture of Memory

What `FrameBitmap::init` publishes, for an arbitrary memory-map buffer.

- `publishRegion_spec`: the loop body adds the whole frames of an available region
  that ends below 4 GiB, and adds nothing for any other region; a region that reaches
  the limit traps in the `dev` profile.
- `init_eq_ok`: the exact set of free frames after a returning `init`.
- The soundness, completeness and termination of `init` follow from these two.
-/

namespace Zkrnl32.Memory

open Zkrnl32.Machine Zkrnl32.Multiboot Zkrnl32.Utils

/-! ## Byte ranges -/

/-- The bytes of a frame. -/
def frameBytes (f : Nat) : Set Nat := Set.Ico (4096 * f) (4096 * (f + 1))

/-- The bytes of the loaded kernel image. -/
def KernelImage.bytes (image : KernelImage) : Set Nat := Set.Ico image.physStart image.physEnd

theorem frameBytes_subset_Ico {f a b : Nat} :
    frameBytes f ⊆ Set.Ico a b ↔ a ≤ 4096 * f ∧ 4096 * (f + 1) ≤ b :=
  Set.Ico_subset_Ico_iff (by omega)

theorem disjoint_frameBytes_Ico {f a b : Nat} :
    Disjoint (frameBytes f) (Set.Ico a b) ↔ 4096 * (f + 1) ≤ a ∨ b ≤ 4096 * f ∨ b ≤ a := by
  rw [frameBytes, Set.Ico_disjoint_Ico]
  omega

/-! ## One region -/

/-- The frames `init` publishes for a region: the whole frames of an available region that
    ends below 4 GiB. -/
def publishedFrames (region : MemoryRegion) : Set Nat :=
  { f | region.kind = .available ∧ region.base.toNat + region.length.toNat < 2 ^ 32 ∧
    frameBytes f ⊆ region.bytes }

/-- An available region below 4 GiB that reaches the limit. -/
def ReachesLimit (region : MemoryRegion) : Prop :=
  region.kind = .available ∧ region.base.toNat < 2 ^ 32 ∧
    2 ^ 32 ≤ region.base.toNat + region.length.toNat

/-- The regions on which the addition `base + bytes` traps: those that reach the limit, in the
    `dev` profile. A region that starts at 0 is skipped before the addition. -/
def TrapsOn (p : Profile) (region : MemoryRegion) : Prop :=
  p = .dev ∧ ReachesLimit region ∧ region.base.toNat ≠ 0

theorem mem_publishedFrames {region : MemoryRegion} {f : Nat} :
    f ∈ publishedFrames region ↔ region.kind = .available ∧
      region.base.toNat + region.length.toNat < 2 ^ 32 ∧ region.base.toNat ≤ 4096 * f ∧
      4096 * (f + 1) ≤ region.base.toNat + region.length.toNat := by
  rw [publishedFrames, Set.mem_ofPred_eq, MemoryRegion.bytes, frameBytes_subset_Ico]

/-- The frames of a region that ends below 4 GiB, as the interval the source computes. -/
theorem publishedFrames_eq_Ico {region : MemoryRegion} (hkind : region.kind = .available)
    (hend : region.base.toNat + region.length.toNat < 2 ^ 32) :
    publishedFrames region = Set.Ico (divCeil region.base.toNat 4096)
      ((region.base.toNat + region.length.toNat) / 4096) := by
  ext f
  rw [mem_publishedFrames, Set.mem_Ico, divCeil_le_iff (by omega)]
  simp only [hkind, hend, true_and]
  omega

theorem markFree_spec (p : Profile) {start : Nat} {count : NonZeroUsize}
    (hbound : start + count.get ≤ frameCount) (st : FrameBitmap) :
    ∃ st', markFree p ⟨start⟩ count st = .ok () st' ∧
      st'.freeFrames = st.freeFrames ∪ Set.Ico start (start + count.get) ∧
      st'.searchHint ≤ st.searchHint := by
  obtain ⟨st₁, hset, hhint, hfree⟩ := setFree_spec p _ _ hbound st
  refine ⟨{ st₁ with searchHint := min st₁.searchHint (start / 32) }, ?_, hfree, ?_⟩
  · unfold markFree
    rw [run_bind_of_ok hset]
    rfl
  · rw [← hhint]
    exact min_le_left ..

/-- `addressable_bytes() as usize`: the clamped length, truncated to 32 bits. -/
def truncatedBytes (region : MemoryRegion) : Nat :=
  (if 2 ^ 32 ≤ region.base.toNat then 0 else
    min (region.base.toNat + region.length.toNat) (2 ^ 32) - region.base.toNat) % 2 ^ 32

/-- A region that is not available, or whose truncated length is zero, publishes nothing. -/
theorem publishedFrames_eq_empty {region : MemoryRegion}
    (h : region.kind ≠ .available ∨ truncatedBytes region = 0) : publishedFrames region = ∅ := by
  ext f
  rw [mem_publishedFrames]
  simp only [Set.mem_empty_iff_false, iff_false, not_and]
  intro hkind hend hlo
  rcases h with hne | hzero
  · exact absurd hkind hne
  · unfold truncatedBytes at hzero
    split at hzero <;> omega

/-- The loop body, with its skipped case and its computed values spelled out. -/
theorem publishRegion_eq (p : Profile) (region : MemoryRegion) (st : FrameBitmap) :
    publishRegion p region st =
      if region.kind ≠ .available ∨ truncatedBytes region = 0 then .ok () st
      else (do
        let past ← add p 32 (region.base.toNat % 2 ^ 32) (truncatedBytes region)
        match NonZeroUsize.new (past / 4096 - divCeil (region.base.toNat % 2 ^ 32) 4096) with
        | some len => markFree p ⟨divCeil (region.base.toNat % 2 ^ 32) 4096⟩ len
        | none => return () : Exec FrameBitmap Unit) st := by
  unfold publishRegion
  rw [run_lift_bind (addressableBytes_eq p region)]
  have hcond : (!region.isAvailable || decide (truncatedBytes region = 0)) = true ↔
      (region.kind ≠ .available ∨ truncatedBytes region = 0) := by
    rw [Bool.or_eq_true, decide_eq_true_eq, Bool.not_eq_true', ← Bool.not_eq_true,
      isAvailable_iff]
  change (if (!region.isAvailable || decide (truncatedBytes region = 0)) = true then _
    else _ : Exec FrameBitmap Unit) st = _
  by_cases hskip : region.kind ≠ .available ∨ truncatedBytes region = 0
  · rw [if_pos hskip, if_pos (hcond.mpr hskip)]
    rfl
  · rw [if_neg hskip, if_neg (mt hcond.mp hskip)]
    rfl

/-- The truncated length of a region that starts below 4 GiB. -/
theorem truncatedBytes_eq {region : MemoryRegion} (hbase : region.base.toNat < 2 ^ 32) :
    truncatedBytes region =
      (min (region.base.toNat + region.length.toNat) (2 ^ 32) - region.base.toNat) % 2 ^ 32 := by
  rw [truncatedBytes, if_neg (Nat.not_le.mpr hbase)]

theorem base_lt_of_truncatedBytes {region : MemoryRegion} (h : truncatedBytes region ≠ 0) :
    region.base.toNat < 2 ^ 32 := by
  by_contra hge
  exact h (by rw [truncatedBytes, if_pos (Nat.not_lt.mp hge), Nat.zero_mod])

/-- The end of the loop body: the frames from `start` up to `stop` are freed, if there are any. -/
theorem markFree_between (p : Profile) {start stop : Nat} (hstop : stop ≤ frameCount)
    (st : FrameBitmap) :
    ∃ st', (match NonZeroUsize.new (stop - start) with
        | some len => markFree p ⟨start⟩ len
        | none => return () : Exec FrameBitmap Unit) st = .ok () st' ∧
      st'.freeFrames = st.freeFrames ∪ Set.Ico start stop ∧ st'.searchHint ≤ st.searchHint := by
  rw [frameCount_eq] at hstop
  -- A region smaller than a frame can end before its first whole frame.
  by_cases hpos : 0 < stop - start
  · have hnew : NonZeroUsize.new (stop - start) = some ⟨stop - start, hpos, by omega⟩ :=
      dif_pos ⟨hpos, by omega⟩
    have hends : start + (⟨stop - start, hpos, by omega⟩ : NonZeroUsize).get = stop := by
      simp only []
      omega
    have hmark := markFree_spec p (hends.trans_le (by rwa [frameCount_eq])) st
    rw [hends] at hmark
    rw [hnew]
    exact hmark
  · have hnew : NonZeroUsize.new (stop - start) = none := dif_neg fun h => hpos h.1
    rw [hnew]
    exact ⟨st, rfl, by rw [Set.Ico_eq_empty (by omega), Set.union_empty], le_rfl⟩

/-- A region that reaches the limit: `base + bytes` is exactly `2 ^ 32`, which traps or wraps
    to 0. -/
theorem publishRegion_of_reachesLimit (p : Profile) {region : MemoryRegion}
    (h : ReachesLimit region) (hbytes : truncatedBytes region ≠ 0) (st : FrameBitmap) :
    publishRegion p region st =
      match p with
      | .dev => .error .overflow st
      | .release => .ok () st := by
  obtain ⟨hkind, hbase, hreach⟩ := h
  have htrunc := truncatedBytes_eq hbase
  have hsum : region.base.toNat + truncatedBytes region = 2 ^ 32 := by omega
  have hskip : ¬ (region.kind ≠ .available ∨ truncatedBytes region = 0) :=
    not_or.mpr ⟨not_ne_iff.mpr hkind, hbytes⟩
  rw [publishRegion_eq, if_neg hskip, Nat.mod_eq_of_lt hbase]
  cases p with
  | dev =>
    simp only [add, hsum]
    exact run_bind_of_error rfl
  | release =>
    -- The wrapped end is 0, and `saturating_sub` leaves nothing to free.
    have hadd : add .release 32 region.base.toNat (truncatedBytes region) = .ok 0 := by
      simp only [add, hsum]
      rfl
    rw [run_lift_bind hadd]
    simp [NonZeroUsize.new]

/-- A region that ends below the limit: no truncation and no overflow. -/
theorem publishRegion_of_below (p : Profile) {region : MemoryRegion}
    (hkind : region.kind = .available) (hbytes : truncatedBytes region ≠ 0)
    (hend : region.base.toNat + region.length.toNat < 2 ^ 32) (st : FrameBitmap) :
    ∃ st', publishRegion p region st = .ok () st' ∧
      st'.freeFrames = st.freeFrames ∪ publishedFrames region ∧
      st'.searchHint ≤ st.searchHint := by
  have hbase := base_lt_of_truncatedBytes hbytes
  have htrunc := truncatedBytes_eq hbase
  have hlen : region.base.toNat + truncatedBytes region =
      region.base.toNat + region.length.toNat := by omega
  have hskip : ¬ (region.kind ≠ .available ∨ truncatedBytes region = 0) :=
    not_or.mpr ⟨not_ne_iff.mpr hkind, hbytes⟩
  rw [publishRegion_eq, if_neg hskip, Nat.mod_eq_of_lt hbase,
    run_lift_bind (add_eq_ok (by omega)), hlen, publishedFrames_eq_Ico hkind hend]
  exact markFree_between p (by rw [frameCount_eq]; omega) st

/-- Everything the loop body can do: it publishes exactly `publishedFrames`, or it traps. -/
theorem publishRegion_spec (p : Profile) (region : MemoryRegion) (st : FrameBitmap) :
    (¬ TrapsOn p region ∧ ∃ st', publishRegion p region st = .ok () st' ∧
      st'.freeFrames = st.freeFrames ∪ publishedFrames region ∧
      st'.searchHint ≤ st.searchHint) ∨
    (TrapsOn p region ∧ publishRegion p region st = .error .overflow st) := by
  by_cases hskip : region.kind ≠ .available ∨ truncatedBytes region = 0
  · rw [publishRegion_eq, if_pos hskip]
    refine Or.inl ⟨?_, st, rfl, by simp [publishedFrames_eq_empty hskip], le_rfl⟩
    -- A region that reaches the limit is skipped only when it starts at 0.
    rintro ⟨-, ⟨hkind, hbase, hreach⟩, hne⟩
    rcases hskip with hother | hzero
    · exact hother hkind
    · rw [truncatedBytes_eq hbase] at hzero
      omega
  obtain ⟨hkind, hbytes⟩ := not_or.mp hskip
  rw [not_ne_iff] at hkind
  have hbase := base_lt_of_truncatedBytes hbytes
  by_cases hreach : 2 ^ 32 ≤ region.base.toNat + region.length.toNat
  · have hrun := publishRegion_of_reachesLimit p ⟨hkind, hbase, hreach⟩ hbytes st
    cases p with
    | dev =>
      have htrunc := truncatedBytes_eq hbase
      exact Or.inr ⟨⟨rfl, ⟨hkind, hbase, hreach⟩, by omega⟩, hrun⟩
    | release =>
      have hnone : publishedFrames region = ∅ := by
        ext f
        rw [mem_publishedFrames]
        simp only [Set.mem_empty_iff_false, iff_false, not_and]
        omega
      exact Or.inl ⟨fun htrap => (by cases htrap.1), st, hrun, by simp [hnone], le_rfl⟩
  · rw [Nat.not_le] at hreach
    exact Or.inl ⟨fun htrap => Nat.not_lt.mpr htrap.2.1.2.2 hreach,
      publishRegion_of_below p hkind hbytes hreach st⟩

/-! ## The whole initialisation -/

/-- The frames an image occupies, rounded outward. -/
def KernelImage.frames (image : KernelImage) : Set Nat :=
  Set.Ico (image.physStart / 4096) (divCeil image.physEnd 4096)

/-- Reserving a byte range occupies exactly the frames it touches. -/
theorem reserveBytes_spec (p : Profile) (addr len : Nat) (hbound : addr + len < 2 ^ 32)
    (st : FrameBitmap) :
    ∃ st', reserveBytes p addr len st = .ok () st' ∧ st'.searchHint = st.searchHint ∧
      st'.freeFrames = st.freeFrames \ Set.Ico (addr / 4096) (divCeil (addr + len) 4096) := by
  have hfloor : (PhysAddr.mk (BitVec.ofNat 32 addr)).frameFloor = ⟨addr / 4096⟩ := by
    rw [FrameNumber.mk.injEq, PhysAddr.index_frameFloor, BitVec.toNat_ofNat,
      Nat.mod_eq_of_lt (by omega)]
  have hceil : (PhysAddr.mk (BitVec.ofNat 32 (addr + len))).frameCeil =
      ⟨divCeil (addr + len) 4096⟩ := by
    rw [PhysAddr.frameCeil, BitVec.toNat_ofNat, Nat.mod_eq_of_lt hbound]
  have htop : divCeil (addr + len) 4096 ≤ frameCount := by
    rw [divCeil_le_iff (by omega), frameCount_eq]
    omega
  have hle : addr / 4096 ≤ divCeil (addr + len) 4096 := by
    have := le_divCeil_mul (n := addr + len) (d := 4096) (by omega)
    omega
  obtain ⟨st', hset, hhint, hfree⟩ := setOccupied_spec p (addr / 4096)
    (divCeil (addr + len) 4096 - addr / 4096) (by omega) st
  refine ⟨st', ?_, hhint, by rw [hfree, Nat.add_sub_cancel' hle]⟩
  unfold reserveBytes
  rw [hfloor, run_lift_bind (add_eq_ok hbound), hceil,
    run_lift_bind (sub_eq_ok hle)]
  exact hset

/-- The two reservations after the walk: frame 0 and the kernel image. -/
theorem reserve_spec (p : Profile) (image : KernelImage) (st : FrameBitmap) :
    ∃ st', (do
        reserveBytes p 0 frameSize
        let klen ← sub p 32 image.physEnd image.physStart
        reserveBytes p image.physStart klen : Exec FrameBitmap Unit) st = .ok () st' ∧
      st'.searchHint = st.searchHint ∧
      st'.freeFrames = (st.freeFrames \ {0}) \ image.frames := by
  have hle := image.start_le_end
  have hlt := image.end_lt
  have hzero : Set.Ico (0 / 4096) (divCeil (0 + frameSize) 4096) = {0} := by
    ext f
    have : divCeil (0 + frameSize) 4096 = 1 := rfl
    simp only [this, Set.mem_Ico, Set.mem_singleton_iff]
    omega
  obtain ⟨st₁, hrun₁, hhint₁, hfree₁⟩ :=
    reserveBytes_spec p 0 frameSize (by simp only [frameSize_eq]; omega) st
  obtain ⟨st₂, hrun₂, hhint₂, hfree₂⟩ := reserveBytes_spec p image.physStart
    (image.physEnd - image.physStart) (by omega) st₁
  refine ⟨st₂, ?_, hhint₂.trans hhint₁, ?_⟩
  · rw [run_bind_of_ok hrun₁, run_lift_bind (sub_eq_ok hle)]
    exact hrun₂
  · rw [hfree₂, hfree₁, hzero, Nat.add_sub_cancel' hle]
    rfl

/-- The frames a list of regions publishes. -/
def publishedBy (regions : List MemoryRegion) : Set Nat :=
  { f | ∃ region ∈ regions, f ∈ publishedFrames region }

theorem publishedBy_concat (regions : List MemoryRegion) (region : MemoryRegion) :
    publishedBy (regions ++ [region]) = publishedBy regions ∪ publishedFrames region := by
  ext f
  simp [publishedBy, or_and_right, exists_or]

/-- Run lemma for the walk: a returning loop met no trapping region and has added exactly the
    published frames of its regions. -/
theorem publishAll_eq_ok {p : Profile} {regions : List MemoryRegion} {st st' : FrameBitmap}
    (h : forM regions (publishRegion p) st = .ok () st') :
    (∀ region ∈ regions, ¬ TrapsOn p region) ∧
      st'.freeFrames = st.freeFrames ∪ publishedBy regions ∧
      st'.searchHint ≤ st.searchHint := by
  refine forM_invariant (fun done s => (∀ region ∈ done, ¬ TrapsOn p region) ∧
    s.freeFrames = st.freeFrames ∪ publishedBy done ∧ s.searchHint ≤ st.searchHint) ?_ ?_ h
  · rintro done region s s' _ ⟨hno, hfree, hhint⟩ hrun
    rcases publishRegion_spec p region s with ⟨htrap, s₁, hrun₁, hfree₁, hhint₁⟩ | ⟨_, herr⟩
    · rw [hrun₁] at hrun
      cases hrun
      refine ⟨?_, ?_, hhint₁.trans hhint⟩
      · rw [List.forall_mem_append]
        exact ⟨hno, List.forall_mem_singleton.mpr htrap⟩
      · rw [hfree₁, hfree, Set.union_assoc, publishedBy_concat]
    · rw [herr] at hrun
      cases hrun
  · exact ⟨by simp, by simp [publishedBy], le_rfl⟩

/-- The walk returns when no region traps. -/
theorem publishAll_returns {p : Profile} {regions : List MemoryRegion}
    (hno : ∀ region ∈ regions, ¬ TrapsOn p region) (st : FrameBitmap) :
    ∃ st', forM regions (publishRegion p) st = .ok () st' := by
  have hstep : ∀ (done : List MemoryRegion) (region : MemoryRegion) (s : FrameBitmap),
      region ∈ regions → True → ∃ s', publishRegion p region s = .ok () s' ∧ True := by
    intro _ region s hmem _
    rcases publishRegion_spec p region s with ⟨_, s', hrun, _⟩ | ⟨htrap, _⟩
    · exact ⟨s', hrun, trivial⟩
    · exact absurd htrap (hno region hmem)
  obtain ⟨st', hrun, _⟩ := forM_total (fun _ _ => True) hstep (s := st) trivial
  exact ⟨st', hrun⟩

/-- The exact picture after a returning `init`. -/
theorem init_eq_ok {p : Profile} {fuel : Nat} {image : KernelImage} {map : MemoryMap}
    {st st' : FrameBitmap} (h : FrameBitmap.init p fuel image map st = .ok () st') :
    ∃ regions map', Yields (MemoryMap.next p) map regions map' ∧
      (∀ region ∈ regions, ¬ TrapsOn p region) ∧
      st'.freeFrames = ((st.freeFrames ∪ publishedBy regions) \ {0}) \ image.frames ∧
      st'.searchHint ≤ st.searchHint := by
  unfold FrameBitmap.init at h
  obtain ⟨_, st₁, hwalk, hreserve⟩ := bind_eq_ok.mp h
  obtain ⟨regions, map', hyields, hpublish⟩ := forEach_eq_ok hwalk
  obtain ⟨hno, hfree₁, hhint₁⟩ := publishAll_eq_ok hpublish
  obtain ⟨st₂, hrun₂, hhint₂, hfree₂⟩ := reserve_spec p image st₁
  rw [hrun₂] at hreserve
  cases hreserve
  exact ⟨regions, map', hyields, hno, by rw [hfree₂, hfree₁], hhint₂.trans_le hhint₁⟩

/-- `init` returns on every terminating walk without a trapping region. -/
theorem init_returns {p : Profile} {map map' : MemoryMap} {regions : List MemoryRegion}
    (hyields : Yields (MemoryMap.next p) map regions map')
    (hno : ∀ region ∈ regions, ¬ TrapsOn p region) {fuel : Nat} (hfuel : regions.length < fuel)
    (image : KernelImage) (st : FrameBitmap) :
    ∃ st', FrameBitmap.init p fuel image map st = .ok () st' := by
  obtain ⟨st₁, hpublish⟩ := publishAll_returns hno st
  obtain ⟨st₂, hreserve, _⟩ := reserve_spec p image st₁
  refine ⟨st₂, ?_⟩
  unfold FrameBitmap.init
  rw [run_bind_of_ok (by rw [forEach_eq_forM hyields hfuel, hpublish])]
  exact hreserve

/-! ## Soundness -/

/-- A frame outside the rounded image shares no byte with the image. -/
theorem disjoint_image_of_not_mem {image : KernelImage} {f : Nat} (hf : f ∉ image.frames) :
    Disjoint (frameBytes f) image.bytes := by
  rw [KernelImage.bytes, disjoint_frameBytes_Ico]
  have hceil := le_divCeil_mul (n := image.physEnd) (d := 4096) (by omega)
  rw [KernelImage.frames, Set.mem_Ico, not_and_or] at hf
  omega

/-- What a free frame of a fresh picture is: a whole frame of one available region, neither
    frame 0 nor a frame of the image. -/
theorem mem_freeFrames_of_init {p : Profile} {fuel : Nat} {image : KernelImage}
    {map : MemoryMap} {st : FrameBitmap}
    (h : FrameBitmap.init p fuel image map .new = .ok () st) {f : Nat} :
    f ∈ st.freeFrames ↔
      (∃ region, Yielded (MemoryMap.next p) map region ∧ f ∈ publishedFrames region) ∧
        f ≠ 0 ∧ f ∉ image.frames := by
  obtain ⟨regions, map', hyields, _, hfree, _⟩ := init_eq_ok h
  rw [hfree, freeFrames_new, Set.empty_union, Set.mem_sdiff, Set.mem_sdiff, publishedBy,
    Set.mem_ofPred_eq, Set.mem_singleton_iff, and_assoc]
  simp only [hyields.mem_iff]

/-- **Soundness of `init`**: every frame published from a fresh allocator lies wholly inside
    one available region of the walk, is not frame 0 and shares no byte with the image. -/
theorem init_sound {p : Profile} {fuel : Nat} {image : KernelImage} {buf : Slice}
    {st : FrameBitmap} (h : FrameBitmap.init p fuel image (.start buf) .new = .ok () st)
    {f : Nat} (hf : f ∈ st.freeFrames) :
    (∃ region, Yielded (MemoryMap.next p) (.start buf) region ∧ region.kind = .available ∧
      frameBytes f ⊆ region.bytes) ∧ f ≠ 0 ∧ Disjoint (frameBytes f) image.bytes := by
  obtain ⟨⟨region, hy, hkind, _, hsub⟩, hne, himage⟩ := (mem_freeFrames_of_init h).mp hf
  exact ⟨⟨region, hy, hkind, hsub⟩, hne, disjoint_image_of_not_mem himage⟩

/-- A map with one low available region: the four frames from `0x1000` on. -/
def lowMap : Slice := ⟨encodeMap [.plain 0x1000 0x4000 1], by decide⟩

theorem lowMap_yields (p : Profile) :
    ∃ map', Yields (MemoryMap.next p) (.start lowMap) [⟨0x1000, 0x4000, .available⟩] map' := by
  obtain ⟨map', hyields, _⟩ :=
    yields_encoded p lowMap [.plain 0x1000 0x4000 1] [] (by decide) [] rfl
  exact ⟨map', hyields⟩

theorem lowMap_returns (p : Profile) (image : KernelImage) :
    ∃ st, FrameBitmap.init p 2 image (.start lowMap) .new = .ok () st := by
  obtain ⟨map', hyields⟩ := lowMap_yields p
  refine init_returns hyields ?_ (by decide) image .new
  rw [List.forall_mem_singleton]
  rintro ⟨-, ⟨-, -, hreach⟩, -⟩
  exact absurd hreach (by decide)

theorem mem_publishedFrames_low {f : Nat} :
    f ∈ publishedFrames ⟨0x1000, 0x4000, .available⟩ ↔ 1 ≤ f ∧ f ≤ 4 := by
  rw [mem_publishedFrames]
  simp only [true_and, BitVec.ofNat_eq_ofNat, BitVec.toNat_ofNat]
  omega

theorem smallest_image_frames : LinkedLayout.smallest.image.frames = Set.Ico 512 567 := rfl

/-- On `lowMap` exactly the frames 1 to 4 are published. -/
theorem lowMap_freeFrames {p : Profile} {st : FrameBitmap}
    (h : FrameBitmap.init p 2 LinkedLayout.smallest.image (.start lowMap) .new = .ok () st) :
    st.freeFrames = Set.Icc 1 4 := by
  obtain ⟨map', hyields⟩ := lowMap_yields p
  ext f
  rw [mem_freeFrames_of_init h]
  simp only [← hyields.mem_iff, List.mem_singleton, exists_eq_left, mem_publishedFrames_low]
  rw [smallest_image_frames, Set.mem_Ico, Set.mem_Icc]
  omega

theorem init_sound_lowMap :
    ∃ st, FrameBitmap.init .dev 2 LinkedLayout.smallest.image (.start lowMap) .new = .ok () st ∧
      3 ∈ st.freeFrames ∧
      (∃ region, Yielded (MemoryMap.next .dev) (.start lowMap) region ∧
        region.kind = .available ∧ frameBytes 3 ⊆ region.bytes) ∧
      (3 : Nat) ≠ 0 ∧ Disjoint (frameBytes 3) LinkedLayout.smallest.image.bytes := by
  obtain ⟨st, h⟩ := lowMap_returns .dev LinkedLayout.smallest.image
  have hfree : 3 ∈ st.freeFrames := by
    rw [lowMap_freeFrames h]
    exact ⟨by decide, by decide⟩
  exact ⟨st, h, hfree, init_sound h hfree⟩

/-! ## Completeness -/

/-- Completeness of a picture: every frame below 4 GiB that lies wholly inside a listed
    available region, other than frame 0 and the frames of the image, is free. A region that
    crosses 4 GiB counts with its part below the limit. -/
def Complete (bytes : List U8) (image : KernelImage) (st : FrameBitmap) : Prop :=
  ∀ f < frameCount,
    (∃ region, Lists bytes region ∧ region.kind = .available ∧ frameBytes f ⊆ region.bytes) →
      f ≠ 0 → Disjoint (frameBytes f) image.bytes → f ∈ st.freeFrames

/-- The image of a linked kernel is not empty and leaves the last frame below 4 GiB alone. -/
theorem KernelLayout.image_bounds (k : KernelLayout) :
    k.image.physStart < k.image.physEnd ∧ k.image.physEnd ≤ 0x3FC00000 := by
  have hphys := k.phys_le_virt
  have hvirt := k.virt_le_data
  have hguard := k.data_le_guard
  have hend := k.guard_lt_end
  have hle := k.end_le
  simp only [KernelLayout.image, KernelLayout.physEnd, kernelVirtualBase_eq] at *
  omega

/-- For a non-empty image the rounded frames are exactly the frames that meet it. -/
theorem not_mem_frames_of_disjoint {image : KernelImage}
    (hne : image.physStart < image.physEnd) {f : Nat}
    (hf : Disjoint (frameBytes f) image.bytes) : f ∉ image.frames := by
  rw [KernelImage.bytes, disjoint_frameBytes_Ico] at hf
  rw [KernelImage.frames, Set.mem_Ico, lt_divCeil_iff (by omega)]
  omega

/-- A picture built without a region that reaches the limit is complete. -/
theorem complete_of_not_reachesLimit {p : Profile} {fuel : Nat} {k : KernelLayout} {buf : Slice}
    {st : FrameBitmap} (h : FrameBitmap.init p fuel k.image (.start buf) .new = .ok () st)
    (hfit : StridesFit buf.bytes)
    (hlimit : ∀ region, Lists buf.bytes region → ¬ ReachesLimit region) :
    Complete buf.bytes k.image st := by
  rintro f hf ⟨region, hlists, hkind, hsub⟩ hne hdisj
  refine (mem_freeFrames_of_init h).mpr
    ⟨⟨region, (yielded_iff_lists p hfit region).mpr hlists, hkind, ?_, hsub⟩, hne,
      not_mem_frames_of_disjoint k.image_bounds.1 hdisj⟩
  -- The region starts below the limit, because it contains a frame that does.
  by_contra hreach
  rw [MemoryRegion.bytes, frameBytes_subset_Ico] at hsub
  rw [frameCount_eq] at hf
  exact hlimit region hlists ⟨hkind, by omega, by omega⟩

/-- No picture has the last frame below 4 GiB free. -/
theorem last_frame_not_free {p : Profile} {fuel : Nat} {image : KernelImage} {map : MemoryMap}
    {st : FrameBitmap} (h : FrameBitmap.init p fuel image map .new = .ok () st) :
    0xFFFFF ∉ st.freeFrames := by
  intro hmem
  obtain ⟨⟨region, _, hpub⟩, _, _⟩ := (mem_freeFrames_of_init h).mp hmem
  rw [mem_publishedFrames] at hpub
  omega

/-- **Completeness of `init`**: on a well-formed map, in both profiles, `init` returns with a
    complete picture exactly when no listed available region reaches 4 GiB. -/
theorem init_complete_iff (k : KernelLayout) (buf : Slice) (hwf : WellFormed buf.bytes) :
    (∀ p, ∃ fuel st, FrameBitmap.init p fuel k.image (.start buf) .new = .ok () st ∧
      Complete buf.bytes k.image st) ↔
    ∀ region, Lists buf.bytes region → region.kind = .available →
      region.base.toNat < 2 ^ 32 → region.base.toNat + region.length.toNat < 2 ^ 32 := by
  have hfit := hwf.stridesFit
  constructor
  · intro hall region hlists hkind hbase
    by_contra hreach
    rw [Nat.not_lt] at hreach
    obtain ⟨fuel, st, h, hcomplete⟩ := hall .dev
    -- The `dev` run returned, so the region was skipped: it starts at 0 and is clamped to
    -- `2 ^ 32` bytes, which truncate to none. Its last frame is then missing.
    have hzero : region.base.toNat = 0 := by
      by_contra hne
      obtain ⟨regions, map', hyields, hno, _⟩ := init_eq_ok h
      have hmem := hyields.mem_iff.mpr ((yielded_iff_lists .dev hfit region).mpr hlists)
      exact hno region hmem ⟨rfl, ⟨hkind, hbase, hreach⟩, hne⟩
    have hend := k.image_bounds.2
    refine last_frame_not_free h (hcomplete 0xFFFFF (by decide) ⟨region, hlists, hkind, ?_⟩
      (by decide) ?_)
    · rw [MemoryRegion.bytes, frameBytes_subset_Ico]
      omega
    · rw [KernelImage.bytes, disjoint_frameBytes_Ico]
      omega
  · intro hlimit p
    have hno : ∀ region, Lists buf.bytes region → ¬ ReachesLimit region := by
      rintro region hlists ⟨hkind, hbase, hreach⟩
      exact absurd (hlimit region hlists hkind hbase) (Nat.not_lt.mpr hreach)
    obtain ⟨regions, map', hyields, _⟩ := exists_yields p (.start buf) hfit (Or.inl .start)
    have htrap : ∀ region ∈ regions, ¬ TrapsOn p region := by
      intro region hmem htrap
      have hlists := (yielded_iff_lists p hfit region).mp (hyields.mem_iff.mp hmem)
      exact hno region hlists htrap.2.1
    obtain ⟨st, h⟩ := init_returns hyields htrap (Nat.lt_succ_self _) k.image .new
    exact ⟨_, st, h, complete_of_not_reachesLimit h hfit hno⟩

theorem lowMap_wellFormed : WellFormed lowMap.bytes :=
  wellFormed_encodeMap [.plain 0x1000 0x4000 1] [] (by decide)

theorem init_complete_iff_lowMap :
    WellFormed lowMap.bytes ∧
      ∀ p, ∃ fuel st,
        FrameBitmap.init p fuel LinkedLayout.smallest.image (.start lowMap) .new = .ok () st ∧
        Complete lowMap.bytes LinkedLayout.smallest.image st := by
  refine ⟨lowMap_wellFormed,
    (init_complete_iff LinkedLayout.smallest.toKernelLayout lowMap lowMap_wellFormed).mpr ?_⟩
  intro region hlists _ _
  obtain ⟨e, he, rfl⟩ := exists_entry_of_lists [.plain 0x1000 0x4000 1] [] (by decide) hlists
  rw [List.mem_singleton.mp he]
  decide

/-- A map with one available region, from 1 MiB up to exactly 4 GiB. -/
def topMap : Slice := ⟨encodeMap [.plain 0x100000 0xFFF00000 1], by decide⟩

/-- On `topMap` the `dev` profile traps the addition, and the `release` profile loses every
    frame of the region, frame 256 for one. -/
theorem init_incomplete_topMap :
    WellFormed topMap.bytes ∧
      (∀ fuel, FrameBitmap.init .dev (fuel + 1) LinkedLayout.smallest.image (.start topMap) .new =
        .error .overflow .new) ∧
      ∀ fuel st,
        FrameBitmap.init .release fuel LinkedLayout.smallest.image (.start topMap) .new =
          .ok () st → ¬ Complete topMap.bytes LinkedLayout.smallest.image st := by
  have hentry : entryAt topMap.bytes 0 = some (EncodedEntry.plain 0x100000 0xFFF00000 1).entry :=
    entryAt_append [] _ []
  have hwf : WellFormed topMap.bytes :=
    wellFormed_encodeMap [.plain 0x100000 0xFFF00000 1] [] (by decide)
  have hreach : ReachesLimit ⟨0x100000, 0xFFF00000, .available⟩ :=
    ⟨rfl, by decide, by decide⟩
  refine ⟨hwf, fun fuel => ?_, fun fuel st h hcomplete => ?_⟩
  · have hnext : MemoryMap.next .dev (.start topMap) = _ := next_of_some hentry (by decide)
    have hpublish : publishRegion .dev ⟨0x100000, 0xFFF00000, .available⟩ .new =
        .error .overflow .new := by
      rcases publishRegion_spec .dev ⟨0x100000, 0xFFF00000, .available⟩ .new with
        ⟨hno, _⟩ | ⟨_, herr⟩
      · exact absurd ⟨rfl, hreach, by decide⟩ hno
      · exact herr
    unfold FrameBitmap.init
    refine run_bind_of_error ?_
    rw [forEach, run_lift_bind hnext]
    exact run_bind_of_error hpublish
  · -- Nothing is published, for the only region ends at the limit.
    have hfree : 256 ∉ st.freeFrames := by
      intro hmem
      obtain ⟨⟨region, hy, _, hend, _⟩, _⟩ := (mem_freeFrames_of_init h).mp hmem
      have hlists := (yielded_iff_lists .release hwf.stridesFit region).mp hy
      obtain ⟨e, he, rfl⟩ :=
        exists_entry_of_lists [.plain 0x100000 0xFFF00000 1] [] (by decide) hlists
      rw [List.mem_singleton.mp he] at hend
      exact absurd hend (by decide)
    refine hfree (hcomplete 256 (by decide)
      ⟨_, ⟨0, _, .start, hentry, rfl⟩, rfl, ?_⟩ (by decide) ?_)
    · rw [MemoryRegion.bytes, frameBytes_subset_Ico]
      decide
    · rw [KernelImage.bytes, disjoint_frameBytes_Ico]
      decide

/-! ## Termination of the two loops over the map -/

theorem publishRegion_ne_outOfFuel (p : Profile) (region : MemoryRegion) (s t : FrameBitmap) :
    publishRegion p region s ≠ .error .outOfFuel t := by
  rcases publishRegion_spec p region s with ⟨_, s', hrun, _⟩ | ⟨_, herr⟩
  · rw [hrun]
    exact fun h => by cases h
  · rw [herr]
    exact fun h => by cases h

theorem printRegion_ne_outOfFuel (p : Profile) (region : MemoryRegion) (s t : Report) :
    printRegion p region s ≠ .error .outOfFuel t := by
  unfold printRegion
  rw [run_modify_bind]
  cases region.isAvailable with
  | false => exact fun h => by cases h
  | true =>
    simp only [if_true]
    rw [run_lift_bind (addressableBytes_eq p region), run_get_bind]
    -- Only the `u64` total can stop the body, by an overflow.
    refine bind_ne_error (fun u herr => ?_) (fun _ _ _ h => by cases h)
    exact add_ne_outOfFuel p 64 _ _ (lift_eq_error.mp herr).1

/-- `init` ends on a fitting chain, from any allocator state. -/
theorem init_ne_outOfFuel (p : Profile) {buf : Slice} (hfit : StridesFit buf.bytes)
    (image : KernelImage) (st st' : FrameBitmap) :
    FrameBitmap.init p (buf.bytes.length / 4 + 1) image (.start buf) st ≠
      .error .outOfFuel st' := by
  obtain ⟨regions, map', hyields, hcount⟩ := (walkEnds_of_stridesFit p hfit).finishes
  refine bind_ne_error (forEach_ne_outOfFuel hyields
    (fun region _ => publishRegion_ne_outOfFuel p region) (Nat.lt_succ_of_le hcount) st) ?_
  intro _ st₁ _ herr
  obtain ⟨st₂, hreserve, _⟩ := reserve_spec p image st₁
  rw [hreserve] at herr
  cases herr

/-- `print_memory_map` ends on a fitting chain, after any output. -/
theorem printMemoryMap_ne_outOfFuel (p : Profile) {buf : Slice} (hfit : StridesFit buf.bytes)
    (report report' : Report) :
    printMemoryMap p (buf.bytes.length / 4 + 1) (some (.start buf)) report ≠
      .error .outOfFuel report' := by
  obtain ⟨regions, map', hyields, hcount⟩ := (walkEnds_of_stridesFit p hfit).finishes
  unfold printMemoryMap
  refine bind_ne_error (fun _ h => by cases h) fun _ report₁ _ => ?_
  exact bind_ne_error (forEach_ne_outOfFuel hyields
    (fun region _ => printRegion_ne_outOfFuel p region) (Nat.lt_succ_of_le hcount) report₁)
    (fun _ _ _ h => by cases h)

/-- **Termination**: the walk over a buffer advances without an overflow and ends within
    `len / 4` regions, and with it both loops over the map, exactly when every chained header
    has a stride below `2 ^ 32`. -/
theorem loops_end_iff_stridesFit (p : Profile) (buf : Slice) :
    (WalkEnds p buf ∧
      (∀ image st st', FrameBitmap.init p (buf.bytes.length / 4 + 1) image (.start buf) st ≠
        .error .outOfFuel st') ∧
      ∀ report report',
        printMemoryMap p (buf.bytes.length / 4 + 1) (some (.start buf)) report ≠
          .error .outOfFuel report') ↔
    StridesFit buf.bytes := by
  refine ⟨fun h => (walkEnds_iff_stridesFit p buf).mp h.1, fun hfit => ?_⟩
  exact ⟨walkEnds_of_stridesFit p hfit, init_ne_outOfFuel p hfit,
    printMemoryMap_ne_outOfFuel p hfit⟩

/-- One header whose `size` is `2 ^ 32 - 4`: its stride wraps to 0. -/
def stuckMap : Slice :=
  ⟨MmapEntry.header ⟨0xFFFFFFFC, 0, 0, 0⟩, by decide⟩

/-- On `stuckMap` the `release` walk yields the same region forever and `init` never returns,
    whatever its fuel; the `dev` walk traps in its first call. -/
theorem loops_spin_stuckMap :
    MemoryMap.next .release (.start stuckMap) =
        .ok (some ⟨0, 0, .reserved 0⟩, .start stuckMap) ∧
      (∀ fuel image st, FrameBitmap.init .release fuel image (.start stuckMap) st =
        .error .outOfFuel st) ∧
      MemoryMap.next .dev (.start stuckMap) = .error .overflow := by
  have hnext : MemoryMap.next .release (.start stuckMap) =
      .ok (some ⟨0, 0, .reserved 0⟩, .start stuckMap) := rfl
  refine ⟨hnext, fun fuel image st => ?_, rfl⟩
  exact run_bind_of_error (forEach_of_stuck hnext rfl fuel)

end Zkrnl32.Memory
