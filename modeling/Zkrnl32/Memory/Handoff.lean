import Zkrnl32.Memory.Paging.Footprint

/-!
# The Boot Hand-off

Model of `memory::init` (`src/memory/mod.rs`), which reads the loader's information structure,
builds the frame allocator from its memory map and switches to the real page directory.

The structure and the map stay where the loader put them.  `init` reserves frame 0 and the image
only, so the hand-off survives exactly when the map does not publish a frame that holds a byte of
it: a published frame either is still free afterwards or became a zeroed paging frame.
-/

namespace Zkrnl32.Memory

open Zkrnl32.Machine
open Zkrnl32.Multiboot
open Zkrnl32.Memory.Paging (BootState Footprint)

/-- Brings the memory subsystem online from the information structure at `info`. -/
def init (p : Profile) (fuel : Nat) (k : KernelLayout) (info : Nat) : Exec BootState Unit := do
  let mem := (← get).mem
  match (MultibootInfo.read mem info).memoryMap mem with
  | none =>
    throw (.panicked "multiboot supplied no memory map; cannot build the frame allocator")
  | some map =>
    -- the walk reads the buffer while only the allocator's own state changes
    Exec.zoom BootState.ledger (fun l s => { s with ledger := l })
      (Ledger.onAllocator (FrameBitmap.init p fuel k.image map))
    Paging.init p k

section Init

variable {p : Profile} {fuel : Nat} {k : KernelLayout} {info : Nat} {map : MemoryMap}
  {s s' : BootState}

/-- A returning run is one of the allocator's `init`, then one of the paging `init`. -/
theorem init_eq_ok_iff (hmap : (MultibootInfo.read s.mem info).memoryMap s.mem = some map) :
    init p fuel k info s = .ok () s' ↔
      ∃ st, FrameBitmap.init p fuel k.image map s.ledger.allocator = .ok () st ∧
        Paging.init p k { s with ledger := ⟨st, s.ledger.held⟩ } = .ok () s' := by
  have hstart : init p fuel k info s = (do
      Exec.zoom BootState.ledger (fun l s => { s with ledger := l })
        (Ledger.onAllocator (FrameBitmap.init p fuel k.image map))
      Paging.init p k) s := by
    unfold init
    rw [run_get_bind, hmap]
  rw [hstart, bind_eq_ok]
  simp only [zoom_eq_ok, Ledger.onAllocator]
  constructor
  · rintro ⟨_, _, ⟨_, ⟨st, hinit, rfl⟩, rfl⟩, hpaging⟩
    exact ⟨st, hinit, hpaging⟩
  · rintro ⟨st, hinit, hpaging⟩
    exact ⟨(), _, ⟨_, ⟨st, hinit, rfl⟩, rfl⟩, hpaging⟩

end Init

/-! ## What must survive -/

/-- The bytes of the hand-off: the information structure and the memory map it points at. -/
def handoffBytes (mem : Memory) (info : Nat) : Set Nat :=
  let fields := MultibootInfo.read mem info
  Set.Ico info (info + multibootInfoSize) ∪
    Set.Ico fields.mmapAddr.toNat (fields.mmapAddr.toNat + fields.mmapLength.toNat)

/-- The bytes keep their values, no store touches them, and no frame that holds one is free.  A
    store modifies a byte also when it writes the value that is already there: the structure is
    borrowed while `init` runs. -/
structure Survives (mem : Memory) (bytes : Set Nat) (s' : BootState) : Prop where
  unmodified : ∀ x ∈ bytes, s'.mem x = mem x
  unwritten : ∀ x ∈ bytes, ∀ w ∈ s'.stores, ¬ (w.1 ≤ x ∧ x < w.1 + w.2)
  reserved : ∀ x ∈ bytes, x / 4096 ∉ s'.ledger.allocator.freeFrames

section Survives

variable {s s' : BootState} {frames : List Nat} {bytes : Set Nat} {f x : Nat}

theorem mem_frameBytes_iff : x ∈ frameBytes f ↔ x / 4096 = f := by
  rw [frameBytes, Set.mem_Ico]
  omega

/-- Bytes outside the free frames survive a build. -/
theorem Paging.Footprint.survives (h : Footprint s s' frames) (hstores : s.stores = [])
    (hbytes : ∀ x ∈ bytes, x / 4096 ∉ s.ledger.allocator.freeFrames) :
    Survives s.mem bytes s' := by
  obtain ⟨_, hissued⟩ := h.consumed.nodup
  have hkept : ∀ x ∈ bytes, x / 4096 ∉ frames := fun x hx hmem => hbytes x hx (hissued _ hmem)
  refine ⟨fun x hx => ?_, fun x hx w hw hin => ?_, fun x hx hfree => ?_⟩
  · by_contra hne
    obtain ⟨f, hf, _, hin⟩ := h.unchanged x hne
    exact hkept x hx (mem_frameBytes_iff.mp hin ▸ hf)
  · obtain ⟨f, hf, _, hlo, hhi⟩ := (h.logged w hw).resolve_left (by simp [hstores])
    have hframe : x / 4096 = f := by omega
    exact hkept x hx (hframe ▸ hf)
  · exact hbytes x hx (h.consumed.mem_free_iff.mp hfree).1

/-- Surviving bytes were outside the free frames, if every issued frame was zeroed. -/
theorem Paging.Footprint.not_free_of_survives (h : Footprint s s' frames)
    (hcleared : ∀ f ∈ frames, (4096 * f, 4096) ∈ s'.stores) (hsurvives : Survives s.mem bytes s')
    (hx : x ∈ bytes) : x / 4096 ∉ s.ledger.allocator.freeFrames := by
  intro hfree
  -- A frame that was free has been issued, hence zeroed, or it is free still.
  by_cases hissued : x / 4096 ∈ frames
  · exact hsurvives.unwritten x hx _ (hcleared _ hissued) (by omega)
  · exact hsurvives.reserved x hx (h.consumed.mem_free_iff.mpr ⟨hfree, hissued⟩)

end Survives

/-- The frames that a fresh picture does not publish. -/
theorem not_mem_freeFrames_of_init {p : Profile} {fuel : Nat} {k : KernelLayout} {map : MemoryMap}
    {st : FrameBitmap} (h : FrameBitmap.init p fuel k.image map .new = .ok () st) {f : Nat} :
    f ∉ st.freeFrames ↔
      ∀ region, Yielded (MemoryMap.next p) map region → f ∈ publishedFrames region →
        f = 0 ∨ ¬ Disjoint (frameBytes f) k.image.bytes := by
  rw [mem_freeFrames_of_init h]
  constructor
  · intro hf region hy hpub
    by_contra hno
    obtain ⟨hne, hdisj⟩ := not_or.mp hno
    exact hf ⟨⟨region, hy, hpub⟩, hne,
      not_mem_frames_of_disjoint k.image_bounds.1 (not_not.mp hdisj)⟩
  · rintro hf ⟨⟨region, hy, hpub⟩, hne, himage⟩
    exact (hf region hy hpub).elim hne fun hmeets => hmeets (disjoint_image_of_not_mem himage)

/-- **When the hand-off survives**: after a returning `memory::init`, exactly when no byte of the
    information structure or its memory map lies in a frame that the map publishes, that is, a
    frame inside an available region that ends below 4 GiB, other than frame 0 and the frames of
    the image. -/
theorem handoff_survives_iff {p : Profile} {fuel : Nat} {k : KernelLayout} {info : Nat}
    {map : MemoryMap} {s s' : BootState}
    (hledger : s.ledger = ⟨.new, []⟩) (hstores : s.stores = [])
    (hmap : (MultibootInfo.read s.mem info).memoryMap s.mem = some map)
    (hrun : init p fuel k info s = .ok () s') :
    Survives s.mem (handoffBytes s.mem info) s' ↔
      ∀ x ∈ handoffBytes s.mem info, ∀ region, Yielded (MemoryMap.next p) map region →
        x / 4096 ∈ publishedFrames region →
          x / 4096 = 0 ∨ ¬ Disjoint (frameBytes (x / 4096)) k.image.bytes := by
  obtain ⟨st, hinit, hpaging⟩ := (init_eq_ok_iff hmap).mp hrun
  rw [hledger] at hinit hpaging
  have hhint : st.searchHint ≤ wordCount := (owns_of_init (Nat.zero_le _) hinit).hint_le
  obtain ⟨frames, hfoot, hcleared⟩ := (Paging.init_ends p k hhint).of_eq_ok hpaging
  simp only [← not_mem_freeFrames_of_init hinit]
  constructor
  · intro h x hx
    exact hfoot.not_free_of_survives (fun f hf => (hcleared f hf).2) h hx
  · intro hbytes
    exact hfoot.survives hstores hbytes

/-! ## Two placements -/

/-- A memory with an information structure at `info` and its memory map at `buf`; that is `lowMap`
    if no other one is given. -/
def handoffMemory (info buf : Nat) (map : Slice := lowMap) : Memory :=
  let blank : Memory := fun _ => 0
  let fields := ((blank.store32 info flagMmap).store32 (info + 44)
    (BitVec.ofNat 32 map.bytes.length)).store32 (info + 48) (BitVec.ofNat 32 buf)
  fields.store buf map.bytes

theorem handoffMemory_read {info buf : Nat} {map : Slice} (h : info + multibootInfoSize ≤ buf) :
    MultibootInfo.read (handoffMemory info buf map) info =
      ⟨flagMmap, BitVec.ofNat 32 map.bytes.length, BitVec.ofNat 32 buf⟩ := by
  rw [multibootInfoSize] at h
  unfold MultibootInfo.read handoffMemory
  rw [Memory.load32_store_of_disjoint _ (by omega), Memory.load32_store_of_disjoint _ (by omega),
    Memory.load32_store_of_disjoint _ (by omega), Memory.load32_store32_self,
    Memory.load32_store32_of_disjoint _ _ (by omega),
    Memory.load32_store32_of_disjoint _ _ (by omega), Memory.load32_store32_self,
    Memory.load32_store32_of_disjoint _ _ (by omega), Memory.load32_store32_self]

theorem handoffMemory_memoryMap (info buf : Nat) (map : Slice)
    (h : info + multibootInfoSize ≤ buf) (hbuf : buf < 2 ^ 32) :
    (MultibootInfo.read (handoffMemory info buf map) info).memoryMap (handoffMemory info buf map) =
      some (.start map) := by
  have hload : (handoffMemory info buf map).load buf (BitVec.ofNat 32 map.bytes.length).toNat =
      map.bytes := by
    rw [BitVec.toNat_ofNat, Nat.mod_eq_of_lt map.length_lt]
    exact Memory.load_store_self _ buf map.bytes
  have haddr : (BitVec.ofNat 32 buf).toNat = buf := Nat.mod_eq_of_lt hbuf
  rw [handoffMemory_read h]
  unfold MultibootInfo.memoryMap
  have hflag : flagMmap &&& flagMmap ≠ 0 := by decide
  simp only [if_neg hflag, haddr]
  exact congrArg (some ∘ MemoryMap.start) ((Slice.mk.injEq ..).mpr hload)

theorem mem_handoffBytes {info buf x : Nat} {map : Slice} (h : info + multibootInfoSize ≤ buf)
    (hbuf : buf < 2 ^ 32) :
    x ∈ handoffBytes (handoffMemory info buf map) info ↔
      (info ≤ x ∧ x < info + 52) ∨ (buf ≤ x ∧ x < buf + map.bytes.length) := by
  have haddr : (BitVec.ofNat 32 buf).toNat = buf := Nat.mod_eq_of_lt hbuf
  have hlength : (BitVec.ofNat 32 map.bytes.length).toNat = map.bytes.length :=
    Nat.mod_eq_of_lt map.length_lt
  unfold handoffBytes
  rw [handoffMemory_read h]
  simp only [haddr, hlength, Set.mem_union, Set.mem_Ico, multibootInfoSize]

/-- Boot with the hand-off at `info` and `buf`, before `memory::init`. -/
def handoffState (info buf : Nat) : BootState :=
  ⟨⟨.new, []⟩, handoffMemory info buf, [], 0, 0⟩

/-- The smallest linked kernel makes frame 1 its directory, links frame 3 into the first slot and
    leaves frame 4 free. -/
theorem init_handoffState (info buf : Nat) (h : info + multibootInfoSize ≤ buf)
    (hbuf : buf < 2 ^ 32) :
    ∃ s', init .dev 2 LinkedLayout.smallest.toKernelLayout info (handoffState info buf) =
        .ok () s' ∧
      s'.ledger.allocator.freeFrames = Set.Icc 4 4 ∧
      s'.mem.entry 1 0 = tableEntry 3 := by
  obtain ⟨st, s', hinit, hrun, -, -, hidentity, -, hfree⟩ :=
    Paging.init_smallest (handoffState info buf)
  have hboot := (init_eq_ok_iff (s := handoffState info buf)
    (handoffMemory_memoryMap info buf lowMap h hbuf)).mpr ⟨st, hinit, hrun⟩
  exact ⟨s', hboot, hfree, hidentity⟩

/-- A hand-off in frame 9, which `lowMap` does not publish. -/
theorem handoff_survives_iff_unpublished :
    ∃ s', init .dev 2 LinkedLayout.smallest.toKernelLayout 0x9000 (handoffState 0x9000 0x9100) =
        .ok () s' ∧
      Survives (handoffState 0x9000 0x9100).mem
        (handoffBytes (handoffState 0x9000 0x9100).mem 0x9000) s' := by
  have hmap := handoffMemory_memoryMap 0x9000 0x9100 lowMap (by decide) (by decide)
  obtain ⟨s', hrun, _⟩ := init_handoffState 0x9000 0x9100 (by decide) (by decide)
  obtain ⟨map', hyields⟩ := lowMap_yields .dev
  refine ⟨s', hrun, (handoff_survives_iff (s := handoffState 0x9000 0x9100)
    rfl rfl hmap hrun).mpr ?_⟩
  intro x hx region hy hpub
  have hin := (mem_handoffBytes (by decide) (by decide)).mp hx
  have hlength : lowMap.bytes.length = 24 := rfl
  obtain rfl := List.mem_singleton.mp (hyields.mem_iff.mpr hy)
  have hframe := mem_publishedFrames_low.mp hpub
  omega

/-- A hand-off in low memory that the map reports as available: the structure in frame 1 becomes
    the page directory, so that its `flags` turn into the entry of a table and no longer announce
    a memory map, and frame 4 with the map itself stays free. -/
theorem handoff_overwritten :
    ∃ s', init .dev 2 LinkedLayout.smallest.toKernelLayout 0x1000 (handoffState 0x1000 0x4000) =
        .ok () s' ∧
      (MultibootInfo.read (handoffState 0x1000 0x4000).mem 0x1000).flags = flagMmap ∧
      (MultibootInfo.read s'.mem 0x1000).flags = 0x3003 ∧
      0x4000 ∈ handoffBytes (handoffState 0x1000 0x4000).mem 0x1000 ∧
      0x4000 / 4096 ∈ s'.ledger.allocator.freeFrames ∧
      ¬ Survives (handoffState 0x1000 0x4000).mem
        (handoffBytes (handoffState 0x1000 0x4000).mem 0x1000) s' := by
  have hplace : 0x1000 + multibootInfoSize ≤ 0x4000 := by decide
  obtain ⟨s', hrun, hfree, hentry⟩ := init_handoffState 0x1000 0x4000 hplace (by decide)
  have hflags : (MultibootInfo.read (handoffMemory 0x1000 0x4000) 0x1000).flags = flagMmap := by
    rw [handoffMemory_read hplace]
  have hbyte : 0x4000 ∈ handoffBytes (handoffMemory 0x1000 0x4000) 0x1000 :=
    (mem_handoffBytes hplace (by decide)).mpr (Or.inr ⟨le_rfl, by decide⟩)
  have hstill : 0x4000 / 4096 ∈ s'.ledger.allocator.freeFrames := by
    rw [hfree]
    exact ⟨by decide, by decide⟩
  exact ⟨s', hrun, hflags, hentry, hbyte, hstill, fun h => h.reserved 0x4000 hbyte hstill⟩

end Zkrnl32.Memory
