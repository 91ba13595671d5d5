import Zkrnl32.Kernel.Main

/-!
# Why a Boot Stops

The reasons for which the parts of `kernel_main` stop, with the messages that they panic with.

- `Paging.Shortage`: why a paging frame cannot be had.  `Paging.init_ends_for` says that
  `paging::init` stops for nothing else.
- `frames_init_ends`: `FrameBitmap::init` stops on a region that traps only.
- `BootFault`: the reasons of a whole boot, of which at most one holds; `memory_init_ends` is the
  part of `memory::init`.
-/

namespace Zkrnl32.Memory.Paging

open Zkrnl32.Machine

/-! ## `paging::init` -/

/-- The free frames that the bootstrap identity map does not reach. -/
def highFree (l : Ledger) : Set Nat := l.allocator.freeFrames ∩ Set.Ici 1024

/-- The panic of `bootstrap_frame_ptr` on the frame `f`. -/
def aboveMap (f : Nat) : Stop :=
  .panicked ("paging frame at 0x" ++ String.ofList (Nat.toDigits 16 (4096 * f)) ++
    " lies above the bootstrap identity map")

/-- Why a paging frame cannot be had, once the frames below 4 MiB are used up: there is none above
    either, or the lowest one above was issued. -/
inductive Shortage (high : Set Nat) : Stop → Prop where
  | exhausted : high = ∅ →
      Shortage high (.panicked "out of physical frames while building the page directory")
  | above {f : Nat} : IsLeast high f → Shortage high (aboveMap f)

theorem Shortage.unique {high : Set Nat} {e e' : Stop} (h : Shortage high e)
    (h' : Shortage high e') : e = e' := by
  cases h with
  | exhausted hempty =>
    cases h' with
    | exhausted => rfl
    | above hleast => exact absurd (hempty ▸ hleast.1) (Set.notMem_empty _)
  | above hleast =>
    cases h' with
    | exhausted hempty => exact absurd (hempty ▸ hleast.1) (Set.notMem_empty _)
    | above hleast' => rw [hleast.unique hleast']

section Shortage

variable {p : Profile} {s s' : BootState} {dir : Nat}

/-- The refusal of a frame, by an allocator that issues its lowest frame. -/
theorem allocZeroed_shortage (p : Profile) (hhint : s.ledger.allocator.searchHint ≤ wordCount)
    (hpacked : s.ledger.allocator.Packed) (hrefused : Refused s s') {α : Type}
    (next : FrameNumber → Exec BootState α) :
    ∃ e s₁, (do let frame ← allocFrame p; zeroFrame p frame; next frame) s = .error e s₁ ∧
      Shortage (highFree s.ledger) e := by
  rcases allocFrame_cases p hhint with ⟨hrun, hempty⟩ | ⟨f, st, hrun, htaken⟩
  · refine ⟨_, s, run_bind_of_error hrun, .exhausted ?_⟩
    rw [highFree, hempty, Set.empty_inter]
  have hleast := htaken.isLeast hpacked
  have hhigh : 1024 ≤ f := by
    cases hrefused with
    | empty hempty => exact absurd (hempty ▸ hleast.1) (Set.notMem_empty _)
    | high hhigh htaken' => rwa [hleast.unique (htaken'.isLeast hpacked)]
  have hzero : zeroFrame p ⟨f⟩ (s.issue f st) = .error (aboveMap f) (s.issue f st) := by
    unfold zeroFrame
    rw [bootstrapFramePtr_eq p htaken.lt, if_neg (by omega)]
    exact run_bind_of_error (run_lift_error _ _)
  refine ⟨_, _, (run_bind_of_ok hrun).trans (run_bind_of_error hzero),
    .above ⟨⟨hleast.1, hhigh⟩, ?_⟩⟩
  exact fun g hg => hleast.2 hg.1

/-- The state with which the two loops go from page to page: the frames above 4 MiB are still those
    that were free at the start. -/
def Diagnosed (dir : Nat) (high : Set Nat) (s : BootState) : Prop :=
  ∃ space, Mapping dir space s ∧ s.ledger.allocator.Packed ∧ highFree s.ledger = high

/-- Taking a low frame leaves the high ones. -/
theorem highFree_of_taken {f : Nat} {st : FrameBitmap} (h : Taken s.ledger.allocator f st)
    (hlow : f < 1024) (held : List FrameRun) : highFree ⟨st, held⟩ = highFree s.ledger := by
  ext g
  simp only [highFree, h.free_eq, Set.mem_inter_iff, Set.mem_sdiff, Set.mem_singleton_iff,
    Set.mem_Ici]
  constructor
  · exact fun hg => ⟨hg.1.1, hg.2⟩
  · exact fun hg => ⟨⟨hg.1, by omega⟩, hg.2⟩

/-- A call keeps the state, or stops for want of a frame. -/
theorem perform_ends (p : Profile) {high : Set Nat} (h : Diagnosed dir high s) {c : MapCall}
    (hc : c.Valid) :
    Ends (c.perform p (4096 * dir) s) (fun _ s' => Diagnosed dir high s')
      fun e _ => Shortage high e := by
  obtain ⟨space, hmap, hpacked, rfl⟩ := h
  rcases mapBootstrap_cases p hmap hc with
    ⟨e, s', hrun, habsent, hrefused⟩ | ⟨space', s', hrun, hstep⟩
  · -- The refusal comes from the slot's new table.
    have hindex : c.slot < 1024 := Nat.lt_succ_of_lt hc.slot_lt
    have hslot := hmap.represents.slot c.slot hc.slot_lt
    rw [habsent] at hslot
    obtain ⟨e₁, s₁, hadd, hshortage⟩ := allocZeroed_shortage p hmap.hint_le hpacked hrefused
      fun frame => do
        let entry ← PageDirectoryEntry.forTable p frame .kernelRw
        storeEntry (4096 * dir) c.slot entry.raw
        return frame
    have hcond : ¬ (PageDirectoryEntry.mk ((none : Option Nat).elim 0 tableEntry)).isPresent =
        true := by
      rw [PageDirectoryEntry.isPresent_eq]
      decide
    have hstop : c.perform p (4096 * dir) s = .error e₁ s₁ := by
      unfold MapCall.perform mapBootstrap
      rw [c.pdIndex_eq_slot, run_bind_of_ok (loadEntry_eq_ok hindex), hslot]
      rw [if_neg hcond]
      exact run_bind_of_error hadd
    exact ends_of_error hstop hshortage
  · refine ends_of_ok hrun ⟨space', hstep.mapping hc hmap, ?_⟩
    cases hstep with
    | present => exact ⟨hpacked, rfl⟩
    | added habsent hlow htaken =>
      exact ⟨(htaken.packed hpacked).1, highFree_of_taken htaken hlow _⟩

/-- `init` stops for want of a frame, and for nothing else. -/
theorem init_ends_for (p : Profile) (k : KernelLayout)
    (hhint : s.ledger.allocator.searchHint ≤ wordCount) (hpacked : s.ledger.allocator.Packed) :
    Ends (init p k s) (fun _ _ => True) fun e _ => Shortage (highFree s.ledger) e := by
  rcases init_cases p k hhint with ⟨e, s', hrun, hrefused⟩ | ⟨dir, st, hstart, hlow, htaken⟩
  · obtain ⟨e₁, s₁, hstop, hshortage⟩ := allocZeroed_shortage p hhint hpacked hrefused
      fun frame => do
        let pd ← bootstrapFramePtr p frame
        let recursive ← PageDirectoryEntry.forTable p frame .kernelRw
        storeEntry pd recursiveIndex recursive.raw
        forM (rangeStepBy k.virtStart k.virtEnd pageSize) (mapKernelPage p k pd)
        forM (rangeStepBy 0 k.physStart pageSize) (mapIdentityPage p pd)
        let base ← frame.baseAddr p
        modify fun s => { s with cr3 := base.raw, cr0 := s.cr0 ||| cr0Wp }
    exact ends_of_error hstop hshortage
  · have hstate : Diagnosed dir (highFree s.ledger) (s.withDirectory dir st) :=
      ⟨.empty, mapping_empty hlow htaken, (htaken.packed hpacked).1,
        highFree_of_taken htaken hlow _⟩
    have hcalls : ∀ {calls : List MapCall} {s₁ : BootState}, (∀ c ∈ calls, c.Valid) →
        Diagnosed dir (highFree s.ledger) s₁ →
        Ends (forM calls (MapCall.perform p (4096 * dir)) s₁)
          (fun _ s' => Diagnosed dir (highFree s.ledger) s')
          fun e _ => Shortage (highFree s.ledger) e := fun hvalid hs₁ =>
      forM_ends (fun _ s' => Diagnosed dir (highFree s.ledger) s')
        (fun _ c s' hc hs' => perform_ends p hs' (hvalid c hc)) hs₁
    rw [hstart]
    refine Ends.bind ((hcalls (fun c hc => initCalls_valid c (List.mem_append_left _ hc))
      hstate).mono (fun _ s₁ hs₁ => ?_) fun _ _ h => h)
    refine Ends.bind ((hcalls (fun c hc => initCalls_valid c (List.mem_append_right _ hc))
      hs₁).mono (fun _ s₂ _ => trivial) fun _ _ h => h)

end Shortage

/-- An `init` that returns was issued three low frames. -/
theorem three_le_lowFree {p : Profile} {k : LinkedLayout} {total : Set Nat} {s s' : BootState}
    (howns : s.ledger.Owns total) (hend : k.physEnd ≤ 0x400000)
    (hrun : init p k.toKernelLayout s = .ok () s') : 3 ≤ (lowFree s.ledger).ncard := by
  obtain ⟨frames, hfoot, hcleared⟩ := (init_ends p k.toKernelLayout howns.hint_le).of_eq_ok hrun
  -- The directory, and one table for each of the two loops.
  have hlen : frames.length = 3 := by
    obtain ⟨a, st₁, space₁, s₁, space₂, s₂, halow, ha, hrun₁, hrun₂, rfl⟩ :=
      init_calls howns.hint_le hrun
    obtain ⟨b, st₂, hb, hledger₁, htable₁, hold₁⟩ := hrun₁.one_table
      (newSlots_eq_singleton (kernelCalls_ne_nil k) (fun c hc => kernelCalls_slot hend hc) rfl)
    obtain ⟨c, st₃, hc, hledger₂, htable₂, hold₂⟩ := hrun₂.one_table
      (newSlots_eq_singleton (identityCalls_ne_nil k) (fun c hc => identityCalls_slot hc)
        (hold₁ 0 (by decide)))
    have hheld := congrArg List.length hfoot.consumed.held_eq
    have hledger : s₂.ledger.held = FrameRun.single c :: FrameRun.single b :: FrameRun.single a ::
        s.ledger.held := by
      rw [hledger₂, hledger₁]
      rfl
    simp only [hledger, List.length_append, List.length_reverse, List.length_map,
      List.length_cons] at hheld
    omega
  obtain ⟨hnodup, hfree⟩ := hfoot.consumed.nodup
  have hsub : (frames.toFinset : Set Nat) ⊆ lowFree s.ledger := by
    intro f hf
    have hmem : f ∈ frames := by simpa using hf
    exact ⟨hfree f hmem, (hcleared f hmem).1⟩
  calc 3 = frames.toFinset.card := by rw [List.toFinset_card_of_nodup hnodup, hlen]
    _ = (frames.toFinset : Set Nat).ncard := (Set.ncard_coe_finset _).symm
    _ ≤ (lowFree s.ledger).ncard := Set.ncard_le_ncard hsub (lowFree_finite s.ledger)

end Zkrnl32.Memory.Paging

namespace Zkrnl32.Kernel

open Zkrnl32.Machine Zkrnl32.Memory
open Zkrnl32.Memory.Paging (BootState Shortage highFree lowFree)
open Zkrnl32.Multiboot (MemoryMap MemoryRegion MultibootInfo)

/-! ## `memory::init` -/

/-- The frames that the regions of a map publish, without frame 0 and the image. -/
def usableFrames (k : KernelLayout) (regions : List MemoryRegion) : Set Nat :=
  (publishedBy regions \ {0}) \ k.image.frames

/-- Those that the bootstrap identity map reaches. -/
def bootFrames (k : KernelLayout) (regions : List MemoryRegion) : Set Nat :=
  usableFrames k regions ∩ Set.Iio 1024

/-- Why `memory::init` stops on a map of `regions`: the end of one overflows, or fewer than three
    frames below 4 MiB can be had. -/
inductive MapFault (p : Profile) (k : KernelLayout) (regions : List MemoryRegion) :
    Stop → Prop where
  | traps : (∃ region ∈ regions, TrapsOn p region) → MapFault p k regions .overflow
  | shortage {e : Stop} : (∀ region ∈ regions, ¬ TrapsOn p region) →
      (bootFrames k regions).ncard < 3 → Shortage (usableFrames k regions ∩ Set.Ici 1024) e →
      MapFault p k regions e

section MemoryInit

variable {p : Profile} {fuel : Nat} {info : Nat} {map map' : MemoryMap}
  {regions : List MemoryRegion} {b : BootState}

/-- `FrameBitmap::init` stops on a region that traps, and for nothing else. -/
theorem frames_init_ends (hyields : Yields (MemoryMap.next p) map regions map')
    (hfuel : regions.length < fuel) (image : KernelImage) (st : FrameBitmap) :
    Ends (FrameBitmap.init p fuel image map st)
      (fun _ _ => ∀ region ∈ regions, ¬ TrapsOn p region)
      fun e _ => e = .overflow ∧ ∃ region ∈ regions, TrapsOn p region := by
  refine Ends.bind ?_
  rw [forEach_eq_forM hyields hfuel]
  refine (forM_ends (fun done _ => ∀ region ∈ done, ¬ TrapsOn p region)
    (E := fun e _ => e = .overflow ∧ ∃ region ∈ regions, TrapsOn p region)
    (fun done region st₁ hregion hdone => ?_) (by simp)).mono (fun _ st₁ hno => ?_) fun _ _ h => h
  · rcases publishRegion_spec p region st₁ with ⟨htrap, st₂, hrun, -⟩ | ⟨htrap, hrun⟩
    · refine ends_of_ok hrun ?_
      rw [List.forall_mem_append]
      exact ⟨hdone, List.forall_mem_singleton.mpr htrap⟩
    · exact ends_of_error hrun ⟨rfl, region, hregion, htrap⟩
  · obtain ⟨st₂, hreserve, -⟩ := reserve_spec p image st₁
    exact ends_of_ok hreserve hno

/-- The picture that `FrameBitmap::init` leaves of a new allocator. -/
theorem freeFrames_of_init {k : KernelLayout} {st : FrameBitmap}
    (hinit : FrameBitmap.init p fuel k.image map .new = .ok () st)
    (hyields : Yields (MemoryMap.next p) map regions map') :
    st.freeFrames = usableFrames k regions := by
  obtain ⟨regions', map'', hyields', -, hfree, -⟩ := init_eq_ok hinit
  obtain rfl := hyields.unique hyields'
  rw [hfree, freeFrames_new, Set.empty_union, usableFrames]

/-- **When `memory::init` returns**: on a map whose walk ends, exactly when no region traps and
    three low frames are published; otherwise it stops for the reason of `MapFault`. -/
theorem memory_init_ends {k : LinkedLayout} (hend : k.physEnd ≤ 0x400000)
    (hledger : b.ledger = ⟨.new, []⟩)
    (hmap : (MultibootInfo.read b.mem info).memoryMap b.mem = some map)
    (hyields : Yields (MemoryMap.next p) map regions map') (hfuel : regions.length < fuel) :
    Ends (Memory.init p fuel k.toKernelLayout info b)
      (fun _ _ => (∀ region ∈ regions, ¬ TrapsOn p region) ∧
        3 ≤ (bootFrames k.toKernelLayout regions).ncard)
      fun e _ => MapFault p k.toKernelLayout regions e := by
  have hframes := frames_init_ends hyields hfuel k.image .new
  unfold Memory.init
  rw [run_get_bind, hmap]
  refine Ends.bind ?_
  simp only [Exec.zoom, Ledger.onAllocator, hledger]
  cases hinit : FrameBitmap.init p fuel k.image map .new with
  | error e st =>
    obtain ⟨rfl, htraps⟩ := hframes.of_eq_error hinit
    exact .traps htraps
  | ok _ st =>
    have hno := hframes.of_eq_ok hinit
    have hfree := freeFrames_of_init hinit hyields
    have howns : (Ledger.mk st []).Owns st.freeFrames := owns_of_init (Nat.zero_le _) hinit
    have hpacked := packed_of_init hinit
    have hlow : lowFree ⟨st, []⟩ = bootFrames k.toKernelLayout regions :=
      congrArg (· ∩ Set.Iio 1024) hfree
    have hhigh : highFree ⟨st, []⟩ = usableFrames k.toKernelLayout regions ∩ Set.Ici 1024 :=
      congrArg (· ∩ Set.Ici 1024) hfree
    let s : BootState := { b with ledger := ⟨st, []⟩ }
    change Ends (Paging.init p k.toKernelLayout s) _ _
    have hends := Paging.init_ends_for (s := s) p k.toKernelLayout howns.hint_le hpacked
    refine ends_iff.mpr ⟨fun _ b' hrun => ⟨hno, ?_⟩, fun e b' hrun => .shortage hno ?_ ?_⟩
    · rw [← hlow]
      exact Paging.three_le_lowFree (s := s) howns hend hrun
    · -- With three low frames `paging::init` would have returned.
      rw [← hlow, ← not_le]
      intro hthree
      obtain ⟨_, _, _, _, _, _, b'', hok, -⟩ := Paging.init_takes_lowest (p := p) (s := s) howns
        hpacked hthree hend
      rw [hok] at hrun
      cases hrun
    · rw [← hhigh]
      exact hends.of_eq_error hrun

theorem init_of_none (p : Profile) (fuel : Nat) (k : KernelLayout)
    (hmap : (MultibootInfo.read b.mem info).memoryMap b.mem = none) :
    Memory.init p fuel k info b = .error
      (.panicked "multiboot supplied no memory map; cannot build the frame allocator") b := by
  unfold Memory.init
  rw [run_get_bind, hmap]
  rfl

/-- The two ends of `memory_init_ends` exclude each other. -/
theorem MapFault.not_enough {k : KernelLayout} {e : Stop} (h : MapFault p k regions e) :
    ¬ ((∀ region ∈ regions, ¬ TrapsOn p region) ∧ 3 ≤ (bootFrames k regions).ncard) := by
  rintro ⟨hno, hthree⟩
  cases h with
  | traps htraps =>
    obtain ⟨region, hregion, htrap⟩ := htraps
    exact hno region hregion htrap
  | shortage _ hfew _ => omega

theorem MapFault.unique {k : KernelLayout} {e e' : Stop} (h : MapFault p k regions e)
    (h' : MapFault p k regions e') : e = e' := by
  cases h with
  | traps htraps =>
    cases h' with
    | traps => rfl
    | shortage hno =>
      obtain ⟨region, hregion, htrap⟩ := htraps
      exact absurd htrap (hno region hregion)
  | shortage hno _ hshortage =>
    cases h' with
    | traps htraps =>
      obtain ⟨region, hregion, htrap⟩ := htraps
      exact absurd htrap (hno region hregion)
    | shortage _ _ hshortage' => exact hshortage.unique hshortage'

end MemoryInit

/-! ## The whole boot -/

/-- The machine that the loader left can be booted: it left its magic and a memory map, no region of
    the map traps, and three low frames can be had. -/
def Bootable (p : Profile) (k : KernelLayout) (magic : U32) (mem : Memory) (info : Nat) : Prop :=
  magic = bootloaderMagic ∧ ∃ map regions map',
    (MultibootInfo.read mem info).memoryMap mem = some map ∧
      Yields (MemoryMap.next p) map regions map' ∧
      (∀ region ∈ regions, ¬ TrapsOn p region) ∧ 3 ≤ (bootFrames k regions).ncard

/-- Why a boot stops.  Each reason is looked at when the ones before it do not hold. -/
inductive BootFault (p : Profile) (k : KernelLayout) (magic : U32) (mem : Memory) (info : Nat) :
    Stop → Prop where
  | magic : magic ≠ bootloaderMagic → BootFault p k magic mem info
      (.panicked ("not booted by a multiboot loader: magic=" ++ hexPadded 0 magic.toNat))
  | noMap : magic = bootloaderMagic → (MultibootInfo.read mem info).memoryMap mem = none →
      BootFault p k magic mem info
        (.panicked "multiboot supplied no memory map; cannot build the frame allocator")
  | map {map map' : MemoryMap} {regions : List MemoryRegion} {e : Stop} :
      magic = bootloaderMagic → (MultibootInfo.read mem info).memoryMap mem = some map →
      Yields (MemoryMap.next p) map regions map' → MapFault p k regions e →
      BootFault p k magic mem info e

section BootFault

variable {p : Profile} {k : KernelLayout} {magic : U32} {mem : Memory} {info : Nat} {e e' : Stop}

theorem BootFault.not_bootable (h : BootFault p k magic mem info e) :
    ¬ Bootable p k magic mem info := by
  rintro ⟨hmagic, map, regions, map', hmap, hyields, henough⟩
  cases h with
  | magic hne => exact hne hmagic
  | noMap _ hnone =>
    rw [hnone] at hmap
    cases hmap
  | map _ hmap₁ hyields₁ hfault =>
    obtain rfl := Option.some.inj (hmap.symm.trans hmap₁)
    obtain rfl := hyields.unique hyields₁
    exact hfault.not_enough henough

theorem BootFault.unique (h : BootFault p k magic mem info e)
    (h' : BootFault p k magic mem info e') : e = e' := by
  cases h with
  | magic hne =>
    cases h' with
    | magic => rfl
    | noMap heq => exact absurd heq hne
    | map heq => exact absurd heq hne
  | noMap heq hnone =>
    cases h' with
    | magic hne => exact absurd heq hne
    | noMap => rfl
    | map _ hmap => cases hnone.symm.trans hmap
  | map heq hmap hyields hfault =>
    cases h' with
    | magic hne => exact absurd heq hne
    | noMap _ hnone => cases hnone.symm.trans hmap
    | map _ hmap₁ hyields₁ hfault₁ =>
      obtain rfl := Option.some.inj (hmap.symm.trans hmap₁)
      obtain rfl := hyields.unique hyields₁
      exact hfault.unique hfault₁

/-- Each is a stop of the program, not of the model. -/
theorem BootFault.ne_outOfFuel (h : BootFault p k magic mem info e) : e ≠ .outOfFuel := by
  rintro rfl
  cases h with
  | map _ _ _ hfault =>
    cases hfault with
    | shortage _ _ hshortage => cases hshortage

end BootFault

end Zkrnl32.Kernel
