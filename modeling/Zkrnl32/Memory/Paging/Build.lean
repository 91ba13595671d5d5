import Zkrnl32.Memory.Paging.Entry

/-!
# Building the Directory

The code that fills directory and table frames refines two updates of an address space.

- `Refused`, `Taken`: what the allocation of a paging frame can do.
- `Mapping`: the invariant between two calls of `map_bootstrap`.  The directory in memory
  represents an address space, and its frames are occupied, hence distinct from every frame that
  is still free.  In a ledger that owns its frames this is `Building`.
- `MapStep`: the exact states a returning call leaves.
- `mapBootstrap_cases`: one call makes such a step, or stops because no usable frame is left for
  a new table.
-/

namespace Zkrnl32.Memory.Paging

open Zkrnl32.Machine

/-! ## Single accesses -/

/-- The pointer to a frame depends on whether its address is below 4 MiB only. -/
theorem bootstrapFramePtr_eq (p : Profile) {f : Nat} (h : f < 2 ^ 20) :
    bootstrapFramePtr p ⟨f⟩ = if 4096 * f < 0x400000 then .ok (4096 * f)
      else .error (.panicked ("paging frame at 0x" ++
        String.ofList (Nat.toDigits 16 (4096 * f)) ++
          " lies above the bootstrap identity map")) := by
  unfold bootstrapFramePtr
  rw [FrameNumber.baseAddr_eq_ok h, checked_ok_bind]
  have hphys : (BitVec.ofNat 32 (f * 4096)).toNat = 4096 * f := by
    rw [BitVec.toNat_ofNat, Nat.mod_eq_of_lt (by omega), Nat.mul_comm]
  simp only [hphys]
  rfl

/-- Frames below 4 MiB are reached through the bootstrap identity map. -/
theorem bootstrapFramePtr_eq_ok (p : Profile) {f : Nat} (h : f < 1024) :
    bootstrapFramePtr p ⟨f⟩ = .ok (4096 * f) := by
  rw [bootstrapFramePtr_eq p (by omega), if_pos (by omega)]

/-- A frame at or above 4 MiB stops the build. -/
theorem bootstrapFramePtr_eq_error (p : Profile) {f : Nat} (h : 1024 ≤ f) (hlt : f < 2 ^ 20) :
    ∃ message, bootstrapFramePtr p ⟨f⟩ = .error (.panicked message) := by
  rw [bootstrapFramePtr_eq p hlt, if_neg (by omega)]
  exact ⟨_, rfl⟩

/-- The state after frame `t` was zeroed. -/
def BootState.zeroed (s : BootState) (t : Nat) : BootState :=
  { s with
    mem := s.mem.store (4096 * t) (List.replicate 4096 0)
    stores := (4096 * t, 4096) :: s.stores }

/-- The state after entry `i` of the table in frame `t` was written. -/
def BootState.withEntry (s : BootState) (t i : Nat) (e : U32) : BootState :=
  { s with
    mem := s.mem.store32 (4096 * t + 4 * i) e
    stores := (4096 * t + 4 * i, 4) :: s.stores }

section Accesses

variable {s : BootState} {t i : Nat}

theorem loadEntry_eq_ok (hi : i < 1024) :
    loadEntry (4096 * t) i s = .ok (s.mem.entry t i) s := by
  unfold loadEntry
  rw [if_pos (by simpa using hi), run_get_bind]
  rfl

theorem storeEntry_eq_ok (hi : i < 1024) (e : U32) :
    storeEntry (4096 * t) i e s = .ok () (s.withEntry t i e) := by
  unfold storeEntry
  rw [if_pos (by simpa using hi)]
  rfl

theorem zeroFrame_eq_ok (p : Profile) (ht : t < 1024) :
    zeroFrame p ⟨t⟩ s = .ok () (s.zeroed t) := by
  unfold zeroFrame
  rw [run_lift_bind (bootstrapFramePtr_eq_ok p ht), writeBytes,
    List.length_replicate]
  rfl

end Accesses

/-! ## Allocating paging frames -/

/-- The state after the frame `f` was issued and the allocator became `st`. -/
def BootState.issue (s : BootState) (f : Nat) (st : FrameBitmap) : BootState :=
  { s with ledger := ⟨st, FrameRun.single f :: s.ledger.held⟩ }

/-- Everything `alloc_frame` can do. -/
theorem allocFrame_cases (p : Profile) {s : BootState}
    (hhint : s.ledger.allocator.searchHint ≤ wordCount) :
    (allocFrame p s =
        .error (.panicked "out of physical frames while building the page directory") s ∧
      s.ledger.allocator.freeFrames = ∅) ∨
    ∃ f st, allocFrame p s = .ok ⟨f⟩ (s.issue f st) ∧ Taken s.ledger.allocator f st := by
  unfold allocFrame Ledger.allocateOne
  rcases allocateOne_spec p hhint with ⟨hrun, hempty⟩ | ⟨f, st, hrun, htaken⟩
  · refine Or.inl ⟨?_, hempty⟩
    rw [run_bind_of_ok (zoom_eq_ok.mpr ⟨_, Ledger.allocate_of_ok hrun, rfl⟩)]
    rfl
  · refine Or.inr ⟨f, st, ?_, htaken⟩
    rw [run_bind_of_ok (zoom_eq_ok.mpr ⟨_, Ledger.allocate_of_ok hrun, rfl⟩)]
    rfl

theorem owned_issue (s : BootState) (f : Nat) (st : FrameBitmap) :
    (s.issue f st).ledger.pool.owned = insert f s.ledger.pool.owned := by
  ext g
  simp [BootState.issue, Ledger.pool, Pool.owned, FrameRun.frames_single]

/-- The state after a build that got no usable frame stopped: none is free, or the one issued
    lies above the identity map. -/
inductive Refused (s : BootState) : BootState → Prop where
  | empty : s.ledger.allocator.freeFrames = ∅ → Refused s s
  | high {f : Nat} {st : FrameBitmap} : 1024 ≤ f → Taken s.ledger.allocator f st →
      Refused s (s.issue f st)

/-- A paging frame, as both callers get it: allocated, then zeroed. -/
theorem allocZeroed_cases (p : Profile) {s : BootState}
    (hhint : s.ledger.allocator.searchHint ≤ wordCount) {α : Type}
    (next : FrameNumber → Exec BootState α) :
    (∃ e s', (do let frame ← allocFrame p; zeroFrame p frame; next frame) s = .error e s' ∧
      Refused s s') ∨
    ∃ t st, (do let frame ← allocFrame p; zeroFrame p frame; next frame) s =
        next ⟨t⟩ ((s.issue t st).zeroed t) ∧
      t < 1024 ∧ Taken s.ledger.allocator t st := by
  rcases allocFrame_cases p hhint with ⟨hrun, hempty⟩ | ⟨t, st, hrun, htaken⟩
  · exact Or.inl ⟨_, s, run_bind_of_error hrun, .empty hempty⟩
  rw [run_bind_of_ok hrun]
  -- The allocator knows nothing of the identity map: a frame above it panics here.
  by_cases hlow : t < 1024
  · exact Or.inr ⟨t, st, run_bind_of_ok (zeroFrame_eq_ok p hlow), hlow, htaken⟩
  · rw [Nat.not_lt] at hlow
    obtain ⟨message, hptr⟩ := bootstrapFramePtr_eq_error p (f := t) hlow htaken.lt
    have hzero : zeroFrame p ⟨t⟩ (s.issue t st) =
        .error (.panicked message) (s.issue t st) := by
      unfold zeroFrame
      rw [hptr]
      exact run_bind_of_error (run_lift_error _ _)
    exact Or.inl ⟨_, _, run_bind_of_error hzero, .high hlow htaken⟩

/-! ## The invariant -/

/-- The state between two calls of `map_bootstrap`: the directory in frame `dir` represents
    `space`, and the paging frames are occupied and lie in the low 4 MiB. -/
structure Mapping (dir : Nat) (space : AddressSpace) (s : BootState) : Prop where
  hint_le : s.ledger.allocator.searchHint ≤ wordCount
  represents : Represents s.mem dir space
  dir_used : dir ∉ s.ledger.allocator.freeFrames
  dir_low : dir < 1024
  table_used : ∀ i t, space.table i = some t → t ∉ s.ledger.allocator.freeFrames
  table_low : ∀ i t, space.table i = some t → t < 1024

/-- The same state with an owned ledger, in which the paging frames are held. -/
structure Building (total : Set Nat) (dir : Nat) (space : AddressSpace) (s : BootState) : Prop
    extends Mapping dir space s where
  owns : s.ledger.Owns total
  dir_held : dir ∈ s.ledger.pool.owned
  table_held : ∀ i t, space.table i = some t → t ∈ s.ledger.pool.owned

/-- The state after an empty table in frame `t` was issued and linked into slot `i`. -/
def BootState.withTable (s : BootState) (dir i t : Nat) (st : FrameBitmap) : BootState :=
  ((s.issue t st).zeroed t).withEntry dir i (tableEntry t)

section Invariant

variable {dir i j t : Nat} {space : AddressSpace} {s : BootState} {st : FrameBitmap}

theorem Mapping.withTable (h : Mapping dir space s) (hi : i < 1023)
    (habsent : space.table i = none) (hlow : t < 1024) (htaken : Taken s.ledger.allocator t st) :
    Mapping dir (space.addTable i t) (s.withTable dir i t st) := by
  -- A new frame is neither the directory nor a table, for those are occupied.
  have hdir : t ≠ dir := fun heq => h.dir_used (heq ▸ htaken.mem_free)
  have hnew : ∀ i', space.table i' ≠ some t := fun i' ht =>
    h.table_used i' t ht htaken.mem_free
  have hfree : (s.withTable dir i t st).ledger.allocator.freeFrames =
      s.ledger.allocator.freeFrames \ {t} := htaken.free_eq
  exact
    { hint_le := htaken.hint_le
      represents := h.represents.addTable hi habsent htaken.lt hdir hnew
      dir_used := by
        rw [hfree]
        exact fun hmem => h.dir_used hmem.1
      dir_low := h.dir_low
      table_used := by
        intro i' t' ht' hmem
        rw [hfree] at hmem
        rcases AddressSpace.table_addTable ht' with ⟨_, rfl⟩ | ⟨_, hold⟩
        · exact hmem.2 rfl
        · exact h.table_used i' t' hold hmem.1
      table_low := by
        intro i' t' ht'
        rcases AddressSpace.table_addTable ht' with ⟨_, rfl⟩ | ⟨_, hold⟩
        · exact hlow
        · exact h.table_low i' t' hold }

theorem Mapping.withEntry (h : Mapping dir space s) (ht : space.table i = some t) (hj : j < 1024)
    (e : U32) : Mapping dir (space.setEntry (1024 * i + j) e) (s.withEntry t j e) :=
  { h with represents := h.represents.setEntry ht hj e }

end Invariant

/-! ## One call -/

/-- The allocation of a table for a slot stops, or leaves the slot with an empty table. -/
theorem addTable_cases (p : Profile) {dir i : Nat} {s : BootState}
    (hhint : s.ledger.allocator.searchHint ≤ wordCount) (hi : i < 1024) :
    (∃ e s', addTable p (4096 * dir) i s = .error e s' ∧ Refused s s') ∨
    ∃ t st, addTable p (4096 * dir) i s = .ok ⟨t⟩ (s.withTable dir i t st) ∧ t < 1024 ∧
      Taken s.ledger.allocator t st := by
  rcases allocZeroed_cases p hhint (fun frame => do
    let entry ← PageDirectoryEntry.forTable p frame .kernelRw
    storeEntry (4096 * dir) i entry.raw
    return frame) with hstop | ⟨t, st, hrun, hlow, htaken⟩
  · exact Or.inl hstop
  · refine Or.inr ⟨t, st, ?_, hlow, htaken⟩
    unfold addTable
    rw [hrun, run_lift_bind (PageDirectoryEntry.forTable_eq_ok p htaken.lt),
      run_bind_of_ok (storeEntry_eq_ok hi _)]
    rfl

/-- One call of `map_bootstrap`. -/
structure MapCall where
  virt : VirtAddr
  phys : PhysAddr
  flags : PageFlags

namespace MapCall

def perform (p : Profile) (pd : Nat) (c : MapCall) : Exec BootState Unit :=
  mapBootstrap p pd c.virt c.phys c.flags

/-- The page that is mapped. -/
def page (c : MapCall) : Nat := c.virt.raw.toNat / 4096

/-- The directory slot of that page. -/
def slot (c : MapCall) : Nat := c.page / 1024

/-- The entry that is written. -/
def entry (c : MapCall) : U32 := pageEntry (c.phys.raw.toNat / 4096) c.flags.bits.toNat

/-- The page lies below the recursive window, and the flags are flags. -/
structure Valid (c : MapCall) : Prop where
  virt_lt : c.virt.raw.toNat < 0xFFC00000
  flags_lt : c.flags.bits.toNat < 4096

theorem Valid.slot_lt {c : MapCall} (h : c.Valid) : c.slot < 1023 := by
  have := h.virt_lt
  simp only [slot, page]
  omega

theorem pdIndex_eq_slot (c : MapCall) : c.virt.pdIndex = c.slot := by
  rw [VirtAddr.pdIndex_eq, slot, page]
  omega

end MapCall

/-- What a call that returns did: it wrote an entry of the table behind its slot, or of a new
    table. -/
inductive MapStep (dir : Nat) (space : AddressSpace) (s : BootState) (c : MapCall) :
    AddressSpace → BootState → Prop where
  | present {t : Nat} : space.table c.slot = some t →
      MapStep dir space s c (space.setEntry c.page c.entry)
        (s.withEntry t (c.page % 1024) c.entry)
  | added {t : Nat} {st : FrameBitmap} : space.table c.slot = none → t < 1024 →
      Taken s.ledger.allocator t st →
      MapStep dir space s c ((space.addTable c.slot t).setEntry c.page c.entry)
        ((s.withTable dir c.slot t st).withEntry t (c.page % 1024) c.entry)

section MapStep

variable {total : Set Nat} {dir : Nat} {space space' : AddressSpace} {s s' : BootState}
  {c : MapCall}

theorem MapCall.page_eq (c : MapCall) : 1024 * c.slot + c.page % 1024 = c.page := Nat.div_add_mod ..

theorem AddressSpace.addTable_self (space : AddressSpace) (i t : Nat) :
    (space.addTable i t).table i = some t := by
  simp [AddressSpace.addTable]

theorem MapStep.mapping (h : MapStep dir space s c space' s') (hc : c.Valid)
    (hmap : Mapping dir space s) : Mapping dir space' s' := by
  have hj : c.page % 1024 < 1024 := Nat.mod_lt _ (by decide)
  cases h with
  | present ht =>
    have hset := hmap.withEntry ht hj c.entry
    rwa [c.page_eq] at hset
  | added habsent hlow htaken =>
    have hadded := hmap.withTable hc.slot_lt habsent hlow htaken
    have hset := hadded.withEntry (AddressSpace.addTable_self ..) hj c.entry
    rwa [c.page_eq] at hset

/-- Frames are held once they are issued. -/
theorem MapStep.building (h : MapStep dir space s c space' s') (hc : c.Valid)
    (hbuild : Building total dir space s) : Building total dir space' s' := by
  have hmap := h.mapping hc hbuild.toMapping
  cases h with
  | present => exact ⟨hmap, hbuild.owns, hbuild.dir_held, hbuild.table_held⟩
  | @added t st habsent hlow htaken =>
    have howned := owned_issue s t st
    refine ⟨hmap, hbuild.owns.take_single htaken, ?_, fun i t' ht' => ?_⟩
    · exact howned ▸ Set.mem_insert_of_mem t hbuild.dir_held
    · change t' ∈ (s.issue t st).ledger.pool.owned
      rw [howned]
      rcases AddressSpace.table_addTable ht' with ⟨_, rfl⟩ | ⟨_, hold⟩
      · exact Set.mem_insert t' _
      · exact Set.mem_insert_of_mem t (hbuild.table_held i t' hold)

/-- A step changes the entry of its page only. -/
theorem MapStep.entry_eq (h : MapStep dir space s c space' s') :
    space'.entry = Function.update space.entry c.page c.entry := by
  cases h <;> rfl

end MapStep

/-- The stores that close a call, once the table's frame is known. -/
theorem storePage_eq_ok (p : Profile) {t : Nat} (ht : t < 1024) {c : MapCall} (hc : c.Valid)
    (s : BootState) :
    (do
      let table ← bootstrapFramePtr p ⟨t⟩
      let entry ← PageTableEntry.new p c.phys.frameFloor c.flags
      storeEntry table c.virt.ptIndex entry.raw : Exec BootState Unit) s =
    .ok () (s.withEntry t (c.page % 1024) c.entry) := by
  have hphys : c.phys.frameFloor.index < 2 ^ 20 := by
    have := c.phys.raw.isLt
    rw [PhysAddr.index_frameFloor]
    omega
  rw [run_lift_bind (bootstrapFramePtr_eq_ok p ht),
    run_lift_bind (PageTableEntry.new_eq_ok p c.phys.frameFloor c.flags hphys hc.flags_lt),
    PhysAddr.index_frameFloor, VirtAddr.ptIndex_eq]
  exact storeEntry_eq_ok (Nat.mod_lt _ (by decide)) _

/-- Everything one call of `map_bootstrap` can do: set the entry of one page, or stop because
    its slot is absent and no usable frame is left. -/
theorem mapBootstrap_cases (p : Profile) {dir : Nat} {space : AddressSpace} {s : BootState}
    (h : Mapping dir space s) {c : MapCall} (hc : c.Valid) :
    (∃ e s', c.perform p (4096 * dir) s = .error e s' ∧ space.table c.slot = none ∧
      Refused s s') ∨
    ∃ space' s', c.perform p (4096 * dir) s = .ok () s' ∧ MapStep dir space s c space' s' := by
  have hslot := h.represents.slot c.slot hc.slot_lt
  have hindex : c.slot < 1024 := Nat.lt_succ_of_lt hc.slot_lt
  unfold MapCall.perform mapBootstrap
  rw [c.pdIndex_eq_slot, run_bind_of_ok (loadEntry_eq_ok hindex), hslot]
  cases htable : space.table c.slot with
  | some t =>
    obtain ⟨_, hlt, _⟩ := h.represents.table_spec _ t htable
    refine Or.inr ⟨_, _, ?_, .present htable⟩
    simp only [PageDirectoryEntry.isPresent_eq, PageDirectoryEntry.tableFrame_eq, Option.elim_some,
      present_tableEntry, if_true, entryFrame_tableEntry hlt, pure_bind]
    exact storePage_eq_ok p (h.table_low _ t htable) hc s
  | none =>
    -- An absent slot holds 0, whose present bit is clear.
    have hcond : ¬ (PageDirectoryEntry.mk ((none : Option Nat).elim 0 tableEntry)).isPresent =
        true := by
      rw [PageDirectoryEntry.isPresent_eq]
      decide
    rw [if_neg hcond]
    rcases addTable_cases p h.hint_le hindex with
      ⟨e, s', hstop, hrefused⟩ | ⟨t, st, hadd, hlow, htaken⟩
    · exact Or.inl ⟨e, s', run_bind_of_error hstop, rfl, hrefused⟩
    · refine Or.inr ⟨_, _, ?_, .added htable hlow htaken⟩
      rw [run_bind_of_ok hadd]
      exact storePage_eq_ok p hlow hc _

end Zkrnl32.Memory.Paging
