import Zkrnl32.Memory.Paging.Build

/-!
# Runs of Calls

Any sequence of `map_bootstrap` calls that return, from any directory.

- `MapRun`: the run as a chain of `MapStep`s; a loop over calls makes one, or stops after one
  (`calls_ends`).
- `MapRun.entry_eq`: the last call for a page decides its entry.
- `Grown`: which tables a run added, and the frames it took for them.
- `calls_return`: with a low frame for every slot to fill, calls return.
- `calls_refine_map`: the calls refine updates of a finite map from pages to frames.
-/

namespace Zkrnl32.Memory.Paging

open Zkrnl32.Machine

/-! ## Runs of calls -/

/-- Calls that all returned, one after the other. -/
inductive MapRun (dir : Nat) (space : AddressSpace) (s : BootState) :
    List MapCall → AddressSpace → BootState → Prop where
  | nil : MapRun dir space s [] space s
  | snoc {calls : List MapCall} {c : MapCall} {space₁ space₂ : AddressSpace} {s₁ s₂ : BootState} :
      MapRun dir space s calls space₁ s₁ → c.Valid → MapStep dir space₁ s₁ c space₂ s₂ →
      MapRun dir space s (calls ++ [c]) space₂ s₂

section MapRun

variable {total : Set Nat} {dir : Nat} {space space' : AddressSpace} {s s' : BootState}
  {calls : List MapCall}

theorem MapRun.mapping (h : MapRun dir space s calls space' s') (hmap : Mapping dir space s) :
    Mapping dir space' s' := by
  induction h with
  | nil => exact hmap
  | snoc _ hc hstep ih => exact hstep.mapping hc ih

theorem MapRun.building (h : MapRun dir space s calls space' s')
    (hbuild : Building total dir space s) : Building total dir space' s' := by
  induction h with
  | nil => exact hbuild
  | snoc _ hc hstep ih => exact hstep.building hc ih

theorem MapRun.append {calls' : List MapCall} {space'' : AddressSpace} {s'' : BootState}
    (h : MapRun dir space s calls space' s') (h' : MapRun dir space' s' calls' space'' s'') :
    MapRun dir space s (calls ++ calls') space'' s'' := by
  induction h' with
  | nil => rwa [List.append_nil]
  | snoc _ hc hstep ih =>
    rw [← List.append_assoc]
    exact .snoc ih hc hstep

/-- A loop over calls returns after a run of all of them, or stops after a run of some. -/
theorem calls_ends (p : Profile) (h : Mapping dir space s) (hcalls : ∀ c ∈ calls, c.Valid) :
    Ends (forM calls (MapCall.perform p (4096 * dir)) s)
      (fun _ s' => ∃ space', MapRun dir space s calls space' s')
      fun _ s' => ∃ done space₁ s₁, MapRun dir space s done space₁ s₁ ∧ Refused s₁ s' := by
  refine forM_ends (fun done s' => ∃ space', MapRun dir space s done space' s') ?_ ⟨space, .nil⟩
  rintro done c s₁ hc ⟨space₁, hrun⟩
  rcases mapBootstrap_cases p (hrun.mapping h) (hcalls c hc) with
    ⟨e, s', hstop, _, hrefused⟩ | ⟨space₂, s₂, hstep, hmap⟩
  · exact ends_of_error hstop ⟨done, space₁, s₁, hrun, hrefused⟩
  · exact ends_of_ok hstep ⟨space₂, hrun.snoc (hcalls c hc) hmap⟩

/-- A loop over calls that returns ran all of them. -/
theorem calls_eq_ok {p : Profile} (h : Mapping dir space s) (hcalls : ∀ c ∈ calls, c.Valid)
    (hrun : forM calls (MapCall.perform p (4096 * dir)) s = .ok () s') :
    ∃ space', MapRun dir space s calls space' s' :=
  (calls_ends p h hcalls).of_eq_ok hrun

/-- The last call for a page. -/
def lastCall (calls : List MapCall) (page : Nat) : Option MapCall :=
  calls.reverse.find? fun c => c.page = page

theorem lastCall_concat (calls : List MapCall) (c : MapCall) (page : Nat) :
    lastCall (calls ++ [c]) page = if c.page = page then some c else lastCall calls page := by
  rw [lastCall, List.reverse_append, List.reverse_singleton, List.singleton_append]
  by_cases hpage : c.page = page
  · rw [if_pos hpage, List.find?_cons_of_pos (by simpa using hpage)]
  · rw [if_neg hpage, List.find?_cons_of_neg (by simpa using hpage), lastCall]

theorem lastCall_eq_some {page : Nat} {c : MapCall} (h : lastCall calls page = some c) :
    c ∈ calls ∧ c.page = page := by
  have hpage := List.find?_some h
  exact ⟨List.mem_reverse.mp (List.mem_of_find?_eq_some h), by simpa using hpage⟩

theorem lastCall_eq_none {page : Nat} (h : lastCall calls page = none) :
    ∀ c ∈ calls, c.page ≠ page := by
  intro c hc
  have hnot := List.find?_eq_none.mp h c (List.mem_reverse.mpr hc)
  simpa using hnot

/-- The entry of a page is that of the last call for it. -/
theorem MapRun.entry_eq (h : MapRun dir space s calls space' s') (page : Nat) :
    space'.entry page = (lastCall calls page).elim (space.entry page) MapCall.entry := by
  induction h with
  | nil => rfl
  | @snoc calls c _ _ _ _ _ _ hstep ih =>
    rw [hstep.entry_eq, lastCall_concat, Function.update_apply]
    by_cases hpage : page = c.page
    · rw [if_pos hpage, if_pos hpage.symm]
      rfl
    · rw [if_neg hpage, if_neg (Ne.symm hpage)]
      exact ih

end MapRun

/-! ## The tables of a run -/

/-- The directory slots that some calls touch. -/
def slots (calls : List MapCall) : Finset Nat := (calls.map MapCall.slot).toFinset

/-- Those of them that have no table yet. -/
def newSlots (space : AddressSpace) (calls : List MapCall) : Finset Nat :=
  (slots calls).filter fun i => space.table i = none

theorem newSlots_concat (space : AddressSpace) (calls : List MapCall) (c : MapCall) :
    newSlots space (calls ++ [c]) =
      if space.table c.slot = none then insert c.slot (newSlots space calls)
      else newSlots space calls := by
  have hslots : slots (calls ++ [c]) = insert c.slot (slots calls) := by
    ext i
    simp [slots]
  rw [newSlots, hslots, Finset.filter_insert]
  rfl

/-- Calls that all touch one slot without a table. -/
theorem newSlots_eq_singleton {space : AddressSpace} {calls : List MapCall} {i : Nat}
    (hne : calls ≠ []) (hcalls : ∀ c ∈ calls, c.slot = i) (habsent : space.table i = none) :
    newSlots space calls = {i} := by
  obtain ⟨c, hc⟩ := List.exists_mem_of_ne_nil calls hne
  have hslots : slots calls = {i} := by
    ext j
    rw [slots, List.mem_toFinset, List.mem_map, Finset.mem_singleton]
    constructor
    · rintro ⟨c', hc', rfl⟩
      exact hcalls c' hc'
    · rintro rfl
      exact ⟨c, hc, hcalls c hc⟩
  rw [newSlots, hslots, Finset.filter_singleton, if_pos habsent]

/-- What a run adds to the tables of `space`: one in a newly taken frame for every new slot. -/
structure Grown (space : AddressSpace) (l : Ledger) (added : Finset Nat) (frames : List Nat)
    (space' : AddressSpace) (l' : Ledger) : Prop where
  consumed : Consumed l frames l'
  count : frames.length = added.card
  old : ∀ i ∉ added, space'.table i = space.table i
  new : ∀ i ∈ added, ∃ t ∈ frames, space'.table i = some t

section Grown

variable {dir : Nat} {space space₁ space' : AddressSpace} {s s₁ s' : BootState}
  {calls : List MapCall} {c : MapCall} {frames : List Nat} {l : Ledger}

/-- Step lemma: a call with a table adds nothing, a call without one adds its slot. -/
theorem Grown.step
    (h : Grown space l (newSlots space calls) frames space₁ s₁.ledger)
    (hstep : MapStep dir space₁ s₁ c space' s') :
    ∃ frames', Grown space l (newSlots space (calls ++ [c])) frames' space' s'.ledger := by
  rw [newSlots_concat]
  cases hstep with
  | present ht =>
    refine ⟨frames, ?_⟩
    split
    next hnone =>
      -- There was no table at the start, so an earlier call added this one.
      have hmem : c.slot ∈ newSlots space calls := by
        by_contra hout
        rw [h.old _ hout, hnone] at ht
        cases ht
      rw [Finset.insert_eq_self.mpr hmem]
      exact ⟨h.consumed, h.count, h.old, h.new⟩
    next => exact ⟨h.consumed, h.count, h.old, h.new⟩
  | @added t st₁ habsent hlow htaken =>
    -- An earlier call for the slot would have left a table.
    have hout : c.slot ∉ newSlots space calls := by
      intro hmem
      obtain ⟨t', _, ht'⟩ := h.new _ hmem
      rw [ht'] at habsent
      cases habsent
    rw [if_pos (h.old _ hout ▸ habsent)]
    refine ⟨frames ++ [t], h.consumed.snoc htaken, ?_, fun i hi => ?_, fun i hi => ?_⟩
    · rw [Finset.card_insert_of_notMem hout, List.length_append, h.count]
      rfl
    · rw [Finset.mem_insert, not_or] at hi
      exact (Function.update_of_ne hi.1 ..).trans (h.old i hi.2)
    · rcases Finset.mem_insert.mp hi with rfl | hold
      · exact ⟨t, by simp, AddressSpace.addTable_self ..⟩
      · obtain ⟨t', hmem, ht'⟩ := h.new i hold
        have hne : i ≠ c.slot := fun heq => hout (heq ▸ hold)
        exact ⟨t', List.mem_append_left _ hmem, (Function.update_of_ne hne ..).trans ht'⟩

/-- Run lemma: a run takes one frame for every slot that it touches and that had no table. -/
theorem MapRun.grown (h : MapRun dir space s calls space' s') :
    ∃ frames, Grown space s.ledger (newSlots space calls) frames space' s'.ledger := by
  induction h with
  | nil => exact ⟨[], .nil, rfl, fun _ _ => rfl, fun i hi => by simp [newSlots, slots] at hi⟩
  | snoc _ _ hstep ih =>
    obtain ⟨frames, hgrown⟩ := ih
    exact hgrown.step hstep

/-- A run that touches one new slot takes one frame, for its table. -/
theorem MapRun.one_table (h : MapRun dir space s calls space' s') {i : Nat}
    (hslots : newSlots space calls = {i}) :
    ∃ t st, Taken s.ledger.allocator t st ∧
      s'.ledger = ⟨st, FrameRun.single t :: s.ledger.held⟩ ∧ space'.table i = some t ∧
      ∀ j ≠ i, space'.table j = space.table j := by
  obtain ⟨frames, hgrown⟩ := h.grown
  rw [hslots] at hgrown
  obtain ⟨t, rfl⟩ : ∃ t, frames = [t] := List.length_eq_one_iff.mp hgrown.count
  obtain ⟨st, htaken, hledger⟩ := hgrown.consumed.taken_of_singleton
  obtain ⟨t', hmem, htable⟩ := hgrown.new i (Finset.mem_singleton_self i)
  obtain rfl : t' = t := List.mem_singleton.mp hmem
  exact ⟨t', st, htaken, hledger, htable,
    fun j hj => hgrown.old j fun hmem => hj (Finset.mem_singleton.mp hmem)⟩

end Grown

/-! ## Refinement of a finite map -/

/-- The state after some calls on an empty directory, as a map from pages to frames with their
    write permission. -/
structure RefinesMap (dir : Nat) (s : BootState) (calls : List MapCall) (s' : BootState) :
    Prop where
  /-- The last call for the page of an address decides its translation. -/
  walk_eq : ∀ pse, ∀ v < 0xFFC00000, walk pse s'.mem dir v =
    (lastCall calls (v / 4096)).map fun c =>
      { phys := 4096 * (c.phys.raw.toNat / 4096) + v % 4096
        writable := decide (c.flags = .kernelRw)
        user := false }
  not_large : ∀ i < 1024, large (s'.mem.entry dir i) = false
  /-- The present slots below the recursive one are those of the calls. -/
  present_iff : ∀ i < 1023, present (s'.mem.entry dir i) = true ↔ i ∈ slots calls
  distinct : ∀ i < 1023, ∀ i' < 1023, present (s'.mem.entry dir i) = true →
    present (s'.mem.entry dir i') = true →
    entryFrame (s'.mem.entry dir i) = entryFrame (s'.mem.entry dir i') → i = i'
  /-- One frame is taken for every slot of the calls. -/
  consumed : ∃ frames : List Nat, frames.Nodup ∧ frames.length = (slots calls).card ∧
    (∀ f ∈ frames, f ∈ s.ledger.allocator.freeFrames) ∧
    (∀ f, f ∈ s'.ledger.allocator.freeFrames ↔ f ∈ s.ledger.allocator.freeFrames ∧ f ∉ frames) ∧
    ∀ i ∈ slots calls, entryFrame (s'.mem.entry dir i) ∈ frames

/-- The flags of the calls: a present page, writable or not. -/
def MapCall.Kernel (c : MapCall) : Prop := c.flags = .kernelRo ∨ c.flags = .kernelRw

theorem MapCall.Kernel.entry_spec {c : MapCall} (h : c.Kernel) :
    present c.entry = true ∧ writable c.entry = decide (c.flags = .kernelRw) ∧
      entryFrame c.entry = c.phys.raw.toNat / 4096 := by
  have hphys : c.phys.raw.toNat / 4096 < 2 ^ 20 := by
    have := c.phys.raw.isLt
    omega
  unfold MapCall.entry
  rcases h with h | h <;> rw [h]
  · exact ⟨getLsbD_pageEntry (by decide) (by decide), getLsbD_pageEntry (by decide) (by decide),
      entryFrame_pageEntry hphys (by decide)⟩
  · exact ⟨getLsbD_pageEntry (by decide) (by decide), getLsbD_pageEntry (by decide) (by decide),
      entryFrame_pageEntry hphys (by decide)⟩

theorem newSlots_empty (calls : List MapCall) : newSlots .empty calls = slots calls :=
  Finset.filter_true_of_mem fun _ _ => rfl

section RefinesMap

variable {dir : Nat} {space : AddressSpace} {s s' : BootState} {calls : List MapCall}

/-- What the walk finds after a run from an empty directory. -/
theorem MapRun.walk_eq (h : MapRun dir .empty s calls space s') (hmap : Mapping dir .empty s)
    (hcalls : ∀ c ∈ calls, c.Kernel) (pse : Bool) {v : Nat} (hv : v < 0xFFC00000) :
    walk pse s'.mem dir v = (lastCall calls (v / 4096)).map fun c =>
      { phys := 4096 * (c.phys.raw.toNat / 4096) + v % 4096
        writable := decide (c.flags = .kernelRw)
        user := false } := by
  rw [(h.mapping hmap).represents.walk_below pse hv, AddressSpace.translate, h.entry_eq]
  cases hlast : lastCall calls (v / 4096) with
  | none => simp [AddressSpace.empty]
  | some c =>
    obtain ⟨hpresent, hwritable, hframe⟩ := (hcalls c (lastCall_eq_some hlast).1).entry_spec
    simp only [Option.elim_some, Option.map_some, hpresent, if_true, hwritable, hframe]

/-- A slot of the calls holds the entry of a table in one of the taken frames; any other slot is
    absent. -/
theorem MapRun.slot_cases (h : MapRun dir .empty s calls space s') (hmap : Mapping dir .empty s)
    {frames : List Nat}
    (hgrown : Grown .empty s.ledger (slots calls) frames space s'.ledger)
    {i : Nat} (hi : i < 1023) :
    (i ∈ slots calls ∧ ∃ t ∈ frames, space.table i = some t ∧
      s'.mem.entry dir i = tableEntry t ∧ entryFrame (s'.mem.entry dir i) = t) ∨
    (i ∉ slots calls ∧ s'.mem.entry dir i = 0) := by
  have hrep := (h.mapping hmap).represents
  rw [hrep.slot i hi]
  by_cases hmem : i ∈ slots calls
  · obtain ⟨t, ht, htable⟩ := hgrown.new i hmem
    rw [htable]
    exact Or.inl ⟨hmem, t, ht, rfl, rfl, entryFrame_tableEntry (hrep.table_spec i t htable).2.1⟩
  · rw [hgrown.old i hmem]
    exact Or.inr ⟨hmem, rfl⟩

/-- A run from an empty directory refines the map of its calls. -/
theorem MapRun.refinesMap (h : MapRun dir .empty s calls space s') (hmap : Mapping dir .empty s)
    (hcalls : ∀ c ∈ calls, c.Kernel) (hvalid : ∀ c ∈ calls, c.Valid) :
    RefinesMap dir s calls s' := by
  have hrep := (h.mapping hmap).represents
  obtain ⟨frames, hgrown⟩ := h.grown
  rw [newSlots_empty] at hgrown
  obtain ⟨hnodup, hfree⟩ := hgrown.consumed.nodup
  have hslot : ∀ i < 1023, _ := fun i hi => h.slot_cases hmap hgrown hi
  refine ⟨fun pse v hv => h.walk_eq hmap hcalls pse hv, fun i hi => ?_, fun i hi => ?_,
    fun i hi i' hi' hpres hpres' heq => ?_,
    frames, hnodup, hgrown.count, hfree, fun f => hgrown.consumed.mem_free_iff, fun i hi => ?_⟩
  · -- Slots hold zero or the entry of a table, the recursive slot included.
    rcases hrep.slot_cases hi with hzero | ⟨t, ht, _⟩
    · rw [hzero]
      rfl
    · rw [ht]
      exact large_tableEntry t
  · rcases hslot i hi with ⟨hmem, t, _, _, ht, _⟩ | ⟨hout, hzero⟩
    · simp [ht, hmem]
    · simp [hzero, hout]
  · rcases hslot i hi with ⟨_, t, _, htable, _, ht⟩ | ⟨_, hzero⟩
    · rcases hslot i' hi' with ⟨_, t', _, htable', _, ht'⟩ | ⟨_, hzero⟩
      · rw [ht, ht'] at heq
        exact hrep.table_inj i i' t htable (heq ▸ htable')
      · simp [hzero] at hpres'
    · simp [hzero] at hpres
  · obtain ⟨c, hc, rfl⟩ := List.mem_map.mp (List.mem_toFinset.mp hi)
    rcases hslot c.slot (hvalid c hc).slot_lt with ⟨_, t, ht, _, _, hframe⟩ | ⟨hout, _⟩
    · exact hframe ▸ ht
    · exact absurd hi hout

end RefinesMap

/-! ## Calls that return

An allocator that hands out its lowest frame first keeps the calls going as long as every directory
slot they still have to fill can be matched with a free low frame. -/

/-- The free frames that the bootstrap identity map reaches. -/
def lowFree (l : Ledger) : Set Nat := l.allocator.freeFrames ∩ Set.Iio 1024

theorem lowFree_finite (l : Ledger) : (lowFree l).Finite :=
  (Set.finite_Iio 1024).subset Set.inter_subset_right

/-- The allocator is packed, and for every slot of `slots` without a table a low frame is
    free. -/
structure Roomy (slots : Finset Nat) (space : AddressSpace) (l : Ledger) : Prop where
  packed : l.allocator.Packed
  room : (slots.filter fun i => space.table i = none).card ≤ (lowFree l).ncard

section Roomy

variable {slots : Finset Nat} {space space' : AddressSpace} {dir : Nat} {s s' : BootState}

/-- A packed allocator with a low frame left issues a low frame. -/
theorem not_refused (hpacked : s.ledger.allocator.Packed) (hpos : 0 < (lowFree s.ledger).ncard) :
    ¬ Refused s s' := by
  obtain ⟨g, hfree, hlow⟩ := Set.nonempty_of_ncard_ne_zero (Nat.ne_of_gt hpos)
  rw [Set.mem_Iio] at hlow
  intro hrefused
  cases hrefused with
  | empty hempty => exact absurd (hempty ▸ hfree) (Set.notMem_empty g)
  | high hhigh htaken =>
    have := (htaken.packed hpacked).2 g hfree
    omega

/-- Taking a low frame leaves one low frame less. -/
theorem ncard_lowFree_of_taken {l : Ledger} {t : Nat} {st : FrameBitmap}
    (h : Taken l.allocator t st) (ht : t < 1024) (held : List FrameRun) :
    (lowFree ⟨st, held⟩).ncard + 1 = (lowFree l).ncard := by
  have hmem : t ∈ lowFree l := ⟨h.mem_free, ht⟩
  have hdiff : lowFree ⟨st, held⟩ = lowFree l \ {t} := by
    rw [lowFree, lowFree, h.free_eq, Set.sdiff_inter_right_comm]
  rw [hdiff]
  exact Set.ncard_sdiff_singleton_add_one hmem (lowFree_finite l)

theorem Roomy.not_refused (h : Roomy slots space s.ledger) {i : Nat} (hi : i ∈ slots)
    (habsent : space.table i = none) : ¬ Refused s s' := by
  refine Paging.not_refused h.packed (lt_of_lt_of_le ?_ h.room)
  exact Finset.card_pos.mpr ⟨i, Finset.mem_filter.mpr ⟨hi, habsent⟩⟩

/-- A call for a slot of `slots` keeps the match: a new table fills its slot. -/
theorem Roomy.step {c : MapCall} (h : Roomy slots space s.ledger) (hc : c.slot ∈ slots)
    (hstep : MapStep dir space s c space' s') : Roomy slots space' s'.ledger := by
  cases hstep with
  | present => exact ⟨h.packed, h.room⟩
  | @added t st habsent hlow htaken =>
    -- One slot less to fill, one low frame less to fill it with.
    refine ⟨(htaken.packed h.packed).1, ?_⟩
    have hfilter : (slots.filter fun i => (space.addTable c.slot t).table i = none) =
        (slots.filter fun i => space.table i = none).erase c.slot := by
      ext i
      rw [Finset.mem_erase, Finset.mem_filter, Finset.mem_filter]
      by_cases hi : i = c.slot
      · simp [hi, AddressSpace.addTable]
      · simp [hi, AddressSpace.addTable]
    have hcard := ncard_lowFree_of_taken htaken hlow (FrameRun.single t :: s.ledger.held)
    have hroom := h.room
    change (slots.filter fun i => (space.addTable c.slot t).table i = none).card ≤
      (lowFree ⟨st, FrameRun.single t :: s.ledger.held⟩).ncard
    rw [hfilter, Finset.card_erase_of_mem (Finset.mem_filter.mpr ⟨hc, habsent⟩)]
    omega

/-- The state with which calls go from page to page. -/
def Going (dir : Nat) (slots : Finset Nat) (s : BootState) : Prop :=
  ∃ space, Mapping dir space s ∧ Roomy slots space s.ledger

/-- Calls for slots of `slots` return. -/
theorem calls_return (p : Profile) (h : Going dir slots s) {calls : List MapCall}
    (hcalls : ∀ c ∈ calls, c.Valid ∧ c.slot ∈ slots) :
    ∃ s', forM calls (MapCall.perform p (4096 * dir)) s = .ok () s' ∧ Going dir slots s' := by
  refine forM_total (fun _ s => Going dir slots s) ?_ h
  rintro _ c s₁ hc ⟨space, hmap, hroom⟩
  obtain ⟨hvalid, hslot⟩ := hcalls c hc
  rcases mapBootstrap_cases p hmap hvalid with
    ⟨e, s', _, habsent, hrefused⟩ | ⟨space', s', hrun, hstep⟩
  · exact absurd hrefused (hroom.not_refused hslot habsent)
  · exact ⟨s', hrun, space', hstep.mapping hvalid hmap, hroom.step hslot hstep⟩

end Roomy

theorem ncard_lowFree_lowMap {p : Profile} {st : FrameBitmap}
    (h : FrameBitmap.init p 2 LinkedLayout.smallest.image (.start lowMap) .new = .ok () st) :
    (st.freeFrames ∩ Set.Iio 1024).ncard = 4 := by
  have hlow : st.freeFrames ∩ Set.Iio 1024 = Finset.Icc 1 4 := by
    ext f
    rw [lowMap_freeFrames h, Set.mem_inter_iff, Set.mem_Icc, Set.mem_Iio, Finset.coe_Icc,
      Set.mem_Icc]
    omega
  rw [hlow, Set.ncard_coe_finset]
  decide

/-! ## The refinement of whole sequences -/

/-- **`map_bootstrap` refines a finite-map update**: on a directory that holds only its recursive
    slot, in an occupied frame below 4 MiB, and for any allocator with its hint in range, the state
    after every prefix of a returning sequence of calls refines the map of these calls. -/
theorem calls_refine_map {p : Profile} {dir : Nat} {s s' : BootState} {calls : List MapCall}
    (hhint : s.ledger.allocator.searchHint ≤ wordCount)
    (hlow : dir < 1024) (hused : dir ∉ s.ledger.allocator.freeFrames)
    (hself : s.mem.entry dir 1023 = tableEntry dir) (hempty : ∀ i < 1023, s.mem.entry dir i = 0)
    (hcalls : ∀ c ∈ calls, c.virt.pdIndex ≠ 1023 ∧ (c.flags = .kernelRo ∨ c.flags = .kernelRw))
    (hrun : forM calls (MapCall.perform p (4096 * dir)) s = .ok () s') :
    ∀ done, done <+: calls → ∃ s₁, forM done (MapCall.perform p (4096 * dir)) s = .ok () s₁ ∧
      RefinesMap dir s done s₁ := by
  -- The directory spells the empty space whatever else lies in memory: it has no tables.
  have hrep : Represents s.mem dir .empty :=
    ⟨by omega, hself, hempty, nofun, nofun, nofun, fun _ _ _ _ => rfl⟩
  have hmap : Mapping dir .empty s := ⟨hhint, hrep, hused, hlow, nofun, nofun⟩
  have hvalid : ∀ c ∈ calls, c.Valid := by
    intro c hc
    obtain ⟨hindex, hflags⟩ := hcalls c hc
    have hlt := c.virt.raw.isLt
    rw [VirtAddr.pdIndex_eq] at hindex
    refine ⟨by omega, ?_⟩
    rcases hflags with h | h <;> rw [h] <;> decide
  rintro done ⟨rest, rfl⟩
  rw [List.forM_append] at hrun
  obtain ⟨_, s₁, hdone, _⟩ := bind_eq_ok.mp hrun
  have hvalid' : ∀ c ∈ done, c.Valid := fun c hc => hvalid c (List.mem_append_left _ hc)
  obtain ⟨space, hrun₁⟩ := calls_eq_ok hmap hvalid' hdone
  exact ⟨s₁, hdone, hrun₁.refinesMap hmap
    (fun c hc => (hcalls c (List.mem_append_left _ hc)).2) hvalid'⟩

/-- A kernel page, mapped writable and then again to another frame and read-only, and a page of low
    memory, in another slot. -/
def remapCalls : List MapCall :=
  [⟨⟨0xC0202000⟩, ⟨0x202000⟩, .kernelRw⟩, ⟨⟨0xC0202000⟩, ⟨0x203000⟩, .kernelRo⟩,
    ⟨⟨0xB8000⟩, ⟨0xB8000⟩, .kernelRw⟩]

/-- These calls, through a directory in frame 5 with the frames 1 to 4 free: the second one decides
    about its page. -/
theorem calls_refine_map_remap :
    ∃ s s', forM remapCalls (MapCall.perform .dev (4096 * 5)) s = .ok () s' ∧
      RefinesMap 5 s remapCalls s' ∧
      walk true s'.mem 5 0xC0202004 = some ⟨0x203004, false, false⟩ ∧
      walk true s'.mem 5 0xB8000 = some ⟨0xB8000, true, false⟩ := by
  obtain ⟨st, hinit⟩ := lowMap_returns .dev LinkedLayout.smallest.image
  have hfree := lowMap_freeFrames hinit
  have hhint : st.searchHint ≤ wordCount := (owns_of_init (Nat.zero_le _) hinit).hint_le
  have hused : 5 ∉ st.freeFrames := by simp [hfree]
  obtain ⟨mem, hrep⟩ : ∃ mem, Represents mem 5 .empty :=
    ⟨_, represents_empty (fun _ => 0) (by decide)⟩
  -- Two slots have to be filled, and four frames are free.
  have hgoing : Going 5 {0, 768} ⟨⟨st, []⟩, mem, [], 0, 0⟩ := by
    refine ⟨.empty, ⟨hhint, hrep, hused, by decide, nofun, nofun⟩, packed_of_init hinit, ?_⟩
    refine (Finset.card_filter_le _ _).trans ?_
    rw [lowFree, ncard_lowFree_lowMap hinit]
    decide
  have hcalls : ∀ c ∈ remapCalls, c.Valid ∧ c.slot ∈ ({0, 768} : Finset Nat) := by
    intro c hc
    simp only [remapCalls, List.mem_cons, List.not_mem_nil, or_false] at hc
    rcases hc with rfl | rfl | rfl <;> exact ⟨⟨by decide, by decide⟩, by decide⟩
  obtain ⟨s', hrun, -⟩ := calls_return .dev hgoing hcalls
  obtain ⟨s₁, hrun₁, hrefines⟩ := calls_refine_map (s := ⟨⟨st, []⟩, mem, [], 0, 0⟩) hhint
    (by decide) hused hrep.self hrep.slot (by decide) hrun _ (List.prefix_refl _)
  rw [hrun] at hrun₁
  cases hrun₁
  refine ⟨_, s', hrun, hrefines, ?_, ?_⟩
  · rw [hrefines.walk_eq true _ (by decide)]
    decide
  · rw [hrefines.walk_eq true _ (by decide)]
    decide

end Zkrnl32.Memory.Paging
