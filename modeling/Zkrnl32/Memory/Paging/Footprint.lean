import Zkrnl32.Memory.Paging.Progress

/-!
# What `init` Writes

Every byte that `init` writes lies in a frame it was issued in the same call, whether it returns
or stops.

- `Footprint`: the frames issued since a state, and that all stores since then lie in them.
- The three updates of the build keep it, hence so does a step (`MapStep.contained`), a run
  (`MapRun.contained`) and the stop of a run (`Footprint.refused`).
- `init_footprint`: hence `init` touches available low memory only.
-/

namespace Zkrnl32.Memory.Paging

open Zkrnl32.Machine

/-- `s'` is `s` after the frames `frames` were issued and some stores were made, each of them
    inside one of these frames below 4 MiB. -/
structure Footprint (s s' : BootState) (frames : List Nat) : Prop where
  consumed : Consumed s.ledger frames s'.ledger
  logged : ∀ w ∈ s'.stores, w ∈ s.stores ∨
    ∃ f ∈ frames, f < 1024 ∧ 4096 * f ≤ w.1 ∧ w.1 + w.2 ≤ 4096 * (f + 1)
  unchanged : ∀ x, s'.mem x ≠ s.mem x → ∃ f ∈ frames, f < 1024 ∧ x ∈ frameBytes f

section Footprint

variable {s s₁ s₂ : BootState} {frames : List Nat} {dir f : Nat} {st : FrameBitmap}

theorem Footprint.refl (s : BootState) : Footprint s s [] :=
  ⟨.nil, fun _ hw => Or.inl hw, fun _ hx => absurd rfl hx⟩

theorem Footprint.issue (h : Footprint s s₁ frames) (htaken : Taken s₁.ledger.allocator f st) :
    Footprint s (s₁.issue f st) (frames ++ [f]) where
  consumed := h.consumed.snoc htaken
  logged := by
    intro w hw
    refine (h.logged w hw).imp_right ?_
    rintro ⟨g, hg, hin⟩
    exact ⟨g, List.mem_append_left _ hg, hin⟩
  unchanged := by
    intro x hx
    obtain ⟨g, hg, hin⟩ := h.unchanged x hx
    exact ⟨g, List.mem_append_left _ hg, hin⟩

/-- A store inside an issued low frame. -/
theorem Footprint.store (h : Footprint s s₁ frames) (hf : f ∈ frames) (hlow : f < 1024)
    {addr : Nat} {bytes : List U8} (hlo : 4096 * f ≤ addr)
    (hhi : addr + bytes.length ≤ 4096 * (f + 1)) :
    Footprint s { s₁ with
      mem := s₁.mem.store addr bytes
      stores := (addr, bytes.length) :: s₁.stores } frames where
  consumed := h.consumed
  logged := by
    intro w hw
    rcases List.mem_cons.mp hw with rfl | hold
    · exact Or.inr ⟨f, hf, hlow, hlo, hhi⟩
    · exact h.logged w hold
  unchanged := by
    intro x hx
    by_cases hin : addr ≤ x ∧ x < addr + bytes.length
    · exact ⟨f, hf, hlow, hlo.trans hin.1, hin.2.trans_le hhi⟩
    · exact h.unchanged x fun heq => hx ((s₁.mem.store_apply_of_not_mem addr bytes hin).trans heq)

theorem Footprint.zeroed (h : Footprint s s₁ frames) (hf : f ∈ frames) (hlow : f < 1024) :
    Footprint s (s₁.zeroed f) frames := by
  have hlen : (List.replicate 4096 (0 : U8)).length = 4096 := List.length_replicate
  have hstore := h.store hf hlow le_rfl (by rw [hlen]; omega)
  rwa [hlen] at hstore

theorem Footprint.withEntry (h : Footprint s s₁ frames) (hf : f ∈ frames) (hlow : f < 1024)
    {j : Nat} (hj : j < 1024) (e : U32) : Footprint s (s₁.withEntry f j e) frames := by
  have hlen : (leBytes 4 e.toNat).length = 4 := length_leBytes 4 e.toNat
  have hstore := h.store hf hlow (Nat.le_add_right (4096 * f) (4 * j))
    (by rw [hlen]; omega)
  rwa [hlen] at hstore

theorem Footprint.refused (h : Footprint s s₁ frames) (hrefused : Refused s₁ s₂) :
    ∃ frames', Footprint s s₂ frames' := by
  cases hrefused with
  | empty => exact ⟨frames, h⟩
  | high _ htaken => exact ⟨_, h.issue htaken⟩

end Footprint

/-- The footprint of a build in progress: its directory and tables are among the issued frames,
    and each of these has been zeroed. -/
structure Contained (s : BootState) (dir : Nat) (space : AddressSpace) (s' : BootState)
    (frames : List Nat) : Prop extends Footprint s s' frames where
  dir_mem : dir ∈ frames
  table_mem : ∀ i t, space.table i = some t → t ∈ frames
  cleared : ∀ f ∈ frames, f < 1024 ∧ (4096 * f, 4096) ∈ s'.stores

section Contained

variable {s s₁ s₂ : BootState} {frames : List Nat} {dir : Nat} {space space₁ space₂ : AddressSpace}
  {c : MapCall} {calls : List MapCall}

theorem MapStep.contained (hstep : MapStep dir space₁ s₁ c space₂ s₂)
    (h : Contained s dir space₁ s₁ frames) (hc : c.Valid) (hmap : Mapping dir space₁ s₁) :
    ∃ frames', Contained s dir space₂ s₂ frames' := by
  have hindex : c.page % 1024 < 1024 := Nat.mod_lt _ (by decide)
  cases hstep with
  | present ht =>
    have hentry := h.withEntry (h.table_mem _ _ ht) (hmap.table_low _ _ ht) hindex c.entry
    refine ⟨frames, hentry, h.dir_mem, h.table_mem, fun f hf => ?_⟩
    exact (h.cleared f hf).imp_right (List.mem_cons_of_mem _)
  | @added t st _ hlow htaken =>
    have hnew : t ∈ frames ++ [t] := List.mem_append_right _ (List.mem_singleton_self t)
    have hdir : dir ∈ frames ++ [t] := List.mem_append_left _ h.dir_mem
    have hlinked := ((h.issue htaken).zeroed hnew hlow).withEntry hdir hmap.dir_low
      (Nat.lt_succ_of_lt hc.slot_lt) (tableEntry t)
    refine ⟨frames ++ [t], hlinked.withEntry hnew hlow hindex c.entry, hdir, fun i t' ht' => ?_,
      fun f hf => ?_⟩
    · rcases AddressSpace.table_addTable ht' with ⟨_, rfl⟩ | ⟨_, hold⟩
      · exact hnew
      · exact List.mem_append_left _ (h.table_mem i t' hold)
    · -- Two entries were written after the new frame was zeroed.
      rcases List.mem_append.mp hf with hold | hlast
      · obtain ⟨hflow, hstored⟩ := h.cleared f hold
        exact ⟨hflow, List.mem_cons_of_mem _ (List.mem_cons_of_mem _
          (List.mem_cons_of_mem _ hstored))⟩
      · obtain rfl := List.mem_singleton.mp hlast
        exact ⟨hlow, List.mem_cons_of_mem _ (List.mem_cons_of_mem _ List.mem_cons_self)⟩

theorem MapRun.contained (hrun : MapRun dir space₁ s₁ calls space₂ s₂)
    (h : Contained s dir space₁ s₁ frames) (hmap : Mapping dir space₁ s₁) :
    ∃ frames', Contained s dir space₂ s₂ frames' := by
  induction hrun with
  | nil => exact ⟨frames, h⟩
  | snoc hrun hc hstep ih =>
    obtain ⟨frames', h'⟩ := ih
    exact hstep.contained h' hc (hrun.mapping hmap)

/-- The empty directory, zeroed and linked to itself. -/
theorem contained_empty {st : FrameBitmap} (hlow : dir < 1024)
    (htaken : Taken s.ledger.allocator dir st) :
    Contained s dir .empty (s.withDirectory dir st) [dir] := by
  have hmem : dir ∈ [dir] := List.mem_singleton_self dir
  have hissued : Footprint s (s.issue dir st) [dir] := (Footprint.refl s).issue htaken
  refine ⟨(hissued.zeroed hmem hlow).withEntry hmem hlow (by decide) _, hmem, nofun, fun f hf => ?_⟩
  obtain rfl := List.mem_singleton.mp hf
  exact ⟨hlow, List.mem_cons_of_mem _ List.mem_cons_self⟩

/-- A loop over calls keeps within the issued frames, whichever way it ends. -/
theorem calls_contained (p : Profile) (h : Contained s dir space₁ s₁ frames)
    (hmap : Mapping dir space₁ s₁) (hcalls : ∀ c ∈ calls, c.Valid) :
    Ends (forM calls (MapCall.perform p (4096 * dir)) s₁)
      (fun _ s' => ∃ space₂ frames', Contained s dir space₂ s' frames' ∧ Mapping dir space₂ s')
      fun _ s' => ∃ frames', Footprint s s' frames' := by
  refine (calls_ends p hmap hcalls).mono ?_ ?_
  · rintro _ s' ⟨space₂, hrun⟩
    obtain ⟨frames', h'⟩ := hrun.contained h hmap
    exact ⟨space₂, frames', h', hrun.mapping hmap⟩
  · rintro _ s' ⟨done, space₂, s₂, hrun, hrefused⟩
    obtain ⟨frames', h'⟩ := hrun.contained h hmap
    exact h'.refused hrefused

/-- `init` keeps within the frames it is issued, whichever way it ends; if it returns, it has
    zeroed all of them. -/
theorem init_ends (p : Profile) (k : KernelLayout)
    (hhint : s.ledger.allocator.searchHint ≤ wordCount) :
    Ends (init p k s)
      (fun _ s' => ∃ frames, Footprint s s' frames ∧
        ∀ f ∈ frames, f < 1024 ∧ (4096 * f, 4096) ∈ s'.stores)
      fun _ s' => ∃ frames, Footprint s s' frames := by
  rcases init_cases p k hhint with ⟨e, s', hstop, hrefused⟩ | ⟨dir, st, hstart, hlow, htaken⟩
  · exact ends_of_error hstop ((Footprint.refl s).refused hrefused)
  rw [hstart]
  refine Ends.bind ((calls_contained p (contained_empty hlow htaken) (mapping_empty hlow htaken)
    fun c hc => initCalls_valid c (List.mem_append_left _ hc)).mono ?_ fun _ _ h => h)
  rintro _ s₁ ⟨space₁, frames₁, h₁, hmap₁⟩
  refine Ends.bind ((calls_contained p h₁ hmap₁
    fun c hc => initCalls_valid c (List.mem_append_right _ hc)).mono ?_ fun _ _ h => h)
  rintro _ s₂ ⟨space₂, frames₂, h₂, _⟩
  -- Loading the registers touches no memory.
  exact ⟨frames₂, ⟨h₂.consumed, h₂.logged, h₂.unchanged⟩, h₂.cleared⟩

end Contained

/-- **The write footprint of `init`**: for every memory map and every layout, and also when the run
    stops in a panic, the frames issued in the call are distinct free frames and the only ones that
    turn occupied; every store lies in one of them below 4 MiB, and no other byte changes.  Each of
    them lies inside an available region, is not frame 0 and shares no byte with the image. -/
theorem init_footprint {p : Profile} {fuel : Nat} {k : KernelLayout} {buf : Multiboot.Slice}
    {st : FrameBitmap} {s s' : BootState}
    (hinit : FrameBitmap.init p fuel k.image (.start buf) .new = .ok () st)
    (hledger : s.ledger = ⟨st, []⟩) (hstores : s.stores = [])
    (hrun : init p k s = .ok () s' ∨ ∃ e, init p k s = .error e s') :
    ∃ frames : List Nat, s'.ledger.held = (frames.map FrameRun.single).reverse ∧
      frames.Nodup ∧ (∀ f ∈ frames, f ∈ st.freeFrames) ∧
      (∀ f, f ∈ s'.ledger.allocator.freeFrames ↔ f ∈ st.freeFrames ∧ f ∉ frames) ∧
      (∀ w ∈ s'.stores, ∃ f ∈ frames, f < 1024 ∧ 4096 * f ≤ w.1 ∧ w.1 + w.2 ≤ 4096 * (f + 1)) ∧
      (∀ x, s'.mem x ≠ s.mem x → ∃ f ∈ frames, f < 1024 ∧ x ∈ frameBytes f) ∧
      ∀ f ∈ frames, f ≠ 0 ∧ Disjoint (frameBytes f) k.image.bytes ∧
        ∃ region, Yielded (Multiboot.MemoryMap.next p) (.start buf) region ∧
          region.kind = .available ∧ frameBytes f ⊆ region.bytes := by
  have hhint : s.ledger.allocator.searchHint ≤ wordCount :=
    hledger ▸ (owns_of_init (Nat.zero_le _) hinit).hint_le
  obtain ⟨frames, h⟩ : ∃ frames, Footprint s s' frames := by
    have hends := init_ends p k hhint
    rcases hrun with hok | ⟨e, herror⟩
    · obtain ⟨frames, h, _⟩ := hends.of_eq_ok hok
      exact ⟨frames, h⟩
    · exact hends.of_eq_error herror
  have hconsumed := h.consumed
  rw [hledger] at hconsumed
  obtain ⟨hnodup, hfree⟩ := hconsumed.nodup
  refine ⟨frames, ?_, hnodup, hfree, fun f => hconsumed.mem_free_iff, fun w hw => ?_, h.unchanged,
    fun f hf => ?_⟩
  · rw [hconsumed.held_eq, List.append_nil]
  · exact (h.logged w hw).resolve_left (by simp [hstores])
  · obtain ⟨⟨region, hy, hkind, _, hsub⟩, hne, himage⟩ :=
      (mem_freeFrames_of_init hinit).mp (hfree f hf)
    exact ⟨hne, disjoint_image_of_not_mem himage, region, hy, hkind, hsub⟩

/-- The smallest linked kernel on `lowMap`, in a zeroed memory: a byte that is no longer zero lies
    in an issued frame. -/
theorem init_footprint_smallest :
    ∃ st s' frames,
      FrameBitmap.init .dev 2 LinkedLayout.smallest.image (.start lowMap) .new = .ok () st ∧
      init .dev LinkedLayout.smallest.toKernelLayout ⟨⟨st, []⟩, fun _ => 0, [], 0, 0⟩ =
        .ok () s' ∧
      s'.ledger.held = (List.map FrameRun.single frames).reverse ∧
      ∀ x, s'.mem x ≠ 0 → ∃ f ∈ frames, f < 1024 ∧ x ∈ frameBytes f := by
  obtain ⟨st, s', hinit, hrun, -⟩ := init_smallest ⟨⟨.new, []⟩, fun _ => 0, [], 0, 0⟩
  obtain ⟨frames, hheld, _, _, _, _, hmem, _⟩ :=
    init_footprint (k := LinkedLayout.smallest.toKernelLayout) hinit rfl rfl (Or.inl hrun)
  exact ⟨st, s', frames, hinit, hrun, hheld, hmem⟩

end Zkrnl32.Memory.Paging
