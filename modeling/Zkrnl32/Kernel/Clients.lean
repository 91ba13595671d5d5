import Zkrnl32.Kernel.Inventory
import Zkrnl32.Machine.Run

/-!
# The Allocator Behind the Boot

What the callers of the allocator can do once the kernel is in its loop.  They are issued runs, give
back runs that they were issued, and write to the frames of the runs they have, in any order and
number.  The runs of the page directory and its tables have been leaked: nobody gives them back.

- `Uses`: one such step.
- `Kept`: what every step keeps.
- `uses_keep_space`: no sequence of steps disturbs the address space, or any memory beside the
  usable frames and the kernel's own data.
-/

namespace Zkrnl32.Kernel

open Zkrnl32.Machine Zkrnl32.Memory Zkrnl32.Vga
open Zkrnl32.Memory.Paging (BootState finalTranslation)
open Zkrnl32.Multiboot (MemoryMap MemoryRegion MultibootInfo)

/-- One step of the callers, beside the runs that were `leaked`. -/
inductive Uses (p : Profile) (leaked : List FrameRun) : BootState → BootState → Prop where
  /-- `allocate` of any number of frames, whether there are so many or not. -/
  | issue {b : BootState} {count : NonZeroUsize} {issued : Option FrameRun} {l : Ledger} :
      Ledger.allocate p count b.ledger = .ok issued l →
      Uses p leaked b { b with ledger := l }
  /-- `free` of a run that a caller has. -/
  | giveBack {b : BootState} {own : List FrameRun} {i : Nat} {l : Ledger} :
      b.ledger.held = own ++ leaked → i < own.length → Ledger.free p i b.ledger = .ok () l →
      Uses p leaked b { b with ledger := l }
  /-- A write to a frame of a run that a caller has. -/
  | write {b : BootState} {own : List FrameRun} {run : FrameRun} {x : Nat} {byte : U8} :
      b.ledger.held = own ++ leaked → run ∈ own → x / 4096 ∈ run.frames →
      Uses p leaked b { b with mem := b.mem.store x [byte] }

/-- What the callers leave of the state `b₀` behind the boot. -/
structure Kept (total : Set Nat) (b₀ b : BootState) : Prop where
  owns : b.ledger.Owns total
  held : ∃ own, b.ledger.held = own ++ b₀.ledger.held
  cr3_eq : b.cr3 = b₀.cr3
  mem_eq : ∀ x, x / 4096 ∈ b₀.ledger.pool.owned ∨ x / 4096 ∉ total → b.mem x = b₀.mem x

section Kept

variable {p : Profile} {total : Set Nat} {b₀ b b' : BootState}

theorem kept_refl (h : b₀.ledger.Owns total) : Kept total b₀ b₀ :=
  ⟨h, ⟨[], rfl⟩, rfl, fun _ _ => rfl⟩

/-- The frames of a caller's run are neither leaked nor out of the allocator's reach. -/
theorem Kept.apart (h : Kept total b₀ b) {own : List FrameRun} {run : FrameRun}
    (hheld : b.ledger.held = own ++ b₀.ledger.held) (hrun : run ∈ own) {f : Nat}
    (hf : f ∈ run.frames) : f ∉ b₀.ledger.pool.owned ∧ f ∈ total := by
  have hmem : run ∈ b.ledger.held := by
    rw [hheld]
    exact List.mem_append_left _ hrun
  refine ⟨?_, h.owns.held_subset hmem hf⟩
  rintro ⟨part, hpart, hfpart⟩
  have hpairwise : (b.ledger.held.map FrameRun.frames).Pairwise Disjoint :=
    h.owns.conserves.pairwise
  rw [hheld, List.map_append] at hpairwise
  have hdisjoint := (List.pairwise_append.mp hpairwise).2.2 _ (List.mem_map_of_mem hrun) part hpart
  exact Set.disjoint_left.mp hdisjoint hf hfpart

/-- Step lemma. -/
theorem Kept.step (h : Kept total b₀ b) (huses : Uses p b₀.ledger.held b b') :
    Kept total b₀ b' := by
  obtain ⟨own₀, hown₀⟩ := h.held
  cases huses with
  | @issue count issued l hrun =>
    rcases Ledger.allocate_spec p h.owns count with ⟨hsame, -⟩ | ⟨run, l', hnew, howns, hheld, -⟩
    · rw [hrun] at hsame
      cases hsame
      exact h
    · rw [hrun] at hnew
      cases hnew
      refine ⟨howns, ⟨run :: own₀, ?_⟩, h.cr3_eq, h.mem_eq⟩
      change l.held = _
      rw [hheld, hown₀, List.cons_append]
  | @giveBack own i l hheld hi hrun =>
    obtain ⟨l', hfree, howns⟩ := Ledger.free_spec p h.owns i
    rw [hrun] at hfree
    cases hfree
    refine ⟨howns, ?_, h.cr3_eq, h.mem_eq⟩
    rcases Ledger.free_cases p h.owns i with ⟨-, hsame⟩ | ⟨run, st, -, hfreed, -⟩
    · rw [hrun] at hsame
      cases hsame
      exact ⟨own₀, hown₀⟩
    · rw [hrun] at hfreed
      cases hfreed
      -- The run lies in front of the leaked ones, which stay in their places.
      refine ⟨own.eraseIdx i, ?_⟩
      change b.ledger.held.eraseIdx i = _
      rw [hheld, List.eraseIdx_append_of_lt_length hi]
  | @write own run x byte hheld hrun hx =>
    obtain ⟨hnot, hin⟩ := h.apart hheld hrun hx
    refine ⟨h.owns, ⟨own, hheld⟩, h.cr3_eq, fun y hy => ?_⟩
    have hne : y ≠ x := by
      rintro rfl
      exact hy.elim hnot fun hout => hout hin
    change b.mem.store x [byte] y = _
    rw [Memory.store_singleton_apply, if_neg hne, h.mem_eq y hy]

/-- Run lemma. -/
theorem Kept.of_run (h : b₀.ledger.Owns total)
    (hrun : Relation.ReflTransGen (Uses p b₀.ledger.held) b₀ b) : Kept total b₀ b :=
  always_of_invariant (fun _ _ hkept huses => hkept.step huses) (kept_refl h) hrun

/-- The directory stands, as it lies with its tables in leaked frames. -/
theorem Kept.represents (h : Kept total b₀ b) {space : AddressSpace}
    (hspells : Represents b₀.mem b₀.directory space)
    (hdir : b₀.directory ∈ b₀.ledger.pool.owned)
    (htable : ∀ i f, space.table i = some f → f ∈ b₀.ledger.pool.owned) :
    Represents b.mem b.directory space := by
  have hheld : ∀ f ∈ b₀.ledger.pool.owned, ∀ j < 1024, b.mem.entry f j = b₀.mem.entry f j := by
    intro f hf j hj
    refine Memory.load32_congr fun x hlo hhi => h.mem_eq x (Or.inl ?_)
    obtain rfl : x / 4096 = f := by omega
    exact hf
  have hdirectory : b.directory = b₀.directory := by
    rw [BootState.directory, BootState.directory, h.cr3_eq]
  rw [hdirectory]
  refine hspells.congr fun f hf => ?_
  rcases hf with rfl | ⟨i, hi⟩
  · exact hheld _ hdir
  · exact hheld f (htable i f hi)

end Kept

/-- **The callers of the allocator cannot disturb the address space.**  Where a boot gets through
    and the map does not publish the frame of the text buffer, let the callers be issued runs, give
    them back and write to their frames, in any order and as often as they like.  Then the machine
    still runs on the intended address space, no byte outside the usable frames and the kernel's own
    data has changed, the usable frames are split among the free ones and the runs that are held,
    without loss and overlap, and every next call of the allocator returns. -/
theorem uses_keep_space (p : Profile) (fuel : Nat) (k : LinkedLayout) (mem : Memory) (info : Nat)
    {regions : List MemoryRegion} (h : Boots p fuel k mem info regions)
    (hend : k.physEnd ≤ 0x400000) (hscreen : 0xB8 ∉ publishedBy regions)
    (render : Stop → List U8) (esp cr3 cr0 : U32) :
    ∃ s', runKernel p fuel k.toKernelLayout render esp bootloaderMagic info
        (State.start mem cr3 cr0) = .ok .spinning s' ∧
      ∀ b, Relation.ReflTransGen (Uses p s'.boot.ledger.held) s'.boot b →
        (∀ pse, ∀ v < 0xFFC00000, b.translate pse v = finalTranslation k.toKernelLayout v) ∧
        (∀ x, x / 4096 ∉ usableFrames k.toKernelLayout regions → x ∉ k.dataBytes →
          b.mem x = s'.boot.mem x) ∧
        b.ledger.Owns (usableFrames k.toKernelLayout regions) ∧
        ∀ op, ∃ l, Ledger.perform p op b.ledger = .ok () l := by
  obtain ⟨map, map', hmap, hyields⟩ := h.walk
  obtain ⟨s₂, st, boot, s', -, -, hreached, hrun⟩ := runKernel_reached hend h.screen hmap hyields
    h.fuel_lt h.untrapped h.three_le render esp cr3 cr0
  obtain ⟨space, hspells, hentry, howns, hdir, htable⟩ := hreached.spells hyields hscreen
  rw [freeFrames_of_init hreached.frames hyields] at howns
  refine ⟨s', hrun, fun b hb => ?_⟩
  have hkept := Kept.of_run howns hb
  refine ⟨fun pse v hv => ?_, fun x hx _ => hkept.mem_eq x (Or.inr hx), hkept.owns, fun op => ?_⟩
  · have hstands := hkept.represents hspells hdir htable
    rw [BootState.translate, hstands.walk_below pse hv, Paging.translate_finalEntry hentry hv]
  · obtain ⟨l, hperform, -⟩ := Ledger.perform_spec p hkept.owns op
    exact ⟨l, hperform⟩

/-- A boot on the frames 1 to 4 leaves frame 4. -/
theorem Inventory.free_four {a b c : Nat} {s : State} (h : Inventory (Set.Icc 1 4) a b c s) :
    4 ∈ s.boot.ledger.allocator.freeFrames := by
  obtain rfl : a = 1 := h.first.unique (isLeast_Icc (by decide))
  obtain rfl : b = 2 := h.second.unique ⟨by decide, fun f ⟨hf, hne⟩ => by
    simp only [Set.mem_Icc, Set.mem_singleton_iff] at hf hne
    omega⟩
  obtain rfl : c = 3 := h.third.unique ⟨by decide, fun f ⟨hf, hne⟩ => by
    simp only [Set.mem_Icc, Set.mem_insert_iff, Set.mem_singleton_iff] at hf hne
    omega⟩
  rw [h.free_eq]
  decide

/-- A caller that is issued a frame, writes to its first byte and gives it back. -/
theorem uses_round {p : Profile} {total : Set Nat} {b₀ : BootState} (h : b₀.ledger.Owns total)
    {f : Nat} (hf : f ∈ b₀.ledger.allocator.freeFrames) (byte : U8) :
    ∃ b x, Relation.ReflTransGen (Uses p b₀.ledger.held) b₀ b ∧ b.mem x = byte ∧
      b.ledger.held = b₀.ledger.held := by
  have hwindow : b₀.ledger.allocator.Window 1 f := by
    rintro g ⟨hlo, hhi⟩
    obtain rfl : g = f := by omega
    exact hf
  rcases Ledger.allocate_spec p h .min with
    ⟨-, hnone⟩ | ⟨run, l, hissue, howns, hheld, hlen, -⟩
  · exact absurd hwindow (hnone f)
  · let x := 4096 * run.start.index
    have hx : x / 4096 ∈ run.frames := by
      have hframe : x / 4096 = run.start.index := by omega
      rw [hframe, FrameRun.frames, hlen]
      exact ⟨le_rfl, Nat.lt_succ_self _⟩
    have hown : l.held = [run] ++ b₀.ledger.held := hheld
    rcases Ledger.free_cases p howns 0 with ⟨hnone, -⟩ | ⟨_, st, -, hfree, -⟩
    · rw [hheld] at hnone
      cases hnone
    · refine ⟨⟨⟨st, l.held.eraseIdx 0⟩, b₀.mem.store x [byte], b₀.stores, b₀.cr3, b₀.cr0⟩, x, ?_,
        ?_, ?_⟩
      · have hfirst : Uses p b₀.ledger.held b₀ { b₀ with ledger := l } := .issue hissue
        have hsecond : Uses p b₀.ledger.held { b₀ with ledger := l }
            { b₀ with ledger := l, mem := b₀.mem.store x [byte] } :=
          .write hown (List.mem_singleton_self run) hx
        exact ((Relation.ReflTransGen.single hfirst).tail hsecond).tail
          (.giveBack hown Nat.zero_lt_one hfree)
      · change b₀.mem.store x [byte] x = byte
        rw [Memory.store_singleton_apply, if_pos rfl]
      · rw [hheld]
        rfl

/-- The smallest kernel on `lowMap`, after a caller has written to the one frame that is left and
    given it back. -/
theorem uses_keep_space_smallest :
    ∃ s' b x, runKernel .dev 3 LinkedLayout.smallest.toKernelLayout (fun _ => []) 0 bootloaderMagic
        0x9000 (State.start (handoffMemory 0x9000 0x9100) 0 0) = .ok .spinning s' ∧
      Relation.ReflTransGen (Uses .dev s'.boot.ledger.held) s'.boot b ∧
      b.mem x = 0xAA ∧ b.ledger.held = s'.boot.ledger.held ∧
      b.translate true 0xB8000 = some ⟨0xB8000, true, false⟩ := by
  obtain ⟨-, -, hscreen⟩ := lowMap_bootFrames LinkedLayout.smallest
  obtain ⟨s', hrun, huses⟩ := uses_keep_space .dev 3 LinkedLayout.smallest _ _
    (boots_lowMap .dev) (by decide) hscreen (fun _ => []) 0 0 0
  obtain ⟨s₁, _, _, _, hrun₁, hinventory⟩ := (boots_lowMap .dev).inventory (by decide)
    (fun _ => []) 0 0 0
  obtain rfl : s' = s₁ := (EStateM.Result.ok.inj (hrun.symm.trans hrun₁)).2
  rw [usableFrames_low _ lowMap_published] at hinventory
  obtain ⟨-, -, howns, -⟩ := huses s'.boot .refl
  obtain ⟨b, x, hsteps, hwritten, hheld⟩ := uses_round howns hinventory.free_four 0xAA
  exact ⟨s', b, x, hrun, hsteps, hwritten, hheld, (huses b hsteps).1 true 0xB8000 (by decide)⟩

end Zkrnl32.Kernel
