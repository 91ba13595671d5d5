import Zkrnl32.Machine.Ownership
import Zkrnl32.Memory.Frame.Init

/-!
# Ownership of Frames

A `FrameRun` can be neither cloned nor made up, so callers free exactly the runs they were
given.  A `Ledger` records those runs beside the allocator.

- `Ledger.Owns` ties a ledger to the abstract pool of `Machine.Ownership`.
- `Ledger.allocate_spec`, `Ledger.free_spec`: each operation returns and is one step of
  the pool.
- `ownership_conserved`: hence every sequence of operations conserves the frames that `init`
  published.
- `Taken`, `FrameBitmap.Packed`: what the allocation of one frame does; single-frame workloads
  stay packed (`single_frames_lowest_first`).
- `Consumed`: several such allocations in a row, with the list of frames issued.
-/

namespace Zkrnl32.Memory

open Zkrnl32.Machine Zkrnl32.Multiboot Zkrnl32.Utils

/-! ## The allocator and its callers -/

/-- The allocator together with the runs its callers hold, the latest first. -/
structure Ledger where
  allocator : FrameBitmap
  held : List FrameRun

/-- An operation on the global allocator, as its callers can make it. -/
inductive FrameOp where
  | allocate (count : NonZeroUsize)
  | allocateOne
  /-- `free` of the `i`-th run that is held; nothing when there is no such run. -/
  | free (i : Nat)

/-- Runs allocator code on the ledger's allocator. -/
def Ledger.onAllocator {α : Type} (x : Exec FrameBitmap α) : Exec Ledger α :=
  Exec.zoom Ledger.allocator (fun a l => { l with allocator := a }) x

/-- `allocate`; the caller holds the run it returns. -/
def Ledger.allocate (p : Profile) (count : NonZeroUsize) : Exec Ledger (Option FrameRun) := do
  let issued ← Ledger.onAllocator (Memory.allocate p count)
  modify fun l => { l with held := issued.toList ++ l.held }
  return issued

def Ledger.allocateOne (p : Profile) : Exec Ledger (Option FrameRun) :=
  Ledger.allocate p NonZeroUsize.min

/-- `free` of the `i`-th held run, which moves out of its holder's hands. -/
def Ledger.free (p : Profile) (i : Nat) : Exec Ledger Unit := do
  match (← get).held[i]? with
  | none => return ()
  | some run =>
    modify fun l => { l with held := l.held.eraseIdx i }
    Ledger.onAllocator (Memory.free p run)

def Ledger.perform (p : Profile) (op : FrameOp) : Exec Ledger Unit := do
  match op with
  | .allocate count => let _ ← Ledger.allocate p count
  | .allocateOne => let _ ← Ledger.allocateOne p
  | .free i => Ledger.free p i

/-! ## The ledger as a pool -/

/-- The abstract pool of a ledger. -/
def Ledger.pool (l : Ledger) : Pool Nat := ⟨l.allocator.freeFrames, l.held.map FrameRun.frames⟩

/-- The ledger conserves `total`, and the allocator keeps its representation invariant. -/
structure Ledger.Owns (l : Ledger) (total : Set Nat) : Prop where
  conserves : l.pool.Conserves total
  hint_le : l.allocator.searchHint ≤ wordCount
  total_lt : ∀ f ∈ total, f < frameCount

theorem FrameRun.frames_nonempty (run : FrameRun) : run.frames.Nonempty :=
  ⟨run.start.index, by
    have := run.len.pos
    simp only [FrameRun.frames, Set.mem_Ico]
    omega⟩

/-- A run all of whose frames exist ends inside the bitmap. -/
theorem FrameRun.end_le {run : FrameRun} (h : ∀ f ∈ run.frames, f < frameCount) :
    run.start.index + run.len.get ≤ frameCount := by
  have hpos := run.len.pos
  have := h (run.start.index + run.len.get - 1) (by simp only [FrameRun.frames, Set.mem_Ico]; omega)
  omega

/-- A ledger with nothing handed out owns its free frames. -/
theorem Ledger.owns_start {st : FrameBitmap} (hhint : st.searchHint ≤ wordCount) :
    (Ledger.mk st []).Owns st.freeFrames where
  conserves := Pool.conserves_start st.freeFrames
  hint_le := hhint
  total_lt := fun _ hf => lt_frameCount_of_free hf

/-- The ledger's `allocate` is the allocator's, with the issued run on top. -/
theorem Ledger.allocate_of_ok {p : Profile} {count : NonZeroUsize} {l : Ledger}
    {issued : Option FrameRun} {st : FrameBitmap}
    (h : Memory.allocate p count l.allocator = .ok issued st) :
    Ledger.allocate p count l = .ok issued ⟨st, issued.toList ++ l.held⟩ := by
  have hzoom : Ledger.onAllocator (Memory.allocate p count) l = .ok issued ⟨st, l.held⟩ :=
    zoom_eq_ok.mpr ⟨st, h, rfl⟩
  unfold Ledger.allocate
  rw [run_bind_of_ok hzoom]
  rfl

/-- Handing out a run of free frames keeps the ledger. -/
theorem Ledger.Owns.take {l : Ledger} {total : Set Nat} (h : l.Owns total) {run : FrameRun}
    {st : FrameBitmap} (hsub : run.frames ⊆ l.allocator.freeFrames)
    (hfree : st.freeFrames = l.allocator.freeFrames \ run.frames)
    (hhint : st.searchHint = (run.start.index + run.len.get) / 32) :
    (Ledger.mk st (run :: l.held)).Owns total := by
  have hstep : Pool.Step l.pool (Ledger.mk st (run :: l.held)).pool := by
    rw [Ledger.pool, Ledger.pool, List.map_cons, hfree]
    exact .take run.frames_nonempty hsub
  refine ⟨hstep.conserves h.conserves, ?_, h.total_lt⟩
  rw [hhint]
  exact div_le_wordCount (FrameRun.end_le fun f hf => lt_frameCount_of_free (hsub hf))

/-- Everything `allocate` can do to a ledger. -/
theorem Ledger.allocate_spec (p : Profile) {l : Ledger} {total : Set Nat} (h : l.Owns total)
    (count : NonZeroUsize) :
    (Ledger.allocate p count l = .ok none l ∧ ∀ s, ¬ l.allocator.Window count.get s) ∨
    ∃ run l', Ledger.allocate p count l = .ok (some run) l' ∧ l'.Owns total ∧
      l'.held = run :: l.held ∧ run.len = count ∧
      l.allocator.Window count.get run.start.index := by
  rcases Memory.allocate_spec p count h.hint_le with
    ⟨hrun, hnone⟩ | ⟨run, st, hrun, rfl, hwindow, hfree, hhint, _⟩
  · exact Or.inl ⟨Ledger.allocate_of_ok hrun, hnone⟩
  · exact Or.inr ⟨run, _, Ledger.allocate_of_ok hrun, h.take hwindow hfree hhint, rfl, rfl,
      hwindow⟩

/-- Everything `free` of a held run can do to a ledger: it returns, and the run's frames turn
    free. -/
theorem Ledger.free_cases (p : Profile) {l : Ledger} {total : Set Nat} (h : l.Owns total)
    (i : Nat) :
    (l.held[i]? = none ∧ Ledger.free p i l = .ok () l) ∨
    ∃ run st, l.held[i]? = some run ∧
      Ledger.free p i l = .ok () ⟨st, l.held.eraseIdx i⟩ ∧
      st.freeFrames = l.allocator.freeFrames ∪ run.frames ∧
      st.searchHint = min l.allocator.searchHint (run.start.index / 32) := by
  unfold Ledger.free
  rw [run_get_bind]
  cases hi : l.held[i]? with
  | none => exact Or.inl ⟨rfl, rfl⟩
  | some run =>
    -- A held run shares no frame with the free set, so the double-free check passes.
    have hmem : run ∈ l.held := List.mem_of_getElem? hi
    obtain ⟨hdisj, hsub⟩ := h.conserves.held_part (List.mem_map_of_mem hmem)
    obtain ⟨st, hrun, hfree, hhint⟩ :=
      Memory.free_spec p (FrameRun.end_le fun f hf => h.total_lt f (hsub hf)) hdisj
    refine Or.inr ⟨run, st, rfl, ?_, hfree, hhint⟩
    simp only []
    rw [run_modify_bind]
    exact zoom_eq_ok.mpr ⟨st, hrun, rfl⟩

/-- `free` of a held run returns and keeps the ledger. -/
theorem Ledger.free_spec (p : Profile) {l : Ledger} {total : Set Nat} (h : l.Owns total)
    (i : Nat) : ∃ l', Ledger.free p i l = .ok () l' ∧ l'.Owns total := by
  rcases Ledger.free_cases p h i with ⟨_, hrun⟩ | ⟨run, st, hi, hrun, hfree, hhint⟩
  · exact ⟨l, hrun, h⟩
  · refine ⟨⟨st, l.held.eraseIdx i⟩, hrun, ?_, ?_, h.total_lt⟩
    · have hperm : (run :: l.held.eraseIdx i).Perm l.held := by
        obtain ⟨hlt, rfl⟩ := List.getElem?_eq_some_iff.mp hi
        exact List.getElem_cons_eraseIdx_perm hlt
      have hstep : Pool.Step l.pool (Ledger.mk st (l.held.eraseIdx i)).pool := by
        rw [Ledger.pool, Ledger.pool, hfree]
        exact .give (by simpa using hperm.map FrameRun.frames)
      exact hstep.conserves h.conserves
    · rw [hhint]
      exact (min_le_left _ _).trans h.hint_le

/-- Step lemma: every operation returns and keeps the ledger. -/
theorem Ledger.perform_spec (p : Profile) {l : Ledger} {total : Set Nat} (h : l.Owns total)
    (op : FrameOp) : ∃ l', Ledger.perform p op l = .ok () l' ∧ l'.Owns total := by
  have halloc : ∀ count, ∃ l', Ledger.perform p (.allocate count) l = .ok () l' ∧
      l'.Owns total := by
    intro count
    rcases Ledger.allocate_spec p h count with ⟨hrun, _⟩ | ⟨run, l', hrun, howns, _⟩
    · exact ⟨l, run_bind_of_ok hrun, h⟩
    · exact ⟨l', run_bind_of_ok hrun, howns⟩
  cases op with
  | allocate count => exact halloc count
  | allocateOne => exact halloc NonZeroUsize.min
  | free i => exact Ledger.free_spec p h i

/-- Run lemma: every sequence of operations returns and keeps the ledger. -/
theorem Ledger.perform_all (p : Profile) {l : Ledger} {total : Set Nat} (h : l.Owns total)
    (ops : List FrameOp) : ∃ l', forM ops (Ledger.perform p) l = .ok () l' ∧ l'.Owns total :=
  forM_total (fun _ l => Ledger.Owns l total)
    (fun _ op _ _ howns => Ledger.perform_spec p howns op) h

/-- A held run is part of the total. -/
theorem Ledger.Owns.held_subset {l : Ledger} {total : Set Nat} (h : l.Owns total)
    {run : FrameRun} (hrun : run ∈ l.held) : run.frames ⊆ total :=
  (h.conserves.held_part (List.mem_map_of_mem hrun)).2

/-- What `init` leaves, with nothing handed out, owns its free frames. -/
theorem owns_of_init {p : Profile} {fuel : Nat} {image : KernelImage} {map : MemoryMap}
    {st₀ st : FrameBitmap} (hhint : st₀.searchHint ≤ wordCount)
    (h : FrameBitmap.init p fuel image map st₀ = .ok () st) :
    (Ledger.mk st []).Owns st.freeFrames := by
  obtain ⟨_, _, _, _, _, hle⟩ := init_eq_ok h
  exact Ledger.owns_start (hle.trans hhint)

/-! ## Single frames -/

/-- Every frame below the hinted word is occupied. -/
def FrameBitmap.Packed (st : FrameBitmap) : Prop := ∀ f ∈ st.freeFrames, 32 * st.searchHint ≤ f

theorem window_one {st : FrameBitmap} {f : Nat} : st.Window 1 f ↔ f ∈ st.freeFrames := by
  have hsingle : Set.Ico f (f + 1) = {f} := by
    ext x
    simp only [Set.mem_Ico, Set.mem_singleton_iff]
    omega
  rw [FrameBitmap.Window, hsingle, Set.singleton_subset_iff]

/-- The run of the frame `f` alone. -/
def FrameRun.single (f : Nat) : FrameRun := ⟨⟨f⟩, NonZeroUsize.min⟩

theorem FrameRun.frames_of_len_one {run : FrameRun} (h : run.len = NonZeroUsize.min) :
    run.frames = {run.start.index} := by
  ext x
  simp only [FrameRun.frames, h, NonZeroUsize.min, Set.mem_Ico, Set.mem_singleton_iff]
  omega

/-- `st'` is `st` after the frame `f` was allocated alone. From a packed allocator that is the
    lowest free frame, and a packed one is left. -/
structure Taken (st : FrameBitmap) (f : Nat) (st' : FrameBitmap) : Prop where
  mem_free : f ∈ st.freeFrames
  free_eq : st'.freeFrames = st.freeFrames \ {f}
  hint_eq : st'.searchHint = (f + 1) / 32
  packed : st.Packed → st'.Packed ∧ ∀ g ∈ st.freeFrames, f ≤ g

theorem Taken.hint_le {st st' : FrameBitmap} {f : Nat} (h : Taken st f st') :
    st'.searchHint ≤ wordCount := by
  rw [h.hint_eq]
  exact div_le_wordCount (lt_frameCount_of_free h.mem_free)

theorem Taken.lt {st st' : FrameBitmap} {f : Nat} (h : Taken st f st') : f < 2 ^ 20 := by
  have hlt := lt_frameCount_of_free h.mem_free
  rwa [frameCount_eq] at hlt

/-- From a packed allocator the lowest free frame is taken. -/
theorem Taken.isLeast {st st' : FrameBitmap} {f : Nat} (h : Taken st f st') (hpacked : st.Packed) :
    IsLeast st.freeFrames f := ⟨h.mem_free, (h.packed hpacked).2⟩

/-- `l'` is `l` after the frames `fs` were issued one after the other. -/
inductive Consumed (l : Ledger) : List Nat → Ledger → Prop where
  | nil : Consumed l [] l
  | snoc {fs : List Nat} {f : Nat} {l₁ : Ledger} {st : FrameBitmap} :
      Consumed l fs l₁ → Taken l₁.allocator f st →
      Consumed l (fs ++ [f]) ⟨st, FrameRun.single f :: l₁.held⟩

section Consumed

variable {l l' : Ledger} {fs : List Nat}

theorem Consumed.mem_free_iff (h : Consumed l fs l') {f : Nat} :
    f ∈ l'.allocator.freeFrames ↔ f ∈ l.allocator.freeFrames ∧ f ∉ fs := by
  induction h with
  | nil => simp
  | snoc _ htaken ih =>
    rw [htaken.free_eq, Set.mem_sdiff, ih]
    simp [and_assoc]

/-- The frames are distinct and were free. -/
theorem Consumed.nodup (h : Consumed l fs l') :
    fs.Nodup ∧ ∀ f ∈ fs, f ∈ l.allocator.freeFrames := by
  induction h with
  | nil => simp
  | @snoc fs f _ _ hfs htaken ih =>
    obtain ⟨hfree, hnew⟩ := hfs.mem_free_iff.mp htaken.mem_free
    refine ⟨?_, fun g hg => ?_⟩
    · refine List.nodup_append.mpr ⟨ih.1, List.nodup_singleton f, fun a ha b hb heq => hnew ?_⟩
      rw [← List.mem_singleton.mp hb, ← heq]
      exact ha
    · rcases List.mem_append.mp hg with hold | hlast
      · exact ih.2 g hold
      · exact List.mem_singleton.mp hlast ▸ hfree

/-- The runs that were handed out for them. -/
theorem Consumed.held_eq (h : Consumed l fs l') :
    l'.held = (fs.map FrameRun.single).reverse ++ l.held := by
  induction h with
  | nil => rfl
  | snoc _ _ ih => simp [ih]

theorem Consumed.eq_of_nil (h : Consumed l [] l') : l' = l := by
  generalize hfs : ([] : List Nat) = fs at h
  cases h with
  | nil => rfl
  | snoc => simp at hfs

theorem Consumed.taken_of_singleton {f : Nat} (h : Consumed l [f] l') :
    ∃ st, Taken l.allocator f st ∧ l' = ⟨st, FrameRun.single f :: l.held⟩ := by
  generalize hfs : [f] = fs at h
  cases h with
  | nil => simp at hfs
  | @snoc fs g l₁ st hfs' htaken =>
    rcases List.append_eq_singleton_iff.mp hfs.symm with ⟨rfl, hlast⟩ | ⟨_, hlast⟩
    · obtain rfl : g = f := by simpa using hlast
      obtain rfl := hfs'.eq_of_nil
      exact ⟨st, htaken, rfl⟩
    · cases hlast

end Consumed

@[simp] theorem FrameRun.frames_single (f : Nat) : (FrameRun.single f).frames = {f} :=
  FrameRun.frames_of_len_one rfl

/-- Taking one free frame keeps the ledger. -/
theorem Ledger.Owns.take_single {l : Ledger} {total : Set Nat} (h : l.Owns total) {f : Nat}
    {st : FrameBitmap} (htaken : Taken l.allocator f st) :
    (Ledger.mk st (FrameRun.single f :: l.held)).Owns total := by
  refine h.take ?_ ?_ htaken.hint_eq
  · rw [FrameRun.frames_single]
    exact Set.singleton_subset_iff.mpr htaken.mem_free
  · rw [FrameRun.frames_single]
    exact htaken.free_eq

/-- Everything `allocate_one` can do: it fails only when no frame is free. -/
theorem allocateOne_spec (p : Profile) {st : FrameBitmap} (hhint : st.searchHint ≤ wordCount) :
    (allocateOne p st = .ok none st ∧ st.freeFrames = ∅) ∨
    ∃ f st', allocateOne p st = .ok (some (FrameRun.single f)) st' ∧ Taken st f st' := by
  rcases allocate_spec p NonZeroUsize.min hhint with
    ⟨hrun, hnone⟩ | ⟨⟨⟨f⟩, len⟩, st', hrun, rfl, hwindow, hfree, hhint', hchoice⟩
  · refine Or.inl ⟨hrun, Set.eq_empty_of_forall_notMem fun f hf => ?_⟩
    exact hnone f (window_one.mpr hf)
  rw [FrameRun.frames_of_len_one rfl] at hfree
  refine Or.inr ⟨f, st', hrun, window_one.mp hwindow, hfree, hhint', fun hpacked => ?_⟩
  -- No free frame lies below the hint, so either pass of the search finds the lowest one.
  have hlowest : ∀ g ∈ st.freeFrames, f ≤ g := by
    intro g hg
    by_contra hlt
    rcases hchoice with hfirst | ⟨_, hfirst⟩
    · exact hfirst.2.2 g (hpacked g hg) (by simpa using hlt) (window_one.mpr hg)
    · exact hfirst.2.2 g (Nat.zero_le g) (by simpa using hlt) (window_one.mpr hg)
  refine ⟨fun g hg => ?_, hlowest⟩
  rw [hfree] at hg
  have hle := hlowest g hg.1
  have hne : g ≠ f := hg.2
  have hword : st'.searchHint = (f + 1) / 32 := hhint'
  omega

/-- Everything `allocate_one` can do to a ledger: it fails only when no frame is free, and
    from a packed allocator it issues the lowest free frame and leaves a packed one. -/
theorem Ledger.allocateOne_spec (p : Profile) {l : Ledger} {total : Set Nat} (h : l.Owns total) :
    (Ledger.allocateOne p l = .ok none l ∧ l.allocator.freeFrames = ∅) ∨
    ∃ run st, Ledger.allocateOne p l = .ok (some run) ⟨st, run :: l.held⟩ ∧
      (Ledger.mk st (run :: l.held)).Owns total ∧
      run.frames = {run.start.index} ∧ run.start.index ∈ l.allocator.freeFrames ∧
      st.freeFrames = l.allocator.freeFrames \ {run.start.index} ∧
      (l.allocator.Packed → st.Packed ∧ ∀ f ∈ l.allocator.freeFrames, run.start.index ≤ f) := by
  rcases Memory.allocateOne_spec p h.hint_le with ⟨hrun, hempty⟩ | ⟨f, st, hrun, htaken⟩
  · exact Or.inl ⟨Ledger.allocate_of_ok hrun, hempty⟩
  · exact Or.inr ⟨_, st, Ledger.allocate_of_ok hrun, h.take_single htaken,
      FrameRun.frames_single f, htaken.mem_free, htaken.free_eq, htaken.packed⟩

/-- `init` on a fresh allocator leaves a packed one: its hint is still 0. -/
theorem packed_of_init {p : Profile} {fuel : Nat} {image : KernelImage} {map : MemoryMap}
    {st : FrameBitmap} (h : FrameBitmap.init p fuel image map .new = .ok () st) : st.Packed := by
  obtain ⟨_, _, _, _, _, hle⟩ := init_eq_ok h
  intro f _
  have hzero : st.searchHint = 0 := Nat.le_zero.mp hle
  omega

/-! ## Conservation -/

/-- **Ownership and conservation**: after any sequence of operations on an initialised
    allocator, none of which stops, the held runs are non-empty, inside the bitmap and pairwise
    disjoint, and together with the free frames they are exactly the frames that were free. -/
theorem ownership_conserved {p : Profile} {fuel : Nat} {image : KernelImage} {map : MemoryMap}
    {st₀ st : FrameBitmap} (hhint : st₀.searchHint ≤ wordCount)
    (h : FrameBitmap.init p fuel image map st₀ = .ok () st) (ops : List FrameOp) :
    ∃ l, forM ops (Ledger.perform p) ⟨st, []⟩ = .ok () l ∧
      (∀ run ∈ l.held, run.frames.Nonempty ∧ run.frames ⊆ Set.Iio frameCount) ∧
      l.held.Pairwise (fun run run' => Disjoint run.frames run'.frames) ∧
      Disjoint l.allocator.freeFrames { f | ∃ run ∈ l.held, f ∈ run.frames } ∧
      l.allocator.freeFrames ∪ { f | ∃ run ∈ l.held, f ∈ run.frames } = st.freeFrames := by
  obtain ⟨l, hrun, howns⟩ := Ledger.perform_all p (owns_of_init hhint h) ops
  have howned : l.pool.owned = { f | ∃ run ∈ l.held, f ∈ run.frames } := by
    ext f
    simp [Pool.owned, Ledger.pool]
  refine ⟨l, hrun, fun run hmem => ⟨run.frames_nonempty, ?_⟩, ?_, ?_, ?_⟩
  · exact fun f hf => howns.total_lt f (howns.held_subset hmem hf)
  · exact List.pairwise_map.mp howns.conserves.pairwise
  · exact howned ▸ howns.conserves.disjoint
  · exact howned ▸ howns.conserves.union

theorem ownership_conserved_lowMap :
    ∃ st l,
      FrameBitmap.init .dev 2 LinkedLayout.smallest.image (.start lowMap) .new = .ok () st ∧
      forM [.allocateOne, .allocate ⟨2, by decide, by decide⟩, .free 1]
        (Ledger.perform .dev) ⟨st, []⟩ = .ok () l ∧
      l.allocator.freeFrames ∪ { f | ∃ run ∈ l.held, f ∈ run.frames } = Set.Icc 1 4 := by
  obtain ⟨st, h⟩ := lowMap_returns .dev LinkedLayout.smallest.image
  obtain ⟨l, hrun, _, _, _, hunion⟩ := ownership_conserved (Nat.zero_le _) h
    [.allocateOne, .allocate ⟨2, by decide, by decide⟩, .free 1]
  exact ⟨st, l, h, hrun, hunion.trans (lowMap_freeFrames h)⟩

/-! ## Single-frame workloads -/

/-- The operations of a single-frame workload: `allocate_one`, and `free` of a held run. -/
def FrameOp.Single (op : FrameOp) : Prop := op = .allocateOne ∨ ∃ i, op = .free i

/-- `free` pulls the hint back to the freed run, so a packed allocator stays packed. -/
theorem packed_of_free {st st' : FrameBitmap} {run : FrameRun}
    (hfree : st'.freeFrames = st.freeFrames ∪ run.frames)
    (hhint : st'.searchHint = min st.searchHint (run.start.index / 32)) (hpacked : st.Packed) :
    st'.Packed := by
  intro f hf
  rw [hfree] at hf
  rw [hhint]
  rcases hf with hold | hnew
  · have hle := hpacked f hold
    omega
  · have hstart : run.start.index ≤ f := hnew.1
    omega

/-- Step lemma: a single-frame operation returns, and keeps the ledger and its packing.  Runs of
    several frames do not: they can leave smaller gaps below the hint. -/
theorem Ledger.perform_single (p : Profile) {l : Ledger} {total : Set Nat} (h : l.Owns total)
    (hpacked : l.allocator.Packed) {op : FrameOp} (hop : op.Single) :
    ∃ l', Ledger.perform p op l = .ok () l' ∧ l'.Owns total ∧ l'.allocator.Packed := by
  rcases hop with rfl | ⟨i, rfl⟩
  · rcases Ledger.allocateOne_spec p h with
      ⟨hrun, _⟩ | ⟨run, st, hrun, howns, _, _, _, hkeeps⟩
    · exact ⟨l, run_bind_of_ok hrun, h, hpacked⟩
    · exact ⟨_, run_bind_of_ok hrun, howns, (hkeeps hpacked).1⟩
  · obtain ⟨l', hrun, howns⟩ := Ledger.free_spec p h i
    refine ⟨l', hrun, howns, ?_⟩
    rcases Ledger.free_cases p h i with ⟨_, hrun'⟩ | ⟨run, st, _, hrun', hfree, hhint⟩
    · rw [hrun] at hrun'
      cases hrun'
      exact hpacked
    · rw [hrun] at hrun'
      cases hrun'
      exact packed_of_free hfree hhint hpacked

/-- Run lemma: so does every single-frame workload. -/
theorem Ledger.perform_all_single (p : Profile) {l : Ledger} {total : Set Nat}
    (h : l.Owns total) (hpacked : l.allocator.Packed) {ops : List FrameOp}
    (hops : ∀ op ∈ ops, op.Single) :
    ∃ l', forM ops (Ledger.perform p) l = .ok () l' ∧ l'.Owns total ∧ l'.allocator.Packed :=
  forM_total (fun _ (l : Ledger) => l.Owns total ∧ l.allocator.Packed)
    (fun _ op _ hop hkept => Ledger.perform_single p hkept.1 hkept.2 (hops op hop)) ⟨h, hpacked⟩

/-- **Single-frame workloads are packed lowest-first**: after any sequence of `allocate_one` and
    `free` on a fresh, initialised allocator, the next `allocate_one` returns the lowest free
    frame, and it fails only when no frame is free. -/
theorem single_frames_lowest_first {p : Profile} {fuel : Nat} {image : KernelImage}
    {map : MemoryMap} {st : FrameBitmap}
    (h : FrameBitmap.init p fuel image map .new = .ok () st) (ops : List FrameOp)
    (hops : ∀ op ∈ ops, op.Single) :
    ∃ l, forM ops (Ledger.perform p) ⟨st, []⟩ = .ok () l ∧
      ((Ledger.allocateOne p l = .ok none l ∧ l.allocator.freeFrames = ∅) ∨
        ∃ run l', Ledger.allocateOne p l = .ok (some run) l' ∧ run.len.get = 1 ∧
          IsLeast l.allocator.freeFrames run.start.index) := by
  obtain ⟨l, hrun, howns, hpacked⟩ :=
    Ledger.perform_all_single p (owns_of_init (Nat.zero_le _) h) (packed_of_init h) hops
  refine ⟨l, hrun, ?_⟩
  rcases Memory.allocateOne_spec p howns.hint_le with ⟨hnone, hempty⟩ | ⟨f, st', hsome, htaken⟩
  · exact Or.inl ⟨Ledger.allocate_of_ok hnone, hempty⟩
  · exact Or.inr ⟨_, _, Ledger.allocate_of_ok hsome, rfl, htaken.isLeast hpacked⟩

/-- On `lowMap`, after two frames were taken and the first of them was freed again. -/
theorem single_frames_lowest_first_lowMap :
    ∃ st l, FrameBitmap.init .dev 2 LinkedLayout.smallest.image (.start lowMap) .new = .ok () st ∧
      forM [.allocateOne, .allocateOne, .free 1] (Ledger.perform .dev) ⟨st, []⟩ = .ok () l ∧
      ((Ledger.allocateOne .dev l = .ok none l ∧ l.allocator.freeFrames = ∅) ∨
        ∃ run l', Ledger.allocateOne .dev l = .ok (some run) l' ∧ run.len.get = 1 ∧
          IsLeast l.allocator.freeFrames run.start.index) := by
  obtain ⟨st, h⟩ := lowMap_returns .dev LinkedLayout.smallest.image
  obtain ⟨l, hrun, hnext⟩ := single_frames_lowest_first h [.allocateOne, .allocateOne, .free 1]
    (by simp [FrameOp.Single])
  exact ⟨st, l, h, hrun, hnext⟩

/-! ## Reserved memory -/

/-- A frame that is never issued: it is not free now, and no sequence of operations hands it
    out. -/
def NeverIssued (p : Profile) (st : FrameBitmap) (f : Nat) : Prop :=
  f ∉ st.freeFrames ∧ ∀ (ops : List FrameOp) l, forM ops (Ledger.perform p) ⟨st, []⟩ = .ok () l →
    ∀ run ∈ l.held, f ∉ run.frames

/-- Only the free frames of an initialised allocator are ever issued. -/
theorem neverIssued_iff {p : Profile} {st : FrameBitmap} (hhint : st.searchHint ≤ wordCount)
    {f : Nat} : NeverIssued p st f ↔ f ∉ st.freeFrames := by
  refine ⟨fun h => h.1, fun hf => ⟨hf, fun ops l hrun run hmem hrun' => hf ?_⟩⟩
  obtain ⟨l', hrun'', howns⟩ := Ledger.perform_all p (Ledger.owns_start hhint) ops
  rw [hrun''] at hrun
  cases hrun
  exact howns.held_subset hmem hrun'

/-- **Reserved memory**: the frames that meet a region of another kind are never issued exactly
    when they meet no publishable frame of an available region. -/
theorem reserved_never_issued_iff {p : Profile} {fuel : Nat} {k : KernelLayout} {buf : Slice}
    {st : FrameBitmap} (h : FrameBitmap.init p fuel k.image (.start buf) .new = .ok () st) :
    (∀ region, Yielded (MemoryMap.next p) (.start buf) region → region.kind ≠ .available →
      ∀ f, ¬ Disjoint (frameBytes f) region.bytes → NeverIssued p st f) ↔
    ∀ available region, Yielded (MemoryMap.next p) (.start buf) available →
      Yielded (MemoryMap.next p) (.start buf) region → available.kind = .available →
      available.base.toNat + available.length.toNat < 2 ^ 32 → region.kind ≠ .available →
      ∀ f ≠ 0, frameBytes f ⊆ available.bytes → Disjoint (frameBytes f) k.image.bytes →
        Disjoint (frameBytes f) region.bytes := by
  have hhint : st.searchHint ≤ wordCount := (owns_of_init (Nat.zero_le _) h).hint_le
  simp only [neverIssued_iff hhint]
  constructor
  · -- A frame shared by the two regions would be published.
    intro hnever available region hy hy' hkind hend hkind' f hne hsub himage
    by_contra hmeets
    refine hnever region hy' hkind' f hmeets ((mem_freeFrames_of_init h).mpr ?_)
    exact ⟨⟨available, hy, hkind, hend, hsub⟩, hne,
      not_mem_frames_of_disjoint k.image_bounds.1 himage⟩
  · intro hapart region hy hkind f hmeets hfree
    obtain ⟨⟨available, hy', hkind', hend, hsub⟩, hne, himage⟩ :=
      (mem_freeFrames_of_init h).mp hfree
    exact hmeets (hapart available region hy' hy hkind' hend hkind f hne hsub
      (disjoint_image_of_not_mem himage))

/-- Four available frames from `0x1000` on, and a reserved page at `base`. -/
def reservedMap (base : U64) : Slice :=
  ⟨encodeMap [.plain 0x1000 0x4000 1, .plain base 0x1000 2], by
    simp [encodeMap, EncodedEntry.length_bytes, EncodedEntry.plain]⟩

theorem reservedMap_yields (p : Profile) (base : U64) :
    ∃ map', Yields (MemoryMap.next p) (.start (reservedMap base))
      [⟨0x1000, 0x4000, .available⟩, ⟨base, 0x1000, .reserved 2⟩] map' := by
  obtain ⟨map', hyields, _⟩ := yields_encoded p (reservedMap base)
    [.plain 0x1000 0x4000 1, .plain base 0x1000 2] [] (by decide) [] (by simp [reservedMap])
  exact ⟨map', hyields⟩

theorem reservedMap_returns (p : Profile) (base : U64) (image : KernelImage) :
    ∃ st, FrameBitmap.init p 3 image (.start (reservedMap base)) .new = .ok () st := by
  obtain ⟨map', hyields⟩ := reservedMap_yields p base
  refine init_returns hyields ?_ (by simp) image .new
  simp only [List.forall_mem_cons, List.not_mem_nil, false_imp_iff, implies_true, and_true]
  constructor
  · rintro ⟨-, ⟨-, -, hreach⟩, -⟩
    exact absurd hreach (by decide)
  · rintro ⟨-, ⟨hkind, -, -⟩, -⟩
    cases hkind

/-- The frames 1 to 4 are published wherever the reserved page is. -/
theorem reservedMap_freeFrames {p : Profile} {base : U64} {st : FrameBitmap}
    (h : FrameBitmap.init p 3 LinkedLayout.smallest.image (.start (reservedMap base)) .new =
      .ok () st) : st.freeFrames = Set.Icc 1 4 := by
  obtain ⟨map', hyields⟩ := reservedMap_yields p base
  have hreserved : publishedFrames ⟨base, 0x1000, .reserved 2⟩ = ∅ :=
    publishedFrames_eq_empty (Or.inl fun hkind => by cases hkind)
  ext f
  rw [mem_freeFrames_of_init h, smallest_image_frames, Set.mem_Ico, Set.mem_Icc]
  simp only [← hyields.mem_iff, List.mem_cons, List.not_mem_nil, or_false, or_and_right, exists_or,
    exists_eq_left, mem_publishedFrames_low, hreserved, Set.mem_empty_iff_false]
  omega

/-- With the reserved page apart from the available region, its frame 9 is never issued. -/
theorem reserved_never_issued_apart :
    ∃ st, FrameBitmap.init .dev 3 LinkedLayout.smallest.image
        (.start (reservedMap 0x9000)) .new = .ok () st ∧ NeverIssued .dev st 9 := by
  obtain ⟨st, h⟩ := reservedMap_returns .dev 0x9000 LinkedLayout.smallest.image
  obtain ⟨map', hyields⟩ := reservedMap_yields .dev 0x9000
  refine ⟨st, h, (reserved_never_issued_iff (k := LinkedLayout.smallest.toKernelLayout) h).mpr ?_
    ⟨0x9000, 0x1000, .reserved 2⟩ (hyields.mem_iff.mp (by simp)) (by decide) 9 ?_⟩
  · simp only [← hyields.mem_iff, List.mem_cons, List.not_mem_nil, or_false]
    rintro _ _ (rfl | rfl) (rfl | rfl) hkind _ hkind' f _ hsub _
    · exact absurd rfl hkind'
    · rw [MemoryRegion.bytes, frameBytes_subset_Ico] at hsub
      rw [MemoryRegion.bytes, disjoint_frameBytes_Ico]
      simp only [BitVec.ofNat_eq_ofNat, BitVec.toNat_ofNat] at hsub ⊢
      omega
    · exact absurd rfl hkind'
    · cases hkind
  · rw [MemoryRegion.bytes, disjoint_frameBytes_Ico]
    decide

/-- With the reserved page inside the available region, its frame 2 is free and one
    allocation hands it out. -/
theorem reserved_issued_overlapping :
    ∃ st l run,
      FrameBitmap.init .dev 3 LinkedLayout.smallest.image
        (.start (reservedMap 0x2000)) .new = .ok () st ∧
      Yielded (MemoryMap.next .dev) (.start (reservedMap 0x2000)) ⟨0x2000, 0x1000, .reserved 2⟩ ∧
      ¬ Disjoint (frameBytes 2) (MemoryRegion.bytes ⟨0x2000, 0x1000, .reserved 2⟩) ∧
      2 ∈ st.freeFrames ∧
      forM [.allocate ⟨4, by decide, by decide⟩] (Ledger.perform .dev) ⟨st, []⟩ = .ok () l ∧
      run ∈ l.held ∧ 2 ∈ run.frames := by
  obtain ⟨st, h⟩ := reservedMap_returns .dev 0x2000 LinkedLayout.smallest.image
  obtain ⟨map', hyields⟩ := reservedMap_yields .dev 0x2000
  have hfree := reservedMap_freeFrames h
  have howns := owns_of_init (Nat.zero_le _) h
  have hregion : ¬ Disjoint (frameBytes 2) (MemoryRegion.bytes ⟨0x2000, 0x1000, .reserved 2⟩) := by
    rw [MemoryRegion.bytes, disjoint_frameBytes_Ico]
    decide
  rcases Ledger.allocate_spec .dev howns ⟨4, by decide, by decide⟩ with
    ⟨_, hnone⟩ | ⟨run, l, hrun, _, hheld, hlen, hwindow⟩
  · refine absurd (fun f hf => ?_) (hnone 1)
    rw [hfree]
    simp only [Set.mem_Ico, Set.mem_Icc] at hf ⊢
    omega
  · refine ⟨st, l, run, h, hyields.mem_iff.mp (by simp), hregion, by simp [hfree], ?_,
      by simp [hheld], ?_⟩
    · rw [List.forM_cons]
      exact run_bind_of_ok (run_bind_of_ok hrun)
    · -- The only window of four frames is the whole region.
      have hwindow : ∀ f, run.start.index ≤ f → f < run.start.index + 4 → 1 ≤ f ∧ f ≤ 4 := by
        intro f hlo hhi
        have := hwindow ⟨hlo, hhi⟩
        rwa [hfree] at this
      have hfirst := hwindow run.start.index le_rfl (by omega)
      have hlast := hwindow (run.start.index + 3) (by omega) (by omega)
      simp only [FrameRun.frames, hlen, Set.mem_Ico]
      omega

end Zkrnl32.Memory
