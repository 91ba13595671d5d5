import Mathlib
import Zkrnl32.Memory.Frame

/-!
# The Bitmap as a Set of Frames

The abstraction of the allocator's bitmap: `freeFrames st` is the set of frames whose
bit is set.  The word-level loops are shown to be exact set operations on it.

- `wordMasks_yields`: the mask iterator ends and covers its range bit for bit.
- `setFree_spec`, `setOccupied_spec`: union and difference with an interval.
- `anyFreeIn_spec`, `isFree_spec`: membership tests.
-/

namespace Zkrnl32.Memory

open Zkrnl32.Machine Zkrnl32.Utils

/-! ## The abstraction -/

/-- The bit of a frame; frames past the bitmap count as occupied. -/
def FrameBitmap.freeBit (st : FrameBitmap) (frame : Nat) : Bool :=
  match st.bitmap[frame / wordBits]? with
  | some word => word.getLsbD (frame % wordBits)
  | none => false

/-- The set of free frames. -/
def FrameBitmap.freeFrames (st : FrameBitmap) : Set Nat := { f | st.freeBit f = true }

/-- The frames of a run. -/
def FrameRun.frames (run : FrameRun) : Set Nat :=
  Set.Ico run.start.index (run.start.index + run.len.get)

theorem mem_freeFrames {st : FrameBitmap} {f : Nat} :
    f ∈ st.freeFrames ↔ st.freeBit f = true := Iff.rfl

theorem freeBit_eq {st : FrameBitmap} {f : Nat} (hf : f / 32 < wordCount) :
    st.freeBit f = (st.bitmap[f / 32]).getLsbD (f % 32) := by
  unfold FrameBitmap.freeBit
  rw [wordBits_eq, Vector.getElem?_eq_getElem hf]

/-- The bitmap has a word for exactly the frames below `FRAME_COUNT`. -/
theorem div_lt_wordCount_iff {f : Nat} : f / 32 < wordCount ↔ f < frameCount := by
  rw [frameCount_eq, wordCount_eq]
  omega

/-- The word of a frame, or of the one past the last, is a valid hint. -/
theorem div_le_wordCount {f : Nat} (hf : f ≤ frameCount) : f / 32 ≤ wordCount := by
  rw [frameCount_eq] at hf
  rw [wordCount_eq]
  omega

theorem freeBit_of_ge {st : FrameBitmap} {f : Nat} (hf : frameCount ≤ f) :
    st.freeBit f = false := by
  have hword : ¬ f / 32 < wordCount := fun h => absurd (div_lt_wordCount_iff.mp h) (by omega)
  rw [FrameBitmap.freeBit, wordBits_eq, Vector.getElem?_eq_none (Nat.not_lt.mp hword)]

theorem lt_frameCount_of_free {st : FrameBitmap} {f : Nat} (h : f ∈ st.freeFrames) :
    f < frameCount := by
  by_contra hge
  rw [mem_freeFrames, freeBit_of_ge (Nat.not_lt.mp hge)] at h
  cases h

@[simp] theorem freeFrames_new : FrameBitmap.new.freeFrames = ∅ := by
  ext f
  rw [mem_freeFrames, FrameBitmap.freeBit, FrameBitmap.new]
  rw [Vector.getElem?_replicate]
  split
  · rename_i word heq
    have hzero : word = 0 := by
      split at heq
      · exact (Option.some.inj heq).symm
      · cases heq
    simp [hzero]
  · simp

/-! ## Words -/

theorem wordAt_run {i : Nat} (hi : i < wordCount) (st : FrameBitmap) :
    wordAt i st = .ok st.bitmap[i] st := by
  unfold wordAt
  rw [run_get_bind, Vector.getElem?_eq_getElem hi]
  rfl

theorem setWord_run {i : Nat} (hi : i < wordCount) (word : U32) (st : FrameBitmap) :
    setWord i word st = .ok () { st with bitmap := st.bitmap.set i word hi } := by
  unfold setWord
  rw [dif_pos hi]
  rfl

theorem updateWord_run (op : U32 → U32 → U32) {i : Nat} (hi : i < wordCount) (mask : U32)
    (st : FrameBitmap) :
    updateWord op (i, mask) st =
      .ok () { st with bitmap := st.bitmap.set i (op st.bitmap[i] mask) hi } := by
  unfold updateWord
  rw [run_bind_of_ok (wordAt_run hi st), setWord_run hi]

theorem testWord_run {i : Nat} (hi : i < wordCount) (mask : U32) (st : FrameBitmap) :
    testWord (i, mask) st = .ok (st.bitmap[i] &&& mask != 0) st := by
  unfold testWord
  rw [run_bind_of_ok (wordAt_run hi st), run_pure]

/-! ## The mask iterator -/

/-- `items` are consecutive words from `word` on, whose masks are exactly the frames
    `[start, start + len)`. -/
structure MaskItems (items : List (Nat × U32)) (word start len : Nat) : Prop where
  index : ∀ k (h : k < items.length), (items.get ⟨k, h⟩).1 = word + k
  bit : ∀ k (h : k < items.length), ∀ b < 32, (items.get ⟨k, h⟩).2.getLsbD b =
    decide (start ≤ 32 * (word + k) + b ∧ 32 * (word + k) + b < start + len)
  covers : 0 < len → start + len ≤ 32 * (word + items.length)
  used : 0 < items.length → 32 * (word + items.length) < start + len + 32

/-- From any counters inside the bitmap the iterator ends, and its items mask exactly the
    frames from the current bit on. -/
theorem wordMasks_yields (p : Profile) (word bit remaining : Nat) (hbit : bit < 32)
    (hbound : 32 * word + bit + remaining ≤ frameCount) :
    ∃ items it', Yields (WordMasks.next p) ⟨word, bit, remaining⟩ items it' ∧
      items.length ≤ remaining ∧ MaskItems items word (32 * word + bit) remaining := by
  rw [frameCount_eq] at hbound
  -- Each item takes at least one of the remaining frames.
  induction remaining using Nat.strong_induction_on generalizing word bit with
  | _ remaining ih =>
    by_cases hrem : remaining = 0
    · subst hrem
      refine ⟨[], _, .done (by rw [WordMasks.next, if_pos rfl]; rfl), le_rfl, ?_⟩
      exact ⟨by simp, by simp, by simp, by simp⟩
    obtain ⟨mask, hmask, hbits⟩ := clippedBitRangeMask_spec p remaining hbit
    have hnext : WordMasks.next p ⟨word, bit, remaining⟩ =
        .ok (some (word, mask), ⟨word + 1, 0, remaining - min remaining (32 - bit)⟩) := by
      rw [WordMasks.next, if_neg hrem, hmask, checked_ok_bind]
      simp only []
      rw [sub_eq_ok (by omega), checked_ok_bind, add_eq_ok (by omega), checked_ok_bind]
      rfl
    obtain ⟨items, it', hyields, hlen, hitems⟩ :=
      ih (remaining - min remaining (32 - bit)) (by omega) (word + 1) 0 (by omega) (by omega)
    refine ⟨(word, mask) :: items, it', .more hnext hyields, by simp; omega, ?_⟩
    -- A later item exists only when this word was taken to its end.
    constructor
    · intro k hk
      cases k with
      | zero => rfl
      | succ k =>
        have := hitems.index k (by simpa using hk)
        simp only [List.get_eq_getElem, List.getElem_cons_succ] at this ⊢
        omega
    · intro k hk b hb
      cases k with
      | zero =>
        simp only [List.get_eq_getElem, List.getElem_cons_zero, hbits b hb, decide_eq_decide]
        omega
      | succ k =>
        have hk' : k < items.length := by simpa using hk
        have := hitems.bit k hk' b hb
        simp only [List.get_eq_getElem, List.getElem_cons_succ] at this ⊢
        rw [this, decide_eq_decide]
        omega
    · intro _
      have hcov := hitems.covers
      simp only [List.length_cons]
      omega
    · intro _
      have hused := hitems.used
      simp only [List.length_cons]
      by_cases hempty : items.length = 0
      · omega
      · have := hused (by omega)
        omega

/-- The iterator as `word_masks(start, len)` builds it. -/
theorem wordMasks_start_yields (p : Profile) {start len : Nat}
    (hbound : start + len ≤ frameCount) :
    ∃ items it', Yields (WordMasks.next p) (wordMasks start len) items it' ∧
      items.length ≤ len ∧ MaskItems items (start / 32) start len := by
  have hsplit : 32 * (start / 32) + start % 32 = start := Nat.div_add_mod start 32
  have h := wordMasks_yields p (start / 32) (start % 32) len (by omega) (by omega)
  rwa [hsplit] at h

/-- Every word index of the masks is inside the bitmap. -/
theorem MaskItems.lt_wordCount {items : List (Nat × U32)} {word start len : Nat}
    (h : MaskItems items word start len) (hbound : start + len ≤ frameCount)
    {item : Nat × U32} (hmem : item ∈ items) : item.1 < wordCount := by
  obtain ⟨⟨k, hk⟩, rfl⟩ := List.mem_iff_get.mp hmem
  have hused := h.used (by omega)
  rw [h.index k hk]
  simp only [frameCount_eq, wordCount_eq] at hbound ⊢
  omega

theorem MaskItems.nodup {items : List (Nat × U32)} {word start len : Nat}
    (h : MaskItems items word start len) : (items.map Prod.fst).Nodup := by
  rw [List.nodup_iff_injective_get]
  rintro ⟨i, hi⟩ ⟨j, hj⟩ heq
  rw [List.length_map] at hi hj
  have hindex := h.index i hi
  have hindex' := h.index j hj
  simp only [List.get_eq_getElem, List.getElem_map] at heq hindex hindex'
  rw [Fin.mk.injEq]
  omega

/-- A frame is covered exactly when the mask of its word has its bit. -/
theorem MaskItems.exists_mem_iff {items : List (Nat × U32)} {start len : Nat}
    (h : MaskItems items (start / 32) start len) (f : Nat) :
    (start ≤ f ∧ f < start + len) ↔
      ∃ mask, (f / 32, mask) ∈ items ∧ mask.getLsbD (f % 32) = true := by
  constructor
  · -- The item of word `f / 32` is the one at distance `f / 32 - start / 32`.
    rintro ⟨hlo, hhi⟩
    have hcov := h.covers (by omega)
    have hk : f / 32 - start / 32 < items.length := by omega
    have hword : start / 32 + (f / 32 - start / 32) = f / 32 := by omega
    have hindex := h.index _ hk
    rw [hword] at hindex
    have hitem : (f / 32, (items.get ⟨_, hk⟩).2) = items.get ⟨_, hk⟩ := Prod.ext hindex.symm rfl
    refine ⟨(items.get ⟨_, hk⟩).2, ?_, ?_⟩
    · rw [hitem]
      exact List.get_mem ..
    · rw [h.bit _ hk _ (by omega), hword, decide_eq_true_eq]
      omega
  · rintro ⟨mask, hmem, hbit⟩
    obtain ⟨⟨k, hk⟩, hget⟩ := List.mem_iff_get.mp hmem
    have hindex := h.index k hk
    have hmask := h.bit k hk (f % 32) (by omega)
    rw [hget] at hindex hmask
    simp only [hbit] at hindex hmask
    have hin := of_decide_eq_true hmask.symm
    rw [← hindex] at hin
    omega

/-! ## Updating a range -/

/-- What the update loop does to the words: each listed word once, the others not. -/
theorem forM_updateWord (op : U32 → U32 → U32) (items : List (Nat × U32))
    (hnodup : (items.map Prod.fst).Nodup) (hlt : ∀ item ∈ items, item.1 < wordCount)
    (st : FrameBitmap) :
    ∃ st', forM items (updateWord op) st = .ok () st' ∧ st'.searchHint = st.searchHint ∧
      ∀ i (hi : i < wordCount),
        (∀ mask, (i, mask) ∈ items → st'.bitmap[i] = op st.bitmap[i] mask) ∧
        ((∀ mask, (i, mask) ∉ items) → st'.bitmap[i] = st.bitmap[i]) := by
  induction items generalizing st with
  | nil => exact ⟨st, rfl, rfl, fun i hi => ⟨by simp, fun _ => rfl⟩⟩
  | cons item items ih =>
    obtain ⟨w, m⟩ := item
    have hw : w < wordCount := hlt _ List.mem_cons_self
    rw [List.map_cons, List.nodup_cons] at hnodup
    obtain ⟨hfresh, hnodup⟩ := hnodup
    obtain ⟨st', hrun, hhint, hwords⟩ := ih hnodup
      (fun x hx => hlt x (List.mem_cons_of_mem _ hx))
      { st with bitmap := st.bitmap.set w (op st.bitmap[w] m) hw }
    refine ⟨st', ?_, hhint, fun i hi => ?_⟩
    · rw [List.forM_cons]
      exact (run_bind_of_ok (updateWord_run op hw m st)).trans hrun
    obtain ⟨hin, hout⟩ := hwords i hi
    -- Word indices are distinct, so the later items leave word `w` alone.
    have hnotin : ∀ mask, (w, mask) ∉ items := fun mask hmem =>
      hfresh (List.mem_map.mpr ⟨(w, mask), hmem, rfl⟩)
    by_cases hwi : w = i
    · subst hwi
      have hval := hout hnotin
      rw [Vector.getElem_set_self] at hval
      refine ⟨fun mask hmem => ?_, fun hnone => absurd List.mem_cons_self (hnone m)⟩
      rcases List.mem_cons.mp hmem with heq | htail
      · cases heq
        exact hval
      · exact absurd htail (hnotin mask)
    · rw [Vector.getElem_set_ne _ _ hwi] at hin hout
      refine ⟨fun mask hmem => hin mask ?_, fun hnone => hout fun mask hmem =>
        hnone mask (List.mem_cons_of_mem _ hmem)⟩
      rcases List.mem_cons.mp hmem with heq | htail
      · cases heq
        exact absurd rfl hwi
      · exact htail

/-- A word operation that writes `v` under the mask and keeps the rest writes `v` to
    exactly the frames `[start, start + len)`. -/
theorem updateWords_spec (p : Profile) (op : U32 → U32 → U32) (v : Bool)
    (hop : ∀ word mask b, b < 32 →
      (op word mask).getLsbD b = if mask.getLsbD b then v else word.getLsbD b)
    {start len : Nat} (hbound : start + len ≤ frameCount) (st : FrameBitmap) :
    ∃ st', updateWords p op ⟨start⟩ len st = .ok () st' ∧
      st'.searchHint = st.searchHint ∧
      ∀ f, st'.freeBit f = if start ≤ f ∧ f < start + len then v else st.freeBit f := by
  obtain ⟨items, it', hyields, hlen, hitems⟩ := wordMasks_start_yields p hbound
  obtain ⟨st', hrun, hhint, hwords⟩ :=
    forM_updateWord op items hitems.nodup (fun _ => hitems.lt_wordCount hbound) st
  refine ⟨st', ?_, hhint, fun f => ?_⟩
  · rw [updateWords, forEach_eq_forM hyields (Nat.lt_succ_of_le hlen)]
    exact hrun
  have hcover := hitems.exists_mem_iff f
  by_cases hf : f < frameCount
  · have hword := div_lt_wordCount_iff.mpr hf
    obtain ⟨hin, hout⟩ := hwords (f / 32) hword
    rw [freeBit_eq hword, freeBit_eq hword]
    by_cases hex : ∃ mask, (f / 32, mask) ∈ items
    · obtain ⟨mask, hmem⟩ := hex
      rw [hin mask hmem, hop _ _ _ (by omega)]
      -- The word occurs once, so its mask decides coverage.
      have hunique : ∀ mask', (f / 32, mask') ∈ items → mask' = mask := fun mask' hmem' =>
        congrArg Prod.snd (List.inj_on_of_nodup_map hitems.nodup hmem' hmem rfl)
      have hiff : (start ≤ f ∧ f < start + len) ↔ mask.getLsbD (f % 32) = true := by
        rw [hcover]
        refine ⟨?_, fun hb => ⟨mask, hmem, hb⟩⟩
        rintro ⟨mask', hmem', hb⟩
        rwa [← hunique mask' hmem']
      simp only [hiff]
    · have hnot : ¬ (start ≤ f ∧ f < start + len) := fun h =>
        hex ((hcover.mp h).imp fun _ h => h.1)
      rw [hout (fun mask hmem => hex ⟨mask, hmem⟩), if_neg hnot]
  · -- Past the bitmap nothing is free, before or after.
    rw [Nat.not_lt] at hf
    rw [if_neg (by omega), freeBit_of_ge hf, freeBit_of_ge hf]

/-- The operation of `set_free` writes `1` under the mask. -/
theorem getLsbD_or_mask (word mask : U32) (b : Nat) (_ : b < 32) :
    (word ||| mask).getLsbD b = if mask.getLsbD b then true else word.getLsbD b := by
  rw [BitVec.getLsbD_or]
  cases mask.getLsbD b <;> simp

/-- The operation of `set_occupied` writes `0` under the mask. -/
theorem getLsbD_and_not_mask (word mask : U32) (b : Nat) (hb : b < 32) :
    (word &&& ~~~mask).getLsbD b = if mask.getLsbD b then false else word.getLsbD b := by
  rw [BitVec.getLsbD_and, BitVec.getLsbD_not]
  cases mask.getLsbD b <;> simp [hb]

theorem setFree_spec (p : Profile) (start len : Nat) (hbound : start + len ≤ frameCount)
    (st : FrameBitmap) :
    ∃ st', setFree p ⟨start⟩ len st = .ok () st' ∧ st'.searchHint = st.searchHint ∧
      st'.freeFrames = st.freeFrames ∪ Set.Ico start (start + len) := by
  obtain ⟨st', hrun, hhint, hbits⟩ := updateWords_spec p _ true getLsbD_or_mask hbound st
  refine ⟨st', hrun, hhint, ?_⟩
  ext f
  rw [mem_freeFrames, hbits, Set.mem_union, mem_freeFrames, Set.mem_Ico]
  split <;> simp_all

theorem setOccupied_spec (p : Profile) (start len : Nat) (hbound : start + len ≤ frameCount)
    (st : FrameBitmap) :
    ∃ st', setOccupied p ⟨start⟩ len st = .ok () st' ∧ st'.searchHint = st.searchHint ∧
      st'.freeFrames = st.freeFrames \ Set.Ico start (start + len) := by
  obtain ⟨st', hrun, hhint, hbits⟩ := updateWords_spec p _ false getLsbD_and_not_mask hbound st
  refine ⟨st', hrun, hhint, ?_⟩
  ext f
  rw [mem_freeFrames, hbits, Set.mem_sdiff, mem_freeFrames, Set.mem_Ico]
  split <;> simp_all

/-! ## Testing frames -/

/-- A word is nonzero exactly when one of its bits is set. -/
theorem bne_zero_iff (x : U32) : (x != 0) = true ↔ ∃ b < 32, x.getLsbD b = true := by
  rw [bne_iff_ne, ne_eq, ← not_iff_not, not_not]
  constructor
  · rintro rfl ⟨b, _, hb⟩
    simp at hb
  · intro h
    apply BitVec.eq_of_getLsbD_eq
    intro b hb
    rw [BitVec.ofNat_eq_ofNat, BitVec.getLsbD_zero]
    exact Bool.eq_false_iff.mpr fun hbit => h ⟨b, hb, hbit⟩

/-- `1 << k` has the single bit `k`. -/
theorem getLsbD_one_shl {k b : Nat} (hb : b < 32) :
    ((1 : U32) <<< k).getLsbD b = decide (b = k) := by
  simp only [BitVec.getLsbD_shiftLeft, BitVec.ofNat_eq_ofNat, BitVec.getLsbD_one, ← decide_not,
    ← Bool.decide_and, decide_eq_decide]
  omega

theorem isFree_spec (p : Profile) {f : Nat} (hf : f < frameCount) (st : FrameBitmap) :
    isFree p f st = .ok (st.freeBit f) st := by
  have hword := div_lt_wordCount_iff.mpr hf
  unfold isFree
  rw [wordBits_eq, run_bind_of_ok (wordAt_run hword st), run_lift_bind (shl_eq_ok (by omega)),
    run_pure, freeBit_eq hword]
  congr 1
  rw [Bool.eq_iff_iff, bne_zero_iff]
  constructor
  · rintro ⟨b, hb, hbit⟩
    rw [BitVec.getLsbD_and, getLsbD_one_shl hb, Bool.and_eq_true, decide_eq_true_eq] at hbit
    exact hbit.2 ▸ hbit.1
  · intro hbit
    have hlt : f % 32 < 32 := Nat.mod_lt f (by decide)
    refine ⟨f % 32, hlt, ?_⟩
    rw [BitVec.getLsbD_and, getLsbD_one_shl hlt, hbit, decide_eq_true rfl, Bool.and_true]

theorem anyFreeIn_spec (p : Profile) {start len : Nat} (hbound : start + len ≤ frameCount)
    (st : FrameBitmap) :
    ∃ hit, anyFreeIn p start len st = .ok hit st ∧
      (hit = true ↔ ∃ f ∈ st.freeFrames, start ≤ f ∧ f < start + len) := by
  obtain ⟨items, it', hyields, hlen, hitems⟩ := wordMasks_start_yields p hbound
  have htest : ∀ item ∈ items,
      testWord item st = .ok (st.bitmap[item.1]?.getD 0 &&& item.2 != 0) st := by
    intro item hmem
    have hword := hitems.lt_wordCount hbound hmem
    rw [Vector.getElem?_eq_getElem hword, Option.getD_some]
    exact testWord_run hword item.2 st
  refine ⟨_, anyOf_eq_any hyields htest (Nat.lt_succ_of_le hlen), ?_⟩
  rw [List.any_eq_true]
  -- A nonzero `word & mask` is a free frame that the mask covers, and conversely.
  constructor
  · rintro ⟨⟨w, mask⟩, hmem, hne⟩
    have hword := hitems.lt_wordCount hbound hmem
    rw [Vector.getElem?_eq_getElem hword, Option.getD_some] at hne
    obtain ⟨b, hb, hbit⟩ := (bne_zero_iff _).mp hne
    rw [BitVec.getLsbD_and, Bool.and_eq_true] at hbit
    have hdiv : (32 * w + b) / 32 = w := by omega
    have hmod : (32 * w + b) % 32 = b := by omega
    refine ⟨32 * w + b, ?_, (hitems.exists_mem_iff _).mpr ⟨mask, ?_, ?_⟩⟩
    · rw [mem_freeFrames, FrameBitmap.freeBit, wordBits_eq, hdiv, hmod,
        Vector.getElem?_eq_getElem hword]
      exact hbit.1
    · rwa [hdiv]
    · rw [hmod]
      exact hbit.2
  · rintro ⟨f, hfree, hrange⟩
    obtain ⟨mask, hmem, hbit⟩ := (hitems.exists_mem_iff f).mp hrange
    have hword := hitems.lt_wordCount hbound hmem
    rw [mem_freeFrames, freeBit_eq hword] at hfree
    refine ⟨(f / 32, mask), hmem, ?_⟩
    rw [Vector.getElem?_eq_getElem hword, Option.getD_some, bne_zero_iff]
    exact ⟨f % 32, by omega, by rw [BitVec.getLsbD_and, hfree, hbit]; rfl⟩

end Zkrnl32.Memory
