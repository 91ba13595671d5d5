import Zkrnl32.Memory.Frame.Bitmap

/-!
# The Word Loops Frame by Frame

The allocator handles a range of frames a word at a time.  Here the same range is handled a frame
at a time, and the two are shown to do the same on every bitmap.

- `setFreeEach`, `setOccupiedEach`, `anyFreeEach`: the loops over single frames.
- `FrameBitmap.ext_freeBit`: a bitmap is no more than the bits of its frames.
- `MaskItems.unique`, `MaskItems.countP_bit`: what the mask iterator yields is determined by its
  range, and has every bit of it once.
- `wordMasks_eq_perFrame`: the loops agree.
-/

namespace Zkrnl32.Memory

open Zkrnl32.Machine Zkrnl32.Utils

/-! ## The loops over single frames -/

/-- Applies `op` to the word of `frame`, with a mask of its bit alone. -/
def updateFrame (p : Profile) (op : U32 → U32 → U32) (frame : Nat) : Exec FrameBitmap Unit := do
  let bit ← shl p (1 : U32) (frame % wordBits)
  updateWord op (frame / wordBits, bit)

def updateFrames (p : Profile) (op : U32 → U32 → U32) (start len : Nat) :
    Exec FrameBitmap Unit :=
  forM (List.range' start len) (updateFrame p op)

/-- Sets the bit of each frame of `[start, start + len)`. -/
def setFreeEach (p : Profile) (start len : Nat) : Exec FrameBitmap Unit :=
  updateFrames p (fun word mask => word ||| mask) start len

/-- Clears the bit of each frame of `[start, start + len)`. -/
def setOccupiedEach (p : Profile) (start len : Nat) : Exec FrameBitmap Unit :=
  updateFrames p (fun word mask => word &&& ~~~mask) start len

/-- Tests the frames of `[start, start + len)` until one is free. -/
def anyFreeEach (p : Profile) (start len : Nat) : Exec FrameBitmap Bool :=
  (List.range' start len).anyM (isFree p)

/-! ## Bitmaps by their bits -/

theorem FrameBitmap.ext_freeBit {st st' : FrameBitmap} (hhint : st.searchHint = st'.searchHint)
    (hbits : ∀ f, st.freeBit f = st'.freeBit f) : st = st' := by
  have hwords : st.bitmap = st'.bitmap := by
    apply Vector.ext
    intro i hi
    apply BitVec.eq_of_getLsbD_eq
    intro b hb
    have hdiv : (32 * i + b) / 32 = i := by omega
    have hmod : (32 * i + b) % 32 = b := by omega
    have hbit := hbits (32 * i + b)
    simpa only [FrameBitmap.freeBit, wordBits_eq, hdiv, hmod, Vector.getElem?_eq_getElem hi]
      using hbit
  obtain ⟨words, hint⟩ := st
  obtain ⟨words', hint'⟩ := st'
  exact congrArg₂ FrameBitmap.mk hwords hhint

section Update

-- A word operation that writes `v` under the mask and keeps the rest.
variable (p : Profile) (op : U32 → U32 → U32) (v : Bool)
  (hop : ∀ word mask b, b < 32 →
    (op word mask).getLsbD b = if mask.getLsbD b then v else word.getLsbD b)

include hop

/-- The update of one frame writes `v` to it alone. -/
theorem updateFrame_spec {frame : Nat} (hframe : frame < frameCount) (st : FrameBitmap) :
    ∃ st', updateFrame p op frame st = .ok () st' ∧ st'.searchHint = st.searchHint ∧
      ∀ f, st'.freeBit f = if f = frame then v else st.freeBit f := by
  have hword := div_lt_wordCount_iff.mpr hframe
  have hrun : updateFrame p op frame st = .ok () { st with
      bitmap := st.bitmap.set (frame / 32)
        (op st.bitmap[frame / 32] ((1 : U32) <<< (frame % 32))) } := by
    unfold updateFrame
    rw [wordBits_eq, run_lift_bind (shl_eq_ok (Nat.mod_lt frame (by decide))),
      updateWord_run op hword]
  refine ⟨_, hrun, rfl, fun f => ?_⟩
  by_cases hf : f < frameCount
  · have hword' := div_lt_wordCount_iff.mpr hf
    rw [freeBit_eq hword', freeBit_eq hword', Vector.getElem_set]
    split
    next heq =>
      -- In the word of the frame, the mask has only the bit of the frame.
      have hlt : f % 32 < 32 := Nat.mod_lt f (by decide)
      have hsame : f % 32 = frame % 32 ↔ f = frame := by omega
      simp only [hop _ _ _ hlt, getLsbD_one_shl hlt, decide_eq_true_eq, hsame, heq]
    next hne => rw [if_neg (by omega)]
  · rw [if_neg (by omega), freeBit_of_ge (Nat.not_lt.mp hf), freeBit_of_ge (Nat.not_lt.mp hf)]

/-- The loop over single frames writes `v` to exactly the frames of its range. -/
theorem updateFrames_spec {start len : Nat} (hbound : start + len ≤ frameCount) (st : FrameBitmap) :
    ∃ st', updateFrames p op start len st = .ok () st' ∧ st'.searchHint = st.searchHint ∧
      ∀ f, st'.freeBit f = if start ≤ f ∧ f < start + len then v else st.freeBit f := by
  -- Invariant: the frames behind the loop have been written, the others not.
  have hloop : ∃ st', updateFrames p op start len st = .ok () st' ∧
      st'.searchHint = st.searchHint ∧
      ∀ f, st'.freeBit f = if f ∈ List.range' start len then v else st.freeBit f := by
    refine forM_total (fun done (s : FrameBitmap) => s.searchHint = st.searchHint ∧
      ∀ f, s.freeBit f = if f ∈ done then v else st.freeBit f) ?_ ⟨rfl, by simp⟩
    rintro done frame s hmem ⟨hhint, hbits⟩
    rw [List.mem_range'_1] at hmem
    obtain ⟨s', hrun, hhint', hbits'⟩ :=
      updateFrame_spec p op v hop (Nat.lt_of_lt_of_le hmem.2 hbound) s
    refine ⟨s', hrun, hhint'.trans hhint, fun f => ?_⟩
    rw [hbits', hbits]
    simp only [List.mem_append, List.mem_singleton]
    split <;> simp_all
  simpa only [List.mem_range'_1] using hloop

/-- Word by word and frame by frame, an update ends in the same bitmap. -/
theorem updateWords_eq_updateFrames {start len : Nat} (hbound : start + len ≤ frameCount)
    (st : FrameBitmap) :
    updateWords p op ⟨start⟩ len st = updateFrames p op start len st := by
  obtain ⟨st₁, hrun₁, hhint₁, hbits₁⟩ := updateWords_spec p op v hop hbound st
  obtain ⟨st₂, hrun₂, hhint₂, hbits₂⟩ := updateFrames_spec p op v hop hbound st
  rw [hrun₁, hrun₂, FrameBitmap.ext_freeBit (hhint₁.trans hhint₂.symm)
    fun f => (hbits₁ f).trans (hbits₂ f).symm]

end Update

theorem anyFreeEach_run (p : Profile) {start len : Nat} (hbound : start + len ≤ frameCount)
    (st : FrameBitmap) :
    anyFreeEach p start len st = .ok ((List.range' start len).any st.freeBit) st := by
  unfold anyFreeEach
  induction len generalizing start with
  | zero => rfl
  | succ len ih =>
    rw [List.range'_succ, List.anyM_cons, run_bind_of_ok (isFree_spec p (by omega) st),
      List.any_cons]
    -- A free frame ends both; otherwise the rest of the range decides.
    cases st.freeBit start with
    | true => rfl
    | false => exact ih (by omega)

theorem anyFreeIn_eq_anyFreeEach (p : Profile) {start len : Nat}
    (hbound : start + len ≤ frameCount) (st : FrameBitmap) :
    anyFreeIn p start len st = anyFreeEach p start len st := by
  obtain ⟨hit, hrun, hhit⟩ := anyFreeIn_spec p hbound st
  have hany : hit = (List.range' start len).any st.freeBit := by
    rw [Bool.eq_iff_iff, hhit, List.any_eq_true]
    simp only [List.mem_range'_1, mem_freeFrames]
    exact exists_congr fun f => and_comm
  rw [hrun, anyFreeEach_run p hbound, hany]

/-! ## What the iterator yields -/

section MaskItems

variable {items items' : List (Nat × U32)} {start len : Nat}

theorem MaskItems.length_le (h : MaskItems items (start / 32) start len)
    (h' : MaskItems items' (start / 32) start len) (hlen : 0 < len) :
    items.length ≤ items'.length := by
  have hcovers := h'.covers hlen
  by_cases hempty : items.length = 0
  · omega
  · have hused := h.used (by omega)
    omega

/-- The range determines the items. -/
theorem MaskItems.unique (h : MaskItems items (start / 32) start len)
    (h' : MaskItems items' (start / 32) start len) (hle : items.length ≤ len)
    (hle' : items'.length ≤ len) : items = items' := by
  have hlength : items.length = items'.length := by
    by_cases hlen : len = 0
    · omega
    · exact Nat.le_antisymm (h.length_le h' (by omega)) (h'.length_le h (by omega))
  apply List.ext_get hlength
  intro k hk hk'
  apply Prod.ext
  · rw [h.index k hk, h'.index k hk']
  · apply BitVec.eq_of_getLsbD_eq
    intro b hb
    rw [h.bit k hk b hb, h'.bit k hk' b hb]

theorem MaskItems.map_fst {word : Nat} (h : MaskItems items word start len) :
    items.map Prod.fst = List.range' word items.length := by
  apply List.ext_getElem (by simp)
  intro k hk hk'
  rw [List.length_map] at hk
  rw [List.getElem_map, List.getElem_range', Nat.one_mul]
  exact h.index k hk

/-- Every bit of the range is in one mask, every other bit in none. -/
theorem MaskItems.countP_bit (h : MaskItems items (start / 32) start len) {w b : Nat}
    (hb : b < 32) :
    items.countP (fun item => item.1 == w && item.2.getLsbD b) =
      if start ≤ 32 * w + b ∧ 32 * w + b < start + len then 1 else 0 := by
  have hdiv : (32 * w + b) / 32 = w := by omega
  have hmod : (32 * w + b) % 32 = b := by omega
  have hcover := h.exists_mem_iff (32 * w + b)
  rw [hdiv, hmod] at hcover
  -- The indices are distinct, so no two items have word `w`.
  have hle : items.countP (fun item => item.1 == w && item.2.getLsbD b) ≤ 1 := by
    calc items.countP (fun item => item.1 == w && item.2.getLsbD b)
        ≤ items.countP (fun item => item.1 == w) :=
          List.countP_mono_left fun item _ hitem => (Bool.and_eq_true _ _ ▸ hitem).1
      _ = (items.map Prod.fst).count w := by rw [List.count, List.countP_map]; rfl
      _ ≤ 1 := List.nodup_iff_count_le_one.mp h.nodup w
  split
  next hin =>
    obtain ⟨mask, hmem, hbit⟩ := hcover.mp hin
    have hpos : 0 < items.countP (fun item => item.1 == w && item.2.getLsbD b) :=
      List.countP_pos_iff.mpr ⟨(w, mask), hmem, by simp [hbit]⟩
    omega
  next hout =>
    rw [List.countP_eq_zero]
    rintro ⟨w', mask⟩ hmem hitem
    rw [Bool.and_eq_true, beq_iff_eq] at hitem
    obtain ⟨rfl, hbit⟩ := hitem
    exact hout (hcover.mpr ⟨mask, hmem, hbit⟩)

end MaskItems

/-! ## The walks agree -/

/-- **A walk by words is the walk by frames**: for a range inside the bitmap, `word_masks` ends
    and yields, in both profiles, the same consecutive words of the bitmap, whose masks have each
    bit of the range once and no other bit.  On every bitmap the word loops do what the loops over
    single frames do, and afterwards `is_free` tells the range from the rest. -/
theorem wordMasks_eq_perFrame {start len : Nat} (hbound : start + len ≤ frameCount) :
    (∃ items, (∀ p, ∃ it', Yields (WordMasks.next p) (wordMasks start len) items it') ∧
      items.map Prod.fst = List.range' (start / 32) items.length ∧
      (∀ item ∈ items, item.1 < wordCount) ∧
      ∀ w b, b < 32 → items.countP (fun item => item.1 == w && item.2.getLsbD b) =
        if start ≤ 32 * w + b ∧ 32 * w + b < start + len then 1 else 0) ∧
    ∀ (p : Profile) (st : FrameBitmap),
      anyFreeIn p start len st = anyFreeEach p start len st ∧
      setFree p ⟨start⟩ len st = setFreeEach p start len st ∧
      (∃ st', setFree p ⟨start⟩ len st = .ok () st' ∧ ∀ f < frameCount, ∃ b,
        isFree p f st = .ok b st ∧
        isFree p f st' = .ok (b || decide (start ≤ f ∧ f < start + len)) st') ∧
      setOccupied p ⟨start⟩ len st = setOccupiedEach p start len st ∧
      ∃ st', setOccupied p ⟨start⟩ len st = .ok () st' ∧ ∀ f < frameCount, ∃ b,
        isFree p f st = .ok b st ∧
        isFree p f st' = .ok (b && !decide (start ≤ f ∧ f < start + len)) st' := by
  constructor
  · obtain ⟨items, it', hyields, hlen, hitems⟩ := wordMasks_start_yields .dev hbound
    refine ⟨items, fun p => ?_, hitems.map_fst, fun _ => hitems.lt_wordCount hbound,
      fun w b => hitems.countP_bit⟩
    obtain ⟨items', it'', hyields', hlen', hitems'⟩ := wordMasks_start_yields p hbound
    exact ⟨it'', hitems'.unique hitems hlen' hlen ▸ hyields'⟩
  · intro p st
    refine ⟨anyFreeIn_eq_anyFreeEach p hbound st,
      updateWords_eq_updateFrames p _ true getLsbD_or_mask hbound st, ?_,
      updateWords_eq_updateFrames p _ false getLsbD_and_not_mask hbound st, ?_⟩
    · obtain ⟨st', hrun, -, hbits⟩ := updateWords_spec p _ true getLsbD_or_mask hbound st
      refine ⟨st', hrun, fun f hf => ⟨_, isFree_spec p hf st, ?_⟩⟩
      rw [isFree_spec p hf st', hbits]
      split <;> simp [*]
    · obtain ⟨st', hrun, -, hbits⟩ := updateWords_spec p _ false getLsbD_and_not_mask hbound st
      refine ⟨st', hrun, fun f hf => ⟨_, isFree_spec p hf st, ?_⟩⟩
      rw [isFree_spec p hf st', hbits]
      split <;> simp [*]

/-- A range that starts and ends inside words, with a full word between. -/
theorem wordMasks_eq_perFrame_threeWords :
    5 + 70 ≤ frameCount ∧ ∀ st, setFree .dev ⟨5⟩ 70 st = setFreeEach .dev 5 70 st := by
  have hbound : 5 + 70 ≤ frameCount := by decide
  exact ⟨hbound, fun st => ((wordMasks_eq_perFrame hbound).2 .dev st).2.1⟩

end Zkrnl32.Memory
