import Zkrnl32.Memory.Frame.Bitmap

/-!
# Allocating and Freeing Runs

One spec lemma per operation, on the abstraction `freeFrames`.

- `scanForRun_spec`: the scan finds the first window at or above its origin, or there
  is none.
- `allocate_spec`: the hinted search first, then the full one.
- `free_spec`, `free_double`: the two outcomes of `free`.
- `allocate_exact`, `free_all_or_nothing`: the same two operations bit by bit.
-/

namespace Zkrnl32.Memory

open Zkrnl32.Machine Zkrnl32.Utils

/-! ## Windows -/

/-- `count` consecutive free frames from `s` on. -/
def FrameBitmap.Window (st : FrameBitmap) (count s : Nat) : Prop :=
  Set.Ico s (s + count) ⊆ st.freeFrames

/-- `r` is the first window of `count` frames at or above `start`, if there is one. -/
def FrameBitmap.FirstWindow (st : FrameBitmap) (count start : Nat) (r : Option Nat) : Prop :=
  match r with
  | some s => start ≤ s ∧ st.Window count s ∧ ∀ s', start ≤ s' → s' < s → ¬ st.Window count s'
  | none => ∀ s', start ≤ s' → ¬ st.Window count s'

/-- A non-empty window ends inside the bitmap. -/
theorem FrameBitmap.Window.le_frameCount {st : FrameBitmap} {count s : Nat}
    (h : st.Window count s) (hcount : 0 < count) : s + count ≤ frameCount := by
  have hlast : s + count - 1 ∈ st.freeFrames := h ⟨by omega, by omega⟩
  have := lt_frameCount_of_free hlast
  omega

/-! ## Scanning -/

/-- What `scan_for_run` knows when it stands at `frame`, having started at `start`: the
    current run is free, shorter than wanted, and no window starts before it. -/
structure ScanInv (st : FrameBitmap) (count start frame runStart runLen : Nat) : Prop where
  start_le : start + runLen ≤ frame
  short : runLen < count
  runStart_eq : runLen ≠ 0 → runStart = frame - runLen
  run_free : Set.Ico (frame - runLen) frame ⊆ st.freeFrames
  none_before : ∀ s', start ≤ s' → s' < frame - runLen → ¬ st.Window count s'

/-- At an occupied frame the run is reset: every window that starts by `frame` would have
    to contain it. -/
theorem ScanInv.reset {st : FrameBitmap} {count start frame runStart runLen : Nat}
    (h : ScanInv st count start frame runStart runLen) (hocc : frame ∉ st.freeFrames) :
    ScanInv st count start (frame + 1) runStart 0 where
  start_le := by
    have := h.start_le
    omega
  short := by
    have := h.short
    omega
  runStart_eq := by simp
  run_free := by simp
  none_before := by
    intro s' hs' hlt hwin
    by_cases hbefore : s' < frame - runLen
    · exact h.none_before s' hs' hbefore hwin
    · have := h.short
      have := h.start_le
      exact hocc (hwin ⟨by omega, by omega⟩)

/-- At a free frame the run grows by one. -/
theorem ScanInv.extend {st : FrameBitmap} {count start frame runStart runLen : Nat}
    (h : ScanInv st count start frame runStart runLen) (hfree : frame ∈ st.freeFrames) :
    Set.Ico (frame - runLen) (frame + 1) ⊆ st.freeFrames := by
  rintro x ⟨hlo, hhi⟩
  by_cases hx : x = frame
  · exact hx ▸ hfree
  · exact h.run_free ⟨hlo, by omega⟩

theorem ScanInv.grow {st : FrameBitmap} {count start frame runStart runLen : Nat}
    (h : ScanInv st count start frame runStart runLen) (hfree : frame ∈ st.freeFrames)
    (hshort : runLen + 1 < count) :
    ScanInv st count start (frame + 1) (frame - runLen) (runLen + 1) := by
  have hle := h.start_le
  have hsame : frame + 1 - (runLen + 1) = frame - runLen := by omega
  exact
    { start_le := by omega
      short := hshort
      runStart_eq := fun _ => hsame.symm
      run_free := by
        rw [hsame]
        exact h.extend hfree
      none_before := by
        rw [hsame]
        exact h.none_before }

/-- The scan loop returns the first window at or above `start`. -/
theorem scanLoop_spec (p : Profile) {st : FrameBitmap} {count start : Nat}
    (hcount : count < 2 ^ 32) :
    ∀ remaining frame runStart runLen, frame + remaining = frameCount →
      ScanInv st count start frame runStart runLen →
      ∃ r, scanLoop p count remaining frame runStart runLen st = .ok r st ∧
        st.FirstWindow count start r := by
  intro remaining
  induction remaining with
  | zero =>
    intro frame runStart runLen hend hinv
    refine ⟨none, rfl, fun s' hs' hwin => ?_⟩
    -- A window would have to start before the current run, which is too short.
    have hshort := hinv.short
    have hle := hinv.start_le
    have hfits := hwin.le_frameCount (by omega)
    exact hinv.none_before s' hs' (by omega) hwin
  | succ remaining ih =>
    intro frame runStart runLen hend hinv
    have hframe : frame < frameCount := by omega
    have hshort := hinv.short
    have hle := hinv.start_le
    rw [scanLoop, run_bind_of_ok (isFree_spec p hframe st)]
    cases hbit : st.freeBit frame with
    | false =>
      have hocc : frame ∉ st.freeFrames := by
        rw [mem_freeFrames, hbit]
        exact Bool.false_ne_true
      exact ih (frame + 1) runStart 0 (by omega) (hinv.reset hocc)
    | true =>
      -- A run that begins here and one that goes on both start at `frame - runLen`.
      have hstart : (if runLen = 0 then frame else runStart) = frame - runLen := by
        split
        · omega
        · exact hinv.runStart_eq (by assumption)
      simp only [Bool.not_true, Bool.false_eq_true, if_false, hstart]
      rw [run_lift_bind (add_eq_ok (by omega))]
      by_cases hdone : runLen + 1 = count
      · -- The run is as long as wanted: its start is the answer.
        simp only [hdone, if_true]
        refine ⟨some (frame - runLen), rfl, by omega, ?_, hinv.none_before⟩
        rw [FrameBitmap.Window, show frame - runLen + count = frame + 1 by omega]
        exact hinv.extend hbit
      · simp only [hdone, if_false]
        exact ih (frame + 1) (frame - runLen) (runLen + 1) (by omega)
          (hinv.grow hbit (by omega))

theorem scanForRun_spec (p : Profile) (st : FrameBitmap) {count start : Nat} (hpos : 0 < count)
    (hcount : count < 2 ^ 32) (hstart : start ≤ frameCount) :
    ∃ r, scanForRun p start count st = .ok r st ∧ st.FirstWindow count start r :=
  scanLoop_spec p hcount (frameCount - start) start 0 0 (by omega)
    { start_le := le_rfl
      short := hpos
      runStart_eq := by simp
      run_free := by simp
      none_before := fun s' hs' hlt => absurd hlt (by omega) }

/-- The choice of `find_free_run`: the first window from the hint on, else the first one
    of all. -/
theorem findFreeRun_spec (p : Profile) {st : FrameBitmap} {count : Nat} (hpos : 0 < count)
    (hcount : count < 2 ^ 32) (hhint : st.searchHint ≤ wordCount) :
    ∃ r, findFreeRun p count st = .ok r st ∧
      (r ≠ none ∧ st.FirstWindow count (32 * st.searchHint) r ∨
        st.FirstWindow count (32 * st.searchHint) none ∧ st.FirstWindow count 0 r) := by
  have hsmall : st.searchHint * 32 ≤ frameCount := by
    simp only [wordCount_eq, frameCount_eq] at hhint ⊢
    omega
  have hmul : st.searchHint * 32 < 2 ^ 32 := by
    simp only [frameCount_eq] at hsmall
    omega
  obtain ⟨r, hrun, hfirst⟩ := scanForRun_spec p st hpos hcount hsmall
  rw [Nat.mul_comm] at hfirst
  unfold findFreeRun
  rw [run_get_bind, wordBits_eq, run_lift_bind (mul_eq_ok hmul), run_bind_of_ok hrun]
  cases r with
  | some s => exact ⟨some s, rfl, Or.inl ⟨by simp, hfirst⟩⟩
  | none =>
    obtain ⟨r, hrun', hfirst'⟩ := scanForRun_spec p st hpos hcount (Nat.zero_le _)
    exact ⟨r, hrun', Or.inr ⟨hfirst, hfirst'⟩⟩

/-! ## Allocating -/

/-- A run inside the bitmap passes the checks of `FrameRun::new`. -/
theorem FrameRun.new_eq_ok (p : Profile) {s : Nat} {count : NonZeroUsize}
    (hfits : s + count.get ≤ frameCount) : FrameRun.new p s count = .ok ⟨⟨s⟩, count⟩ := by
  have hpos := count.pos
  unfold FrameRun.new
  rw [debugAssert_eq_ok (by omega), checked_ok_bind, debugAssert_eq_ok (by omega),
    checked_ok_bind]
  rfl

/-- Everything `allocate` can do from a state with a valid hint: it does not stop, and
    either there is no window and nothing changes, or exactly the chosen window turns
    occupied. -/
theorem allocate_spec (p : Profile) {st : FrameBitmap} (count : NonZeroUsize)
    (hhint : st.searchHint ≤ wordCount) :
    (allocate p count st = .ok none st ∧ ∀ s, ¬ st.Window count.get s) ∨
    ∃ run st', allocate p count st = .ok (some run) st' ∧ run.len = count ∧
      st.Window count.get run.start.index ∧
      st'.freeFrames = st.freeFrames \ run.frames ∧
      st'.searchHint = (run.start.index + count.get) / 32 ∧
      (st.FirstWindow count.get (32 * st.searchHint) (some run.start.index) ∨
        st.FirstWindow count.get (32 * st.searchHint) none ∧
          st.FirstWindow count.get 0 (some run.start.index)) := by
  have hpos := count.pos
  unfold allocate
  -- The early return: more frames than there are.
  by_cases hbig : frameCount < count.get
  · left
    simp only [hbig, if_true]
    refine ⟨rfl, fun s hwin => ?_⟩
    have := hwin.le_frameCount hpos
    omega
  obtain ⟨r, hfind, hchoice⟩ := findFreeRun_spec p hpos count.lt hhint
  simp only [hbig, if_false]
  rw [run_bind_of_ok hfind]
  cases r with
  | none =>
    left
    refine ⟨rfl, fun s => ?_⟩
    rcases hchoice with ⟨hne, _⟩ | ⟨_, hnone⟩
    · exact absurd rfl hne
    · exact hnone s (Nat.zero_le s)
  | some s =>
    right
    have hwin : st.Window count.get s := by
      rcases hchoice with ⟨_, h⟩ | ⟨_, h⟩
      · exact h.2.1
      · exact h.2.1
    have hfits := hwin.le_frameCount hpos
    obtain ⟨st₁, hset, _, hfree⟩ := setOccupied_spec p s count.get hfits st
    have hbound : s + count.get < 2 ^ 32 := by
      simp only [frameCount_eq] at hfits
      omega
    refine ⟨⟨⟨s⟩, count⟩, { st₁ with searchHint := (s + count.get) / 32 }, ?_, rfl, hwin,
      hfree, rfl, ?_⟩
    · simp only []
      rw [run_bind_of_ok hset, run_lift_bind (add_eq_ok hbound), run_modify_bind,
        run_lift_bind (FrameRun.new_eq_ok p hfits)]
      rfl
    · rcases hchoice with ⟨_, h⟩ | h
      · exact Or.inl h
      · exact Or.inr h

/-- Taking a run out of the free set, bit by bit. -/
theorem freeBit_of_sdiff {st st' : FrameBitmap} {run : FrameRun}
    (hfree : st'.freeFrames = st.freeFrames \ run.frames) (f : Nat) :
    (f ∈ run.frames → st'.freeBit f = false) ∧
      (f ∉ run.frames → st'.freeBit f = st.freeBit f) := by
  have hiff : st'.freeBit f = true ↔ st.freeBit f = true ∧ f ∉ run.frames := by
    rw [← mem_freeFrames, hfree]
    rfl
  refine ⟨fun hf => Bool.eq_false_iff.mpr fun hbit => (hiff.mp hbit).2 hf, fun hf => ?_⟩
  rw [Bool.eq_iff_iff, hiff]
  exact and_iff_left hf

/-- **`allocate` is complete and its choice is exact**: it never stops; it returns `None`, and
    changes nothing, exactly when no window of `count` free frames exists; otherwise it returns
    the first window from the hinted word on, or the first one of all when none lies there, and
    occupies exactly its frames. -/
theorem allocate_exact (p : Profile) (st : FrameBitmap) (hhint : st.searchHint ≤ wordCount)
    (count : NonZeroUsize) :
    ∃ r st', allocate p count st = .ok r st' ∧
      (r = none ↔ ∀ s, ¬ st.Window count.get s) ∧
      (r = none → st' = st) ∧
      ∀ run, r = some run → run.len = count ∧
        (st.FirstWindow count.get (32 * st.searchHint) (some run.start.index) ∨
          st.FirstWindow count.get (32 * st.searchHint) none ∧
            st.FirstWindow count.get 0 (some run.start.index)) ∧
        (∀ f ∈ run.frames, st.freeBit f = true ∧ st'.freeBit f = false) ∧
        ∀ f ∉ run.frames, st'.freeBit f = st.freeBit f := by
  rcases allocate_spec p count hhint with
    ⟨hrun, hnone⟩ | ⟨run, st', hrun, hlen, hwindow, hfree, _, hchoice⟩
  · refine ⟨none, st, hrun, ⟨fun _ => hnone, fun _ => rfl⟩, fun _ => rfl, ?_⟩
    intro run hsome
    cases hsome
  · refine ⟨some run, st', hrun, ⟨nofun, fun h => absurd hwindow (h _)⟩, nofun, ?_⟩
    intro run' hsome
    cases hsome
    have hsub : run.frames ⊆ st.freeFrames := by
      rw [FrameRun.frames, hlen]
      exact hwindow
    exact ⟨hlen, hchoice, fun f hf => ⟨hsub hf, (freeBit_of_sdiff hfree f).1 hf⟩,
      fun f hf => (freeBit_of_sdiff hfree f).2 hf⟩

/-- A bitmap whose only free frames are 3 and 4 has one window of two frames. -/
theorem allocate_exact_pair :
    ∃ st run st', st.freeFrames = Set.Ico 3 5 ∧
      allocate .dev ⟨2, by decide, by decide⟩ st = .ok (some run) st' ∧
      run.start.index = 3 ∧ st'.freeBit 3 = false := by
  obtain ⟨st, _, hhint, hfree⟩ := setFree_spec .dev 3 2 (by decide) .new
  rw [freeFrames_new, Set.empty_union] at hfree
  have hword : st.searchHint ≤ wordCount := by
    rw [hhint]
    exact Nat.zero_le _
  obtain ⟨r, st', hrun, hnone, _, hsome⟩ := allocate_exact .dev st hword ⟨2, by decide, by decide⟩
  have hwindow : st.Window 2 3 := hfree.symm.subset
  cases r with
  | none => exact absurd hwindow (hnone.mp rfl 3)
  | some run =>
    obtain ⟨hlen, _, hbits, _⟩ := hsome run rfl
    -- Both frames of the run are free, and they are neighbours.
    have hmem : ∀ f ∈ run.frames, f = 3 ∨ f = 4 := by
      intro f hf
      have hin : f ∈ st.freeFrames := (hbits f hf).1
      rw [hfree, Set.mem_Ico] at hin
      omega
    simp only [FrameRun.frames, hlen, Set.mem_Ico] at hmem hbits
    have hfirst := hmem run.start.index (by omega)
    have hlast := hmem (run.start.index + 1) (by omega)
    exact ⟨st, run, st', hfree, hrun, by omega, (hbits 3 (by omega)).2⟩

/-! ## Freeing -/

/-- Freeing a run none of whose frames is free frees exactly its frames. -/
theorem free_spec (p : Profile) {st : FrameBitmap} {run : FrameRun}
    (hbound : run.start.index + run.len.get ≤ frameCount)
    (hocc : Disjoint st.freeFrames run.frames) :
    ∃ st', free p run st = .ok () st' ∧ st'.freeFrames = st.freeFrames ∪ run.frames ∧
      st'.searchHint = min st.searchHint (run.start.index / 32) := by
  obtain ⟨hit, hany, hiff⟩ := anyFreeIn_spec p hbound st
  have hmiss : hit = false := by
    rw [Bool.eq_false_iff, ne_eq, hiff]
    rintro ⟨f, hf, hrange⟩
    exact Set.disjoint_left.mp hocc hf hrange
  subst hmiss
  obtain ⟨st₁, hset, hhint, hfree⟩ := setFree_spec p _ _ hbound st
  refine ⟨{ st₁ with searchHint := min st₁.searchHint (run.start.index / 32) }, ?_, hfree,
    by rw [hhint]⟩
  unfold free
  rw [run_bind_of_ok hany]
  simp only [Bool.false_eq_true, if_false]
  rw [run_bind_of_ok hset]
  rfl

/-- A run with a free frame is a double free, detected before any bit changes. -/
theorem free_double (p : Profile) {st : FrameBitmap} {run : FrameRun}
    (hbound : run.start.index + run.len.get ≤ frameCount)
    (hfree : ¬ Disjoint st.freeFrames run.frames) :
    free p run st = .error (.panicked "double free of physical frames") st := by
  obtain ⟨hit, hany, hiff⟩ := anyFreeIn_spec p hbound st
  have hhit : hit = true := by
    rw [hiff]
    obtain ⟨f, hf, hrange⟩ := Set.not_disjoint_iff.mp hfree
    exact ⟨f, hf, hrange⟩
  subst hhit
  unfold free
  rw [run_bind_of_ok hany]
  rfl

/-- Putting a run into the free set, bit by bit. -/
theorem freeBit_of_union {st st' : FrameBitmap} {run : FrameRun}
    (hfree : st'.freeFrames = st.freeFrames ∪ run.frames) (f : Nat) :
    (f ∈ run.frames → st'.freeBit f = true) ∧
      (f ∉ run.frames → st'.freeBit f = st.freeBit f) := by
  have hiff : st'.freeBit f = true ↔ st.freeBit f = true ∨ f ∈ run.frames := by
    rw [← mem_freeFrames, hfree]
    rfl
  refine ⟨fun hf => hiff.mpr (Or.inr hf), fun hf => ?_⟩
  rw [Bool.eq_iff_iff, hiff]
  exact or_iff_left hf

/-- **`free` is all or nothing**: for a run inside the bitmap, whoever issued it, it panics
    exactly when one of the frames is free, and then nothing has changed; otherwise exactly the
    frames of the run turn free and the hint is pulled back to its first word. -/
theorem free_all_or_nothing (p : Profile) (st : FrameBitmap) (run : FrameRun)
    (hbound : run.start.index + run.len.get ≤ frameCount) :
    ((∃ e st', free p run st = .error e st') ↔ ∃ f ∈ run.frames, st.freeBit f = true) ∧
    (∀ e st', free p run st = .error e st' →
      e = .panicked "double free of physical frames" ∧ st' = st) ∧
    ∀ st', free p run st = .ok () st' →
      (∀ f ∈ run.frames, st'.freeBit f = true) ∧
      (∀ f ∉ run.frames, st'.freeBit f = st.freeBit f) ∧
      st'.searchHint = min st.searchHint (run.start.index / 32) := by
  by_cases hdisj : Disjoint st.freeFrames run.frames
  · obtain ⟨st', hrun, hfree, hhint⟩ := free_spec p hbound hdisj
    rw [hrun]
    refine ⟨⟨nofun, ?_⟩, nofun, ?_⟩
    · rintro ⟨f, hf, hbit⟩
      exact absurd hf (Set.disjoint_left.mp hdisj hbit)
    · rintro _ ⟨⟩
      exact ⟨fun f => (freeBit_of_union hfree f).1, fun f => (freeBit_of_union hfree f).2, hhint⟩
  · rw [free_double p hbound hdisj]
    obtain ⟨f, hbit, hf⟩ := Set.not_disjoint_iff.mp hdisj
    refine ⟨⟨fun _ => ⟨f, hf, hbit⟩, fun _ => ⟨_, _, rfl⟩⟩, ?_, nofun⟩
    rintro _ _ ⟨⟩
    exact ⟨rfl, rfl⟩

/-- Frames 5 and 6 of a fresh bitmap: the first `free` frees them, the second one panics. -/
theorem free_all_or_nothing_twice :
    ∃ st, free .dev ⟨⟨5⟩, ⟨2, by decide, by decide⟩⟩ .new = .ok () st ∧ st.freeBit 6 = true ∧
      free .dev ⟨⟨5⟩, ⟨2, by decide, by decide⟩⟩ st =
        .error (.panicked "double free of physical frames") st := by
  have hfirst := free_all_or_nothing .dev .new ⟨⟨5⟩, ⟨2, by decide, by decide⟩⟩ (by decide)
  cases hrun : free .dev ⟨⟨5⟩, ⟨2, by decide, by decide⟩⟩ .new with
  | error e st =>
    -- Nothing is free in a fresh bitmap.
    obtain ⟨f, _, hbit⟩ := hfirst.1.mp ⟨e, st, hrun⟩
    have hmem : f ∈ FrameBitmap.new.freeFrames := hbit
    simp at hmem
  | ok _ st =>
    obtain ⟨hbits, _⟩ := hfirst.2.2 st hrun
    have hsecond := free_all_or_nothing .dev st ⟨⟨5⟩, ⟨2, by decide, by decide⟩⟩ (by decide)
    obtain ⟨e, st', herr⟩ := hsecond.1.mpr ⟨5, ⟨le_rfl, by decide⟩, hbits 5 ⟨le_rfl, by decide⟩⟩
    obtain ⟨rfl, rfl⟩ := hsecond.2.1 e st' herr
    exact ⟨st', rfl, hbits 6 ⟨by decide, by decide⟩, herr⟩

end Zkrnl32.Memory
