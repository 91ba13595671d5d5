import Zkrnl32.Memory.Frame.Allocate
import Zkrnl32.Memory.Frame.Init

/-!
# The Representation Invariant

The source states `search_hint <= WORD_COUNT` and never checks it.  The hint may equal
`WORD_COUNT`: a run that ends at the last frame leaves it there, and the next search then starts
past the bitmap.

- `BitmapOp`: the operations with arguments inside the bitmap; allocations take any count.
- `BitmapOp.perform_ends`: one operation keeps the invariant and has no fault.
- `hint_invariant`: so does every sequence of them, from a new allocator or from any state in
  which the invariant holds.
-/

namespace Zkrnl32.Memory

open Zkrnl32.Machine Zkrnl32.Utils

/-- An operation whose range, if it is given one, lies inside the bitmap. -/
inductive BitmapOp where
  | markFree (start : FrameNumber) (count : NonZeroUsize)
      (inside : start.index + count.get ≤ frameCount)
  | allocate (count : NonZeroUsize)
  | free (run : FrameRun) (inside : run.start.index + run.len.get ≤ frameCount)

def BitmapOp.perform (p : Profile) : BitmapOp → Exec FrameBitmap Unit
  | .markFree start count _ => Memory.markFree p start count
  | .allocate count => do let _ ← Memory.allocate p count
  | .free run _ => Memory.free p run

/-- The one panic that is not a fault: some frame of the run is free already. -/
def BitmapOp.DoubleFrees (op : BitmapOp) (st : FrameBitmap) : Prop :=
  match op with
  | .free run _ => ∃ f ∈ run.frames, f ∈ st.freeFrames
  | _ => False

/-- How an operation stops, if it does. -/
structure BitmapOp.Refused (op : BitmapOp) (st : FrameBitmap) (e : Stop) (st' : FrameBitmap) :
    Prop where
  double : op.DoubleFrees st
  reason : e = .panicked "double free of physical frames"
  unchanged : st' = st

/-- One operation: it returns with the invariant, or refuses a double free.  So it neither
    overflows nor leaves the bitmap nor fails a debug assertion. -/
theorem BitmapOp.perform_ends (p : Profile) (op : BitmapOp) {st : FrameBitmap}
    (hhint : st.searchHint ≤ wordCount) :
    Ends (op.perform p st) (fun _ st' => st'.searchHint ≤ wordCount) (op.Refused st) := by
  cases op with
  | markFree start count inside =>
    obtain ⟨st', hrun, _, hle⟩ := markFree_spec p inside st
    exact ends_of_ok hrun (hle.trans hhint)
  | allocate count =>
    rcases allocate_spec p count hhint with
      ⟨hrun, _⟩ | ⟨run, st', hrun, rfl, hwindow, _, hnew, _⟩
    · exact ends_of_ok (run_bind_of_ok hrun) hhint
    · refine ends_of_ok (run_bind_of_ok hrun) ?_
      -- A run that ends at the last frame moves the hint to `WORD_COUNT` itself.
      rw [hnew]
      exact div_le_wordCount (hwindow.le_frameCount run.len.pos)
  | free run inside =>
    by_cases hdisj : Disjoint st.freeFrames run.frames
    · obtain ⟨st', hrun, _, hnew⟩ := free_spec p inside hdisj
      refine ends_of_ok hrun ?_
      rw [hnew]
      exact (min_le_left ..).trans hhint
    · obtain ⟨f, hfree, hf⟩ := Set.not_disjoint_iff.mp hdisj
      exact ends_of_error (free_double p inside hdisj) ⟨⟨f, hf, hfree⟩, rfl, rfl⟩

/-- **The invariant holds always, and then nothing faults**: a new allocator has it; every
    operation inside the bitmap keeps it, and stops for no other reason than a double free, which
    changes nothing; and so it is after any sequence of operations. -/
theorem hint_invariant :
    FrameBitmap.new.searchHint ≤ wordCount ∧
    (∀ (p : Profile) (op : BitmapOp) (st : FrameBitmap), st.searchHint ≤ wordCount →
      Ends (op.perform p st) (fun _ st' => st'.searchHint ≤ wordCount) (op.Refused st)) ∧
    ∀ (p : Profile) (ops : List BitmapOp) (st : FrameBitmap), st.searchHint ≤ wordCount →
      Ends (forM ops (BitmapOp.perform p) st) (fun _ st' => st'.searchHint ≤ wordCount)
        fun e st' => e = .panicked "double free of physical frames" ∧
          st'.searchHint ≤ wordCount := by
  refine ⟨Nat.zero_le _, fun p op st => op.perform_ends p, fun p ops st hhint => ?_⟩
  refine forM_ends (fun _ (s : FrameBitmap) => s.searchHint ≤ wordCount) ?_ hhint
  intro _ op s _ hs
  refine (op.perform_ends p hs).mono (fun _ _ h => h) ?_
  rintro e st' ⟨_, hreason, rfl⟩
  exact ⟨hreason, hs⟩

end Zkrnl32.Memory
