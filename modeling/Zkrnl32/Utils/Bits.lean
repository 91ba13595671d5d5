import Zkrnl32.Machine.Exec
import Zkrnl32.Machine.Bytes

/-!
# Bit Masks

Model of `src/utils/bits.rs`: a contiguous mask clipped to one 32-bit bitmap word.
-/

namespace Zkrnl32.Utils

open Zkrnl32.Machine

/-- `WORD_BITS`: bits of one bitmap word. -/
def wordBits : Nat := 32

@[simp] theorem wordBits_eq : wordBits = 32 := rfl

/-- The mask of `len` bits from `startBit`, clipped to the word, and the number of bits
    it represents. -/
def clippedBitRangeMask (p : Profile) (startBit len : Nat) : Checked (U32 × Nat) := do
  debugAssert p (startBit < wordBits)
  let room ← sub p 32 wordBits startBit
  let take := min len room
  if take = 0 then
    return (0, 0)
  let endBit ← add p 32 startBit take
  let unused ← sub p 32 wordBits endBit
  let high ← shl p (BitVec.allOnes 32) startBit
  let low ← shr p (BitVec.allOnes 32) unused
  return (high &&& low, take)

/-- For a start inside the word the mask is exact and nothing overflows: bit `b` is set
    exactly when it lies in `[startBit, startBit + len)`. -/
theorem clippedBitRangeMask_spec (p : Profile) {startBit : Nat} (len : Nat)
    (hstart : startBit < 32) :
    ∃ mask, clippedBitRangeMask p startBit len = .ok (mask, min len (32 - startBit)) ∧
      ∀ b < 32, mask.getLsbD b = decide (startBit ≤ b ∧ b < startBit + len) := by
  unfold clippedBitRangeMask
  rw [debugAssert_eq_ok (by simpa using hstart), checked_ok_bind, wordBits_eq,
    sub_eq_ok (by omega), checked_ok_bind]
  by_cases htake : min len (32 - startBit) = 0
  · refine ⟨0, by simp [htake, pure, Except.pure], fun b hb => ?_⟩
    have hempty : ¬ (startBit ≤ b ∧ b < startBit + len) := by omega
    simp [hempty]
  · simp only [htake, if_false]
    rw [add_eq_ok (by omega), checked_ok_bind, sub_eq_ok (by omega), checked_ok_bind,
      shl_eq_ok hstart, checked_ok_bind, shr_eq_ok (by omega), checked_ok_bind]
    refine ⟨_, rfl, fun b hb => ?_⟩
    simp only [BitVec.getLsbD_and, BitVec.getLsbD_shiftLeft, BitVec.getLsbD_ushiftRight,
      BitVec.getLsbD_allOnes]
    simp only [← decide_not, ← Bool.decide_and, decide_eq_decide]
    omega

end Zkrnl32.Utils
