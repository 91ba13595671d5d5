import Zkrnl32.Machine.Loop
import Zkrnl32.Machine.Bytes

/-!
# Volatile Access

Model of `src/volatile.rs`: element-wise volatile copies between ranges that may overlap.

- `Bus`: a byte memory together with the log of the accesses made to it.
- `copy`: the source's two loops; the backward one runs exactly when the destination starts
  inside the source.
- `MovedTo`: the bytes of an interval of the destination have arrived.  Both loops keep it, the
  forward loop from the bottom up and the backward loop from the top down.
- `copy_memmove`: hence `copy` is `memmove`, for every overlap.
-/

namespace Zkrnl32.Volatile

open Zkrnl32.Machine

/-! ## The bus -/

/-- One access: the address of its first byte and the number of bytes. -/
structure Access where
  addr : Nat
  size : Nat
  deriving DecidableEq, Repr

/-- The memory behind volatile pointers, with the accesses made so far, the latest first. -/
structure Bus where
  mem : Memory
  accesses : List Access

/-- `ptr.read_volatile()` of an element of `size` bytes. -/
def readVolatile (addr size : Nat) : Exec Bus (List U8) := do
  let bus ← get
  modify fun bus => { bus with accesses := ⟨addr, size⟩ :: bus.accesses }
  return bus.mem.load addr size

/-- `ptr.write_volatile(..)` of an element with the given bytes. -/
def writeVolatile (addr : Nat) (bytes : List U8) : Exec Bus Unit :=
  modify fun bus =>
    { mem := bus.mem.store addr bytes, accesses := ⟨addr, bytes.length⟩ :: bus.accesses }

/-- `ptr.add(i)` of a pointer to elements of `size` bytes. -/
def ptrAdd (p : Profile) (size addr i : Nat) : Checked Nat := do
  let offset ← mul p 32 i size
  add p 32 addr offset

/-! ## The copy -/

/-- The body of both loops of `copy`. -/
def copyElement (p : Profile) (size src dst i : Nat) : Exec Bus Unit := do
  let source ← ptrAdd p size src i
  let tmp ← readVolatile source size
  let target ← ptrAdd p size dst i
  writeVolatile target tmp

/-- Copies `count` elements of `size` bytes from `src` to `dst`. -/
def copy (p : Profile) (size src dst count : Nat) : Exec Bus Unit := do
  let byteCount ← mul p 32 count size
  -- `&&` evaluates the end of the source only when the first test holds
  let backward ← if src < dst then do
      let past ← add p 32 src byteCount
      pure (decide (dst < past))
    else pure false
  if backward then
    forM (List.range count).reverse (copyElement p size src dst)
  else
    forM (List.range count) (copyElement p size src dst)

/-! ## One element -/

theorem ptrAdd_eq_ok {p : Profile} {size addr i : Nat} (h : addr + i * size < 2 ^ 32) :
    ptrAdd p size addr i = .ok (addr + i * size) := by
  unfold ptrAdd
  rw [mul_eq_ok (by omega), checked_ok_bind, add_eq_ok h]

theorem copyElement_eq_ok {p : Profile} {size src dst i : Nat}
    (hsrc : src + i * size < 2 ^ 32) (hdst : dst + i * size < 2 ^ 32) (bus : Bus) :
    copyElement p size src dst i bus = .ok ()
      { mem := bus.mem.store (dst + i * size) (bus.mem.load (src + i * size) size)
        accesses := ⟨dst + i * size, size⟩ :: ⟨src + i * size, size⟩ :: bus.accesses } := by
  unfold copyElement readVolatile writeVolatile
  rw [ptrAdd_eq_ok hsrc, ptrAdd_eq_ok hdst]
  simp [run_bind]

/-! ## Intervals of the destination -/

/-- `mem'` is `mem` with the bytes `[lo, hi)` of the destination copied from the source. -/
def MovedTo (mem mem' : Memory) (src dst lo hi : Nat) : Prop :=
  ∀ x, mem' x = if dst + lo ≤ x ∧ x < dst + hi then mem (src + (x - dst)) else mem x

theorem movedTo_empty (mem : Memory) (src dst n : Nat) : MovedTo mem mem src dst n n := by
  intro x
  rw [if_neg (by omega)]

/-- Copying one more piece, at `a` and next to the interval, when the interval covers no byte of
    that piece of the source. -/
theorem MovedTo.step {mem mem' : Memory} {src dst lo hi a size : Nat}
    (h : MovedTo mem mem' src dst lo hi) (hnext : a + size = lo ∨ a = hi)
    (hunread : src + a + size ≤ dst + lo ∨ dst + hi ≤ src + a) :
    MovedTo mem (mem'.store (dst + a) (mem'.load (src + a) size)) src dst
      (min lo a) (max hi (a + size)) := by
  intro x
  rw [Memory.store_load_apply]
  by_cases hpiece : dst + a ≤ x ∧ x < dst + a + size
  · -- The source bytes of the new piece are not among the bytes written so far.
    rw [if_pos hpiece, if_pos (by omega), h, if_neg (by omega)]
    congr 1
    omega
  · rw [if_neg hpiece, h]
    by_cases hold : dst + lo ≤ x ∧ x < dst + hi
    · rw [if_pos hold, if_pos (by omega)]
    · rw [if_neg hold, if_neg (by omega)]

/-! ## The two loops -/

/-- The access lies in the `n` bytes from `base` on. -/
def Access.Inside (a : Access) (base n : Nat) : Prop := base ≤ a.addr ∧ a.addr + a.size ≤ base + n

/-- `bus'` is `bus` after a part of a copy of `n` bytes: the interval `[lo, hi)` has arrived, and
    every new access lies in the source or in the destination. -/
structure Copying (bus bus' : Bus) (src dst n lo hi : Nat) : Prop where
  moved : MovedTo bus.mem bus'.mem src dst lo hi
  logged : ∀ a ∈ bus'.accesses, a ∈ bus.accesses ∨ a.Inside src n ∨ a.Inside dst n

section Loops

variable {p : Profile} {size src dst count : Nat} {bus : Bus}

theorem copying_start (bus : Bus) (src dst n k : Nat) : Copying bus bus src dst n k k where
  moved := movedTo_empty bus.mem src dst k
  logged := fun _ ha => Or.inl ha

theorem element_le (size : Nat) {i count : Nat} (hi : i < count) :
    i * size + size ≤ count * size := by
  rw [← Nat.succ_mul]
  exact Nat.mul_le_mul_right size hi

/-- A byte of the interval, by its offset. -/
theorem Copying.arrived {bus' : Bus} {n lo hi i : Nat} (h : Copying bus bus' src dst n lo hi)
    (hlo : lo ≤ i) (hhi : i < hi) : bus'.mem (dst + i) = bus.mem (src + i) := by
  rw [h.moved, if_pos (by omega), Nat.add_sub_cancel_left]

/-- Step lemma of both loops: element `i` arrives, when it is next to the interval and its source
    has not been written. -/
theorem Copying.element {bus' : Bus} {lo hi i : Nat}
    (h : Copying bus bus' src dst (count * size) lo hi) (hsize : 1 ≤ size)
    (hsrc : src + count * size ≤ 2 ^ 32) (hdst : dst + count * size ≤ 2 ^ 32) (hi' : i < count)
    (hnext : i * size + size = lo ∨ i * size = hi)
    (hunread : src + i * size + size ≤ dst + lo ∨ dst + hi ≤ src + i * size) :
    Ends (copyElement p size src dst i bus')
      (fun _ bus'' => Copying bus bus'' src dst (count * size) (min lo (i * size))
        (max hi (i * size + size))) fun _ _ => False := by
  have hlast := element_le size hi'
  refine ends_of_ok (copyElement_eq_ok (by omega) (by omega) bus') ⟨?_, ?_⟩
  · exact h.moved.step hnext hunread
  · intro a ha
    simp only [List.mem_cons] at ha
    rcases ha with rfl | rfl | hold
    · exact Or.inr (Or.inr ⟨by simp only []; omega, by simp only []; omega⟩)
    · exact Or.inr (Or.inl ⟨by simp only []; omega, by simp only []; omega⟩)
    · exact h.logged a hold

/-- The forward loop, when the destination does not start inside the source. -/
theorem forward_copies (hsize : 1 ≤ size) (hsrc : src + count * size ≤ 2 ^ 32)
    (hdst : dst + count * size ≤ 2 ^ 32) (hdir : dst ≤ src ∨ src + count * size ≤ dst) :
    Ends (forM (List.range count) (copyElement p size src dst) bus)
      (fun _ bus' => Copying bus bus' src dst (count * size) 0 (count * size))
      fun _ _ => False := by
  refine forM_range_ends (fun i bus' => Copying bus bus' src dst (count * size) 0 (i * size)) ?_
    (by simpa using copying_start bus src dst (count * size) 0)
  intro i hi bus' h
  have hlast := element_le size hi
  refine (h.element hsize hsrc hdst hi (Or.inr rfl) (by omega)).mono ?_
    fun _ _ hstop => hstop
  intro _ bus'' h'
  rw [Nat.zero_min, Nat.max_eq_right (by omega), ← Nat.succ_mul] at h'
  exact h'

/-- The backward loop, when the destination starts above the source. -/
theorem backward_copies (hsize : 1 ≤ size) (hsrc : src + count * size ≤ 2 ^ 32)
    (hdst : dst + count * size ≤ 2 ^ 32) (hdir : src ≤ dst) :
    Ends (forM (List.range count).reverse (copyElement p size src dst) bus)
      (fun _ bus' => Copying bus bus' src dst (count * size) 0 (count * size))
      fun _ _ => False := by
  suffices Ends (forM (List.range count).reverse (copyElement p size src dst) bus)
      (fun _ bus' => Copying bus bus' src dst (count * size) (0 * size) (count * size))
      fun _ _ => False by rwa [Nat.zero_mul] at this
  refine forM_range_reverse_ends
    (fun i bus' => Copying bus bus' src dst (count * size) (i * size) (count * size)) ?_
    (copying_start bus src dst (count * size) (count * size))
  intro i hi bus' h
  have hlast := element_le size hi
  rw [Nat.succ_mul] at h
  refine (h.element hsize hsrc hdst hi (Or.inl rfl) (by omega)).mono ?_
    fun _ _ hstop => hstop
  intro _ bus'' h'
  rw [Nat.min_eq_right (by omega), Nat.max_eq_left hlast] at h'
  exact h'

end Loops

/-! ## The whole copy -/

/-- The test of `copy`: its sum is evaluated only when it does not overflow, and it selects the
    backward loop exactly when the destination starts inside the source. -/
theorem copy_eq_loop {p : Profile} {size src dst count : Nat}
    (hdst : dst + count * size ≤ 2 ^ 32) (hbytes : count * size < 2 ^ 32) (bus : Bus) :
    copy p size src dst count bus =
      if src < dst ∧ dst < src + count * size then
        forM (List.range count).reverse (copyElement p size src dst) bus
      else forM (List.range count) (copyElement p size src dst) bus := by
  unfold copy
  rw [run_lift_bind (mul_eq_ok hbytes)]
  by_cases hlt : src < dst
  · simp only [hlt, if_true, true_and]
    rw [run_lift_bind (add_eq_ok (by omega)), pure_bind]
    by_cases hpast : dst < src + count * size
    · simp [hpast]
    · simp [hpast]
  · simp [hlt]

/-- Without an overflow of the byte count, `copy` returns with every byte moved. -/
theorem copy_returns {p : Profile} {size src dst count : Nat} (hsize : 1 ≤ size)
    (hsrc : src + count * size ≤ 2 ^ 32) (hdst : dst + count * size ≤ 2 ^ 32)
    (hbytes : count * size < 2 ^ 32) (bus : Bus) :
    ∃ bus', copy p size src dst count bus = .ok () bus' ∧
      Copying bus bus' src dst (count * size) 0 (count * size) := by
  suffices Ends (copy p size src dst count bus)
      (fun _ bus' => Copying bus bus' src dst (count * size) 0 (count * size))
      fun _ _ => False by
    obtain ⟨_, bus', hrun, hcopied⟩ := this.exists_ok
    exact ⟨bus', hrun, hcopied⟩
  rw [copy_eq_loop hdst hbytes]
  split
  next hinside => exact backward_copies hsize hsrc hdst hinside.1.le
  next hout => exact forward_copies hsize hsrc hdst (by omega)

/-- A copy of the whole address space onto itself: its byte count overflows.  A trap comes before
    any access, and a wrapped count selects the forward loop. -/
theorem copy_whole {p : Profile} {size count : Nat} (hsize : 1 ≤ size)
    (hbytes : count * size = 2 ^ 32) (bus : Bus) :
    (p = .dev ∧ copy p size 0 0 count bus = .error .overflow bus) ∨
    ∃ bus', copy p size 0 0 count bus = .ok () bus' ∧
      Copying bus bus' 0 0 (count * size) 0 (count * size) := by
  cases p with
  | dev =>
    refine Or.inl ⟨rfl, ?_⟩
    unfold copy
    have hmul : mul .dev 32 count size = .error .overflow := by
      unfold mul
      rw [if_neg (by omega)]
      rfl
    rw [hmul]
    exact run_bind_of_error (run_lift_error _ bus)
  | release =>
    have hloop : copy .release size 0 0 count bus =
        forM (List.range count) (copyElement .release size 0 0) bus := by
      unfold copy
      have hmul : mul .release 32 count size = .ok 0 := by
        unfold mul
        rw [if_neg (by omega), hbytes]
        rfl
      rw [run_lift_bind hmul]
      rfl
    have hends : Ends (forM (List.range count) (copyElement .release size 0 0) bus)
        (fun _ bus' => Copying bus bus' 0 0 (count * size) 0 (count * size)) fun _ _ => False :=
      forward_copies hsize (by omega) (by omega) (Or.inl le_rfl)
    obtain ⟨_, bus', hrun, hcopied⟩ := hends.exists_ok
    exact Or.inr ⟨bus', hloop.trans hrun, hcopied⟩

/-- **`copy` is `memmove`**: for valid ranges, overlapping in any way, the destination ends up with
    the bytes the source held before and no other byte changes; and unless the byte count itself
    is `2 ^ 32`, no address computation overflows. -/
theorem copy_memmove (p : Profile) {size count src dst : Nat} (hsize : 1 ≤ size)
    (hsrc : src + count * size ≤ 2 ^ 32) (hdst : dst + count * size ≤ 2 ^ 32) (bus : Bus) :
    ∃ bus', (copy p size src dst count bus = .ok () bus' ∨
        count * size = 2 ^ 32 ∧ p = .dev ∧
          copy p size src dst count bus = .error .overflow bus') ∧
      (∀ i < count * size, bus'.mem (dst + i) = bus.mem (src + i)) ∧
      ∀ x, ¬ (dst ≤ x ∧ x < dst + count * size) → bus'.mem x = bus.mem x := by
  have hmemmove : ∀ bus', Copying bus bus' src dst (count * size) 0 (count * size) →
      (∀ i < count * size, bus'.mem (dst + i) = bus.mem (src + i)) ∧
      ∀ x, ¬ (dst ≤ x ∧ x < dst + count * size) → bus'.mem x = bus.mem x := by
    intro bus' h
    constructor
    · exact fun i hi => h.arrived (Nat.zero_le i) hi
    · intro x hx
      rw [h.moved, if_neg (by omega)]
  by_cases hbytes : count * size < 2 ^ 32
  · obtain ⟨bus', hrun, hcopied⟩ := copy_returns (p := p) hsize hsrc hdst hbytes bus
    exact ⟨bus', Or.inl hrun, hmemmove bus' hcopied⟩
  · -- The ranges can only be the whole address space.
    obtain rfl : src = 0 := by omega
    obtain rfl : dst = 0 := by omega
    have hwhole : count * size = 2 ^ 32 := by omega
    rcases copy_whole (p := p) hsize hwhole bus with ⟨hp, herr⟩ | ⟨bus', hrun, hcopied⟩
    · exact ⟨bus, Or.inr ⟨hwhole, hp, herr⟩, fun _ _ => rfl, fun _ _ => rfl⟩
    · exact ⟨bus', Or.inl hrun, hmemmove bus' hcopied⟩

/-- Three two-byte elements moved up by one byte, in a memory that holds its own addresses. -/
theorem copy_memmove_shift :
    ∃ bus', copy .dev 2 0x10 0x11 3 ⟨fun x => BitVec.ofNat 8 x, []⟩ = .ok () bus' ∧
      bus'.mem 0x11 = 0x10 ∧ bus'.mem 0x16 = 0x15 ∧ bus'.mem 0x17 = 0x17 := by
  have hsize : 1 ≤ 2 := by decide
  have hsrc : 0x10 + 3 * 2 ≤ 2 ^ 32 := by decide
  have hdst : 0x11 + 3 * 2 ≤ 2 ^ 32 := by decide
  obtain ⟨bus', hrun, hin, hout⟩ :=
    copy_memmove .dev hsize hsrc hdst ⟨fun x => BitVec.ofNat 8 x, []⟩
  rcases hrun with hrun | ⟨hbytes, _⟩
  · exact ⟨bus', hrun, hin 0 (by decide), hin 5 (by decide), hout 0x17 (by decide)⟩
  · exact absurd hbytes (by decide)

end Zkrnl32.Volatile
