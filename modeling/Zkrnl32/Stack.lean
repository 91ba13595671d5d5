import Zkrnl32.Machine.Format
import Zkrnl32.Memory.Paging.Translate
import Zkrnl32.Volatile

/-!
# The Stack Dump

Model of `src/stack.rs`: the dump of stack words that the panic handler prints.  It is called with
whatever `esp` holds, so every start address and every count has to be harmless.

- `dumpStackFrom`: the source, with every address computation checked, over the memory it reads
  and the text it prints.
- `dumpStackFrom_eq`: the whole effect of a dump, whatever its arguments.
- `dump_reads_stack_only`: the words read are the clipped range and nothing else, and the address
  space that `paging::init` builds maps all of them.
-/

namespace Zkrnl32.Stack

open Zkrnl32.Machine Zkrnl32.Memory Zkrnl32.Volatile

/-! ## The dump -/

/-- What a dump works on: the memory with the log of its accesses, and the console text. -/
structure DumpState where
  bus : Bus
  printed : String

/-- `printk!` of formatted text. -/
def printk (text : String) : Exec DumpState Unit :=
  modify fun s => { s with printed := s.printed ++ text }

/-- `(addr as *const u32).read_volatile()`. -/
def readDword (addr : Nat) : Exec DumpState U32 := do
  let bytes ← Exec.zoom DumpState.bus (fun bus s => { s with bus := bus }) (readVolatile addr 4)
  return BitVec.ofNat 32 (leNat bytes)

/-- The loop body of `dump_stack_from`.  Numbers are printed as `{:#010x}`. -/
def dumpDword (p : Profile) (start i : Nat) : Exec DumpState Unit := do
  let offset ← mul p 32 i 4
  let addr ← add p 32 start offset
  let value ← readDword addr
  printk (hexPadded 8 addr ++ ": " ++ hexPadded 8 value.toNat ++ "\n")

/-- Dumps `dwordCount` words from `addr` on, as far as they lie on the stack. -/
def dumpStackFrom (p : Profile) (stackBottom stackTop addr dwordCount : Nat) :
    Exec DumpState Unit := do
  printk "stack dump: "
  let misalignment := addr % 4
  let addr ← sub p 32 addr misalignment
  if addr < stackBottom || stackTop ≤ addr then
    printk (hexPadded 8 addr ++ " not within stack bounds " ++ hexPadded 8 stackBottom ++ "-" ++
      hexPadded 8 stackTop ++ "\n")
  else
    let room ← sub p 32 stackTop addr
    let availableDwords := room / 4
    let dwordCount := min dwordCount availableDwords
    printk (toString dwordCount ++ "/" ++ toString availableDwords)
    if misalignment ≠ 0 then
      let given ← add p 32 addr misalignment
      printk (" misaligned start address " ++ hexPadded 8 given)
    printk "\n"
    forM (List.range dwordCount) (dumpDword p addr)

/-! ## The effect of a dump -/

/-- The accesses of `n` consecutive words from `a` on, the latest first. -/
def dwordReads (a n : Nat) : List Access := ((List.range n).map fun i => ⟨a + 4 * i, 4⟩).reverse

theorem dwordReads_succ (a n : Nat) : dwordReads a (n + 1) = ⟨a + 4 * n, 4⟩ :: dwordReads a n := by
  simp [dwordReads, List.range_succ]

/-- The first word of a dump: the start address rounded down. -/
def firstDword (addr : Nat) : Nat := 4 * (addr / 4)

/-- The number of words dumped: those up to the top of the stack, if the first one is on it. -/
def dumpedDwords (stackBottom stackTop addr dwordCount : Nat) : Nat :=
  if stackBottom ≤ firstDword addr ∧ firstDword addr < stackTop then
    min dwordCount ((stackTop - firstDword addr) / 4)
  else 0

/-- `Dumped s s' a n`: the run read exactly the `n` words from `a` on and wrote nothing. -/
structure Dumped (s s' : DumpState) (a n : Nat) : Prop where
  mem_eq : s'.bus.mem = s.bus.mem
  reads : s'.bus.accesses = dwordReads a n ++ s.bus.accesses

theorem run_printk_bind {α : Type} (text : String) (f : Unit → Exec DumpState α)
    (s : DumpState) :
    (printk text >>= f) s = f () { s with printed := s.printed ++ text } :=
  run_modify_bind ..

theorem dumpDword_run (p : Profile) {start i : Nat} (h : start + 4 * i < 2 ^ 32) (s : DumpState) :
    dumpDword p start i s = .ok ()
      { bus := { s.bus with accesses := ⟨start + 4 * i, 4⟩ :: s.bus.accesses }
        printed := s.printed ++ (hexPadded 8 (start + 4 * i) ++ ": " ++
          hexPadded 8 (s.bus.mem.load32 (start + 4 * i)).toNat ++ "\n") } := by
  have haddr : add p 32 start (4 * i) = .ok (start + 4 * i) := add_eq_ok h
  unfold dumpDword
  rw [run_lift_bind (mul_eq_ok (by omega)), Nat.mul_comm i 4, run_lift_bind haddr]
  rfl

/-- The loop: words in ascending order, as long as their addresses fit. -/
theorem forM_dumpDword (p : Profile) {start n : Nat} (h : start + 4 * n ≤ 2 ^ 32)
    (s : DumpState) :
    ∃ s', forM (List.range n) (dumpDword p start) s = .ok () s' ∧ Dumped s s' start n := by
  have hends : Ends (forM (List.range n) (dumpDword p start) s)
      (fun _ s' => Dumped s s' start n) fun _ _ => False := by
    refine forM_range_ends (fun i s' => Dumped s s' start i) (fun i hi s₁ hI => ?_) ⟨rfl, rfl⟩
    refine ends_of_ok (dumpDword_run p (by omega) s₁) ⟨hI.mem_eq, ?_⟩
    rw [dwordReads_succ, List.cons_append, ← hI.reads]
  obtain ⟨_, s', hrun, hdumped⟩ := hends.exists_ok
  exact ⟨s', hrun, hdumped⟩

/-- The whole dump, for a stack that ends below 4 GiB and any 32-bit start. -/
theorem dumpStackFrom_eq (p : Profile) {stackBottom stackTop addr : Nat}
    (htop : stackTop < 2 ^ 32) (haddr : addr < 2 ^ 32) (dwordCount : Nat) (s : DumpState) :
    ∃ s', dumpStackFrom p stackBottom stackTop addr dwordCount s = .ok () s' ∧
      Dumped s s' (firstDword addr) (dumpedDwords stackBottom stackTop addr dwordCount) := by
  have hround : sub p 32 addr (addr % 4) = .ok (firstDword addr) := by
    rw [sub_eq_ok (Nat.mod_le addr 4), firstDword]
    congr 1
    omega
  unfold dumpStackFrom
  rw [run_printk_bind]
  simp only []
  rw [run_lift_bind hround]
  by_cases hin : stackBottom ≤ firstDword addr ∧ firstDword addr < stackTop
  · obtain ⟨hlo, hhi⟩ := hin
    have hroom : sub p 32 stackTop (firstDword addr) = .ok (stackTop - firstDword addr) :=
      sub_eq_ok hhi.le
    have hsum : add p 32 (firstDword addr) (addr % 4) = .ok addr := by
      rw [firstDword, add_eq_ok (by omega), Nat.div_add_mod]
    have hcond : ¬ (decide (firstDword addr < stackBottom) ||
        decide (stackTop ≤ firstDword addr)) = true := by
      simp [hlo, hhi]
    -- The headline leaves the bus alone, in each of its two forms.
    have hloop : ∀ s₁ : DumpState, s₁.bus = s.bus → ∃ s',
        forM (List.range (min dwordCount ((stackTop - firstDword addr) / 4)))
          (dumpDword p (firstDword addr)) s₁ = .ok () s' ∧
        Dumped s s' (firstDword addr) (dumpedDwords stackBottom stackTop addr dwordCount) := by
      intro s₁ hbus
      obtain ⟨s', hrun, hdumped⟩ := forM_dumpDword p
        (show firstDword addr + 4 * min dwordCount ((stackTop - firstDword addr) / 4) ≤ 2 ^ 32 by
          omega) s₁
      rw [dumpedDwords, if_pos ⟨hlo, hhi⟩]
      exact ⟨s', hrun, hbus ▸ hdumped.mem_eq, hbus ▸ hdumped.reads⟩
    rw [if_neg hcond, run_lift_bind hroom, run_printk_bind]
    by_cases haligned : addr % 4 = 0
    · rw [if_neg (not_not.mpr haligned), run_printk_bind]
      exact hloop _ rfl
    · rw [if_pos haligned, run_lift_bind hsum, run_printk_bind, run_printk_bind]
      exact hloop _ rfl
  · have hcond : (decide (firstDword addr < stackBottom) ||
        decide (stackTop ≤ firstDword addr)) = true := by
      simpa [or_iff_not_imp_left] using hin
    rw [if_pos hcond, dumpedDwords, if_neg hin]
    exact ⟨_, rfl, rfl, rfl⟩

/-! ## Safety -/

/-- The stack of a kernel: above the guard page and inside the image. -/
structure KernelStack (k : KernelLayout) where
  bottom : Nat
  top : Nat
  bottom_le_top : bottom ≤ top
  guard_below : k.stackGuard + 4096 ≤ bottom
  top_le_end : top ≤ k.virtEnd

/-- The stack that `boot.asm` reserves: 64 KiB right above the guard page. -/
def KernelStack.linked (k : LinkedLayout) : KernelStack k.toKernelLayout where
  bottom := k.stackBottom
  top := k.stackTop
  bottom_le_top := Nat.le_add_right ..
  guard_below := le_rfl
  top_le_end := k.stack_le_end

/-- The words dumped lie on the stack. -/
theorem dumped_on_stack {stackBottom stackTop addr dwordCount i : Nat}
    (hi : i < dumpedDwords stackBottom stackTop addr dwordCount) :
    stackBottom ≤ firstDword addr + 4 * i ∧ firstDword addr + 4 * i + 4 ≤ stackTop := by
  unfold dumpedDwords at hi
  split at hi
  · omega
  · cases hi

/-- Every byte of the stack is mapped once the kernel has been brought up. -/
theorem KernelStack.mapped {p : Profile} {k : KernelLayout} (stack : KernelStack k)
    {boot : Paging.BootState} (h : Paging.Booted p k boot) (pse : Bool) {v : Nat}
    (hlo : stack.bottom ≤ v) (hhi : v < stack.top) : ∃ tr, boot.translate pse v = some tr := by
  have hguard := stack.guard_below
  have htop := stack.top_le_end
  have hend := k.end_le
  have hvd := k.virt_le_data
  have hdg := k.data_le_guard
  rw [h.translate_below pse (by omega)]
  refine Paging.exists_finalTranslation (Or.inl ⟨by omega, by omega, ?_⟩)
  rw [Paging.pageSize_eq]
  omega

/-- **The stack dump reads no wild address**: for every start and every count it returns, in both
    profiles, so nothing overflows.  It reads the first `min(dword_count, (stack_top - a) / 4)`
    words from the rounded start `a` on, once each and in order, or none when `a` is not on the
    stack.  Each word is aligned and lies on the stack, and all its bytes are present in the
    directory that `paging::init` builds. -/
theorem dump_reads_stack_only (p : Profile) {k : KernelLayout} (stack : KernelStack k)
    (addr dwordCount : U32) (s : DumpState) :
    ∃ s' a n, dumpStackFrom p stack.bottom stack.top addr.toNat dwordCount.toNat s = .ok () s' ∧
      a = 4 * (addr.toNat / 4) ∧
      n = (if stack.bottom ≤ a ∧ a < stack.top then
        min dwordCount.toNat ((stack.top - a) / 4) else 0) ∧
      s'.bus.mem = s.bus.mem ∧
      s'.bus.accesses = ((List.range n).map fun i => ⟨a + 4 * i, 4⟩).reverse ++ s.bus.accesses ∧
      ∀ i < n, 4 ∣ a + 4 * i ∧ stack.bottom ≤ a + 4 * i ∧ a + 4 * i + 4 ≤ stack.top ∧
        ∀ boot, Paging.Booted p k boot → ∀ pse, ∀ b < 4,
          ∃ tr, boot.translate pse (a + 4 * i + b) = some tr := by
  have htop : stack.top < 2 ^ 32 := by
    have hend := stack.top_le_end
    have hlimit := k.end_le
    omega
  obtain ⟨s', hrun, hdumped⟩ := dumpStackFrom_eq p htop addr.isLt dwordCount.toNat s
  refine ⟨s', _, _, hrun, rfl, rfl, hdumped.mem_eq, hdumped.reads, fun i hi => ?_⟩
  have hfirst : firstDword addr.toNat = 4 * (addr.toNat / 4) := rfl
  obtain ⟨hlo, hhi⟩ := dumped_on_stack hi
  refine ⟨⟨addr.toNat / 4 + i, by omega⟩, hlo, hhi, fun boot hboot pse b hb => ?_⟩
  exact stack.mapped hboot pse (hlo.trans (Nat.le_add_right ..)) (by omega)

/-- A misaligned `esp` near the top of the smallest kernel's stack: two of the sixteen words
    asked for are left, and the last one is mapped. -/
theorem dump_reads_stack_only_smallest :
    ∃ s' boot, dumpStackFrom .dev 0xC0206000 0xC0216000 0xC0215FF9 16 ⟨⟨fun _ => 0, []⟩, ""⟩ =
        .ok () s' ∧
      s'.bus.accesses = [⟨0xC0215FFC, 4⟩, ⟨0xC0215FF8, 4⟩] ∧
      Paging.Booted .dev LinkedLayout.smallest.toKernelLayout boot ∧
      ∃ tr, boot.translate true 0xC0215FFF = some tr := by
  obtain ⟨boot, hboot⟩ := Paging.booted_smallest
  obtain ⟨s', a, n, hrun, rfl, rfl, _, hreads, hsafe⟩ := dump_reads_stack_only .dev
    (KernelStack.linked .smallest) 0xC0215FF9 16 ⟨⟨fun _ => 0, []⟩, ""⟩
  obtain ⟨_, _, _, hmapped⟩ := hsafe 1 (by decide)
  exact ⟨s', boot, hrun, hreads, hboot, hmapped boot hboot true 3 (by decide)⟩

end Zkrnl32.Stack
