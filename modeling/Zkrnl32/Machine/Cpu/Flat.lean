import Zkrnl32.Machine.Cpu

/-!
# Running Code in Flat Segments

What the processor does in ring 0 when its segments span the whole address space, so that an
offset is a linear address.

- `Cpu.Shows`: a range of linear addresses shows physical memory at a fixed distance.  Reads,
  writes, pushes, pops and instruction fetches in such a range are loads and stores.
- `TableAt`: the descriptors of a table in memory; `loadSegment_eq` is a load from it.
- `Code`: a stretch of code.  `Cpu.At` says that a listing in it lies at the instruction pointer;
  `At.leads_goto` and `At.leads` run its first instruction.
-/

namespace Zkrnl32.Machine

theorem toNat_sub_ofNat {v : U32} {k : Nat} (h : k ≤ v.toNat) :
    (v - BitVec.ofNat 32 k).toNat = v.toNat - k := by
  have hlt := v.isLt
  rw [BitVec.toNat_sub, BitVec.toNat_ofNat]
  omega

theorem toNat_add_ofNat {v : U32} {k : Nat} (h : v.toNat + k < 2 ^ 32) :
    (v + BitVec.ofNat 32 k).toNat = v.toNat + k := by
  rw [BitVec.toNat_add, BitVec.toNat_ofNat]
  omega

/-! ## Ranges of linear addresses -/

namespace Cpu

variable {s s' : Cpu} {lo hi shift a n size : Nat} {r : SegReg}

@[simp] theorem reg_setReg_self (r : Reg) (v : U32) (s : Cpu) : (s.setReg r v).reg r = v :=
  Function.update_self ..

theorem reg_setReg_of_ne {r r' : Reg} (h : r' ≠ r) (v : U32) (s : Cpu) :
    (s.setReg r v).reg r' = s.reg r' :=
  Function.update_of_ne h ..

@[simp] theorem reg_goto (t : U32) (s : Cpu) : (s.goto t).reg = s.reg := rfl

@[simp] theorem mem_goto (t : U32) (s : Cpu) : (s.goto t).mem = s.mem := rfl

@[simp] theorem eip_goto (t : U32) (s : Cpu) : (s.goto t).eip = t := rfl

/-- The linear addresses `[lo, hi)` show the physical ones `shift` below, in ring 0, for every
    kind of access. -/
structure Shows (s : Cpu) (lo hi shift : Nat) : Prop where
  shift_le : shift ≤ lo
  hi_le : hi ≤ 2 ^ 32
  translate_eq : ∀ v, lo ≤ v → v < hi → ∀ kind, s.translate kind false v = some (v - shift)

/-- Only the control registers and the memory matter. -/
theorem Shows.congr (h : s.Shows lo hi shift) (hctrl : s'.ctrl = s.ctrl) (hmem : s'.mem = s.mem) :
    s'.Shows lo hi shift := by
  refine ⟨h.shift_le, h.hi_le, fun v hlo hhi kind => ?_⟩
  rw [← h.translate_eq v hlo hhi kind]
  simp only [translate, hctrl, hmem]

theorem Shows.mono (h : s.Shows lo hi shift) {lo' hi' : Nat} (hlo : lo ≤ lo') (hhi : hi' ≤ hi) :
    s.Shows lo' hi' shift :=
  ⟨h.shift_le.trans hlo, hhi.trans h.hi_le,
    fun v hv hv' => h.translate_eq v (hlo.trans hv) (hv'.trans_le hhi)⟩

/-- Without paging every address shows itself. -/
theorem shows_of_paging_off (h : (s.ctrl .cr0).getLsbD 31 = false) (hhi : hi ≤ 2 ^ 32) :
    s.Shows lo hi 0 :=
  ⟨Nat.zero_le _, hhi, fun v _ _ kind => by rw [translate, h]; rfl⟩

/-- The range stays as it is whatever is written to the physical addresses `W`. -/
def Keeps (s : Cpu) (W : Set Nat) (lo hi shift : Nat) : Prop :=
  ∀ mem, Set.EqOn mem s.mem Wᶜ → ({ s with mem := mem } : Cpu).Shows lo hi shift

theorem Keeps.shows {W : Set Nat} (h : s.Keeps W lo hi shift) (hctrl : s'.ctrl = s.ctrl)
    (hmem : Set.EqOn s'.mem s.mem Wᶜ) : s'.Shows lo hi shift :=
  (h s'.mem hmem).congr hctrl rfl

theorem mapM_eq_some {α β : Type} {f : α → Option β} {g : α → β} (l : List α)
    (h : ∀ x ∈ l, f x = some (g x)) : l.mapM f = some (l.map g) := by
  induction l with
  | nil => rfl
  | cons x l ih =>
    rw [List.mapM_cons, h x List.mem_cons_self, ih fun y hy => h y (List.mem_cons_of_mem _ hy)]
    rfl

theorem Shows.locateLinear (h : s.Shows lo hi shift) (hlo : lo ≤ a) (hhi : a + size ≤ hi)
    (kind : AccessKind) :
    s.locateLinear kind false a size = some ((List.range size).map fun i => a - shift + i) := by
  have hshift := h.shift_le
  have hmax := h.hi_le
  refine mapM_eq_some _ fun i hi' => ?_
  rw [List.mem_range] at hi'
  rw [Nat.mod_eq_of_lt (by omega), h.translate_eq _ (by omega) (by omega)]
  congr 1
  omega

theorem scatter_range (mem : Memory) (a : Nat) (bytes : List U8) :
    scatter mem ((List.range bytes.length).map fun i => a + i) bytes = mem.store a bytes := by
  induction bytes generalizing mem a with
  | nil =>
    funext x
    simp [scatter, Memory.store]
  | cons b bytes ih =>
    rw [List.length_cons, List.range_succ_eq_map, List.map_cons, List.map_map, scatter,
      Nat.add_zero, ← Memory.store_cons mem a b bytes, ← ih]
    congr 1
    apply List.map_congr_left
    intro i _
    simp only [Function.comp_apply]
    omega

theorem Shows.readSystem (h : s.Shows lo hi shift) (hlo : lo ≤ a) (hhi : a + size ≤ hi) :
    s.readSystem a size = some (s.mem.load (a - shift) size) := by
  simp only [Cpu.readSystem, h.locateLinear hlo hhi, Option.bind_eq_bind, Option.bind_some,
    List.map_map]
  rfl

theorem Shows.writeSystem (h : s.Shows lo hi shift) {bytes : List U8} (hlo : lo ≤ a)
    (hhi : a + bytes.length ≤ hi) :
    s.writeSystem a bytes = some { s with mem := s.mem.store (a - shift) bytes } := by
  simp only [Cpu.writeSystem, h.locateLinear hlo hhi, Option.bind_eq_bind, Option.bind_some,
    scatter_range]
  rfl

/-! ## Flat segments in ring 0 -/

/-- Ring 0, with 32-bit segments for code, stack and data that span everything. -/
structure Flat (s : Cpu) : Prop where
  cpl_eq : s.cpl = 0
  cs_eq : (s.seg .cs).hidden = some (.flat true 0)
  ss_eq : (s.seg .ss).hidden = some (.flat false 0)
  ds_eq : (s.seg .ds).hidden = some (.flat false 0)

theorem Flat.congr (h : s.Flat) (hseg : s'.seg = s.seg) : s'.Flat := by
  obtain ⟨hcpl, hcs, hss, hds⟩ := h
  refine ⟨?_, hseg ▸ hcs, hseg ▸ hss, hseg ▸ hds⟩
  rw [← hcpl, cpl, cpl, hseg]

theorem user_of_cpl (h : s.cpl = 0) : s.user = false := by
  simp [user, h]

theorem flat_contains {code : Bool} {dpl offset size : Nat} (h : offset + size ≤ 2 ^ 32) :
    (Descriptor.flat code dpl).contains offset size = true := by
  have hup : (!(Descriptor.flat code dpl).code && (Descriptor.flat code dpl).dc) = false :=
    Bool.and_false _
  have hlimit : (Descriptor.flat code dpl).limit = 0xFFFFFFFF := rfl
  rw [Descriptor.contains, hup, hlimit]
  exact decide_eq_true (by omega)

theorem locate_flat {code : Bool} {kind : AccessKind} (hcpl : s.cpl = 0)
    (hseg : (s.seg r).hidden = some (.flat code 0))
    (hkind : (Descriptor.flat code 0).permits kind = true) (h : s.Shows lo hi shift)
    (hlo : lo ≤ a) (hhi : a + size ≤ hi) :
    s.locate r kind a size = some ((List.range size).map fun i => a - shift + i) := by
  have hmax := h.hi_le
  have hbase : (Descriptor.flat code 0).base + a = a := Nat.zero_add a
  simp only [locate, hseg, Option.bind_eq_bind, Option.bind_some, hkind,
    flat_contains (show a + size ≤ 2 ^ 32 by omega), Bool.and_self, if_true, user_of_cpl hcpl,
    hbase, h.locateLinear hlo hhi]

theorem read_flat (hcpl : s.cpl = 0) (hseg : (s.seg r).hidden = some (.flat false 0))
    (h : s.Shows lo hi shift) (hlo : lo ≤ a) (hhi : a + size ≤ hi) :
    s.read r a size = some (s.mem.load (a - shift) size) := by
  simp only [read,
    locate_flat hcpl hseg (show Descriptor.permits _ .read = true from rfl) h hlo hhi,
    Option.bind_eq_bind, Option.bind_some, List.map_map]
  rfl

theorem write_flat {bytes : List U8} (hcpl : s.cpl = 0)
    (hseg : (s.seg r).hidden = some (.flat false 0)) (h : s.Shows lo hi shift) (hlo : lo ≤ a)
    (hhi : a + bytes.length ≤ hi) :
    s.write r a bytes = some { s with mem := s.mem.store (a - shift) bytes } := by
  simp only [write,
    locate_flat hcpl hseg (show Descriptor.permits _ .write = true from rfl) h hlo hhi,
    Option.bind_eq_bind, Option.bind_some, scatter_range]
  rfl

theorem codeByte_flat (hflat : s.Flat) (h : s.Shows lo hi shift) (hlo : lo ≤ a) (hhi : a < hi) :
    s.codeByte a = some (s.mem (a - shift)) := by
  have hlocate := locate_flat hflat.cpl_eq hflat.cs_eq
    (show Descriptor.permits _ .fetch = true from rfl) h hlo (show a + 1 ≤ hi from hhi)
  simp only [codeByte, hlocate, Option.bind_eq_bind, Option.bind_some]
  rfl

/-- `u` is `s` after a push of `v` to the offset `a`. -/
structure Pushed (shift a : Nat) (v : U32) (s u : Cpu) : Prop where
  mem_eq : u.mem = s.mem.store32 (a - shift) v
  esp_eq : (u.reg .esp).toNat = a
  reg_eq : ∀ r, r ≠ .esp → u.reg r = s.reg r
  seg_eq : u.seg = s.seg
  gdtr_eq : u.gdtr = s.gdtr
  ctrl_eq : u.ctrl = s.ctrl
  interrupts_eq : u.interrupts = s.interrupts

theorem push_flat (hflat : s.Flat) (h : s.Shows lo hi shift) (hesp : (s.reg .esp).toNat = a + 4)
    (hlo : lo ≤ a) (hhi : a + 4 ≤ hi) (v : U32) :
    ∃ u, s.push v = some u ∧ Pushed shift a v s u := by
  have hlt := (s.reg .esp).isLt
  have haddr : s.reg .esp - 4 = BitVec.ofNat 32 a := by
    apply BitVec.eq_of_toNat_eq
    have h4 : (4 : U32).toNat = 4 := rfl
    rw [BitVec.toNat_sub, hesp, BitVec.toNat_ofNat, h4]
    omega
  have htoNat : (BitVec.ofNat 32 a).toNat = a := by
    rw [BitVec.toNat_ofNat]
    omega
  have hbig : (Descriptor.flat false 0).big = true := rfl
  have hlen : a + (leBytes 4 v.toNat).length ≤ hi := by rwa [length_leBytes]
  have hpush : s.push v = some
      (({ s with mem := s.mem.store32 (a - shift) v } : Cpu).setReg .esp (BitVec.ofNat 32 a)) := by
    simp only [push, hflat.ss_eq, Option.bind_eq_bind, Option.bind_some, hbig, Bool.not_true,
      Bool.false_eq_true, if_false, haddr, htoNat, write_flat hflat.cpl_eq hflat.ss_eq h hlo hlen]
    rfl
  refine ⟨_, hpush, rfl, ?_, fun r hr => reg_setReg_of_ne hr .., rfl, rfl, rfl, rfl⟩
  rw [reg_setReg_self, htoNat]

/-- A push whose first byte cannot be written faults. -/
theorem push_eq_none (hflat : s.Flat) (h : s.translate .write false (s.reg .esp - 4).toNat = none)
    (v : U32) : s.push v = none := by
  have hlt := (s.reg .esp - 4).isLt
  have hbase : (Descriptor.flat false 0).base + (s.reg .esp - 4).toNat = (s.reg .esp - 4).toNat :=
    Nat.zero_add _
  have hlinear : s.locateLinear .write s.user (s.reg .esp - 4).toNat 4 = none := by
    rw [locateLinear, user_of_cpl hflat.cpl_eq, List.range_succ_eq_map, List.mapM_cons,
      Nat.add_zero, Nat.mod_eq_of_lt hlt, h]
    rfl
  have hlocate : s.locate .ss .write (s.reg .esp - 4).toNat 4 = none := by
    simp only [locate, hflat.ss_eq, Option.bind_eq_bind, Option.bind_some, hbase, hlinear, ite_self]
  have hwrite : s.write .ss (s.reg .esp - 4).toNat (leBytes 4 v.toNat) = none := by
    rw [write, length_leBytes, hlocate]
    rfl
  simp only [push, hflat.ss_eq, Option.bind_eq_bind, Option.bind_some, hwrite, Option.bind_none,
    ite_self]

theorem pop_flat (hflat : s.Flat) (h : s.Shows lo hi shift) (hesp : (s.reg .esp).toNat = a)
    (hlo : lo ≤ a) (hhi : a + 4 ≤ hi) :
    s.pop = some (s.mem.load32 (a - shift), s.setReg .esp (BitVec.ofNat 32 (a + 4))) := by
  have haddr : s.reg .esp + 4 = BitVec.ofNat 32 (a + 4) := by
    apply BitVec.eq_of_toNat_eq
    rw [BitVec.toNat_add, hesp, BitVec.toNat_ofNat]
    rfl
  have hbig : (Descriptor.flat false 0).big = true := rfl
  simp only [pop, hflat.ss_eq, Option.bind_eq_bind, Option.bind_some, hbig, Bool.not_true,
    Bool.false_eq_true, if_false, hesp, read_flat hflat.cpl_eq hflat.ss_eq h hlo hhi, haddr]
  rfl

theorem exec_movToCtrl {dst : CtrlReg} {src : Reg} (hcpl : s.cpl = 0)
    (h : ¬ (dst = .cr0 ∧ (s.reg src).getLsbD 31 = true ∧ (!(s.reg src).getLsbD 0) = true))
    (next : U32) :
    exec (.movToCtrl dst src) next s =
      some (({ s with ctrl := Function.update s.ctrl dst (s.reg src) } : Cpu).goto next) := by
  rw [exec, setCtrl, if_neg (by rw [hcpl]; tauto)]
  rfl

theorem exec_movFromCtrl (hcpl : s.cpl = 0) (dst : Reg) (src : CtrlReg) (next : U32) :
    exec (.movFromCtrl dst src) next s = some ((s.setReg dst (s.ctrl src)).goto next) := by
  rw [exec, if_neg (by rw [hcpl]; decide)]

end Cpu

/-! ## Descriptor tables -/

/-- The descriptors `raws` lie at a physical address. -/
def TableAt (mem : Memory) (phys count : Nat) (raws : Nat → U64) : Prop :=
  ∀ i < count, mem.load (phys + 8 * i) 8 = leBytes 8 (raws i).toNat

/-- Bit 40. -/
def accessedBit : U64 := (1 : U64) <<< 40

section TableAt

variable {mem mem' : Memory} {phys count : Nat} {raws : Nat → U64}

theorem TableAt.congr (h : TableAt mem phys count raws)
    (hmem : ∀ x, phys ≤ x → x < phys + 8 * count → mem' x = mem x) :
    TableAt mem' phys count raws := by
  intro i hi
  rw [← h i hi]
  exact Memory.load_congr fun x hlo hhi => hmem x (by omega) (by omega)

/-- Bytes of a descriptor with its accessed bit set: byte 5 changes. -/
theorem extractLsb'_or_accessedBit (raw : U64) {k : Nat} (hk : k < 8) :
    (raw ||| accessedBit).extractLsb' (8 * k) 8 =
      if k = 5 then raw.extractLsb' 40 8 ||| 1 else raw.extractLsb' (8 * k) 8 := by
  have hbit : ∀ k < 8, accessedBit.extractLsb' (8 * k) 8 = if k = 5 then 1 else 0 := by decide
  rw [BitVec.extractLsb'_or, hbit k hk]
  split
  next h => rw [h]
  next => exact BitVec.or_zero

/-- The accessed bit does not change what a descriptor means. -/
theorem decode_or_accessedBit (raw : U64) :
    Descriptor.decode (raw ||| accessedBit) = Descriptor.decode raw := by
  have hfield : ∀ start len, accessedBit.extractLsb' start len = 0 →
      (raw ||| accessedBit).extractLsb' start len = raw.extractLsb' start len := by
    intro start len h
    rw [BitVec.extractLsb'_or, h]
    exact BitVec.or_zero
  have hbit : ∀ i, accessedBit.getLsbD i = false →
      (raw ||| accessedBit).getLsbD i = raw.getLsbD i := by
    intro i h
    rw [BitVec.getLsbD_or, h, Bool.or_false]
  unfold Descriptor.decode
  rw [hfield 16 24 (by decide), hfield 56 8 (by decide), hfield 0 16 (by decide),
    hfield 48 4 (by decide), hfield 45 2 (by decide), hbit 55 (by decide), hbit 47 (by decide),
    hbit 44 (by decide), hbit 43 (by decide), hbit 42 (by decide), hbit 41 (by decide),
    hbit 54 (by decide)]

/-- The byte that the processor stores marks one descriptor as accessed. -/
theorem TableAt.markAccessed (h : TableAt mem phys count raws) {j : Nat} (hj : j < count) :
    TableAt (mem.store (phys + 8 * j + 5) [(raws j).extractLsb' 40 8 ||| 1]) phys count
      (Function.update raws j (raws j ||| accessedBit)) := by
  intro i hi
  have hold := (load_eq_leBytes_iff mem (phys + 8 * i) 8 (raws i)).mp (h i hi)
  rw [load_eq_leBytes_iff]
  intro k hk
  rw [Memory.store_singleton_apply]
  by_cases hij : i = j
  · subst hij
    rw [Function.update_self, extractLsb'_or_accessedBit _ hk]
    by_cases h5 : k = 5
    · rw [if_pos (by omega), if_pos h5]
    · rw [if_neg (by omega), if_neg h5, hold k hk]
  · rw [Function.update_of_ne hij, if_neg (by omega), hold k hk]

end TableAt

/-! ### Loads from a table -/

section LoadSegment

variable {s : Cpu} {r : SegReg} {selector : U16} {base count shift j : Nat} {raws : Nat → U64}

/-- There is no local table, and nothing behind the end of the global one. -/
theorem Cpu.fetchDescriptor_eq_none (hlimit : s.gdtr.limit.toNat = 8 * count - 1)
    (h : selector.getLsbD 2 = true ∨ count ≤ selector.toNat / 8) :
    s.fetchDescriptor selector = none := by
  rw [fetchDescriptor]
  split
  · rfl
  next hti =>
    have hout := h.resolve_left hti
    rw [if_neg (by omega)]

theorem Cpu.fetchDescriptor_eq (hbase : s.gdtr.base.toNat = base)
    (hlimit : s.gdtr.limit.toNat = 8 * count - 1) (hshows : s.Shows base (base + 8 * count) shift)
    (htable : TableAt s.mem (base - shift) count raws) (hti : selector.getLsbD 2 = false)
    (hindex : selector.toNat / 8 = j) (hcount : j < count) :
    s.fetchDescriptor selector = some (raws j) := by
  have hshift := hshows.shift_le
  rw [fetchDescriptor, hti, descriptorAddr, hbase, hindex,
    hshows.readSystem (by omega) (by omega),
    show base + 8 * j - shift = base - shift + 8 * j by omega, htable j hcount, hlimit]
  simp only [Bool.false_eq_true, if_false]
  rw [if_pos (by omega)]
  exact congrArg some (ofNat_leNat_leBytes (raws j) (by norm_num))

/-- A descriptor that is not there, or that the register may not have, is not loaded. -/
theorem Cpu.loadSegment_eq_none (hnull : selector.toNat / 4 ≠ 0)
    (h : ∀ raw, s.fetchDescriptor selector = some raw →
      (Descriptor.decode raw).loadable r s.cpl (selector.extractLsb' 0 2).toNat = false) :
    s.loadSegment r selector = none := by
  rw [loadSegment, if_neg hnull]
  cases hfetch : s.fetchDescriptor selector with
  | none => rfl
  | some raw =>
    simp only [Option.bind_eq_bind, Option.bind_some, h raw hfetch, Bool.false_eq_true, if_false]

/-- A load from a table in memory: the register takes the decoded descriptor, and the table has it
    marked as accessed. -/
theorem Cpu.loadSegment_eq (hbase : s.gdtr.base.toNat = base)
    (hlimit : s.gdtr.limit.toNat = 8 * count - 1) (hshows : s.Shows base (base + 8 * count) shift)
    (htable : TableAt s.mem (base - shift) count raws) (hti : selector.getLsbD 2 = false)
    (hindex : selector.toNat / 8 = j) (hj : 0 < j) (hcount : j < count)
    (hload : (Descriptor.decode (raws j)).loadable r s.cpl (selector.extractLsb' 0 2).toNat =
      true) :
    ∃ mem', s.loadSegment r selector = some
        { s with
          seg := Function.update s.seg r ⟨selector, some (.decode (raws j))⟩
          mem := mem' } ∧
      TableAt mem' (base - shift) count (Function.update raws j (raws j ||| accessedBit)) ∧
      Set.EqOn mem' s.mem (Set.Ico (base - shift) (base - shift + 8 * count))ᶜ := by
  have hshift := hshows.shift_le
  have haddr : s.descriptorAddr selector = base + 8 * j := by
    rw [descriptorAddr, hbase, hindex]
  have hfetch := fetchDescriptor_eq hbase hlimit hshows htable hti hindex hcount
  have hstart : s.loadSegment r selector = (s.markAccessed selector (raws j)).map fun t =>
      { t with seg := Function.update t.seg r ⟨selector, some (.decode (raws j))⟩ } := by
    rw [loadSegment, if_neg (by omega), hfetch]
    simp only [Option.bind_eq_bind, Option.bind_some, hload, if_true]
    cases s.markAccessed selector (raws j) <;> rfl
  by_cases hset : (raws j).getLsbD 40 = true
  · -- Marked already: nothing is written.
    have hsame : raws j ||| accessedBit = raws j := by
      apply BitVec.eq_of_getLsbD_eq
      intro i hi
      rw [BitVec.getLsbD_or]
      by_cases h40 : i = 40
      · rw [h40, hset, Bool.true_or]
      · have hbit : ∀ i < 64, i ≠ 40 → accessedBit.getLsbD i = false := by decide
        rw [hbit i hi h40, Bool.or_false]
    refine ⟨s.mem, ?_, ?_, fun _ _ => rfl⟩
    · rw [hstart, markAccessed, if_pos hset]
      rfl
    · rw [hsame, Function.update_eq_self]
      exact htable
  · refine ⟨s.mem.store (base - shift + 8 * j + 5) [(raws j).extractLsb' 40 8 ||| 1], ?_,
      htable.markAccessed hcount, fun x hx => ?_⟩
    · have hphys : base + 8 * j + 5 - shift = base - shift + 8 * j + 5 := by omega
      rw [hstart, markAccessed, if_neg hset, haddr,
        hshows.writeSystem (by omega) (by simp only [List.length_singleton]; omega), hphys]
      rfl
    · refine Memory.store_apply_of_not_mem _ _ _ fun hin => hx ?_
      rw [List.length_singleton] at hin
      exact ⟨by omega, by omega⟩

end LoadSegment

/-! ## Listings -/

section Listings

variable {E : Encoding} {known : Nat → Option Contract} {view : Nat → Option U8}
  {a e : Nat} {i : Instr} {is : List Instr} {s t : Cpu} {P : Cpu → Prop}

theorem Encoding.Listing.le (h : E.Listing view a is e) : a ≤ e := by
  induction is generalizing a with
  | nil => exact le_of_eq h
  | cons i is ih =>
    obtain ⟨n, _, hrest⟩ := h
    exact (Nat.le_add_right a n).trans (ih hrest)

/-- A stretch of code: the bytes at `[lo, hi)`, in which no function starts that is known by its
    contract. -/
structure Code (E : Encoding) (known : Nat → Option Contract) where
  view : Nat → Option U8
  lo : Nat
  hi : Nat
  hi_lt : hi < 2 ^ 32
  unknown : ∀ a, lo ≤ a → a < hi → known a = none

/-- The processor fetches the bytes of the stretch. -/
def Code.SeenBy (c : Code E known) (s : Cpu) : Prop :=
  ∀ x, c.lo ≤ x → x < c.hi → s.codeByte x = c.view x

theorem Code.SeenBy.congr {c : Code E known} (h : c.SeenBy s) {t : Cpu} (hseg : t.seg = s.seg)
    (hctrl : t.ctrl = s.ctrl) (hmem : t.mem = s.mem) : c.SeenBy t := by
  obtain ⟨reg, eip, seg, gdtr, ctrl, interrupts, mem⟩ := t
  dsimp only at hseg hctrl hmem
  subst hseg hctrl hmem
  exact h

/-- The listing `is` lies at `[a, e)`, inside the stretch. -/
structure Code.Listed (c : Code E known) (a : Nat) (is : List Instr) (e : Nat) : Prop where
  listing : E.Listing c.view a is e
  lo_le : c.lo ≤ a
  le_hi : e ≤ c.hi

theorem Code.Listed.lt_hi {c : Code E known} {a : Nat} (h : c.Listed a (i :: is) e) : a < c.hi := by
  obtain ⟨n, hdecode, hrest⟩ := h.listing
  have hle := hrest.le
  have hpos := E.length_pos hdecode
  have hhi := h.le_hi
  omega

/-- The processor is at a listing. -/
structure Cpu.At (c : Code E known) (s : Cpu) (is : List Instr) (e : Nat) : Prop where
  seen : c.SeenBy s
  listed : c.Listed s.eip.toNat is e

variable {c : Code E known}

/-- The only step at a listing is its first instruction; the rest lies behind it, at `next`. -/
theorem Cpu.At.step_iff (h : s.At c (i :: is) e) :
    ∃ next : U32, c.Listed next.toNat is e ∧
      ∀ t, Step E known s t ↔ exec i next s = some t := by
  have hlt := h.listed.lt_hi
  obtain ⟨hlist, hlo, hhi⟩ := h.listed
  obtain ⟨n, hdecode, hrest⟩ := hlist
  have hle := hrest.le
  have hend := c.hi_lt
  have htoNat : (s.eip + BitVec.ofNat 32 n).toNat = s.eip.toNat + n := by
    rw [BitVec.toNat_add, BitVec.toNat_ofNat]
    omega
  have hfetch : E.decode s.codeByte s.eip.toNat = some (i, n) :=
    E.decode_congr hdecode fun x hx hx' => h.seen x (by omega) (by omega)
  have hnone : known s.eip.toNat = none := c.unknown _ hlo hlt
  have hstep : s.step E = exec i (s.eip + BitVec.ofNat 32 n) s := by
    rw [Cpu.step, hfetch]
    rfl
  refine ⟨s.eip + BitVec.ofNat 32 n, ⟨htoNat ▸ hrest, by omega, hhi⟩, fun t => ?_⟩
  constructor
  · intro ht
    cases ht with
    | instr _ hstep' => rw [← hstep, hstep']
    | returns hknown _ => simp [hnone] at hknown
  · exact fun hexec => .instr hnone (hstep.trans hexec)

/-- Runs the first instruction of a listing. -/
theorem Cpu.At.leads (h : s.At c (i :: is) e)
    (hnext : ∀ next : U32, c.Listed next.toNat is e →
      ∃ t, exec i next s = some t ∧ Leads (Step E known) P t) : Leads (Step E known) P s := by
  obtain ⟨next, hrest, hiff⟩ := h.step_iff
  obtain ⟨t, hexec, hleads⟩ := hnext next hrest
  refine leads_of_step ((hiff t).mpr hexec) (fun t' ht' => ?_) hleads
  exact Option.some.inj (((hiff t').mp ht').symm.trans hexec)

/-- Runs an instruction that goes on to the next one. -/
theorem Cpu.At.leads_goto (h : s.At c (i :: is) e) (t : Cpu)
    (hexec : ∀ next, exec i next s = some (t.goto next)) (hseen : c.SeenBy t)
    (hrest : ∀ next, (t.goto next).At c is e → Leads (Step E known) P (t.goto next)) :
    Leads (Step E known) P s :=
  h.leads fun next hlisted => ⟨_, hexec next, hrest next ⟨hseen, hlisted⟩⟩

/-- Runs an instruction that only sets a register. -/
theorem Cpu.At.leads_setReg (h : s.At c (i :: is) e) {r : Reg} {v : U32}
    (hexec : ∀ next, exec i next s = some ((s.setReg r v).goto next))
    (hrest : ∀ next, ((s.setReg r v).goto next).At c is e →
      Leads (Step E known) P ((s.setReg r v).goto next)) : Leads (Step E known) P s :=
  h.leads_goto _ hexec (h.seen.congr rfl rfl rfl) hrest

/-- The call of a function that is known by a contract. -/
theorem leads_returns {R : Contract} (hknown : known s.eip.toNat = some R) (hex : ∃ t, R s t)
    (h : ∀ t, R s t → Leads (Step E known) P t) : Leads (Step E known) P s := by
  obtain ⟨t₀, ht₀⟩ := hex
  refine .next ⟨t₀, .returns hknown ht₀⟩ fun t ht => ?_
  cases ht with
  | instr hnone _ => simp [hnone] at hknown
  | returns hknown' hR =>
    obtain rfl := Option.some.inj (hknown.symm.trans hknown')
    exact h t hR

end Listings

end Zkrnl32.Machine
