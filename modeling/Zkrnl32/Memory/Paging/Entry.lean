import Zkrnl32.Memory.Paging

/-!
# Entries and Their Flags

An entry joins a frame address and flags in one word by a plain OR.  That loses nothing as long
as the flags stay in the low 12 bits.

- Packing: what the constructors compute and what the readers read back.
- `Obtainable`, `Built`: the flags that code outside the module can get hold of, from any entry or
  from the entries it built itself.
- `packing_lossless`: such flags survive the way into an entry and back, and so does the entry.
- `entry_kind_kept_iff`: the page-size bit is among the 12 bits that `flags` reads, so flags that
  were read from a large page turn the entry of a table into one.
-/

namespace Zkrnl32.Memory.Paging

open Zkrnl32.Machine

@[simp] theorem pageSize_eq : pageSize = 4096 := rfl

@[simp] theorem entryCount_eq : entryCount = 1024 := rfl

/-! ## Packing -/

/-- The low 12 bits are closed under OR. -/
theorem or_lt {x y : U32} (hx : x.toNat < 4096) (hy : y.toNat < 4096) :
    (x ||| y).toNat < 4096 := by
  rw [BitVec.toNat_or]
  exact Nat.or_lt_two_pow (n := 12) hx hy

/-- Joining a frame address with flags in the low 12 bits loses nothing. -/
theorem or_flags_eq_pageEntry {f : Nat} {flags : U32} (hf : f < 2 ^ 20)
    (hflags : flags.toNat < 4096) :
    BitVec.ofNat 32 (f * 4096) ||| flags = pageEntry f flags.toNat := by
  apply BitVec.eq_of_toNat_eq
  have hor := Nat.two_pow_add_eq_or_of_lt (i := 12) hflags f
  rw [BitVec.toNat_or, BitVec.toNat_ofNat, Nat.mod_eq_of_lt (by omega),
    toNat_pageEntry hf hflags, Nat.mul_comm]
  exact hor.symm

theorem PageTableEntry.new_eq_ok (p : Profile) (frame : FrameNumber) (flags : PageFlags)
    (hframe : frame.index < 2 ^ 20) (hflags : flags.bits.toNat < 4096) :
    PageTableEntry.new p frame flags = .ok ⟨pageEntry frame.index flags.bits.toNat⟩ := by
  unfold PageTableEntry.new
  rw [FrameNumber.baseAddr_eq_ok hframe, checked_ok_bind, or_flags_eq_pageEntry hframe hflags]
  rfl

theorem PageDirectoryEntry.forTable_eq (p : Profile) {frame : FrameNumber} {flags : PageFlags}
    (hframe : frame.index < 2 ^ 20) (hflags : flags.bits.toNat < 4096) :
    PageDirectoryEntry.forTable p frame flags =
      .ok ⟨pageEntry frame.index flags.bits.toNat⟩ := by
  unfold PageDirectoryEntry.forTable
  rw [FrameNumber.baseAddr_eq_ok hframe, checked_ok_bind, or_flags_eq_pageEntry hframe hflags]
  rfl

theorem PageDirectoryEntry.forTable_eq_ok (p : Profile) {frame : FrameNumber}
    (hframe : frame.index < 2 ^ 20) :
    PageDirectoryEntry.forTable p frame .kernelRw = .ok ⟨tableEntry frame.index⟩ :=
  PageDirectoryEntry.forTable_eq p hframe (by decide)

/-- The entry of a large page: its address has no frame bits below bit 22. -/
theorem PageDirectoryEntry.forHugePage_eq (p : Profile) {base : PhysAddr} {flags : PageFlags}
    (hbase : 2 ^ 22 ∣ base.raw.toNat) (hflags : flags.bits.toNat < 4096) :
    PageDirectoryEntry.forHugePage p base flags =
      .ok ⟨pageEntry (base.raw.toNat / 4096) (pageSizeBit ||| flags.bits).toNat⟩ := by
  have hlt := base.raw.isLt
  have haligned : base.raw.toNat % pageTableSpan = 0 := Nat.mod_eq_zero_of_dvd hbase
  have haddr : base.raw = BitVec.ofNat 32 (base.raw.toNat / 4096 * 4096) := by
    rw [Nat.div_mul_cancel (Dvd.dvd.trans (by decide) hbase), BitVec.ofNat_toNat,
      BitVec.setWidth_eq]
  have hlow : (pageSizeBit ||| flags.bits).toNat < 4096 := or_lt (by decide) hflags
  unfold PageDirectoryEntry.forHugePage
  rw [debugAssert_eq_ok haligned, checked_ok_bind, BitVec.or_assoc,
    ← or_flags_eq_pageEntry (by omega) hlow, ← haddr]
  rfl

/-! ## Reading back -/

theorem and_one_beq (x : U32) : (x &&& 1 == 1) = x.getLsbD 0 := by
  rw [Bool.eq_iff_iff, beq_iff_eq, BitVec.getLsbD, Nat.testBit_zero, decide_eq_true_eq,
    ← BitVec.toNat_inj, BitVec.toNat_and]
  exact Eq.congr_left (Nat.and_one_is_mod _)

/-- The mask of the flags keeps the remainder modulo the page size. -/
theorem toNat_fromBits (raw : U32) : (PageFlags.fromBits raw).bits.toNat = raw.toNat % 4096 := by
  have hmask : flagsMask.toNat = 2 ^ 12 - 1 := rfl
  rw [PageFlags.fromBits, BitVec.toNat_and, hmask, Nat.and_two_pow_sub_one_eq_mod]

theorem fromBits_pageEntry {f : Nat} {flags : PageFlags} (hf : f < 2 ^ 20)
    (hflags : flags.bits.toNat < 4096) :
    PageFlags.fromBits (pageEntry f flags.bits.toNat) = flags := by
  have hbits : (PageFlags.fromBits (pageEntry f flags.bits.toNat)).bits = flags.bits := by
    apply BitVec.eq_of_toNat_eq
    rw [toNat_fromBits, toNat_pageEntry hf hflags]
    omega
  exact congrArg PageFlags.mk hbits

/-- The mask of the address drops the flags. -/
theorem frameFloor_addressMask (raw : U32) :
    (PhysAddr.mk (raw &&& addressMask)).frameFloor = ⟨entryFrame raw⟩ := by
  have hmask : addressMask.toNat >>> 12 = 2 ^ 20 - 1 := rfl
  have hdiv : ∀ n, n / 4096 = n >>> 12 := fun n => (Nat.shiftRight_eq_div_pow n 12).symm
  have hlt := raw.isLt
  rw [FrameNumber.mk.injEq, PhysAddr.index_frameFloor, entryFrame, BitVec.toNat_and, hdiv, hdiv,
    Nat.shiftRight_and_distrib, hmask, Nat.and_two_pow_sub_one_eq_mod, ← hdiv]
  omega

theorem PageDirectoryEntry.tableFrame_eq (e : PageDirectoryEntry) :
    e.tableFrame = ⟨entryFrame e.raw⟩ :=
  frameFloor_addressMask e.raw

/-- `is_present` tests bit 0. -/
theorem PageDirectoryEntry.isPresent_eq (e : PageDirectoryEntry) :
    e.isPresent = present e.raw := by
  have hmask : flagsMask &&& 1 = 1 := rfl
  have hand : e.flags.bits &&& 1 = e.raw &&& 1 := by
    rw [PageDirectoryEntry.flags, PageFlags.fromBits, BitVec.and_assoc, hmask]
  rw [present, ← and_one_beq, ← hand]
  rfl

/-- `is_huge` tests bit 7, as the MMU does. -/
theorem PageDirectoryEntry.isHuge_eq (e : PageDirectoryEntry) : e.isHuge = large e.raw := by
  have hbit : pageSizeBit = BitVec.twoPow 32 7 := rfl
  rw [PageDirectoryEntry.isHuge, large, hbit, BitVec.and_twoPow]
  cases e.raw.getLsbD 7 <;> rfl

theorem entryFrame_lt (raw : U32) : entryFrame raw < 2 ^ 20 := by
  have hlt := raw.isLt
  rw [entryFrame]
  omega

/-- An entry is its frame and its flags. -/
theorem pageEntry_fromBits (raw : U32) :
    pageEntry (entryFrame raw) (PageFlags.fromBits raw).bits.toNat = raw := by
  apply BitVec.eq_of_toNat_eq
  rw [toNat_fromBits, toNat_pageEntry (entryFrame_lt raw) (Nat.mod_lt _ (by decide)), entryFrame]
  exact Nat.div_add_mod ..

/-! ## The flags that can be got hold of -/

/-- The named constants. -/
def PageFlags.named : List PageFlags :=
  [.present, .writable, .user, .writeThrough, .cacheDisable, .accessed, .dirty, .global,
    .kernelRo, .kernelRw, .userRo, .userRw]

/-- The flags that the API can produce, given any entries. -/
inductive Obtainable : PageFlags → Prop where
  /-- `PageFlags::empty()`. -/
  | empty : Obtainable .empty
  | named {flags : PageFlags} : flags ∈ PageFlags.named → Obtainable flags
  /-- `union`, also written `|`. -/
  | union {flags other : PageFlags} :
      Obtainable flags → Obtainable other → Obtainable (flags.union other)
  /-- `flags()` of a table entry. -/
  | ofTableEntry (e : PageTableEntry) : Obtainable e.flags
  /-- `flags()` of a directory entry. -/
  | ofDirectoryEntry (e : PageDirectoryEntry) : Obtainable e.flags

/-- The flags that the API can produce from the entries it builds; those of large pages only if
    `huge` is set.  A frame or a base can be any value the constructor takes. -/
inductive Built (p : Profile) (huge : Bool) : PageFlags → Prop where
  | empty : Built p huge .empty
  | named {flags : PageFlags} : flags ∈ PageFlags.named → Built p huge flags
  | union {flags other : PageFlags} :
      Built p huge flags → Built p huge other → Built p huge (flags.union other)
  /-- `PageTableEntry::new(frame, flags).flags()`. -/
  | ofTableEntry {frame : FrameNumber} {flags : PageFlags} {e : PageTableEntry} :
      Built p huge flags → PageTableEntry.new p frame flags = .ok e → Built p huge e.flags
  /-- `PageDirectoryEntry::for_table(frame, flags).flags()`. -/
  | ofTable {frame : FrameNumber} {flags : PageFlags} {e : PageDirectoryEntry} :
      Built p huge flags → PageDirectoryEntry.forTable p frame flags = .ok e →
      Built p huge e.flags
  /-- `PageDirectoryEntry::for_huge_page(base, flags).flags()`. -/
  | ofHugePage {base : PhysAddr} {flags : PageFlags} {e : PageDirectoryEntry} : huge = true →
      Built p huge flags → PageDirectoryEntry.forHugePage p base flags = .ok e →
      Built p huge e.flags

theorem Built.obtainable {p : Profile} {huge : Bool} {flags : PageFlags} (h : Built p huge flags) :
    Obtainable flags := by
  induction h with
  | empty => exact .empty
  | named hmem => exact .named hmem
  | union _ _ ih ih' => exact .union ih ih'
  | ofTableEntry => exact .ofTableEntry _
  | ofTable => exact .ofDirectoryEntry _
  | ofHugePage => exact .ofDirectoryEntry _

/-- Obtainable flags stay in the low 12 bits. -/
theorem Obtainable.lt {flags : PageFlags} (h : Obtainable flags) : flags.bits.toNat < 4096 := by
  induction h with
  | empty => decide
  | named hmem =>
    have hnamed : ∀ flags ∈ PageFlags.named, flags.bits.toNat < 4096 := by decide
    exact hnamed _ hmem
  | union _ _ ih ih' => exact or_lt ih ih'
  | ofTableEntry e =>
    rw [PageTableEntry.flags, toNat_fromBits]
    exact Nat.mod_lt _ (by decide)
  | ofDirectoryEntry e =>
    rw [PageDirectoryEntry.flags, toNat_fromBits]
    exact Nat.mod_lt _ (by decide)

/-- **Packing is lossless**: obtainable flags stay in the low 12 bits; an entry built from a frame
    below `2 ^ 20` and such flags reads back exactly these, and is present exactly when the flags
    contain `PRESENT`; and any entry is packed again from what is read from it. -/
theorem packing_lossless :
    (∀ flags, Obtainable flags → flags.bits.toNat < 4096 ∧
      ∀ (p : Profile) (frame : FrameNumber), frame.index < 2 ^ 20 →
        (∃ e, PageTableEntry.new p frame flags = .ok e ∧ e.frame = frame ∧ e.flags = flags ∧
          e.isPresent = flags.contains .present) ∧
        ∃ e, PageDirectoryEntry.forTable p frame flags = .ok e ∧ e.tableFrame = frame ∧
          e.flags = flags ∧ e.isPresent = flags.contains .present) ∧
    (∀ (p : Profile) (e : PageTableEntry), PageTableEntry.new p e.frame e.flags = .ok e) ∧
    ∀ (p : Profile) (e : PageDirectoryEntry),
      PageDirectoryEntry.forTable p e.tableFrame e.flags = .ok e := by
  refine ⟨fun flags h => ⟨h.lt, fun p frame hframe => ?_⟩, fun p e => ?_, fun p e => ?_⟩
  · have hflags := fromBits_pageEntry hframe h.lt
    have hread : (PhysAddr.mk (pageEntry frame.index flags.bits.toNat &&& addressMask)).frameFloor =
        frame := by
      rw [frameFloor_addressMask, entryFrame_pageEntry hframe h.lt]
    have hpresent : (PageFlags.fromBits (pageEntry frame.index flags.bits.toNat)).contains
        .present = flags.contains .present := by
      rw [hflags]
    exact ⟨⟨_, PageTableEntry.new_eq_ok p frame flags hframe h.lt, hread, hflags, hpresent⟩,
      ⟨_, PageDirectoryEntry.forTable_eq p hframe h.lt, hread, hflags, hpresent⟩⟩
  · have hpack := PageTableEntry.new_eq_ok p ⟨entryFrame e.raw⟩ e.flags (entryFrame_lt e.raw)
      (Obtainable.ofTableEntry e).lt
    rw [PageTableEntry.frame, frameFloor_addressMask, hpack]
    exact congrArg (Except.ok ∘ PageTableEntry.mk) (pageEntry_fromBits e.raw)
  · have hframe : (FrameNumber.mk (entryFrame e.raw)).index < 2 ^ 20 := entryFrame_lt e.raw
    rw [PageDirectoryEntry.tableFrame_eq,
      PageDirectoryEntry.forTable_eq p hframe (Obtainable.ofDirectoryEntry e).lt]
    exact congrArg (Except.ok ∘ PageDirectoryEntry.mk) (pageEntry_fromBits e.raw)

/-! ## The kind of a directory entry -/

/-- The entry of a table built with these flags is not large, so the MMU walks it as a pointer to
    its frame. -/
def KeepsTable (flags : PageFlags) : Prop :=
  ∀ (p : Profile) (frame : FrameNumber), frame.index < 2 ^ 20 →
    ∃ e, PageDirectoryEntry.forTable p frame flags = .ok e ∧ e.isHuge = false ∧
      ∀ pse mem v, walkEntry pse mem e.raw v = walkTable mem frame.index e.raw v

/-- A large page built with these flags is one, and bits 22 to 31 of its entry are those of its
    base, bits 12 to 21 zero. -/
def KeepsHuge (flags : PageFlags) : Prop :=
  ∀ (p : Profile) (base : PhysAddr), 2 ^ 22 ∣ base.raw.toNat →
    ∃ e, PageDirectoryEntry.forHugePage p base flags = .ok e ∧ e.isHuge = true ∧
      e.raw.toNat / 2 ^ 22 = base.raw.toNat / 2 ^ 22 ∧ e.raw.toNat / 2 ^ 12 % 2 ^ 10 = 0

/-- Entries built with these flags keep their kind. -/
structure KeepsKind (flags : PageFlags) : Prop where
  table : KeepsTable flags
  hugePage : KeepsHuge flags

/-- The page-size bit of a table entry is that of its flags. -/
theorem large_pageEntry {f : Nat} {flags : U32} (hflags : flags.toNat < 4096) :
    large (pageEntry f flags.toNat) = flags.getLsbD 7 :=
  getLsbD_pageEntry hflags (by decide)

/-- A large page is always one, whatever its flags. -/
theorem keepsHuge_of_lt {flags : PageFlags} (hflags : flags.bits.toNat < 4096) :
    KeepsHuge flags := by
  intro p base hbase
  have hlow : (PageDirectoryEntry.pageSizeBit ||| flags.bits).toNat < 4096 :=
    or_lt (by decide) hflags
  have hlt := base.raw.isLt
  have hraw := toNat_pageEntry (show base.raw.toNat / 4096 < 2 ^ 20 by omega) hlow
  refine ⟨_, PageDirectoryEntry.forHugePage_eq p hbase hflags, ?_, ?_, ?_⟩
  · rw [PageDirectoryEntry.isHuge_eq, large_pageEntry hlow, BitVec.getLsbD_or]
    rfl
  · obtain ⟨k, hk⟩ := hbase
    rw [hraw]
    omega
  · obtain ⟨k, hk⟩ := hbase
    rw [hraw]
    omega

/-- A table entry stays one exactly when the page-size bit of its flags is clear. -/
theorem keepsTable_iff {flags : PageFlags} (hflags : flags.bits.toNat < 4096) :
    KeepsTable flags ↔ flags.bits.getLsbD 7 = false := by
  constructor
  · intro h
    obtain ⟨e, hbuilt, hhuge, _⟩ := h .dev ⟨0⟩ (by decide)
    rw [PageDirectoryEntry.forTable_eq .dev (by decide) hflags] at hbuilt
    obtain rfl := Except.ok.inj hbuilt
    rwa [PageDirectoryEntry.isHuge_eq, large_pageEntry hflags] at hhuge
  · intro hbit p frame hframe
    have hlarge : large (pageEntry frame.index flags.bits.toNat) = false :=
      (large_pageEntry hflags).trans hbit
    refine ⟨_, PageDirectoryEntry.forTable_eq p hframe hflags, ?_, fun pse mem v => ?_⟩
    · rw [PageDirectoryEntry.isHuge_eq]
      exact hlarge
    · rw [walkEntry_eq_walkTable hlarge, entryFrame_pageEntry hframe hflags]

theorem keepsKind_iff {flags : PageFlags} (hflags : flags.bits.toNat < 4096) :
    KeepsKind flags ↔ flags.bits.getLsbD 7 = false := by
  rw [← keepsTable_iff hflags]
  exact ⟨KeepsKind.table, fun h => ⟨h, keepsHuge_of_lt hflags⟩⟩

/-- A base address has no bits in the place of the flags, also when it wraps around. -/
theorem baseAddr_low {p : Profile} {frame : FrameNumber} {base : PhysAddr}
    (h : frame.baseAddr p = .ok base) : base.raw.toNat % 4096 = 0 := by
  obtain ⟨addr, hmul, hbase⟩ := checked_bind_eq_ok.mp h
  obtain rfl := Except.ok.inj hbase
  have haddr : addr % 4096 = 0 := by
    unfold mul at hmul
    split at hmul
    · obtain rfl := Except.ok.inj hmul
      exact Nat.mul_mod_left ..
    · cases p with
      | dev => cases hmul
      | release =>
        obtain rfl := Except.ok.inj hmul
        omega
  rw [BitVec.toNat_ofNat]
  omega

/-- Packing flags with a base address and reading them back leaves the page-size bit alone. -/
theorem fromBits_or_bit {p : Profile} {frame : FrameNumber} {base : PhysAddr}
    (h : frame.baseAddr p = .ok base) (flags : PageFlags) :
    (PageFlags.fromBits (base.raw ||| flags.bits)).bits.getLsbD 7 = flags.bits.getLsbD 7 := by
  have hmask : flagsMask.getLsbD 7 = true := rfl
  have hbase : base.raw.getLsbD 7 = false := by
    have hlow := baseAddr_low h
    rw [BitVec.getLsbD, Nat.testBit_eq_decide_div_mod_eq, decide_eq_false_iff_not]
    omega
  rw [PageFlags.fromBits, BitVec.getLsbD_and, BitVec.getLsbD_or, hmask, hbase, Bool.false_or,
    Bool.and_true]

/-- Without `flags()` of a large page no one gets hold of the page-size bit. -/
theorem Built.bit_clear {p : Profile} {flags : PageFlags} (h : Built p false flags) :
    flags.bits.getLsbD 7 = false := by
  induction h with
  | empty => rfl
  | named hmem =>
    have hnamed : ∀ flags ∈ PageFlags.named, flags.bits.getLsbD 7 = false := by decide
    exact hnamed _ hmem
  | union _ _ ih ih' =>
    rw [PageFlags.union, BitVec.getLsbD_or, ih, ih', Bool.or_false]
  | ofTableEntry _ hnew ih =>
    obtain ⟨base, hbase, hentry⟩ := checked_bind_eq_ok.mp hnew
    obtain rfl := Except.ok.inj hentry
    exact (fromBits_or_bit hbase _).trans ih
  | ofTable _ hnew ih =>
    obtain ⟨base, hbase, hentry⟩ := checked_bind_eq_ok.mp hnew
    obtain rfl := Except.ok.inj hentry
    exact (fromBits_or_bit hbase _).trans ih
  | ofHugePage hhuge => cases hhuge

/-- **When the kind is kept**: among the flags that can be built, large pages included, exactly
    those with the page-size bit clear keep the kind of an entry.  Those built without reading the
    flags of a large page are among them, and the entry of a large page keeps its kind always. -/
theorem entry_kind_kept_iff {p : Profile} {flags : PageFlags} (h : Built p true flags) :
    (KeepsKind flags ↔ flags.bits.getLsbD 7 = false) ∧
    (Built p false flags → KeepsKind flags) ∧ KeepsHuge flags := by
  have hflags := h.obtainable.lt
  refine ⟨keepsKind_iff hflags, fun hbuilt => ?_, keepsHuge_of_lt hflags⟩
  exact (keepsKind_iff hflags).mpr hbuilt.bit_clear

theorem entry_kind_kept_kernelRw : KeepsKind .kernelRw :=
  (entry_kind_kept_iff (p := .dev) (.named (by decide))).1.mpr rfl

/-- The flags of the large page at 0 turn the entry of the table in frame 5 into a large page:
    the MMU reads no table, and every address is translated to one in the first 4 MiB. -/
theorem entry_kind_lost :
    ∃ huge e : PageDirectoryEntry,
      PageDirectoryEntry.forHugePage .dev ⟨0⟩ .kernelRw = .ok huge ∧
      Built .dev true huge.flags ∧
      PageDirectoryEntry.forTable .dev ⟨5⟩ huge.flags = .ok e ∧ e.isHuge = true ∧
      (∀ mem v, walkEntry true mem e.raw v =
        some { phys := v % 2 ^ 22, writable := true, user := false }) ∧
      ¬ KeepsKind huge.flags := by
  have hhuge : PageDirectoryEntry.forHugePage .dev ⟨0⟩ .kernelRw = .ok ⟨0x83⟩ := by decide
  have hbuilt : Built .dev true (PageDirectoryEntry.mk 0x83).flags :=
    .ofHugePage rfl (.named (by decide)) hhuge
  refine ⟨⟨0x83⟩, ⟨0x5083⟩, hhuge, hbuilt, by decide, by decide, fun mem v => ?_, fun hkeeps => ?_⟩
  · have hwalk : walkEntry true mem 0x5083 v =
        some { phys := 0 + v % 2 ^ 22, writable := true, user := false } := rfl
    rw [hwalk, Nat.zero_add]
  · have hbit := (keepsKind_iff hbuilt.obtainable.lt).mp hkeeps
    exact absurd hbit (by decide)

end Zkrnl32.Memory.Paging
