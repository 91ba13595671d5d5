import Mathlib.Logic.Function.Basic
import Zkrnl32.Machine.Bytes

/-!
# The i386 Page Walk

The two-level, non-PAE address translation of the i386, and the address spaces that a
directory in memory represents.

- `walk`: what the MMU does for one address.
- `AddressSpace`: a table frame for every directory slot and an entry for every page, with
  `addTable` and `setEntry` as the two ways to extend it.
- `Represents`: a directory with a recursive last slot spells an address space.  The two
  updates keep it (`Represents.addTable`, `Represents.setEntry`).
- `Represents.walk_below`, `Represents.walk_window`: what the MMU then sees, below the
  recursive window and inside it.
-/

namespace Zkrnl32.Machine

/-! ## Entries -/

/-- Bit 0: the entry is present. -/
def present (e : U32) : Bool := e.getLsbD 0

/-- Bit 1: writes are allowed. -/
def writable (e : U32) : Bool := e.getLsbD 1

/-- Bit 2: user mode may access the page. -/
def user (e : U32) : Bool := e.getLsbD 2

/-- Bit 7 of a directory entry: it maps 4 MiB directly. -/
def large (e : U32) : Bool := e.getLsbD 7

/-- The frame an entry points at. -/
def entryFrame (e : U32) : Nat := e.toNat / 4096

/-- The entry that points at `frame` with the 12 low bits `flags`. -/
def pageEntry (frame flags : Nat) : U32 := BitVec.ofNat 32 (4096 * frame + flags)

/-- The directory entry of a table: present and writable. -/
def tableEntry (frame : Nat) : U32 := pageEntry frame 3

section Entries

variable {frame flags : Nat}

theorem toNat_pageEntry (hframe : frame < 2 ^ 20) (hflags : flags < 4096) :
    (pageEntry frame flags).toNat = 4096 * frame + flags := by
  rw [pageEntry, BitVec.toNat_ofNat, Nat.mod_eq_of_lt (by omega)]

theorem entryFrame_pageEntry (hframe : frame < 2 ^ 20) (hflags : flags < 4096) :
    entryFrame (pageEntry frame flags) = frame := by
  rw [entryFrame, toNat_pageEntry hframe hflags]
  omega

/-- The low 12 bits of an entry are its flags. -/
theorem getLsbD_pageEntry (hflags : flags < 4096) {i : Nat} (hi : i < 12) :
    (pageEntry frame flags).getLsbD i = flags.testBit i := by
  have hsplit := Nat.testBit_two_pow_mul_add (i := 12) frame hflags i
  rw [pageEntry, BitVec.getLsbD_ofNat, hsplit, if_pos hi, decide_eq_true (by omega : i < 32),
    Bool.true_and]

@[simp] theorem present_zero : present 0#32 = false := rfl

@[simp] theorem present_tableEntry (frame : Nat) : present (tableEntry frame) = true :=
  getLsbD_pageEntry (by decide) (by decide)

@[simp] theorem writable_tableEntry (frame : Nat) : writable (tableEntry frame) = true :=
  getLsbD_pageEntry (by decide) (by decide)

@[simp] theorem user_tableEntry (frame : Nat) : user (tableEntry frame) = false :=
  getLsbD_pageEntry (by decide) (by decide)

@[simp] theorem large_tableEntry (frame : Nat) : large (tableEntry frame) = false :=
  getLsbD_pageEntry (by decide) (by decide)

theorem entryFrame_tableEntry (hframe : frame < 2 ^ 20) : entryFrame (tableEntry frame) = frame :=
  entryFrame_pageEntry hframe (by decide)

end Entries

/-! ## The walk -/

/-- Where an address leads, and the rights that every level grants. -/
structure Translation where
  phys : Nat
  writable : Bool
  user : Bool
  deriving DecidableEq, Repr

/-- Entry `i` of the table in `frame`. -/
def Memory.entry (mem : Memory) (frame i : Nat) : U32 := mem.load32 (4096 * frame + 4 * i)

/-- The translation of the address `v` once its directory entry `pde` is read; `pse` is
    `CR4.PSE`, without which no directory entry is large. -/
def walkEntry (pse : Bool) (mem : Memory) (pde : U32) (v : Nat) : Option Translation :=
  if !present pde then none
  -- a large entry is its own leaf: the low 22 bits of the address are the offset
  else if pse && large pde then
    some { phys := pde.toNat / 2 ^ 22 * 2 ^ 22 + v % 2 ^ 22
           writable := writable pde
           user := user pde }
  else
    let pte := mem.entry (entryFrame pde) (v / 4096 % 1024)
    if !present pte then none
    else
      -- a right holds only when both levels grant it
      some { phys := 4096 * entryFrame pte + v % 4096
             writable := writable pde && writable pte
             user := user pde && user pte }

/-- The translation of the address `v` by the directory in the frame `dir`. -/
def walk (pse : Bool) (mem : Memory) (dir v : Nat) : Option Translation :=
  walkEntry pse mem (mem.entry dir (v / 2 ^ 22)) v

/-- The second level of a walk: through the table in `frame`, within the rights of `pde`. -/
def walkTable (mem : Memory) (frame : Nat) (pde : U32) (v : Nat) : Option Translation :=
  let pte := mem.entry frame (v / 4096 % 1024)
  if present pde && present pte then
    some { phys := 4096 * entryFrame pte + v % 4096
           writable := writable pde && writable pte
           user := user pde && user pte }
  else none

/-- An entry that is not large leads to the table in its frame, with and without `CR4.PSE`. -/
theorem walkEntry_eq_walkTable {pde : U32} (hlarge : large pde = false) (pse : Bool)
    (mem : Memory) (v : Nat) :
    walkEntry pse mem pde v = walkTable mem (entryFrame pde) pde v := by
  simp only [walkEntry, walkTable, hlarge, Bool.and_false, Bool.false_eq_true, if_false]
  cases present pde
  · rfl
  · cases present (mem.entry (entryFrame pde) (v / 4096 % 1024)) <;> rfl

/-- A walk through a table, once its directory entry is known. -/
theorem walk_of_table {pse : Bool} {mem : Memory} {dir v t : Nat} (ht : t < 2 ^ 20)
    (hpde : mem.entry dir (v / 2 ^ 22) = tableEntry t) :
    walk pse mem dir v =
      if present (mem.entry t (v / 4096 % 1024)) then
        some { phys := 4096 * entryFrame (mem.entry t (v / 4096 % 1024)) + v % 4096
               writable := writable (mem.entry t (v / 4096 % 1024))
               user := false }
      else none := by
  simp only [walk, walkEntry, hpde, present_tableEntry, large_tableEntry, writable_tableEntry,
    user_tableEntry, entryFrame_tableEntry ht, Bool.and_false, Bool.not_true,
    Bool.false_eq_true, if_false, Bool.true_and, Bool.false_and]
  cases present (mem.entry t (v / 4096 % 1024)) <;> rfl

/-- A walk through an absent directory entry. -/
theorem walk_of_zero {pse : Bool} {mem : Memory} {dir v : Nat}
    (hpde : mem.entry dir (v / 2 ^ 22) = 0) : walk pse mem dir v = none := by
  simp only [walk, walkEntry, hpde, BitVec.ofNat_eq_ofNat, present_zero, Bool.not_false, if_true]

/-! ## Stores to tables -/

/-- A store to one entry changes that entry only. -/
theorem Memory.entry_store32 (mem : Memory) {a b i j : Nat} (hi : i < 1024) (hj : j < 1024)
    (e : U32) :
    (mem.store32 (4096 * a + 4 * i) e).entry b j =
      if b = a ∧ j = i then e else mem.entry b j := by
  unfold Memory.entry
  split
  next h =>
    rw [h.1, h.2]
    exact mem.load32_store32_self _ e
  next h => exact mem.load32_store32_of_disjoint e (by omega)

/-- Zeroing a frame clears its entries only. -/
theorem Memory.entry_zeroed (mem : Memory) {a b j : Nat} (hj : j < 1024) :
    (mem.store (4096 * a) (List.replicate 4096 0)).entry b j =
      if b = a then 0 else mem.entry b j := by
  unfold Memory.entry
  split
  next h =>
    rw [h]
    exact mem.load32_store_zeros (by omega) (by omega)
  next h => exact mem.load32_store_of_disjoint (by simp only [List.length_replicate]; omega)

/-- A frame zeroed, then one entry stored. -/
theorem Memory.entry_zeroed_store32 (mem : Memory) {t a b i j : Nat} (hi : i < 1024)
    (hj : j < 1024) (e : U32) :
    ((mem.store (4096 * t) (List.replicate 4096 0)).store32 (4096 * a + 4 * i) e).entry b j =
      if b = a ∧ j = i then e else if b = t then 0 else mem.entry b j := by
  rw [Memory.entry_store32 _ hi hj, Memory.entry_zeroed _ hj]

/-! ## Address spaces -/

/-- An address space: the frame of the table behind every directory slot, if there is one,
    and the entry of every page. -/
structure AddressSpace where
  table : Nat → Option Nat
  entry : Nat → U32

/-- Nothing is mapped. -/
def AddressSpace.empty : AddressSpace := ⟨fun _ => none, fun _ => 0⟩

/-- Puts an empty table in `frame` behind slot `i`. -/
def AddressSpace.addTable (space : AddressSpace) (i frame : Nat) : AddressSpace :=
  { space with table := Function.update space.table i (some frame) }

/-- The tables after an addition: the new one and the old ones. -/
theorem AddressSpace.table_addTable {space : AddressSpace} {i t i' t' : Nat}
    (h : (space.addTable i t).table i' = some t') :
    i' = i ∧ t' = t ∨ i' ≠ i ∧ space.table i' = some t' := by
  by_cases hi : i' = i
  · subst hi
    simp only [AddressSpace.addTable, Function.update_self, Option.some.injEq] at h
    exact Or.inl ⟨rfl, h.symm⟩
  · simp only [AddressSpace.addTable, Function.update_of_ne hi] at h
    exact Or.inr ⟨hi, h⟩

/-- Gives the page `page` the entry `e`. -/
def AddressSpace.setEntry (space : AddressSpace) (page : Nat) (e : U32) : AddressSpace :=
  { space with entry := Function.update space.entry page e }

/-- Where an address below the recursive window leads. -/
def AddressSpace.translate (space : AddressSpace) (v : Nat) : Option Translation :=
  let e := space.entry (v / 4096)
  if present e then
    some { phys := 4096 * entryFrame e + v % 4096, writable := writable e, user := false }
  else none

/-- The directory in `dir`, whose last slot points at itself, spells `space`.  The directory
    and the tables are pairwise distinct frames. -/
structure Represents (mem : Memory) (dir : Nat) (space : AddressSpace) : Prop where
  dir_lt : dir < 2 ^ 20
  self : mem.entry dir 1023 = tableEntry dir
  slot : ∀ i < 1023, mem.entry dir i = (space.table i).elim 0 tableEntry
  table_spec : ∀ i t, space.table i = some t → i < 1023 ∧ t < 2 ^ 20 ∧ t ≠ dir
  table_inj : ∀ i i' t, space.table i = some t → space.table i' = some t → i = i'
  leaf : ∀ i t, space.table i = some t → ∀ j < 1024, mem.entry t j = space.entry (1024 * i + j)
  absent : ∀ i, space.table i = none → ∀ j < 1024, space.entry (1024 * i + j) = 0

section Represents

variable {mem : Memory} {dir : Nat} {space : AddressSpace}

/-- A zeroed directory with its recursive slot represents the empty space. -/
theorem represents_empty (mem : Memory) (hdir : dir < 2 ^ 20) :
    Represents ((mem.store (4096 * dir) (List.replicate 4096 0)).store32
      (4096 * dir + 4 * 1023) (tableEntry dir)) dir .empty where
  dir_lt := hdir
  self := by rw [Memory.entry_zeroed_store32 _ (by decide) (by decide), if_pos ⟨rfl, rfl⟩]
  slot := by
    intro i hi
    rw [Memory.entry_zeroed_store32 _ (by decide) (by omega), if_neg (by omega), if_pos rfl]
    rfl
  table_spec := fun _ _ h => by cases h
  table_inj := fun _ _ _ h => by cases h
  leaf := fun _ _ h => by cases h
  absent := fun _ _ _ _ => rfl

/-- A zeroed fresh frame, linked into an absent slot, adds an empty table. -/
theorem Represents.addTable (h : Represents mem dir space) {i t : Nat} (hi : i < 1023)
    (habsent : space.table i = none) (ht : t < 2 ^ 20) (hdir : t ≠ dir)
    (hfresh : ∀ i', space.table i' ≠ some t) :
    Represents ((mem.store (4096 * t) (List.replicate 4096 0)).store32
      (4096 * dir + 4 * i) (tableEntry t)) dir (space.addTable i t) where
  dir_lt := h.dir_lt
  self := by
    rw [Memory.entry_zeroed_store32 _ (by omega) (by decide), if_neg (by omega),
      if_neg (Ne.symm hdir)]
    exact h.self
  slot := by
    intro i' hi'
    rw [Memory.entry_zeroed_store32 _ (by omega) (by omega)]
    by_cases hii : i' = i
    · subst hii
      simp [AddressSpace.addTable]
    · rw [if_neg (by tauto), if_neg (Ne.symm hdir), h.slot i' hi']
      simp [AddressSpace.addTable, hii]
  table_spec := by
    intro i' t' ht'
    rcases AddressSpace.table_addTable ht' with ⟨rfl, rfl⟩ | ⟨_, hold⟩
    · exact ⟨hi, ht, hdir⟩
    · exact h.table_spec i' t' hold
  table_inj := by
    intro i₁ i₂ t' h₁ h₂
    rcases AddressSpace.table_addTable h₁ with ⟨rfl, rfl⟩ | ⟨_, hold₁⟩
    · rcases AddressSpace.table_addTable h₂ with ⟨rfl, _⟩ | ⟨_, hold₂⟩
      · rfl
      · exact absurd hold₂ (hfresh i₂)
    · rcases AddressSpace.table_addTable h₂ with ⟨rfl, rfl⟩ | ⟨_, hold₂⟩
      · exact absurd hold₁ (hfresh i₁)
      · exact h.table_inj i₁ i₂ t' hold₁ hold₂
  leaf := by
    -- The new table was zeroed and its pages had no entries; the old tables are other frames.
    intro i' t' ht' j hj
    rcases AddressSpace.table_addTable ht' with ⟨rfl, rfl⟩ | ⟨_, hold⟩
    · rw [Memory.entry_zeroed_store32 _ (by omega) hj, if_neg (by tauto), if_pos rfl]
      exact (h.absent i' habsent j hj).symm
    · have hspec := h.table_spec i' t' hold
      have hne : t' ≠ t := fun heq => hfresh i' (heq ▸ hold)
      rw [Memory.entry_zeroed_store32 _ (by omega) hj, if_neg (by tauto), if_neg hne]
      exact h.leaf i' t' hold j hj
  absent := by
    intro i' hnone
    by_cases hii : i' = i
    · subst hii
      simp [AddressSpace.addTable] at hnone
    · simp only [AddressSpace.addTable, Function.update_of_ne hii] at hnone
      exact h.absent i' hnone

/-- A store to an entry of a table sets that page's entry. -/
theorem Represents.setEntry (h : Represents mem dir space) {i j t : Nat}
    (htable : space.table i = some t) (hj : j < 1024) (e : U32) :
    Represents (mem.store32 (4096 * t + 4 * j) e) dir (space.setEntry (1024 * i + j) e) where
  dir_lt := h.dir_lt
  self := by
    obtain ⟨_, _, hne⟩ := h.table_spec i t htable
    rw [Memory.entry_store32 _ hj (by decide), if_neg (by tauto)]
    exact h.self
  slot := by
    intro i' hi'
    obtain ⟨_, _, hne⟩ := h.table_spec i t htable
    rw [Memory.entry_store32 _ hj (by omega), if_neg (by tauto)]
    exact h.slot i' hi'
  table_spec := h.table_spec
  table_inj := h.table_inj
  leaf := by
    intro i' t' ht' j' hj'
    rw [Memory.entry_store32 _ hj hj']
    by_cases hsame : t' = t ∧ j' = j
    · -- A frame is the table of one slot only, so the stored entry is the page's own.
      obtain ⟨rfl, rfl⟩ := hsame
      obtain rfl := h.table_inj i' i t' ht' htable
      simp [AddressSpace.setEntry]
    · have hpage : 1024 * i' + j' ≠ 1024 * i + j := by
        intro heq
        obtain rfl : i' = i := by omega
        exact hsame ⟨Option.some.inj (ht'.symm.trans htable), by omega⟩
      rw [if_neg hsame, h.leaf i' t' ht' j' hj']
      simp [AddressSpace.setEntry, hpage]
  absent := by
    intro i' hnone j' hj'
    have hne : i' ≠ i := fun heq => by simp [AddressSpace.setEntry, heq, htable] at hnone
    have hpage : 1024 * i' + j' ≠ 1024 * i + j := by omega
    simp only [AddressSpace.setEntry, Function.update_of_ne hpage]
    exact h.absent i' hnone j' hj'

/-- Below the recursive window the MMU sees exactly the represented space. -/
theorem Represents.walk_below (h : Represents mem dir space) (pse : Bool) {v : Nat}
    (hv : v < 0xFFC00000) : walk pse mem dir v = space.translate v := by
  -- The two indices of the walk spell the page number.
  have hpage : 1024 * (v / 2 ^ 22) + v / 4096 % 1024 = v / 4096 := by omega
  have hslot := h.slot (v / 2 ^ 22) (by omega)
  cases htable : space.table (v / 2 ^ 22) with
  | none =>
    have hentry := h.absent _ htable (v / 4096 % 1024) (by omega)
    rw [hpage] at hentry
    rw [htable] at hslot
    rw [walk_of_zero hslot]
    simp [AddressSpace.translate, hentry]
  | some t =>
    have hleaf := h.leaf _ t htable (v / 4096 % 1024) (by omega)
    rw [hpage] at hleaf
    rw [htable] at hslot
    rw [walk_of_table (h.table_spec _ t htable).2.1 hslot, hleaf]
    rfl

/-- A directory slot is absent, or it holds the entry of the directory itself or of a table. -/
theorem Represents.slot_cases (h : Represents mem dir space) {i : Nat} (hi : i < 1024) :
    mem.entry dir i = 0 ∨ ∃ t, mem.entry dir i = tableEntry t ∧ t < 2 ^ 20 ∧
      (i = 1023 ∧ t = dir ∨ space.table i = some t) := by
  by_cases hlast : i = 1023
  · exact Or.inr ⟨dir, hlast ▸ h.self, h.dir_lt, Or.inl ⟨hlast, rfl⟩⟩
  · rw [h.slot i (by omega)]
    cases htable : space.table i with
    | none => exact Or.inl rfl
    | some t => exact Or.inr ⟨t, rfl, (h.table_spec i t htable).2.1, Or.inr rfl⟩

/-- The recursive window shows the tables and the directory as writable pages. -/
theorem Represents.walk_window (h : Represents mem dir space) (pse : Bool) {i off : Nat}
    (hi : i < 1024) (hoff : off < 4096) :
    walk pse mem dir (0xFFC00000 + 4096 * i + off) =
      if present (mem.entry dir i) then
        some ⟨4096 * entryFrame (mem.entry dir i) + off, true, false⟩
      else none := by
  have hslot : (0xFFC00000 + 4096 * i + off) / 2 ^ 22 = 1023 := by omega
  have hindex : (0xFFC00000 + 4096 * i + off) / 4096 % 1024 = i := by omega
  have hoffset : (0xFFC00000 + 4096 * i + off) % 4096 = off := by omega
  -- The directory serves as the table; its entry `i` leads on to the shown frame.
  rw [walk_of_table h.dir_lt (by rw [hslot]; exact h.self), hindex, hoffset]
  rcases h.slot_cases hi with hzero | ⟨t, ht, _⟩
  · simp [hzero]
  · simp [ht]

/-- What an address in the recursive window leads to. -/
theorem Represents.walk_window_cases (h : Represents mem dir space) {pse : Bool} {v : Nat}
    (hlo : 0xFFC00000 ≤ v) (hhi : v < 2 ^ 32) {tr : Translation}
    (htr : walk pse mem dir v = some tr) :
    ∃ i < 1024, present (mem.entry dir i) = true ∧
      tr = ⟨4096 * entryFrame (mem.entry dir i) + v % 4096, true, false⟩ := by
  have hv : v = 0xFFC00000 + 4096 * ((v - 0xFFC00000) / 4096) + v % 4096 := by omega
  rw [hv, h.walk_window pse (by omega) (by omega)] at htr
  split at htr
  next hpresent => exact ⟨_, by omega, hpresent, (Option.some.inj htr).symm⟩
  next => cases htr

/-- No walk leads ring 3 anywhere. -/
theorem Represents.walk_user (h : Represents mem dir space) {pse : Bool} {v : Nat}
    (hv : v < 2 ^ 32) {tr : Translation} (htr : walk pse mem dir v = some tr) :
    tr.user = false := by
  by_cases hbelow : v < 0xFFC00000
  · rw [h.walk_below pse hbelow, AddressSpace.translate] at htr
    split at htr
    next =>
      cases htr
      rfl
    next => cases htr
  · obtain ⟨i, -, -, rfl⟩ := h.walk_window_cases (by omega) hv htr
    rfl

/-- What memory holds outside the directory and its tables does not matter. -/
theorem Represents.congr (h : Represents mem dir space) {mem' : Memory}
    (hmem : ∀ f, f = dir ∨ (∃ i, space.table i = some f) → ∀ j < 1024,
      mem'.entry f j = mem.entry f j) : Represents mem' dir space where
  dir_lt := h.dir_lt
  self := (hmem dir (Or.inl rfl) 1023 (by decide)).trans h.self
  slot := fun i hi => (hmem dir (Or.inl rfl) i (by omega)).trans (h.slot i hi)
  table_spec := h.table_spec
  table_inj := h.table_inj
  leaf := fun i t ht j hj => (hmem t (Or.inr ⟨i, ht⟩) j hj).trans (h.leaf i t ht j hj)
  absent := h.absent

end Represents

end Zkrnl32.Machine
