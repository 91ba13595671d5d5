import Mathlib.Tactic

/-!
# Bytes and Memory

Little-endian numbers as lists of bytes, and a byte-addressed memory with loads and
stores of byte ranges and of 32-bit words.

All stores go through `Memory.store`, so the three facts about it are enough for
every reader: a load of what was stored, a load away from it, and a load inside a
filled range.
-/

namespace Zkrnl32.Machine

abbrev U8 := BitVec 8
abbrev U32 := BitVec 32
abbrev U64 := BitVec 64

/-! ## Little-endian numbers -/

/-- The number a list of bytes spells, least significant byte first. -/
def leNat : List U8 → Nat
  | [] => 0
  | b :: bs => b.toNat + 256 * leNat bs

/-- The `n` low bytes of a number, least significant first. -/
def leBytes : Nat → Nat → List U8
  | 0, _ => []
  | n + 1, x => BitVec.ofNat 8 x :: leBytes n (x / 256)

@[simp] theorem length_leBytes (n x : Nat) : (leBytes n x).length = n := by
  induction n generalizing x with
  | zero => rfl
  | succ n ih => simp [leBytes, ih]

/-- Reading back `n` bytes of `x` gives `x` modulo `256 ^ n`. -/
theorem leNat_leBytes (n x : Nat) : leNat (leBytes n x) = x % 256 ^ n := by
  induction n generalizing x with
  | zero => simp [leBytes, leNat, Nat.mod_one]
  | succ n ih =>
    have hsplit : x % (256 * 256 ^ n) = x % 256 + 256 * (x / 256 % 256 ^ n) := Nat.mod_mul
    rw [leBytes, leNat, ih, BitVec.toNat_ofNat, Nat.pow_succ' (n := n), hsplit]

/-- A bit vector of `8 * n` bits survives its little-endian spelling. -/
theorem ofNat_leNat_leBytes {w n : Nat} (x : BitVec w) (hw : 2 ^ w = 256 ^ n) :
    BitVec.ofNat w (leNat (leBytes n x.toNat)) = x := by
  apply BitVec.eq_of_toNat_eq
  rw [leNat_leBytes, BitVec.toNat_ofNat, ← hw, Nat.mod_mod]
  exact Nat.mod_eq_of_lt x.isLt

/-! ## Memory -/

/-- A byte-addressed memory. -/
abbrev Memory := Nat → U8

/-- The `n` bytes from address `a`. -/
def Memory.load (m : Memory) (a n : Nat) : List U8 :=
  (List.range n).map fun i => m (a + i)

/-- Stores the bytes `bs` at address `a`. -/
def Memory.store (m : Memory) (a : Nat) (bs : List U8) : Memory := fun x =>
  if a ≤ x ∧ x < a + bs.length then bs.getD (x - a) 0 else m x

/-- The little-endian 32-bit word at address `a`. -/
def Memory.load32 (m : Memory) (a : Nat) : U32 :=
  BitVec.ofNat 32 (leNat (m.load a 4))

/-- Stores a 32-bit word at address `a`, little-endian. -/
def Memory.store32 (m : Memory) (a : Nat) (w : U32) : Memory :=
  m.store a (leBytes 4 w.toNat)

@[simp] theorem Memory.length_load (m : Memory) (a n : Nat) : (m.load a n).length = n := by
  simp [Memory.load]

/-- A byte away from a store is unchanged. -/
theorem Memory.store_apply_of_not_mem (m : Memory) (a : Nat) (bs : List U8) {x : Nat}
    (hx : ¬ (a ≤ x ∧ x < a + bs.length)) : m.store a bs x = m x :=
  if_neg hx

theorem Memory.store_singleton_apply (m : Memory) (a : Nat) (b : U8) (x : Nat) :
    m.store a [b] x = if x = a then b else m x := by
  unfold Memory.store
  by_cases hx : x = a
  · simp [hx]
  · rw [if_neg hx, if_neg (by simp only [List.length_singleton]; omega)]

/-- A store of loaded bytes, byte by byte. -/
theorem Memory.store_load_apply (m m' : Memory) (a b n x : Nat) :
    m.store a (m'.load b n) x = if a ≤ x ∧ x < a + n then m' (b + (x - a)) else m x := by
  unfold Memory.store
  rw [Memory.length_load]
  split
  next h =>
    have hlt : x - a < n := by omega
    simp [Memory.load, hlt]
  next => rfl

/-- A load of exactly what was stored. -/
theorem Memory.load_store_self (m : Memory) (a : Nat) (bs : List U8) :
    (m.store a bs).load a bs.length = bs := by
  apply List.ext_getElem
  · simp
  · intro i hi hi'
    simp [Memory.load, Memory.store, hi']

/-- A load away from a store does not see it. -/
theorem Memory.load_store_of_disjoint (m : Memory) {a b n : Nat} {bs : List U8}
    (h : b + n ≤ a ∨ a + bs.length ≤ b) : (m.store a bs).load b n = m.load b n := by
  apply List.map_congr_left
  intro i hi
  rw [List.mem_range] at hi
  exact m.store_apply_of_not_mem a bs (by omega)

/-- A load inside a range filled with one byte. -/
theorem Memory.load_store_replicate (m : Memory) {a b n k : Nat} (v : U8)
    (hlo : a ≤ b) (hhi : b + n ≤ a + k) :
    (m.store a (List.replicate k v)).load b n = List.replicate n v := by
  apply List.ext_getElem
  · simp
  · intro i hi _
    simp only [Memory.length_load] at hi
    have hin : a ≤ b + i ∧ b + i < a + k := by omega
    have hidx : b + i - a < k := by omega
    simp [Memory.load, Memory.store, hin, hidx]

theorem Memory.load32_store32_self (m : Memory) (a : Nat) (w : U32) :
    (m.store32 a w).load32 a = w := by
  have hload := m.load_store_self a (leBytes 4 w.toNat)
  rw [length_leBytes] at hload
  rw [Memory.load32, Memory.store32, hload]
  exact ofNat_leNat_leBytes w (by norm_num)

theorem Memory.load32_store32_of_disjoint (m : Memory) {a b : Nat} (w : U32)
    (h : b + 4 ≤ a ∨ a + 4 ≤ b) : (m.store32 a w).load32 b = m.load32 b := by
  rw [Memory.load32, Memory.store32, Memory.load_store_of_disjoint _ (by simpa using h),
    Memory.load32]

theorem Memory.load32_store_of_disjoint (m : Memory) {a b : Nat} {bs : List U8}
    (h : b + 4 ≤ a ∨ a + bs.length ≤ b) : (m.store a bs).load32 b = m.load32 b := by
  rw [Memory.load32, Memory.load_store_of_disjoint _ h, Memory.load32]

/-- A word inside a zero-filled range is zero. -/
theorem Memory.load32_store_zeros (m : Memory) {a b k : Nat}
    (hlo : a ≤ b) (hhi : b + 4 ≤ a + k) :
    (m.store a (List.replicate k 0)).load32 b = 0 := by
  rw [Memory.load32, Memory.load_store_replicate _ _ hlo hhi]
  rfl

/-! ## Parts of memory -/

theorem Memory.store_cons (m : Memory) (a : Nat) (b : U8) (bs : List U8) :
    (m.store a [b]).store (a + 1) bs = m.store a (b :: bs) := by
  funext x
  simp only [Memory.store, List.length_cons, List.length_nil, Nat.zero_add]
  by_cases hx : x = a
  · subst hx
    simp
  · by_cases hin : a + 1 ≤ x ∧ x < a + 1 + bs.length
    · obtain ⟨d, rfl⟩ : ∃ d, x = a + 1 + d := ⟨x - (a + 1), by omega⟩
      rw [if_pos hin, if_pos (by omega), show a + 1 + d - (a + 1) = d by omega,
        show a + 1 + d - a = d + 1 by omega, List.getD_cons_succ]
    · rw [if_neg hin, if_neg (by omega), if_neg (by omega)]

/-- A store changes its own range only. -/
theorem Memory.store_eqOn (m : Memory) (a : Nat) (bs : List U8) :
    Set.EqOn (m.store a bs) m (Set.Ico a (a + bs.length))ᶜ :=
  fun _ hx => m.store_apply_of_not_mem a bs hx

theorem Memory.store32_eqOn (m : Memory) (a : Nat) (w : U32) :
    Set.EqOn (m.store32 a w) m (Set.Ico a (a + 4))ᶜ := by
  have h := m.store_eqOn a (leBytes 4 w.toNat)
  rwa [length_leBytes] at h

theorem Memory.load_congr {m m' : Memory} {a n : Nat} (h : ∀ x, a ≤ x → x < a + n → m' x = m x) :
    m'.load a n = m.load a n := by
  apply List.map_congr_left
  intro i hi
  rw [List.mem_range] at hi
  exact h _ (by omega) (by omega)

theorem Memory.load32_congr {m m' : Memory} {a : Nat} (h : ∀ x, a ≤ x → x < a + 4 → m' x = m x) :
    m'.load32 a = m.load32 a := by
  rw [Memory.load32, Memory.load_congr h, Memory.load32]

/-- Byte `k` of a spelled number. -/
theorem getElem?_leBytes {n k : Nat} (hk : k < n) (x : Nat) :
    (leBytes n x)[k]? = some (BitVec.ofNat 8 (x / 256 ^ k)) := by
  induction n generalizing x k with
  | zero => omega
  | succ n ih =>
    cases k with
    | zero => simp [leBytes]
    | succ k =>
      rw [leBytes, List.getElem?_cons_succ, ih (by omega), Nat.div_div_eq_div_mul, Nat.pow_succ']

theorem Memory.getElem?_load (m : Memory) (a : Nat) {n k : Nat} (hk : k < n) :
    (m.load a n)[k]? = some (m (a + k)) := by
  simp [Memory.load, hk]

/-- A range of memory spells a number exactly when each of its bytes does. -/
theorem load_eq_leBytes_iff {w : Nat} (m : Memory) (a n : Nat) (x : BitVec w) :
    m.load a n = leBytes n x.toNat ↔ ∀ k < n, m (a + k) = x.extractLsb' (8 * k) 8 := by
  have hbyte : ∀ k, BitVec.ofNat 8 (x.toNat / 256 ^ k) = x.extractLsb' (8 * k) 8 := by
    intro k
    apply BitVec.eq_of_toNat_eq
    rw [BitVec.extractLsb'_toNat, BitVec.toNat_ofNat, Nat.shiftRight_eq_div_pow, Nat.pow_mul]
  constructor
  · intro h k hk
    have hget := m.getElem?_load a hk
    rw [h, getElem?_leBytes hk, hbyte] at hget
    exact (Option.some.inj hget).symm
  · intro h
    apply List.ext_getElem?
    intro k
    by_cases hk : k < n
    · rw [m.getElem?_load a hk, getElem?_leBytes hk, hbyte, h k hk]
    · rw [List.getElem?_eq_none (by simpa using hk), List.getElem?_eq_none (by simpa using hk)]

/-- A load of a part of what was stored. -/
theorem Memory.load_store_within (m : Memory) (a : Nat) {i n : Nat} {bs : List U8}
    (h : i + n ≤ bs.length) : (m.store a bs).load (a + i) n = (bs.drop i).take n := by
  apply List.ext_getElem?
  intro k
  by_cases hk : k < n
  · rw [Memory.getElem?_load _ _ hk, List.getElem?_take_of_lt hk, List.getElem?_drop,
      Memory.store, if_pos (by omega), show a + i + k - a = i + k by omega,
      List.getD_eq_getElem?_getD, List.getElem?_eq_getElem (by omega), Option.getD_some]
  · rw [List.getElem?_eq_none (by simpa using hk), List.getElem?_eq_none (by simp; omega)]

end Zkrnl32.Machine
