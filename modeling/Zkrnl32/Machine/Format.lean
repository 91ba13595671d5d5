import Zkrnl32.Machine.Bytes

/-!
# Formatted Text

Text as the bytes a console receives, and numbers as a formatter spells them: `0x` with zeros up to
a number of digits, or decimal with blanks up to a width.

- `ascii`: the bytes of a text.
- `OneLine`: a text of single bytes without a line end; its bytes have none either.
- `Fits n`: a line of at most `n` characters.  Lines are put together by `Fits.append` from their
  literal parts and their numbers.
-/

namespace Zkrnl32.Machine

/-! ## Text -/

/-- The bytes of an ASCII text. -/
def ascii (text : String) : List U8 := text.toList.map fun c => BitVec.ofNat 8 c.toNat

@[simp] theorem ascii_append (text text' : String) :
    ascii (text ++ text') = ascii text ++ ascii text' := by
  simp [ascii]

@[simp] theorem length_ascii (text : String) : (ascii text).length = text.length := by
  simp [ascii, String.length_toList]

/-- A text of single bytes without a line end. -/
def OneLine (text : String) : Prop := ∀ c ∈ text.toList, c.toNat < 256 ∧ c ≠ '\n'

instance (text : String) : Decidable (OneLine text) :=
  List.decidableBAll (fun c : Char => c.toNat < 256 ∧ c ≠ '\n') text.toList

theorem OneLine.append {text text' : String} (h : OneLine text) (h' : OneLine text') :
    OneLine (text ++ text') := by
  intro c hc
  rw [String.toList_append, List.mem_append] at hc
  exact hc.elim (h c) (h' c)

/-- The line end is the only character with its byte. -/
theorem OneLine.ascii_ne {text : String} (h : OneLine text) {b : U8} (hb : b ∈ ascii text) :
    b ≠ 0x0a := by
  obtain ⟨c, hc, rfl⟩ := List.mem_map.mp hb
  obtain ⟨hlt, hne⟩ := h c hc
  intro heq
  have htoNat : c.toNat = 10 := by
    have := congrArg BitVec.toNat heq
    rw [BitVec.toNat_ofNat, Nat.mod_eq_of_lt hlt] at this
    exact this
  exact hne (Char.toNat_inj.mp htoNat)

/-- A text of one line and at most `n` characters. -/
structure Fits (n : Nat) (text : String) : Prop where
  oneLine : OneLine text
  length_le : text.length ≤ n

instance (n : Nat) (text : String) : Decidable (Fits n text) :=
  decidable_of_iff (OneLine text ∧ text.length ≤ n) ⟨fun h => ⟨h.1, h.2⟩, fun h => ⟨h.1, h.2⟩⟩

theorem Fits.append {n n' : Nat} {text text' : String} (h : Fits n text) (h' : Fits n' text') :
    Fits (n + n') (text ++ text') := by
  refine ⟨h.oneLine.append h'.oneLine, ?_⟩
  rw [String.length_append]
  exact Nat.add_le_add h.length_le h'.length_le

theorem Fits.mono {n n' : Nat} {text : String} (h : Fits n text) (hle : n ≤ n') : Fits n' text :=
  ⟨h.oneLine, h.length_le.trans hle⟩

/-! ## Numbers -/

/-- `0x` and at least `digits` hexadecimal digits. -/
def hexPadded (digits n : Nat) : String :=
  "0x" ++ String.ofList (List.leftpad digits '0' (Nat.toDigits 16 n))

/-- A decimal number, aligned to the right in `width` columns. -/
def decPadded (width n : Nat) : String :=
  String.ofList (List.leftpad width ' ' (Nat.toDigits 10 n))

theorem mem_toDigits {b n : Nat} {c : Char} (hb : 1 < b) (h : c ∈ Nat.toDigits b n) :
    ∃ d < b, c = Nat.digitChar d := by
  induction n using Nat.strongRecOn with
  | ind n ih =>
    rw [Nat.toDigits_eq_if hb] at h
    split at h
    next hlt => exact ⟨n, hlt, List.mem_singleton.mp h⟩
    next hge =>
      rcases List.mem_append.mp h with hhead | hlast
      · exact ih (n / b) (Nat.div_lt_self (by omega) hb) hhead
      · exact ⟨n % b, Nat.mod_lt n (by omega), List.mem_singleton.mp hlast⟩

theorem mem_leftpad {α : Type} {n : Nat} {a c : α} {l : List α} (h : c ∈ List.leftpad n a l) :
    c = a ∨ c ∈ l := by
  rw [List.leftpad, List.mem_append] at h
  exact h.imp_left List.eq_of_mem_replicate

/-- Padded digits are a text of one line. -/
theorem oneLine_leftpad {b width n : Nat} {pad : Char} (hb : 1 < b) (hb' : b ≤ 16)
    (hpad : pad.toNat < 256 ∧ pad ≠ '\n') :
    OneLine (String.ofList (List.leftpad width pad (Nat.toDigits b n))) := by
  have hdigit : ∀ d < 16, (Nat.digitChar d).toNat < 256 ∧ Nat.digitChar d ≠ '\n' := by decide
  intro c hc
  rw [String.toList_ofList] at hc
  rcases mem_leftpad hc with rfl | hc
  · exact hpad
  · obtain ⟨d, hd, rfl⟩ := mem_toDigits hb hc
    exact hdigit d (by omega)

theorem oneLine_hexPadded (digits n : Nat) : OneLine (hexPadded digits n) :=
  OneLine.append (by decide) (oneLine_leftpad (by decide) (by decide) (by decide))

theorem oneLine_decPadded (width n : Nat) : OneLine (decPadded width n) :=
  oneLine_leftpad (by decide) (by decide) (by decide)

theorem toString_eq_decPadded (n : Nat) : toString n = decPadded 0 n := by
  rw [Nat.toString_eq_ofList_toDigits, decPadded, List.leftpad, Nat.zero_sub]
  rfl

theorem fits_hexPadded {digits n k : Nat} (hpos : 0 < k) (h : n < 16 ^ k) :
    Fits (max digits k + 2) (hexPadded digits n) := by
  refine ⟨oneLine_hexPadded digits n, ?_⟩
  have hlen := (Nat.length_toDigits_le_iff (by decide) hpos).mpr h
  have hprefix : "0x".length = 2 := rfl
  rw [hexPadded, String.length_append, hprefix, String.length_ofList, List.length_leftpad]
  omega

theorem fits_decPadded {width n k : Nat} (hpos : 0 < k) (h : n < 10 ^ k) :
    Fits (max width k) (decPadded width n) := by
  refine ⟨oneLine_decPadded width n, ?_⟩
  have hlen := (Nat.length_toDigits_le_iff (by decide) hpos).mpr h
  rw [decPadded, String.length_ofList, List.length_leftpad]
  omega

theorem fits_toString {n k : Nat} (hpos : 0 < k) (h : n < 10 ^ k) : Fits k (toString n) := by
  rw [toString_eq_decPadded]
  exact (fits_decPadded hpos h).mono (by omega)

end Zkrnl32.Machine
