import Mathlib.Data.List.DropRight
import Mathlib.Tactic

/-!
# Text on a Scrolling Screen

A screen of `width` columns and `height` rows, and the text that typing leaves on it.

- `wrapLine`, `wrapRows`: the rows of a text, split at its line ends and cut at the width.  What
  one more item does to them is `wrapRows_concat`.
- `Screen`: the cells and a cursor.  The cursor may rest behind the last column: a full row is
  left only when the next item comes (`Screen.type`).
- `Screen.ShowsBehind`: the screen shows the last `height` rows of a text that was typed behind some
  other rows, and blanks elsewhere.  Typing keeps it (`ShowsBehind.type`).
-/

namespace Zkrnl32.Machine

variable {α : Type} {width height : Nat} {isNewline : α → Bool}

/-! ## The rows of a text -/

/-- A line cut into rows of `width` items; an empty line is one empty row. -/
def wrapLine (width : Nat) (line : List α) : List (List α) :=
  if 0 < width ∧ width < line.length then
    line.take width :: wrapLine width (line.drop width)
  else [line]
termination_by line.length
decreasing_by
  rw [List.length_drop]
  omega

/-- A text split at its line ends, with every line wrapped. -/
def wrapRows (width : Nat) (isNewline : α → Bool) (text : List α) : List (List α) :=
  (text.splitOnP isNewline).flatMap (wrapLine width)

/-- What becomes of the last row when `a` is typed: a full row stays, and `a` starts a new one. -/
def extendRow (width : Nat) (last : List α) (a : α) : List (List α) :=
  if last.length < width then [last ++ [a]] else [last, [a]]

theorem wrapLine_of_le {line : List α} (h : line.length ≤ width) :
    wrapLine width line = [line] := by
  rw [wrapLine, if_neg (by omega)]

theorem wrapLine_of_lt {line : List α} (hwidth : 0 < width) (h : width < line.length) :
    wrapLine width line = line.take width :: wrapLine width (line.drop width) := by
  rw [wrapLine, if_pos ⟨hwidth, h⟩]

/-- A line of exactly two rows does not open a third; an empty line takes one. -/
example : wrapLine 2 ['a', 'b', 'c', 'd'] = [['a', 'b'], ['c', 'd']] ∧
    wrapLine 2 ([] : List Char) = [[]] := by
  simp [wrapLine]

theorem wrapLine_concat (hwidth : 0 < width) (line : List α) :
    ∃ init last, wrapLine width line = init ++ [last] ∧
      ∀ a, wrapLine width (line ++ [a]) = init ++ extendRow width last a := by
  induction line using wrapLine.induct width with
  | case1 line h ih =>
    -- The first row is cut off in the same way from both lines.
    obtain ⟨init, last, hrows, hext⟩ := ih
    refine ⟨line.take width :: init, last, ?_, fun a => ?_⟩
    · rw [wrapLine_of_lt hwidth h.2, hrows, List.cons_append]
    · have hlt : width < (line ++ [a]).length := by
        rw [List.length_append]
        omega
      rw [wrapLine_of_lt hwidth hlt, List.take_append_of_le_length h.2.le,
        List.drop_append_of_le_length h.2.le, hext, List.cons_append]
  | case2 line h =>
    have hle : line.length ≤ width := by omega
    refine ⟨[], line, wrapLine_of_le hle, fun a => ?_⟩
    rw [extendRow, List.nil_append]
    split
    next hlt => exact wrapLine_of_le (by simpa using hlt)
    next hfull =>
      have hlen : line.length = width := by omega
      rw [wrapLine_of_lt hwidth (by simp; omega), List.take_append_of_le_length hlen.ge,
        List.drop_append_of_le_length hlen.ge, ← hlen, List.take_length, List.drop_length,
        List.nil_append, wrapLine_of_le (by simp; omega)]

theorem splitOnP_concat (isNewline : α → Bool) (text : List α) :
    ∃ init last, text.splitOnP isNewline = init ++ [last] ∧
      ∀ a, (text ++ [a]).splitOnP isNewline =
        init ++ if isNewline a then [last, []] else [last ++ [a]] := by
  induction text with
  | nil => exact ⟨[], [], rfl, fun a => by
      by_cases h : isNewline a <;> simp [List.splitOnP_cons_eq_if_modifyHead, h]⟩
  | cons b text ih =>
    obtain ⟨init, last, hsplit, hext⟩ := ih
    simp only [List.cons_append, List.splitOnP_cons_eq_if_modifyHead, hsplit, hext]
    -- The first item closes an empty line of its own, or goes to the front of the first line.
    by_cases hb : isNewline b
    · exact ⟨[] :: init, last, by simp [hb], fun a => by simp [hb]⟩
    · cases init with
      | nil =>
        exact ⟨[], b :: last, by simp [hb], fun a => by by_cases h : isNewline a <;> simp [hb, h]⟩
      | cons line init => exact ⟨(b :: line) :: init, last, by simp [hb], fun a => by simp [hb]⟩

/-- The rows of a text with one more item: a line end opens an empty row, any other item goes
    to the last row. -/
theorem wrapRows_concat (hwidth : 0 < width) (isNewline : α → Bool) (text : List α) :
    ∃ init last, wrapRows width isNewline text = init ++ [last] ∧
      ∀ a, wrapRows width isNewline (text ++ [a]) =
        init ++ if isNewline a then [last, []] else extendRow width last a := by
  obtain ⟨lines, line, hsplit, hsplit'⟩ := splitOnP_concat isNewline text
  obtain ⟨init, last, hwrap, hwrap'⟩ := wrapLine_concat hwidth line
  refine ⟨lines.flatMap (wrapLine width) ++ init, last, ?_, fun a => ?_⟩
  · simp [wrapRows, hsplit, hwrap]
  · rw [wrapRows, hsplit']
    by_cases ha : isNewline a
    · have hempty : wrapLine width ([] : List α) = [[]] := wrapLine_of_le (Nat.zero_le width)
      simp [ha, hwrap, hempty]
    · simp [ha, hwrap']

/-! ## The screen -/

/-- The cells of a screen, by row and column, and its cursor. -/
structure Screen (α : Type) where
  cells : Nat → Nat → α
  row : Nat
  col : Nat

namespace Screen

/-- The cursor goes to the next row; on the last one the rows move up over a blank row. -/
def newline (height : Nat) (blank : α) (s : Screen α) : Screen α :=
  if s.row + 1 < height then { s with row := s.row + 1, col := 0 }
  else
    { cells := fun r c => if r + 1 < height then s.cells (r + 1) c else blank
      row := height - 1
      col := 0 }

/-- An item in the cursor's cell. -/
def put (a : α) (s : Screen α) : Screen α :=
  { s with
    cells := fun r c => if r = s.row ∧ c = s.col then a else s.cells r c
    col := s.col + 1 }

/-- One item typed: a line end, or an item in the next cell of the wrapped line. -/
def type (width height : Nat) (isNewline : α → Bool) (blank a : α) (s : Screen α) : Screen α :=
  if isNewline a then s.newline height blank
  else put a (if width ≤ s.col then s.newline height blank else s)

/-- Items typed in order. -/
def typeAll (width height : Nat) (isNewline : α → Bool) (blank : α) (items : List α)
    (s : Screen α) : Screen α :=
  items.foldl (fun s a => s.type width height isNewline blank a) s

/-- Every cell blank, the cursor kept. -/
def clear (blank : α) (s : Screen α) : Screen α := { s with cells := fun _ _ => blank }

/-- The cursor stands in a row of the screen, at most one column behind its last. -/
structure InBounds (width height : Nat) (s : Screen α) : Prop where
  row_lt : s.row < height
  col_le : s.col ≤ width

theorem newline_inBounds {s : Screen α} (hheight : 0 < height) (blank : α) :
    (s.newline height blank).InBounds width height := by
  unfold newline
  split
  next h => exact ⟨h, Nat.zero_le _⟩
  next => exact ⟨Nat.sub_lt hheight Nat.one_pos, Nat.zero_le _⟩

theorem type_inBounds {s : Screen α} (h : s.InBounds width height) (hwidth : 0 < width)
    (blank a : α) : (s.type width height isNewline blank a).InBounds width height := by
  have hheight : 0 < height := Nat.zero_lt_of_lt h.row_lt
  unfold type
  split
  next => exact newline_inBounds hheight blank
  next =>
    split
    next =>
      have hline : (s.newline height blank).InBounds 0 height := newline_inBounds hheight blank
      exact ⟨hline.row_lt, Nat.le_trans (Nat.succ_le_succ hline.col_le) hwidth⟩
    next hlt => exact ⟨h.row_lt, Nat.lt_of_not_le hlt⟩

theorem typeAll_append (blank : α) (items items' : List α) (s : Screen α) :
    s.typeAll width height isNewline blank (items ++ items') =
      (s.typeAll width height isNewline blank items).typeAll width height isNewline blank items' :=
  List.foldl_append

theorem typeAll_inBounds {s : Screen α} (h : s.InBounds width height) (hwidth : 0 < width)
    (blank : α) (items : List α) :
    (s.typeAll width height isNewline blank items).InBounds width height := by
  induction items generalizing s with
  | nil => exact h
  | cons a items ih => exact ih (type_inBounds h hwidth blank a)

/-! ## What a screen shows -/

/-- The item in column `c` of row `r` of the last `height` rows. -/
def item (height : Nat) (rows : List (List α)) (r c : Nat) : Option α :=
  (rows.rtake height)[r]?.bind fun row => row[c]?

/-- A cell that text covers holds its item; any other cell is blank. -/
def Holds (Blank : α → Prop) (cell : α) : Option α → Prop
  | some a => cell = a
  | none => Blank cell

/-- The screen shows the last rows of `init ++ [last]`, with the cursor behind the last item. -/
structure Shows (width height : Nat) (Blank : α → Prop) (init : List (List α)) (last : List α)
    (s : Screen α) : Prop where
  row_eq : s.row + 1 = min height (init.length + 1)
  col_eq : s.col = last.length
  cells : ∀ r < height, ∀ c < width, Holds Blank (s.cells r c) (item height (init ++ [last]) r c)

theorem item_eq (rows : List (List α)) (r c : Nat) :
    item height rows r c = rows[rows.length - height + r]?.bind fun row => row[c]? := by
  rw [item, List.rtake, List.getElem?_drop]

/-- An empty row at the end adds no item. -/
theorem getElem?_concat_nil (rows : List (List α)) (i c : Nat) :
    ((rows ++ [[]])[i]?.bind fun row => row[c]?) = rows[i]?.bind fun row => row[c]? := by
  rw [List.getElem?_append]
  split
  next => rfl
  next h =>
    rw [List.getElem?_eq_none (Nat.le_of_not_lt h)]
    cases i - rows.length <;> simp

variable {Blank : α → Prop} {init : List (List α)} {last : List α} {s : Screen α} {blank a : α}

theorem Shows.newline (h : s.Shows width height Blank init last) (hblank : Blank blank) :
    (s.newline height blank).Shows width height Blank (init ++ [last]) [] := by
  have hrow := h.row_eq
  have hlen : (init ++ [last]).length = init.length + 1 := by simp
  unfold Screen.newline
  split
  next hlt =>
    -- Not all rows are in use yet: nothing moves.
    refine ⟨by simp only [hlen]; omega, rfl, fun r hr c hc => ?_⟩
    have hcell := h.cells r hr c hc
    rw [item_eq, hlen] at hcell
    rw [item_eq, getElem?_concat_nil, List.length_append, hlen, List.length_singleton]
    rwa [show init.length + 1 + 1 - height + r = init.length + 1 - height + r by omega]
  next hge =>
    -- The screen is full: what it shows moves down by one row of the text.
    refine ⟨by simp only [hlen]; omega, rfl, fun r hr c hc => ?_⟩
    rw [item_eq, getElem?_concat_nil, List.length_append, hlen, List.length_singleton]
    simp only []
    split
    next hr' =>
      have hcell := h.cells (r + 1) hr' c hc
      rw [item_eq, hlen] at hcell
      rwa [show init.length + 1 + 1 - height + r = init.length + 1 - height + (r + 1) by omega]
    next hr' =>
      rw [List.getElem?_eq_none (by rw [hlen]; omega)]
      exact hblank

theorem getElem?_concat_of_ne {β : Type} {l : List β} {b : β} {i : Nat} (h : i ≠ l.length) :
    (l ++ [b])[i]? = l[i]? := by
  by_cases hlt : i < l.length
  · exact List.getElem?_append_left hlt
  · have hlen : (l ++ [b]).length = l.length + 1 := by simp
    rw [List.getElem?_eq_none (by omega), List.getElem?_eq_none (by omega)]

theorem Shows.put (h : s.Shows width height Blank init last) (a : α) :
    (s.put a).Shows width height Blank init (last ++ [a]) := by
  have hrow := h.row_eq
  refine ⟨h.row_eq, ?_, fun r hr c hc => ?_⟩
  · rw [List.length_append, ← h.col_eq]
    rfl
  · have hcell := h.cells r hr c hc
    rw [item_eq, List.length_append, List.length_singleton] at hcell ⊢
    simp only [Screen.put]
    -- The cursor's row is the last row of the text.
    by_cases hr' : r = s.row
    · have hidx : init.length + 1 - height + r = init.length := by omega
      rw [hidx, List.getElem?_concat_length, Option.bind_some] at hcell ⊢
      by_cases hc' : c = s.col
      · rw [if_pos ⟨hr', hc'⟩, hc', h.col_eq, List.getElem?_concat_length]
        exact rfl
      · rw [if_neg fun hcur => hc' hcur.2, getElem?_concat_of_ne (h.col_eq ▸ hc')]
        exact hcell
    · have hidx : init.length + 1 - height + r ≠ init.length := by omega
      rw [getElem?_concat_of_ne hidx] at hcell ⊢
      rw [if_neg fun hcur => hr' hcur.1]
      exact hcell

/-- One item typed: a line end opens an empty row, any other item goes to the last row. -/
theorem Shows.type (h : s.Shows width height Blank init last) (hblank : Blank blank) (a : α) :
    ∃ init' last', init' ++ [last'] =
        init ++ (if isNewline a then [last, []] else extendRow width last a) ∧
      (s.type width height isNewline blank a).Shows width height Blank init' last' := by
  unfold Screen.type
  by_cases ha : isNewline a
  · refine ⟨init ++ [last], [], ?_, ?_⟩
    · simp [ha]
    · simpa [ha] using h.newline hblank
  · simp only [ha]
    by_cases hfull : width ≤ s.col
    · -- The row is full: the item starts the next one.
      refine ⟨init ++ [last], [a], ?_, ?_⟩
      · rw [h.col_eq] at hfull
        simp [extendRow, Nat.not_lt.mpr hfull]
      · rw [if_pos hfull]
        exact (h.newline hblank).put a
    · refine ⟨init, last ++ [a], ?_, ?_⟩
      · rw [h.col_eq, Nat.not_le] at hfull
        simp [extendRow, hfull]
      · rw [if_neg hfull]
        exact h.put a

/-- The screen shows the last rows of a text, typed behind some other rows. -/
def ShowsBehind (width height : Nat) (isNewline : α → Bool) (Blank : α → Prop)
    (rows : List (List α)) (text : List α) (s : Screen α) : Prop :=
  ∃ init last, init ++ [last] = rows ++ wrapRows width isNewline text ∧
    s.Shows width height Blank init last

/-- A blank screen with its cursor in the corner shows the empty text. -/
theorem showsBehind_blank (hheight : 0 < height) (hblank : Blank blank) :
    ShowsBehind width height isNewline Blank [] [] ⟨fun _ _ => blank, 0, 0⟩ := by
  refine ⟨[], [], ?_, ?_, rfl, fun r _ c _ => ?_⟩
  · rw [wrapRows, List.splitOnP_nil, List.flatMap_singleton, wrapLine_of_le (Nat.zero_le _)]
  · simp only [List.length_nil]
    omega
  · rw [item_eq, getElem?_concat_nil]
    exact hblank

/-- Typing one more item shows the rows of the longer text. -/
theorem ShowsBehind.type {rows : List (List α)} {text : List α}
    (h : s.ShowsBehind width height isNewline Blank rows text) (hwidth : 0 < width)
    (hblank : Blank blank) (a : α) :
    (s.type width height isNewline blank a).ShowsBehind width height isNewline Blank rows
      (text ++ [a]) := by
  obtain ⟨init, last, hrows, hshows⟩ := h
  obtain ⟨front, back, hwrap, hext⟩ := wrapRows_concat hwidth isNewline text
  rw [hwrap, ← List.append_assoc] at hrows
  -- A list ends in one way only, so the last row of the text is the cursor's.
  obtain ⟨rfl, hlast⟩ := List.append_inj' hrows rfl
  obtain rfl : last = back := by simpa using hlast
  obtain ⟨init', last', hrows', hshows'⟩ := hshows.type hblank a
  exact ⟨init', last', by rw [hrows', hext, List.append_assoc], hshows'⟩

theorem ShowsBehind.typeAll {rows : List (List α)} {text : List α}
    (h : s.ShowsBehind width height isNewline Blank rows text) (hwidth : 0 < width)
    (hblank : Blank blank) (items : List α) :
    (s.typeAll width height isNewline blank items).ShowsBehind width height isNewline Blank rows
      (text ++ items) := by
  induction items generalizing s text with
  | nil => simpa [Screen.typeAll] using h
  | cons a items ih =>
    have htyped := ih (h.type hwidth hblank a)
    rwa [List.append_assoc, List.singleton_append] at htyped

end Screen

end Zkrnl32.Machine
