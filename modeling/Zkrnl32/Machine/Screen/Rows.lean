import Zkrnl32.Machine.Screen

/-!
# Rows of a Text, and Rows of Any Screen

- `wrapRows` line by line: a line end joins the rows of the two sides (`wrapRows_newline`), and a
  line that fits is one row (`wrapRows_line`).
- `Screen.above`, `Screen.current`: the rows that any screen holds up to its cursor, wherever they
  come from.
- `ShowsBehind.visible`: a text of at most `height` rows is on the screen as a whole, whatever rows
  it was typed behind.
-/

namespace Zkrnl32.Machine

variable {α : Type} {width height : Nat} {isNewline : α → Bool}

/-! ## Rows, line by line -/

/-- A line end separates the rows before it from those behind it. -/
theorem wrapRows_newline {a : α} (ha : isNewline a = true) (text text' : List α) :
    wrapRows width isNewline (text ++ a :: text') =
      wrapRows width isNewline text ++ wrapRows width isNewline text' := by
  rw [wrapRows, List.splitOnP_append_cons _ _ ha, List.flatMap_append]
  rfl

theorem splitOnP_of_forall {line : List α} (h : ∀ a ∈ line, isNewline a = false) :
    line.splitOnP isNewline = [line] := by
  induction line with
  | nil => rfl
  | cons a line ih =>
    rw [List.splitOnP_cons_eq_if_modifyHead, h a List.mem_cons_self,
      ih fun b hb => h b (List.mem_cons_of_mem a hb)]
    rfl

/-- A line that fits is one row. -/
theorem wrapRows_line {line : List α} (h : ∀ a ∈ line, isNewline a = false)
    (hlen : line.length ≤ width) : wrapRows width isNewline line = [line] := by
  rw [wrapRows, splitOnP_of_forall h, List.flatMap_singleton, wrapLine_of_le hlen]

/-- Lines that fit, each with its line end, are as many rows and an empty one behind them. -/
theorem wrapRows_lines {a : α} (ha : isNewline a = true) {lines : List (List α)}
    (h : ∀ line ∈ lines, (∀ b ∈ line, isNewline b = false) ∧ line.length ≤ width) :
    wrapRows width isNewline (lines.flatMap (· ++ [a])) = lines ++ [[]] := by
  induction lines with
  | nil => exact wrapRows_line (by simp) (Nat.zero_le width)
  | cons line lines ih =>
    obtain ⟨hline, hlen⟩ := h line List.mem_cons_self
    rw [List.flatMap_cons, List.append_assoc, List.singleton_append, wrapRows_newline ha,
      wrapRows_line hline hlen, ih fun l hl => h l (List.mem_cons_of_mem line hl)]
    rfl

theorem length_le_of_mem_wrapLine (hwidth : 0 < width) {line row : List α}
    (h : row ∈ wrapLine width line) : row.length ≤ width := by
  induction line using wrapLine.induct width with
  | case1 line hlong ih =>
    rw [wrapLine_of_lt hwidth hlong.2, List.mem_cons] at h
    rcases h with rfl | h
    · exact List.length_take_le ..
    · exact ih h
  | case2 line hshort =>
    rw [wrapLine_of_le (by omega), List.mem_singleton] at h
    rw [h]
    omega

/-- No row is longer than the screen is wide. -/
theorem length_le_of_mem_wrapRows (hwidth : 0 < width) {text row : List α}
    (h : row ∈ wrapRows width isNewline text) : row.length ≤ width := by
  obtain ⟨line, -, hrow⟩ := List.mem_flatMap.mp h
  exact length_le_of_mem_wrapLine hwidth hrow

namespace Screen

/-! ## Rows of a screen -/

/-- The rows above the cursor. -/
def above (width : Nat) (s : Screen α) : List (List α) :=
  (List.range s.row).map fun r => (List.range width).map (s.cells r)

/-- The cursor's row, up to the cursor. -/
def current (s : Screen α) : List α := (List.range s.col).map (s.cells s.row)

/-- Any screen shows the rows it holds. -/
theorem shows_above {s : Screen α} (h : s.InBounds width height) :
    s.Shows width height (fun _ => True) (s.above width) s.current := by
  have hrow := h.row_lt
  have hcol := h.col_le
  have hlen : (s.above width).length = s.row := by simp [above]
  refine ⟨by rw [hlen]; omega, by simp [current], fun r hr c hc => ?_⟩
  have hidx : (s.above width ++ [s.current]).length - height + r = r := by
    rw [List.length_append, hlen, List.length_singleton]
    omega
  rw [item_eq, hidx]
  -- Above the cursor every cell is taken as it is; behind it nothing is claimed.
  rcases Nat.lt_trichotomy r s.row with hlt | heq | hgt
  · rw [List.getElem?_append_left (by omega)]
    simp [above, Holds, hlt, hc]
  · rw [heq, List.getElem?_append_right hlen.le, hlen, Nat.sub_self]
    by_cases hc' : c < s.col
    · simp [current, Holds, hc']
    · simp [current, Holds, hc']
  · rw [List.getElem?_eq_none (by rw [List.length_append, hlen, List.length_singleton]; omega)]
    trivial

variable {Blank : α → Prop} {init : List (List α)} {s : Screen α}

/-- At the start of a row, no text has been typed behind the rows above. -/
theorem Shows.showsBehind (h : s.Shows width height Blank init []) :
    s.ShowsBehind width height isNewline Blank init [] :=
  ⟨init, [], by rw [wrapRows_line (by simp) (Nat.zero_le width)], h⟩

/-- The rows of a text that is not longer than the screen are all on it. -/
theorem ShowsBehind.visible {rows : List (List α)} {text : List α}
    (h : s.ShowsBehind width height isNewline Blank rows text) (hwidth : 0 < width)
    (hfit : (wrapRows width isNewline text).length ≤ height) :
    ∃ top ≤ rows.length, top + (wrapRows width isNewline text).length ≤ height ∧
      ∀ r row, (wrapRows width isNewline text)[r]? = some row → ∀ c a, row[c]? = some a →
        c < width ∧ s.cells (top + r) c = a := by
  obtain ⟨init, last, hrows, hshows⟩ := h
  have hwide : ∀ row ∈ wrapRows width isNewline text, row.length ≤ width := fun _ =>
    length_le_of_mem_wrapRows hwidth
  generalize wrapRows width isNewline text = shown at hrows hfit hwide ⊢
  have hlen : (init ++ [last]).length = rows.length + shown.length := by
    rw [hrows, List.length_append]
  refine ⟨rows.length - (rows.length + shown.length - height), by omega, by omega, ?_⟩
  intro r row hr c a ha
  have hlt : r < shown.length := (List.getElem?_eq_some_iff.mp hr).1
  have hc : c < width :=
    (List.getElem?_eq_some_iff.mp ha).1.trans_le (hwide row (List.mem_of_getElem? hr))
  have hcell := hshows.cells (rows.length - (rows.length + shown.length - height) + r) (by omega)
    c hc
  rw [item_eq, hlen, hrows, show rows.length + shown.length - height +
    (rows.length - (rows.length + shown.length - height) + r) = rows.length + r by omega,
    List.getElem?_append_right (Nat.le_add_right ..), Nat.add_sub_cancel_left, hr, Option.bind_some,
    ha] at hcell
  exact ⟨hc, hcell⟩

end Screen

end Zkrnl32.Machine
