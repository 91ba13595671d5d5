import Zkrnl32.Machine.Screen
import Zkrnl32.Volatile

/-!
# The VGA Console

Model of `src/vga.rs`: a writer with a cursor and a colour, over the text buffer of the VGA
device.

- `newline`, `writeByte`, `write`, `clear`, `reset`, `print`, `printColor`: the operations, with
  every address and cursor computation checked.
- `Displays`: the buffer and the cursor spell a `Screen`.  Each operation is simulated by one of
  the screen (`newline_draws`, `writeByte_draws`, `clear_draws`, `reset_draws`).
- `console_confined`: no operation leaves the buffer, whatever came before.
- `console_shows_last_rows`: the buffer shows the last rows of the text written.
-/

namespace Zkrnl32.Vga

open Zkrnl32.Machine Zkrnl32.Volatile

/-! ## The device -/

/-- `VGA_BUFFER`. -/
def vgaBuffer : Nat := 0xb8000

/-- `VGA_WIDTH`. -/
def vgaWidth : Nat := 80

/-- `VGA_HEIGHT`. -/
def vgaHeight : Nat := 25

/-- `b' '`. -/
def space : U8 := 0x20

/-- `b'\n'`. -/
def lineFeed : U8 := 0x0a

/-- The console's bookkeeping. -/
structure VgaWriter where
  col : Nat
  row : Nat
  color : U8
  deriving DecidableEq, Repr

/-- The writer at boot, white on black. -/
def VgaWriter.new : VgaWriter where
  col := 0
  row := 0
  color := 0x0F

/-- The writer and the device it writes to. -/
structure Console where
  writer : VgaWriter
  bus : Bus

/-- Runs accesses of the device. -/
def onBus {α : Type} (x : Exec Bus α) : Exec Console α :=
  Exec.zoom Console.bus (fun bus c => { c with bus := bus }) x

/-- Assigns fields of the writer. -/
def assign (f : VgaWriter → VgaWriter) : Exec Console Unit :=
  modify fun c => { c with writer := f c.writer }

/-! ## The operations -/

/-- The two stores of one cell, at `base.add(offset)` and `base.add(offset + 1)`. -/
def writeCell (p : Profile) (base offset : Nat) (byte color : U8) : Exec Bus Unit := do
  let first ← ptrAdd p 1 base offset
  writeVolatile first [byte]
  let next ← add p 32 offset 1
  let second ← ptrAdd p 1 base next
  writeVolatile second [color]

/-- The loop of `clear` and of `clear_row`: `count` blank cells from `base` on. -/
def blankCells (p : Profile) (base count : Nat) (color : U8) : Exec Bus Unit :=
  forM (List.range count) fun cell => do
    let offset ← mul p 32 cell 2
    writeCell p base offset space color

/-- Blanks the whole buffer in the current colour. -/
def clear (p : Profile) : Exec Console Unit := do
  let c ← get
  onBus (blankCells p vgaBuffer (vgaWidth * vgaHeight) c.writer.color)

/-- Blanks one row. -/
def clearRow (p : Profile) (row : Nat) : Exec Console Unit := do
  let c ← get
  let cells ← mul p 32 row vgaWidth
  let offset ← mul p 32 cells 2
  let rowBuf ← ptrAdd p 1 vgaBuffer offset
  onBus (blankCells p rowBuf vgaWidth c.writer.color)

/-- Copies each row over the one above it and blanks the last. -/
def scroll (p : Profile) : Exec Console Unit := do
  let src ← ptrAdd p 1 vgaBuffer (vgaWidth * 2)
  onBus (copy p 1 src vgaBuffer ((vgaHeight - 1) * vgaWidth * 2))
  assign fun w => { w with row := vgaHeight - 1 }
  let c ← get
  clearRow p c.writer.row

/-- Sets the cursor to a new line, and scrolls if there is none. -/
def newline (p : Profile) : Exec Console Unit := do
  assign fun w => { w with col := 0 }
  let c ← get
  let row ← add p 32 c.writer.row 1
  assign fun w => { w with row := row }
  if vgaHeight ≤ row then scroll p else pure ()

/-- The part of `write_byte` behind the wrap: the byte in the cursor's cell. -/
def writeAtCursor (p : Profile) (byte : U8) : Exec Console Unit := do
  let c ← get
  let start ← mul p 32 c.writer.row vgaWidth
  let cell ← add p 32 start c.writer.col
  let offset ← mul p 32 cell 2
  onBus (writeCell p vgaBuffer offset byte c.writer.color)
  let col ← add p 32 c.writer.col 1
  assign fun w => { w with col := col }

/-- Writes one byte: a line end, or a cell of the line wrapped at the width. -/
def writeByte (p : Profile) (byte : U8) : Exec Console Unit :=
  if byte = lineFeed then newline p
  else do
    let c ← get
    if vgaWidth ≤ c.writer.col then newline p else pure ()
    writeAtCursor p byte

/-- Writes bytes in order. -/
def write (p : Profile) (bytes : List U8) : Exec Console Unit := forM bytes (writeByte p)

/-- Sets the cursor to the corner and clears the buffer. -/
def reset (p : Profile) : Exec Console Unit := do
  assign fun w => { w with col := 0 }
  assign fun w => { w with row := 0 }
  clear p

/-- `writer.color = color`. -/
def setColor (color : U8) : Exec Console Unit := assign fun w => { w with color := color }

/-- Writes formatted text, given as the strings the formatter hands to `write_str`. -/
def print (p : Profile) (pieces : List (List U8)) : Exec Console Unit := forM pieces (write p)

/-- Writes formatted text in another colour, and sets the previous one again. -/
def printColor (p : Profile) (color : U8) (pieces : List (List U8)) : Exec Console Unit := do
  let c ← get
  setColor color
  print p pieces
  setColor c.writer.color

/-! ## Cells of the buffer -/

theorem vgaBuffer_eq : vgaBuffer = 0xb8000 := rfl

theorem vgaWidth_eq : vgaWidth = 80 := rfl

theorem vgaHeight_eq : vgaHeight = 25 := rfl

theorem vgaHeight_pos : 0 < vgaHeight := by decide

theorem vgaWidth_pos : 0 < vgaWidth := by decide

/-- What one cell of the screen holds. -/
structure Cell where
  byte : U8
  color : U8
  deriving DecidableEq, Repr

/-- The number of bytes of the buffer. -/
def vgaSize : Nat := vgaWidth * vgaHeight * 2

/-- The cell in column `c` of row `r`, as the device shows it. -/
def cellAt (mem : Memory) (r c : Nat) : Cell where
  byte := mem (vgaBuffer + (r * vgaWidth + c) * 2)
  color := mem (vgaBuffer + (r * vgaWidth + c) * 2 + 1)

theorem writeCell_writes {p : Profile} {base offset : Nat} (h : base + offset + 1 < 2 ^ 32)
    (byte color : U8) (bus : Bus) :
    ∃ bus', writeCell p base offset byte color bus = .ok () bus' ∧
      (∀ x, bus'.mem x = if x = base + offset then byte
        else if x = base + offset + 1 then color else bus.mem x) ∧
      ∀ a ∈ bus'.accesses, a ∈ bus.accesses ∨ a.Inside (base + offset) 2 := by
  refine ⟨{ mem := (bus.mem.store (base + offset) [byte]).store (base + offset + 1) [color]
            accesses := ⟨base + offset + 1, 1⟩ :: ⟨base + offset, 1⟩ :: bus.accesses },
    ?_, fun x => ?_, fun a ha => ?_⟩
  · unfold writeCell writeVolatile
    rw [ptrAdd_eq_ok (by omega), add_eq_ok (by omega)]
    simp [run_bind, ptrAdd_eq_ok (show base + (offset + 1) * 1 < 2 ^ 32 by omega), Nat.add_assoc]
  · simp only [Memory.store_singleton_apply]
    by_cases hx : x = base + offset
    · rw [if_neg (by omega), if_pos hx, if_pos hx]
    · rw [if_neg hx, if_neg hx]
  · simp only [List.mem_cons] at ha
    rcases ha with rfl | rfl | hold
    · exact Or.inr ⟨Nat.le_succ _, le_rfl⟩
    · exact Or.inr ⟨le_rfl, Nat.le_succ _⟩
    · exact Or.inl hold

/-- The loop of `clear` and `clear_row` after `n` cells. -/
structure Blanked (bus bus' : Bus) (base n : Nat) (color : U8) : Prop where
  mem_eq : ∀ x, bus'.mem x =
    if base ≤ x ∧ x < base + 2 * n then if (x - base) % 2 = 0 then space else color else bus.mem x
  logged : ∀ a ∈ bus'.accesses, a ∈ bus.accesses ∨ a.Inside base (2 * n)

theorem blankCells_blanks {p : Profile} {base count : Nat} (h : base + 2 * count ≤ 2 ^ 32)
    (color : U8) (bus : Bus) :
    ∃ bus', blankCells p base count color bus = .ok () bus' ∧
      Blanked bus bus' base count color := by
  have hloop : Ends (blankCells p base count color bus)
      (fun _ bus' => Blanked bus bus' base count color) fun _ _ => False := by
    -- Cell `i` adds its two bytes behind those blanked so far.
    refine forM_range_ends (fun i bus' => Blanked bus bus' base i color) ?_ ⟨?_, ?_⟩
    · intro i hi bus' hI
      rw [run_lift_bind (mul_eq_ok (by omega))]
      obtain ⟨bus'', hrun, hmem, hlog⟩ :=
        writeCell_writes (p := p) (show base + i * 2 + 1 < 2 ^ 32 by omega) space color bus'
      refine ends_of_ok hrun ⟨fun x => ?_, fun a ha => ?_⟩
      · rw [hmem, hI.mem_eq]
        by_cases hfirst : x = base + i * 2
        · rw [if_pos hfirst, if_pos (by omega), if_pos (by omega)]
        by_cases hsecond : x = base + i * 2 + 1
        · rw [if_neg hfirst, if_pos hsecond, if_pos (by omega), if_neg (by omega)]
        rw [if_neg hfirst, if_neg hsecond]
        exact if_congr (by omega) rfl rfl
      · rcases hlog a ha with hold | hin
        · exact (hI.logged a hold).imp_right fun hin => ⟨hin.1, hin.2.trans (by omega)⟩
        · exact Or.inr ⟨hin.1.trans' (by omega), hin.2.trans (by omega)⟩
    · intro x
      rw [if_neg (by omega)]
    · exact fun a ha => Or.inl ha
  obtain ⟨_, bus', hrun, hblanked⟩ := hloop.exists_ok
  exact ⟨bus', hrun, hblanked⟩

/-! ## Simulation by a screen -/

/-- The buffer and the cursor of `c` spell the screen `s`. -/
structure Displays (c : Console) (s : Screen Cell) : Prop where
  row_eq : c.writer.row = s.row
  col_eq : c.writer.col = s.col
  cells : ∀ r < vgaHeight, ∀ col < vgaWidth, cellAt c.bus.mem r col = s.cells r col

/-- Every new access lies in the text buffer. -/
def Confined (bus bus' : Bus) : Prop :=
  ∀ a ∈ bus'.accesses, a ∈ bus.accesses ∨ a.Inside vgaBuffer vgaSize

theorem Confined.refl (bus : Bus) : Confined bus bus := fun _ ha => Or.inl ha

theorem Confined.trans {bus₁ bus₂ bus₃ : Bus} (h : Confined bus₁ bus₂) (h' : Confined bus₂ bus₃) :
    Confined bus₁ bus₃ := fun a ha => (h' a ha).elim (h a) Or.inr

/-- An operation led from `c` to `c'`, which displays `s`: only the buffer was accessed, and the
    colour is kept. -/
structure Draws (c c' : Console) (s : Screen Cell) : Prop where
  displays : Displays c' s
  color_eq : c'.writer.color = c.writer.color
  confined : Confined c.bus c'.bus

/-- A blank in a colour. -/
def blank (color : U8) : Cell := ⟨space, color⟩

section Draws

variable {p : Profile} {c : Console} {s : Screen Cell}

theorem onBus_eq_ok {α : Type} {x : Exec Bus α} {a : α} {bus : Bus} (h : x c.bus = .ok a bus) :
    onBus x c = .ok a { c with bus := bus } :=
  zoom_eq_ok.mpr ⟨bus, h, rfl⟩

/-- Cells of the buffer blanked from cell `first` on. -/
theorem blankCells_draws (p : Profile) {first n : Nat} (h : first + n ≤ vgaWidth * vgaHeight)
    (color : U8) (bus : Bus) :
    ∃ bus', blankCells p (vgaBuffer + first * 2) n color bus = .ok () bus' ∧
      (∀ r col, cellAt bus'.mem r col =
        if first ≤ r * vgaWidth + col ∧ r * vgaWidth + col < first + n then blank color
        else cellAt bus.mem r col) ∧
      Confined bus bus' := by
  rw [vgaWidth_eq, vgaHeight_eq] at h
  have hend : vgaBuffer + first * 2 + 2 * n ≤ vgaBuffer + vgaSize := by
    simp only [vgaSize, vgaWidth_eq, vgaHeight_eq]
    omega
  obtain ⟨bus', hrun, hblank⟩ := blankCells_blanks (p := p) (hend.trans (by decide)) color bus
  refine ⟨bus', hrun, fun r col => ?_, fun a ha => ?_⟩
  · simp only [cellAt, blank, hblank.mem_eq]
    by_cases hin : first ≤ r * vgaWidth + col ∧ r * vgaWidth + col < first + n
    · rw [if_pos hin, if_pos (by omega), if_pos (by omega), if_pos (by omega), if_neg (by omega)]
    · rw [if_neg hin, if_neg (by omega), if_neg (by omega)]
  · exact (hblank.logged a ha).imp_right fun hin =>
      ⟨hin.1.trans' (Nat.le_add_right ..), hin.2.trans hend⟩

theorem clear_draws (p : Profile) (h : Displays c s) :
    ∃ c', clear p c = .ok () c' ∧ c'.writer = c.writer ∧
      Draws c c' (s.clear (blank c.writer.color)) := by
  have hall : 0 + vgaWidth * vgaHeight ≤ vgaWidth * vgaHeight := by decide
  obtain ⟨bus, hrun, hcells, hconf⟩ := blankCells_draws p hall c.writer.color c.bus
  refine ⟨{ c with bus := bus }, ?_, rfl, ⟨h.row_eq, h.col_eq, ?_⟩, rfl, hconf⟩
  · rw [clear, run_get_bind]
    exact onBus_eq_ok hrun
  · intro r hr col hcol
    rw [vgaHeight_eq] at hr
    rw [vgaWidth_eq] at hcol
    refine (hcells r col).trans (if_pos ?_)
    simp only [vgaWidth_eq, vgaHeight_eq]
    omega

theorem clearRow_draws (p : Profile) {row : Nat} (hrow : row < vgaHeight) (h : Displays c s) :
    ∃ c', clearRow p row c = .ok () c' ∧
      Draws c c' { s with
        cells := fun r col => if r = row then blank c.writer.color else s.cells r col } := by
  rw [vgaHeight_eq] at hrow
  have hin : row * vgaWidth + vgaWidth ≤ vgaWidth * vgaHeight := by
    simp only [vgaWidth_eq, vgaHeight_eq]
    omega
  obtain ⟨bus, hrun, hcells, hconf⟩ := blankCells_draws p hin c.writer.color c.bus
  refine ⟨{ c with bus := bus }, ?_, ⟨h.row_eq, h.col_eq, ?_⟩, rfl, hconf⟩
  · simp only [vgaWidth_eq, vgaBuffer_eq] at hrun
    have hcells : mul p 32 row vgaWidth = .ok (row * 80) := mul_eq_ok (by rw [vgaWidth_eq]; omega)
    have hoffset : mul p 32 (row * 80) 2 = .ok (row * 80 * 2) := mul_eq_ok (by omega)
    have hptr : ptrAdd p 1 vgaBuffer (row * 80 * 2) = .ok (0xb8000 + row * 80 * 2) := by
      rw [ptrAdd_eq_ok (by rw [vgaBuffer_eq]; omega), Nat.mul_one, vgaBuffer_eq]
    rw [clearRow, run_get_bind, run_lift_bind hcells, run_lift_bind hoffset, run_lift_bind hptr]
    exact onBus_eq_ok hrun
  · intro r hr col hcol
    rw [vgaHeight_eq] at hr
    rw [vgaWidth_eq] at hcol
    rw [hcells, vgaWidth_eq]
    by_cases hr' : r = row
    · rw [if_pos (by omega)]
      simp [hr']
    · rw [if_neg (by omega), h.cells r hr col hcol]
      simp [hr']

/-- The copy of `scroll`: every row but the last becomes the row below it. -/
theorem copy_rows_up (p : Profile) (bus : Bus) :
    ∃ bus', copy p 1 (vgaBuffer + vgaWidth * 2) vgaBuffer ((vgaHeight - 1) * vgaWidth * 2) bus =
        .ok () bus' ∧
      (∀ r, r + 1 < vgaHeight → ∀ col < vgaWidth,
        cellAt bus'.mem r col = cellAt bus.mem (r + 1) col) ∧
      Confined bus bus' := by
  have hsrc : vgaBuffer + vgaWidth * 2 + (vgaHeight - 1) * vgaWidth * 2 * 1 ≤ 2 ^ 32 := by decide
  have hdst : vgaBuffer + (vgaHeight - 1) * vgaWidth * 2 * 1 ≤ 2 ^ 32 := by decide
  obtain ⟨bus', hrun, hcopied⟩ := copy_returns (p := p) (by decide) hsrc hdst (by decide) bus
  -- `copy` moves bytes: one row further down is `vgaWidth * 2` bytes further up.
  have hbyte : ∀ i < (vgaHeight - 1) * vgaWidth * 2,
      bus'.mem (vgaBuffer + i) = bus.mem (vgaBuffer + (vgaWidth * 2 + i)) := by
    intro i hi
    rw [hcopied.arrived (Nat.zero_le i) (by simpa using hi), Nat.add_assoc]
  refine ⟨bus', hrun, fun r hr col hcol => ?_, fun a ha => ?_⟩
  · simp only [vgaWidth_eq, vgaHeight_eq] at hr hcol hbyte
    simp only [cellAt, vgaWidth_eq, Nat.add_assoc]
    rw [hbyte _ (by omega), hbyte _ (by omega),
      show 80 * 2 + (r * 80 + col) * 2 = ((r + 1) * 80 + col) * 2 by omega,
      show 80 * 2 + ((r * 80 + col) * 2 + 1) = ((r + 1) * 80 + col) * 2 + 1 by omega]
  · rcases hcopied.logged a ha with hold | hsrc | hdst
    · exact Or.inl hold
    · exact Or.inr ⟨hsrc.1.trans' (Nat.le_add_right ..), hsrc.2.trans (by decide)⟩
    · exact Or.inr ⟨hdst.1, hdst.2.trans (by decide)⟩

theorem scroll_draws (p : Profile) (h : Displays c s) :
    ∃ c', scroll p c = .ok () c' ∧
      Draws c c'
        { cells := fun r col =>
            if r + 1 < vgaHeight then s.cells (r + 1) col else blank c.writer.color
          row := vgaHeight - 1
          col := s.col } := by
  obtain ⟨bus, hrun, hup, hconf⟩ := copy_rows_up p c.bus
  let moved : Console := { writer := { c.writer with row := vgaHeight - 1 }, bus := bus }
  have hmoved : Displays moved ⟨cellAt bus.mem, vgaHeight - 1, s.col⟩ :=
    ⟨rfl, h.col_eq, fun _ _ _ _ => rfl⟩
  obtain ⟨c', hclear, hdraws⟩ := clearRow_draws p (show vgaHeight - 1 < vgaHeight by decide) hmoved
  refine ⟨c', ?_, ⟨hdraws.displays.row_eq, hdraws.displays.col_eq, ?_⟩, hdraws.color_eq,
    hconf.trans hdraws.confined⟩
  · have hptr : ptrAdd p 1 vgaBuffer (vgaWidth * 2) = .ok (vgaBuffer + vgaWidth * 2) :=
      ptrAdd_eq_ok (by decide)
    rw [scroll, run_lift_bind hptr, run_bind_of_ok (onBus_eq_ok hrun), assign, run_modify_bind,
      run_get_bind]
    exact hclear
  · intro r hr col hcol
    rw [hdraws.displays.cells r hr col hcol]
    simp only []
    by_cases hlast : r + 1 < vgaHeight
    · rw [if_neg (by omega), if_pos hlast, hup r hlast col hcol, h.cells (r + 1) hlast col hcol]
    · rw [if_pos (by omega), if_neg hlast]

theorem newline_draws (p : Profile) (h : Displays c s) (hrow : s.row < vgaHeight) :
    ∃ c', newline p c = .ok () c' ∧
      Draws c c' (s.newline vgaHeight (blank c.writer.color)) := by
  let next : Console := { c with writer := { c.writer with col := 0, row := s.row + 1 } }
  have hstart : newline p c = (if vgaHeight ≤ s.row + 1 then scroll p else pure ()) next := by
    have hadd : add p 32 c.writer.row 1 = .ok (s.row + 1) := by
      rw [h.row_eq]
      exact add_eq_ok (by rw [vgaHeight_eq] at hrow; omega)
    rw [newline, assign, run_modify_bind, run_get_bind, run_lift_bind hadd, assign, run_modify_bind]
  rw [hstart, Screen.newline]
  by_cases hlast : vgaHeight ≤ s.row + 1
  · rw [if_pos hlast, if_neg (by omega)]
    have hnext : Displays next ⟨s.cells, s.row + 1, 0⟩ := ⟨rfl, rfl, h.cells⟩
    obtain ⟨c', hscroll, hdraws⟩ := scroll_draws p hnext
    exact ⟨c', hscroll, hdraws.displays, hdraws.color_eq, hdraws.confined⟩
  · rw [if_neg hlast, if_pos (by omega)]
    exact ⟨next, rfl, ⟨rfl, rfl, h.cells⟩, rfl, Confined.refl _⟩

theorem Draws.trans {c' c'' : Console} {s' : Screen Cell} (h : Draws c c' s)
    (h' : Draws c' c'' s') : Draws c c'' s' where
  displays := h'.displays
  color_eq := h'.color_eq.trans h.color_eq
  confined := h.confined.trans h'.confined

/-- One cell of the buffer written. -/
theorem writeCell_draws (p : Profile) {row col : Nat} (hrow : row < vgaHeight)
    (hcol : col < vgaWidth) (byte color : U8) (bus : Bus) :
    ∃ bus', writeCell p vgaBuffer ((row * vgaWidth + col) * 2) byte color bus = .ok () bus' ∧
      (∀ r, ∀ k < vgaWidth, cellAt bus'.mem r k =
        if r = row ∧ k = col then ⟨byte, color⟩ else cellAt bus.mem r k) ∧
      Confined bus bus' := by
  rw [vgaHeight_eq] at hrow
  rw [vgaWidth_eq] at hcol
  have hfits : vgaBuffer + (row * vgaWidth + col) * 2 + 1 < 2 ^ 32 := by
    rw [vgaBuffer_eq, vgaWidth_eq]
    omega
  obtain ⟨bus', hrun, hmem, hlog⟩ := writeCell_writes (p := p) hfits byte color bus
  refine ⟨bus', hrun, fun r k hk => ?_, fun a ha => ?_⟩
  · -- Columns stay below the width, so two cells never share an index.
    have hindex : r * vgaWidth + k = row * vgaWidth + col ↔ r = row ∧ k = col := by
      rw [vgaWidth_eq] at hk ⊢
      omega
    simp only [cellAt, hmem]
    by_cases hcur : r = row ∧ k = col
    · rw [if_pos hcur, if_pos (by omega), if_neg (by omega), if_pos (by omega)]
    · rw [if_neg hcur, if_neg (by omega), if_neg (by omega), if_neg (by omega), if_neg (by omega)]
  · refine (hlog a ha).imp_right fun hin => ⟨hin.1.trans' (Nat.le_add_right ..), hin.2.trans ?_⟩
    simp only [vgaSize, vgaWidth_eq, vgaHeight_eq]
    omega

theorem writeAtCursor_draws (p : Profile) (byte : U8) (h : Displays c s)
    (hrow : s.row < vgaHeight) (hcol : s.col < vgaWidth) :
    ∃ c', writeAtCursor p byte c = .ok () c' ∧ Draws c c' (s.put ⟨byte, c.writer.color⟩) := by
  obtain ⟨bus, hrun, hcells, hconf⟩ := writeCell_draws p hrow hcol byte c.writer.color c.bus
  refine ⟨{ writer := { c.writer with col := s.col + 1 }, bus := bus }, ?_,
    ⟨h.row_eq, rfl, fun r hr k hk => ?_⟩, rfl, hconf⟩
  · rw [vgaHeight_eq] at hrow
    rw [vgaWidth_eq] at hcol hrun
    have hstart : mul p 32 s.row vgaWidth = .ok (s.row * 80) :=
      mul_eq_ok (by rw [vgaWidth_eq]; omega)
    have hcell : add p 32 (s.row * 80) s.col = .ok (s.row * 80 + s.col) := add_eq_ok (by omega)
    have hoffset : mul p 32 (s.row * 80 + s.col) 2 = .ok ((s.row * 80 + s.col) * 2) :=
      mul_eq_ok (by omega)
    have hnext : add p 32 s.col 1 = .ok (s.col + 1) := add_eq_ok (by omega)
    rw [writeAtCursor, run_get_bind, h.row_eq, h.col_eq, run_lift_bind hstart,
      run_lift_bind hcell, run_lift_bind hoffset, run_bind_of_ok (onBus_eq_ok hrun),
      run_lift_bind hnext]
    rfl
  · rw [hcells r k hk, h.cells r hr k hk]
    rfl

/-- The cells that end a line. -/
def isNewline (cell : Cell) : Bool := cell.byte = lineFeed

theorem writeByte_draws (p : Profile) (byte : U8) (h : Displays c s)
    (hin : s.InBounds vgaWidth vgaHeight) :
    ∃ c', writeByte p byte c = .ok () c' ∧
      Draws c c' (s.type vgaWidth vgaHeight isNewline (blank c.writer.color)
        ⟨byte, c.writer.color⟩) := by
  unfold writeByte Screen.type
  by_cases hbyte : byte = lineFeed
  · have hline : isNewline ⟨byte, c.writer.color⟩ = true := decide_eq_true hbyte
    rw [if_pos hbyte, if_pos hline]
    exact newline_draws p h hin.row_lt
  have hline : ¬ isNewline ⟨byte, c.writer.color⟩ = true := by simpa [isNewline] using hbyte
  rw [if_neg hbyte, if_neg hline, run_get_bind, h.col_eq]
  by_cases hfull : vgaWidth ≤ s.col
  · -- The line is full: the cursor first goes to column 0 of the next one.
    obtain ⟨c₁, hrun, hdraws⟩ := newline_draws p h hin.row_lt
    have hin₁ : (s.newline vgaHeight (blank c.writer.color)).InBounds 0 vgaHeight :=
      Screen.newline_inBounds vgaHeight_pos _
    obtain ⟨c', hrun', hdraws'⟩ := writeAtCursor_draws p byte hdraws.displays hin₁.row_lt
      (hin₁.col_le.trans_lt vgaWidth_pos)
    rw [if_pos hfull, if_pos hfull, run_bind_of_ok hrun]
    rw [hdraws.color_eq] at hdraws'
    exact ⟨c', hrun', hdraws.trans hdraws'⟩
  · rw [if_neg hfull, if_neg hfull]
    exact writeAtCursor_draws p byte h hin.row_lt (Nat.lt_of_not_le hfull)

/-- The screen after bytes of one colour. -/
def typeBytes (color : U8) (bytes : List U8) (s : Screen Cell) : Screen Cell :=
  s.typeAll vgaWidth vgaHeight isNewline (blank color) (bytes.map fun byte => ⟨byte, color⟩)

theorem typeBytes_append (color : U8) (bytes bytes' : List U8) (s : Screen Cell) :
    typeBytes color (bytes ++ bytes') s = typeBytes color bytes' (typeBytes color bytes s) := by
  rw [typeBytes, List.map_append, Screen.typeAll_append]
  rfl

theorem typeBytes_inBounds (h : s.InBounds vgaWidth vgaHeight) (color : U8) (bytes : List U8) :
    (typeBytes color bytes s).InBounds vgaWidth vgaHeight :=
  Screen.typeAll_inBounds h vgaWidth_pos _ _

theorem write_draws (p : Profile) (bytes : List U8) (h : Displays c s)
    (hin : s.InBounds vgaWidth vgaHeight) :
    ∃ c', write p bytes c = .ok () c' ∧ Draws c c' (typeBytes c.writer.color bytes s) := by
  refine forM_total (fun done c' => Draws c c' (typeBytes c.writer.color done s)) ?_
    ⟨h, rfl, Confined.refl _⟩
  intro done byte c₁ _ hI
  obtain ⟨c', hrun, hdraws⟩ :=
    writeByte_draws p byte hI.displays (typeBytes_inBounds hin c.writer.color done)
  rw [hI.color_eq] at hdraws
  refine ⟨c', hrun, ?_⟩
  rw [typeBytes_append]
  exact hI.trans hdraws

theorem print_draws (p : Profile) (pieces : List (List U8)) (h : Displays c s)
    (hin : s.InBounds vgaWidth vgaHeight) :
    ∃ c', print p pieces c = .ok () c' ∧
      Draws c c' (typeBytes c.writer.color pieces.flatten s) := by
  refine forM_total (fun done c' => Draws c c' (typeBytes c.writer.color done.flatten s)) ?_
    ⟨h, rfl, Confined.refl _⟩
  intro done bytes c₁ _ hI
  obtain ⟨c', hrun, hdraws⟩ :=
    write_draws p bytes hI.displays (typeBytes_inBounds hin c.writer.color done.flatten)
  rw [hI.color_eq] at hdraws
  refine ⟨c', hrun, ?_⟩
  rw [List.flatten_append, List.flatten_singleton, typeBytes_append]
  exact hI.trans hdraws

theorem printColor_draws (p : Profile) (color : U8) (pieces : List (List U8)) (h : Displays c s)
    (hin : s.InBounds vgaWidth vgaHeight) :
    ∃ c', printColor p color pieces c = .ok () c' ∧
      Draws c c' (typeBytes color pieces.flatten s) := by
  let colored : Console := { c with writer := { c.writer with color := color } }
  have hcolored : Displays colored s := ⟨h.row_eq, h.col_eq, h.cells⟩
  obtain ⟨c₁, hrun, hdraws⟩ := print_draws p pieces hcolored hin
  refine ⟨{ c₁ with writer := { c₁.writer with color := c.writer.color } }, ?_,
    ⟨hdraws.displays.row_eq, hdraws.displays.col_eq, hdraws.displays.cells⟩, rfl,
    hdraws.confined⟩
  rw [printColor, run_get_bind, setColor, assign, run_modify_bind,
    run_bind_of_ok hrun]
  rfl

theorem reset_draws (p : Profile) (c : Console) :
    ∃ c', reset p c = .ok () c' ∧
      Draws c c' ⟨fun _ _ => blank c.writer.color, 0, 0⟩ := by
  let home : Console := { c with writer := { c.writer with col := 0, row := 0 } }
  have hhome : Displays home ⟨cellAt c.bus.mem, 0, 0⟩ := ⟨rfl, rfl, fun _ _ _ _ => rfl⟩
  obtain ⟨c', hrun, -, hdraws⟩ := clear_draws p hhome
  refine ⟨c', ?_, hdraws.displays, hdraws.color_eq, hdraws.confined⟩
  rw [reset, assign, run_modify_bind, assign, run_modify_bind]
  exact hrun

end Draws

/-! ## Every history of operations -/

/-- What other modules may ask of the console. -/
inductive Op where
  | write (bytes : List U8)
  | writeByte (byte : U8)
  | newline
  | clear
  | reset
  | setColor (color : U8)
  | print (pieces : List (List U8))
  | printColor (color : U8) (pieces : List (List U8))
  deriving DecidableEq, Repr

/-- One operation. -/
def Op.perform (p : Profile) : Op → Exec Console Unit
  | .write bytes => Vga.write p bytes
  | .writeByte byte => Vga.writeByte p byte
  | .newline => Vga.newline p
  | .clear => Vga.clear p
  | .reset => Vga.reset p
  | .setColor color => Vga.setColor color
  | .print pieces => Vga.print p pieces
  | .printColor color pieces => Vga.printColor p color pieces

/-- The cursor stands in a row of the screen, at most one column behind its last. -/
def VgaWriter.InRange (w : VgaWriter) : Prop := w.row < vgaHeight ∧ w.col ≤ vgaWidth

theorem Draws.inRange {c c' : Console} {s : Screen Cell} (h : Draws c c' s)
    (hin : s.InBounds vgaWidth vgaHeight) : c'.writer.InRange :=
  ⟨h.displays.row_eq ▸ hin.row_lt, h.displays.col_eq ▸ hin.col_le⟩

/-- What an operation keeps: the cursor in range, the accesses in the buffer, and the colour
    unless it is the one that sets it. -/
structure Kept (op : Op) (c c' : Console) : Prop where
  inRange : c'.writer.InRange
  confined : Confined c.bus c'.bus
  cursor : op = .clear → c'.writer = c.writer
  color : (∀ color, op ≠ .setColor color) → c'.writer.color = c.writer.color

/-- Step lemma: from a cursor in range every operation returns. -/
theorem Op.perform_keeps (p : Profile) (op : Op) {c : Console} (h : c.writer.InRange) :
    ∃ c', op.perform p c = .ok () c' ∧ Kept op c c' := by
  -- Every console displays some screen, the one read off its buffer.
  let s : Screen Cell := ⟨cellAt c.bus.mem, c.writer.row, c.writer.col⟩
  have hs : Displays c s := ⟨rfl, rfl, fun _ _ _ _ => rfl⟩
  have hin : s.InBounds vgaWidth vgaHeight := ⟨h.1, h.2⟩
  have hkept : ∀ {c' s'}, op ≠ .clear → Draws c c' s' → s'.InBounds vgaWidth vgaHeight →
      Kept op c c' := fun hop hdraws hin' =>
    ⟨hdraws.inRange hin', hdraws.confined, fun heq => absurd heq hop, fun _ => hdraws.color_eq⟩
  cases op with
  | write bytes =>
    obtain ⟨c', hrun, hdraws⟩ := write_draws p bytes hs hin
    exact ⟨c', hrun, hkept nofun hdraws (typeBytes_inBounds hin _ _)⟩
  | writeByte byte =>
    obtain ⟨c', hrun, hdraws⟩ := writeByte_draws p byte hs hin
    exact ⟨c', hrun, hkept nofun hdraws (Screen.type_inBounds hin vgaWidth_pos _ _)⟩
  | newline =>
    obtain ⟨c', hrun, hdraws⟩ := newline_draws p hs hin.row_lt
    exact ⟨c', hrun, hkept nofun hdraws (Screen.newline_inBounds vgaHeight_pos _)⟩
  | clear =>
    obtain ⟨c', hrun, hwriter, hdraws⟩ := clear_draws p hs
    exact ⟨c', hrun, hwriter ▸ h, hdraws.confined, fun _ => hwriter, fun _ => hdraws.color_eq⟩
  | reset =>
    obtain ⟨c', hrun, hdraws⟩ := reset_draws p c
    exact ⟨c', hrun, hkept nofun hdraws ⟨vgaHeight_pos, Nat.zero_le _⟩⟩
  | setColor color =>
    exact ⟨_, rfl, h, Confined.refl _, nofun, fun hop => absurd rfl (hop color)⟩
  | print pieces =>
    obtain ⟨c', hrun, hdraws⟩ := print_draws p pieces hs hin
    exact ⟨c', hrun, hkept nofun hdraws (typeBytes_inBounds hin _ _)⟩
  | printColor color pieces =>
    obtain ⟨c', hrun, hdraws⟩ := printColor_draws p color pieces hs hin
    exact ⟨c', hrun, hkept nofun hdraws (typeBytes_inBounds hin _ _)⟩

/-- **The console stays in the text buffer**: after any operations from `VgaWriter::new()`, all of
    which return, the cursor is in range and every access so far was in the buffer; and the next
    operation keeps the colour unless it sets it, and the cursor if it is `clear`. -/
theorem console_confined (p : Profile) (mem : Memory) (ops : List Op) :
    ∃ c, forM ops (Op.perform p) ⟨.new, ⟨mem, []⟩⟩ = .ok () c ∧
      c.writer.row ≤ 24 ∧ c.writer.col ≤ 80 ∧
      (∀ a ∈ c.bus.accesses,
        vgaBuffer ≤ a.addr ∧ a.addr + a.size ≤ vgaBuffer + 80 * 25 * 2) ∧
      ∀ op : Op, ∃ c', op.perform p c = .ok () c' ∧
        (op = .clear → c'.writer.row = c.writer.row ∧ c'.writer.col = c.writer.col) ∧
        ((∀ color, op ≠ .setColor color) → c'.writer.color = c.writer.color) := by
  obtain ⟨c, hrun, hin, hconf⟩ : ∃ c, forM ops (Op.perform p) ⟨.new, ⟨mem, []⟩⟩ = .ok () c ∧
      c.writer.InRange ∧ Confined ⟨mem, []⟩ c.bus := by
    refine forM_total (fun _ (c : Console) => c.writer.InRange ∧ Confined ⟨mem, []⟩ c.bus) ?_
      ⟨⟨vgaHeight_pos, Nat.zero_le _⟩, Confined.refl _⟩
    rintro - op c - ⟨hin, hconf⟩
    obtain ⟨c', hrun, hkept⟩ := op.perform_keeps p hin
    exact ⟨c', hrun, hkept.inRange, hconf.trans hkept.confined⟩
  refine ⟨c, hrun, Nat.le_of_lt_succ hin.1, hin.2, fun a ha => ?_, fun op => ?_⟩
  · exact (hconf a ha).resolve_left (List.not_mem_nil)
  · obtain ⟨c', hnext, hkept⟩ := op.perform_keeps p hin
    refine ⟨c', hnext, fun hop => ?_, hkept.color⟩
    rw [hkept.cursor hop]
    exact ⟨rfl, rfl⟩

/-! ## The text on the console -/

/-- One call of `write`, with the colour set for it. -/
structure Call where
  color : U8
  bytes : List U8

/-- The bytes of some calls, each with its colour. -/
def typed (calls : List Call) : List Cell :=
  calls.flatMap fun call => call.bytes.map fun byte => ⟨byte, call.color⟩

/-- Sets the colour and writes. -/
def Call.perform (p : Profile) (call : Call) : Exec Console Unit := do
  setColor call.color
  write p call.bytes

/-- A cell without text. -/
def IsBlank (cell : Cell) : Prop := cell.byte = space

/-- The console shows the last rows of `text`, typed behind the rows that were there before, and its
    cursor is in range. -/
def ShowsBehind (Blank : Cell → Prop) (rows : List (List Cell)) (text : List Cell) (c : Console) :
    Prop :=
  ∃ s, Displays c s ∧ s.InBounds vgaWidth vgaHeight ∧
    s.ShowsBehind vgaWidth vgaHeight isNewline Blank rows text

theorem Call.perform_shows (p : Profile) (call : Call) {done : List Call} {c : Console}
    (h : ShowsBehind IsBlank [] (typed done) c) :
    ∃ c', call.perform p c = .ok () c' ∧ ShowsBehind IsBlank [] (typed (done ++ [call])) c' := by
  obtain ⟨s, hdisplays, hin, hshows⟩ := h
  let colored : Console := { c with writer := { c.writer with color := call.color } }
  have hcolored : Displays colored s := ⟨hdisplays.row_eq, hdisplays.col_eq, hdisplays.cells⟩
  obtain ⟨c', hrun, hdraws⟩ := write_draws p call.bytes hcolored hin
  refine ⟨c', ?_, _, hdraws.displays, typeBytes_inBounds hin _ _, ?_⟩
  · rw [perform, setColor, assign, run_modify_bind]
    exact hrun
  · have htext := hshows.typeAll vgaWidth_pos (show IsBlank (blank call.color) from rfl)
      (call.bytes.map fun byte => ⟨byte, call.color⟩)
    rw [typed, List.flatMap_append, List.flatMap_singleton]
    exact htext

/-- **The console is the last 25 rows of the wrapped text**: from a reset writer, whatever it held
    before, the writes return; each cell that the last rows cover holds its byte and colour, every
    other cell is a blank, and the cursor is in the last row, at its length. -/
theorem console_shows_last_rows (p : Profile) (before : Console) (calls : List Call) :
    ∃ c, (do reset p; forM calls (Call.perform p) : Exec Console Unit) before = .ok () c ∧
      let rows := wrapRows 80 isNewline (typed calls)
      (∀ r < 25, ∀ col < 80,
        (∀ cell, (rows.rtake 25)[r]?.bind (fun row => row[col]?) = some cell →
          cellAt c.bus.mem r col = cell) ∧
        ((rows.rtake 25)[r]?.bind (fun row => row[col]?) = none →
          (cellAt c.bus.mem r col).byte = space)) ∧
      ∃ last, rows.getLast? = some last ∧ c.writer.row + 1 = min 25 rows.length ∧
        c.writer.col = last.length := by
  obtain ⟨c₀, hreset, hdraws⟩ := reset_draws p before
  obtain ⟨c, hrun, s, hdisplays, -, init, last, hrows, hshows⟩ :
      ∃ c, forM calls (Call.perform p) c₀ = .ok () c ∧ ShowsBehind IsBlank [] (typed calls) c := by
    refine forM_total (fun done c => ShowsBehind IsBlank [] (typed done) c) ?_
      ⟨_, hdraws.displays, ?_, ?_⟩
    · exact fun done call c _ h => call.perform_shows p h
    · exact ⟨vgaHeight_pos, Nat.zero_le _⟩
    · exact Screen.showsBehind_blank vgaHeight_pos rfl
  rw [List.nil_append, vgaWidth_eq] at hrows
  refine ⟨c, (run_bind_of_ok hreset).trans hrun, ?_, last, ?_, ?_, ?_⟩
  · intro r hr col hcol
    have hcell := hshows.cells r hr col hcol
    rw [← hdisplays.cells r hr col hcol, hrows] at hcell
    constructor
    · intro cell hitem
      rw [Screen.item, vgaHeight_eq, hitem] at hcell
      exact hcell
    · intro hitem
      rw [Screen.item, vgaHeight_eq, hitem] at hcell
      exact hcell
  · simp [← hrows]
  · rw [← hrows, hdisplays.row_eq, hshows.row_eq]
    simp [vgaHeight_eq]
  · rw [hdisplays.col_eq, hshows.col_eq]

end Zkrnl32.Vga
