import Zkrnl32.Vga
import Zkrnl32.Machine.Effect
import Zkrnl32.Machine.Format
import Zkrnl32.Machine.Screen.Rows

/-!
# Text on the Console

Model of the macros of `src/console.rs` and of the colours of `src/vga.rs`, and what they do to a
console in any state.

- `printk`, `printkColor`: formatted text, as the macros hand it to the writer.
- `ShowsBehind`: the console shows the last rows of what was printed, behind rows that were there
  before.  Printing keeps it (`print_shows`, `printColor_shows`).
- `Logged`: memory changes at logged accesses only.  Every operation of the writer has this effect,
  and its accesses lie in the text buffer, so the rest of memory is left alone.
-/

namespace Zkrnl32.Vga

open Zkrnl32.Machine Zkrnl32.Volatile

/-! ## Colours -/

inductive Color where
  | black
  | blue
  | green
  | cyan
  | red
  | magenta
  | brown
  | lightGray
  | darkGray
  | lightBlue
  | lightGreen
  | lightCyan
  | lightRed
  | pink
  | yellow
  | white
  deriving DecidableEq, Repr

/-- `color as u8`. -/
def Color.toU8 : Color → U8
  | .black => 0x0
  | .blue => 0x1
  | .green => 0x2
  | .cyan => 0x3
  | .red => 0x4
  | .magenta => 0x5
  | .brown => 0x6
  | .lightGray => 0x7
  | .darkGray => 0x8
  | .lightBlue => 0x9
  | .lightGreen => 0xa
  | .lightCyan => 0xb
  | .lightRed => 0xc
  | .pink => 0xd
  | .yellow => 0xe
  | .white => 0xf

/-- The colour on a coloured background. -/
def Color.on (color bg : Color) : U8 := bg.toU8 <<< 4 ||| color.toU8

/-! ## The macros -/

/-- `printk!`. -/
def printk (p : Profile) (text : String) : Exec Console Unit := print p [ascii text]

/-- `printk_color!`. -/
def printkColor (p : Profile) (color : U8) (text : String) : Exec Console Unit :=
  printColor p color [ascii text]

/-! ## Memory outside the buffer -/

/-- Memory changes at logged accesses only. -/
def Logged (bus bus' : Bus) : Prop :=
  ∃ new, bus'.accesses = new ++ bus.accesses ∧
    ∀ x, bus'.mem x ≠ bus.mem x → ∃ a ∈ new, a.addr ≤ x ∧ x < a.addr + a.size

instance : Std.Refl Logged := ⟨fun _ => ⟨[], rfl, fun _ hx => (hx rfl).elim⟩⟩

instance : IsTrans Bus Logged where
  trans := by
    rintro bus₁ bus₂ bus₃ ⟨new, hnew, hmem⟩ ⟨new', hnew', hmem'⟩
    refine ⟨new' ++ new, by rw [hnew', hnew, List.append_assoc], fun x hx => ?_⟩
    by_cases hx' : bus₃.mem x = bus₂.mem x
    · obtain ⟨a, ha, hin⟩ := hmem x (hx' ▸ hx)
      exact ⟨a, List.mem_append_right new' ha, hin⟩
    · obtain ⟨a, ha, hin⟩ := hmem' x hx'
      exact ⟨a, List.mem_append_left new ha, hin⟩

theorem readVolatile_logged (addr size : Nat) : HasEffect Logged (readVolatile addr size) :=
  ⟨fun _ => ⟨[⟨addr, size⟩], rfl, fun _ hx => (hx rfl).elim⟩⟩

theorem writeVolatile_logged (addr : Nat) (bytes : List U8) :
    HasEffect Logged (writeVolatile addr bytes) := by
  constructor
  intro bus
  refine ⟨[⟨addr, bytes.length⟩], rfl, fun x hx => ⟨_, List.mem_singleton_self _, ?_⟩⟩
  by_contra hout
  exact hx (Memory.store_apply_of_not_mem _ _ _ hout)

theorem writeCell_logged (p : Profile) (base offset : Nat) (byte color : U8) :
    HasEffect Logged (writeCell p base offset byte color) :=
  (hasEffect_lift _).bind fun _ => (writeVolatile_logged _ _).bind fun _ =>
    (hasEffect_lift _).bind fun _ => (hasEffect_lift _).bind fun _ => writeVolatile_logged _ _

theorem blankCells_logged (p : Profile) (base count : Nat) (color : U8) :
    HasEffect Logged (blankCells p base count color) :=
  hasEffect_forM (fun _ => (hasEffect_lift _).bind fun _ => writeCell_logged p _ _ _ _) _

theorem copyElement_logged (p : Profile) (size src dst i : Nat) :
    HasEffect Logged (copyElement p size src dst i) :=
  (hasEffect_lift _).bind fun _ => (readVolatile_logged _ _).bind fun _ =>
    (hasEffect_lift _).bind fun _ => writeVolatile_logged _ _

theorem copy_logged (p : Profile) (size src dst count : Nat) :
    HasEffect Logged (copy p size src dst count) := by
  have hloops : ∀ backward : Bool, HasEffect Logged (if backward then
      forM (List.range count).reverse (copyElement p size src dst)
      else forM (List.range count) (copyElement p size src dst)) := fun backward =>
    HasEffect.ite (hasEffect_forM (copyElement_logged p size src dst) _)
      (hasEffect_forM (copyElement_logged p size src dst) _)
  refine (hasEffect_lift _).bind fun _ => HasEffect.ite ?_ ?_
  · exact (hasEffect_lift _).bind fun _ => (hasEffect_pure _).bind hloops
  · exact (hasEffect_pure _).bind hloops

/-- The effect on the device behind a console. -/
def ConsoleLogged (c c' : Console) : Prop := Logged c.bus c'.bus

instance : Std.Refl ConsoleLogged := ⟨fun c => Std.Refl.refl c.bus⟩

instance : IsTrans Console ConsoleLogged :=
  ⟨fun _ _ _ h h' => IsTrans.trans (r := Logged) _ _ _ h h'⟩

theorem onBus_logged {α : Type} {x : Exec Bus α} (h : HasEffect Logged x) :
    HasEffect ConsoleLogged (onBus x) :=
  h.zoom fun _ _ hx => hx

theorem assign_logged (f : VgaWriter → VgaWriter) : HasEffect ConsoleLogged (assign f) :=
  ⟨fun c => Std.Refl.refl (r := Logged) c.bus⟩

theorem clear_logged (p : Profile) : HasEffect ConsoleLogged (clear p) :=
  hasEffect_get.bind fun _ => onBus_logged (blankCells_logged p _ _ _)

theorem clearRow_logged (p : Profile) (row : Nat) : HasEffect ConsoleLogged (clearRow p row) :=
  hasEffect_get.bind fun _ => (hasEffect_lift _).bind fun _ => (hasEffect_lift _).bind fun _ =>
    (hasEffect_lift _).bind fun _ => onBus_logged (blankCells_logged p _ _ _)

theorem scroll_logged (p : Profile) : HasEffect ConsoleLogged (scroll p) :=
  (hasEffect_lift _).bind fun _ => (onBus_logged (copy_logged p _ _ _ _)).bind fun _ =>
    (assign_logged _).bind fun _ => hasEffect_get.bind fun _ => clearRow_logged p _

theorem newline_logged (p : Profile) : HasEffect ConsoleLogged (newline p) :=
  (assign_logged _).bind fun _ => hasEffect_get.bind fun _ => (hasEffect_lift _).bind fun _ =>
    (assign_logged _).bind fun _ => HasEffect.ite (scroll_logged p) (hasEffect_pure _)

theorem writeAtCursor_logged (p : Profile) (byte : U8) :
    HasEffect ConsoleLogged (writeAtCursor p byte) :=
  hasEffect_get.bind fun _ => (hasEffect_lift _).bind fun _ => (hasEffect_lift _).bind fun _ =>
    (hasEffect_lift _).bind fun _ => (onBus_logged (writeCell_logged p _ _ _ _)).bind fun _ =>
      (hasEffect_lift _).bind fun _ => assign_logged _

theorem writeByte_logged (p : Profile) (byte : U8) :
    HasEffect ConsoleLogged (writeByte p byte) := by
  refine HasEffect.ite (newline_logged p) (hasEffect_get.bind fun _ => HasEffect.ite ?_ ?_)
  · exact (newline_logged p).bind fun _ => writeAtCursor_logged p byte
  · exact (hasEffect_pure ()).bind fun _ => writeAtCursor_logged p byte

theorem print_logged (p : Profile) (pieces : List (List U8)) :
    HasEffect ConsoleLogged (print p pieces) :=
  hasEffect_forM (fun _ => hasEffect_forM (writeByte_logged p) _) _

theorem printColor_logged (p : Profile) (color : U8) (pieces : List (List U8)) :
    HasEffect ConsoleLogged (printColor p color pieces) :=
  hasEffect_get.bind fun _ => (assign_logged _).bind fun _ => (print_logged p pieces).bind fun _ =>
    assign_logged _

/-- The bytes of the text buffer. -/
def vgaBytes : Set Nat := Set.Ico vgaBuffer (vgaBuffer + vgaSize)

/-- Accesses confined to the buffer leave the rest of memory alone. -/
theorem Logged.mem_eq {bus bus' : Bus} (h : Logged bus bus') (hconfined : Confined bus bus')
    (hempty : bus.accesses = []) {x : Nat} (hx : x ∉ vgaBytes) : bus'.mem x = bus.mem x := by
  by_contra hne
  obtain ⟨new, hnew, hmem⟩ := h
  obtain ⟨a, ha, hlo, hhi⟩ := hmem x hne
  have hin : a.Inside vgaBuffer vgaSize := by
    refine (hconfined a ?_).resolve_left (by simp [hempty])
    rw [hnew]
    exact List.mem_append_left _ ha
  exact hx ⟨hin.1.trans hlo, hhi.trans_le hin.2⟩

/-! ## What the console shows -/

/-- The cells of some bytes in one colour. -/
def colored (color : U8) (bytes : List U8) : List Cell := bytes.map fun byte => ⟨byte, color⟩

theorem colored_append (color : U8) (bytes bytes' : List U8) :
    colored color (bytes ++ bytes') = colored color bytes ++ colored color bytes' :=
  List.map_append

/-- Lines of text, each with its line end. -/
def endLines (lines : List String) : List U8 := lines.flatMap fun line => ascii line ++ [lineFeed]

@[simp] theorem endLines_nil : endLines [] = [] := rfl

@[simp] theorem endLines_cons (line : String) (lines : List String) :
    endLines (line :: lines) = ascii line ++ lineFeed :: endLines lines := by
  simp [endLines]

@[simp] theorem endLines_append (lines lines' : List String) :
    endLines (lines ++ lines') = endLines lines ++ endLines lines' :=
  List.flatMap_append

theorem ascii_newline : ascii "\n" = [lineFeed] := by decide

theorem colored_ne_newline {line : String} (h : OneLine line) (color : U8) :
    ∀ cell ∈ colored color (ascii line), isNewline cell = false := by
  intro cell hcell
  obtain ⟨byte, hbyte, rfl⟩ := List.mem_map.mp hcell
  exact decide_eq_false (h.ascii_ne hbyte)

/-- Lines that fit are one row each, and the cursor is left in an empty one. -/
theorem wrapRows_endLines {lines : List String} (h : ∀ line ∈ lines, Fits vgaWidth line)
    (color : U8) :
    wrapRows vgaWidth isNewline (colored color (endLines lines)) =
      lines.map (fun line => colored color (ascii line)) ++ [[]] := by
  have hline : isNewline ⟨lineFeed, color⟩ = true := rfl
  have hcells : colored color (endLines lines) =
      (lines.map fun line => colored color (ascii line)).flatMap (· ++ [⟨lineFeed, color⟩]) := by
    induction lines with
    | nil => rfl
    | cons line lines ih =>
      rw [endLines_cons, colored_append, List.map_cons, List.flatMap_cons,
        ← ih fun l hl => h l (List.mem_cons_of_mem line hl)]
      simp [colored]
  rw [hcells]
  refine wrapRows_lines hline fun row hrow => ?_
  obtain ⟨line, hmem, rfl⟩ := List.mem_map.mp hrow
  refine ⟨colored_ne_newline (h line hmem).oneLine color, ?_⟩
  rw [colored, List.length_map, length_ascii]
  exact (h line hmem).length_le

/-- What printing leaves as it was: the colour, and memory outside the buffer. -/
structure Printed (c c' : Console) : Prop where
  color_eq : c'.writer.color = c.writer.color
  mem_eq : c.bus.accesses = [] → ∀ x ∉ vgaBytes, c'.bus.mem x = c.bus.mem x

section Shows

variable {p : Profile} {Blank : Cell → Prop} {rows : List (List Cell)} {text : List Cell}
  {c : Console}

theorem typeBytes_showsBehind {s : Screen Cell}
    (h : s.ShowsBehind vgaWidth vgaHeight isNewline Blank rows text)
    (hblank : ∀ color, Blank (blank color)) (color : U8) (bytes : List U8) :
    (typeBytes color bytes s).ShowsBehind vgaWidth vgaHeight isNewline Blank rows
      (text ++ colored color bytes) :=
  h.typeAll vgaWidth_pos (hblank color) _

theorem print_shows (p : Profile) (pieces : List (List U8)) (h : ShowsBehind Blank rows text c)
    (hblank : ∀ color, Blank (blank color)) :
    ∃ c', print p pieces c = .ok () c' ∧ Printed c c' ∧
      ShowsBehind Blank rows (text ++ colored c.writer.color pieces.flatten) c' := by
  obtain ⟨s, hs, hin, hshows⟩ := h
  obtain ⟨c', hrun, hdraws⟩ := print_draws p pieces hs hin
  refine ⟨c', hrun, ⟨hdraws.color_eq, fun hempty x hx => ?_⟩, _, hdraws.displays,
    typeBytes_inBounds hin _ _, typeBytes_showsBehind hshows hblank _ _⟩
  exact ((print_logged p pieces).of_ok hrun).mem_eq hdraws.confined hempty hx

theorem printColor_shows (p : Profile) (color : U8) (pieces : List (List U8))
    (h : ShowsBehind Blank rows text c) (hblank : ∀ color, Blank (blank color)) :
    ∃ c', printColor p color pieces c = .ok () c' ∧ Printed c c' ∧
      ShowsBehind Blank rows (text ++ colored color pieces.flatten) c' := by
  obtain ⟨s, hs, hin, hshows⟩ := h
  obtain ⟨c', hrun, hdraws⟩ := printColor_draws p color pieces hs hin
  refine ⟨c', hrun, ⟨hdraws.color_eq, fun hempty x hx => ?_⟩, _, hdraws.displays,
    typeBytes_inBounds hin _ _, typeBytes_showsBehind hshows hblank _ _⟩
  exact ((printColor_logged p color pieces).of_ok hrun).mem_eq hdraws.confined hempty hx

/-- A console in any state shows the rows it holds. -/
theorem exists_shows (c : Console) (h : c.writer.InRange) :
    ∃ s init last, Displays c s ∧ s.InBounds vgaWidth vgaHeight ∧
      s.Shows vgaWidth vgaHeight (fun _ => True) init last := by
  let s : Screen Cell := ⟨cellAt c.bus.mem, c.writer.row, c.writer.col⟩
  have hin : s.InBounds vgaWidth vgaHeight := ⟨h.1, h.2⟩
  exact ⟨s, s.above vgaWidth, s.current, ⟨rfl, rfl, fun _ _ _ _ => rfl⟩, hin,
    Screen.shows_above hin⟩

theorem typeBytes_lineFeed (color : U8) (bytes : List U8) (s : Screen Cell) :
    typeBytes color (lineFeed :: bytes) s =
      typeBytes color bytes (s.newline vgaHeight (blank color)) := by
  have hline : isNewline ⟨lineFeed, color⟩ = true := rfl
  have htype : s.type vgaWidth vgaHeight isNewline (blank color) ⟨lineFeed, color⟩ =
      s.newline vgaHeight (blank color) := if_pos hline
  rw [typeBytes, List.map_cons, Screen.typeAll, List.foldl_cons, htype]
  rfl

/-- Text that begins with a line end is shown behind whatever the console held. -/
theorem printColor_newline_shows (p : Profile) (color : U8) {pieces : List (List U8)}
    {bytes : List U8} (hpieces : pieces.flatten = lineFeed :: bytes) (h : c.writer.InRange) :
    ∃ rows c', printColor p color pieces c = .ok () c' ∧ Printed c c' ∧
      ShowsBehind (fun _ => True) rows (colored color bytes) c' := by
  obtain ⟨s, init, last, hs, hin, hshows⟩ := exists_shows c h
  obtain ⟨c', hrun, hdraws⟩ := printColor_draws p color pieces hs hin
  have hline : (s.newline vgaHeight (blank color)).ShowsBehind vgaWidth vgaHeight isNewline
      (fun _ => True) (init ++ [last]) [] := (hshows.newline trivial).showsBehind
  have htyped := typeBytes_showsBehind hline (fun _ => trivial) color bytes
  refine ⟨init ++ [last], c', hrun, ⟨hdraws.color_eq, fun hempty x hx => ?_⟩, _, hdraws.displays,
    typeBytes_inBounds hin _ _, ?_⟩
  · exact ((printColor_logged p color pieces).of_ok hrun).mem_eq hdraws.confined hempty hx
  · rw [hpieces, typeBytes_lineFeed]
    exact htyped

end Shows

end Zkrnl32.Vga
