import Mathlib.Logic.Function.Basic
import PocketKernel.Proofs.Screen.Bounds

/-!
# The screen as a window on a tape

What is written goes onto a tape of cells that has no end, one cell behind the other, and 80 of them
make a row. The screen is a window of 25 rows on that tape. It stands still while there is room
below the cursor and then moves down by one row at a time; nothing that was written changes by that.
A row that is full is left only when the next byte comes, but on the tape its end and the start of
the next row are the same place.

So a move back by as many cells as were printed leads to where the printing began, over any number
of rows, as long as that place is still in the window.

## Main definitions

* `Screen.tape`: the cells of a screen and those that would come up from below.
* `Screen.Windows`: a screen shows a tape from some row on.
* `Screen.Printed`, `Screen.AtStart`: what a text leaves on the screen, and where the way back ends.

## Main results

* `Screen.Windows.newLine`, `Screen.Windows.writeByte?`: the steps, on the tape.
* `Screen.Windows.printed`: a text, on the tape.
* `Screen.cursorLeft_undoes_print`: the way back over a printed text.
-/

namespace PocketKernel

namespace Screen

variable {s t : Screen}

/-- The cells of a screen, row after row and without an end: behind the last one stands what would
come up from below. -/
def tape (s : Screen) (place : ℕ) : Cell := s.cells[place]?.getD s.blankCell

/-- The screen shows what stands on a tape from the row `top` on. Rows above it are lost only to a
screen that is written to in its last row. -/
structure Windows (s : Screen) (top : ℕ) (cells : ℕ → Cell) : Prop where
  tape_eq : ∀ place, s.tape place = cells (top * screenColumns + place)
  row_lt : s.row < screenRows
  column_le : s.column ≤ screenColumns
  lost : top = 0 ∨ s.row + 1 = screenRows

/-- Where a screen is written to, on the tape that it shows from the row `top` on. -/
def spot (s : Screen) (top : ℕ) : ℕ := top * screenColumns + s.position

theorem tape_of_lt {place : ℕ} (h : place < screenRows * screenColumns) :
    s.tape place = s.cells[place] := by
  rw [tape, Vector.getElem?_eq_getElem h, Option.getD_some]

theorem tape_of_le {place : ℕ} (h : screenRows * screenColumns ≤ place) :
    s.tape place = s.blankCell := by
  rw [tape, Vector.getElem?_eq_none h, Option.getD_none]

/-- A screen shows its own tape. -/
theorem windows_tape (hrow : s.row < screenRows) (hcolumn : s.column ≤ screenColumns) :
    s.Windows 0 s.tape :=
  ⟨fun place => by rw [Nat.zero_mul, Nat.zero_add], hrow, hcolumn, .inl rfl⟩

theorem Windows.showCursor {top : ℕ} {cells : ℕ → Cell} (h : s.Windows top cells) :
    s.showCursor.Windows top cells :=
  ⟨h.tape_eq, h.row_lt, h.column_le, h.lost⟩

/-! ### Steps on the tape -/

-- The screens are taken apart first: to compare them as they are would compare all cells.
@[simp] theorem colors_scroll (s : Screen) : s.scroll.colors = s.colors := by
  cases s
  rfl

@[simp] theorem colors_newLine (s : Screen) : s.newLine.colors = s.colors := by
  cases s
  unfold newLine
  split <;> rfl

/-- The tape is there wherever the screen is written to. -/
theorem tape_moved (s : Screen) (row column : ℕ) :
    Screen.tape { s with row := row, column := column } = s.tape := rfl

theorem tape_scroll (s : Screen) (place : ℕ) :
    s.scroll.tape place = s.tape (place + screenColumns) := by
  by_cases hplace : place < screenRows * screenColumns
  · rw [tape_of_lt hplace]
    simp only [scroll, Vector.getElem_ofFn]
    split
    next hbelow => rw [tape_of_lt hbelow]
    next hbelow => rw [tape_of_le (Nat.le_of_not_lt hbelow)]
  · have hle := Nat.le_of_not_lt hplace
    rw [tape_of_le hle, tape_of_le (Nat.le_add_right_of_le hle), blankCell, blankCell,
      colors_scroll]

theorem tape_newLine (s : Screen) (place : ℕ) : s.newLine.tape place
    = s.tape (if s.row < screenRows - 1 then place else place + screenColumns) := by
  unfold newLine
  split
  · rw [tape_moved]
  · rw [tape_moved s.scroll s.scroll.row, tape_scroll]

/-- **A new row** moves the window down if there is no row below; the tape stays as it is. -/
theorem Windows.newLine {top : ℕ} {cells : ℕ → Cell} (h : s.Windows top cells) :
    ∃ top', s.newLine.Windows top' cells ∧ top' + s.newLine.row = top + s.row + 1 := by
  have hrow := h.row_lt
  have hlost := h.lost
  have hrow' := row_newLine s
  have hcolumn := column_newLine s
  by_cases hroom : s.row < screenRows - 1
  · rw [if_pos hroom] at hrow'
    refine ⟨top, ⟨fun place => ?_, by omega, by omega, .inl (by omega)⟩, by omega⟩
    rw [tape_newLine, if_pos hroom, h.tape_eq]
  · rw [if_neg hroom] at hrow'
    refine ⟨top + 1, ⟨fun place => ?_, by omega, by omega, .inr (by omega)⟩, by omega⟩
    rw [tape_newLine, if_neg hroom, h.tape_eq, Nat.succ_mul, Nat.add_assoc, Nat.add_comm place]

/-- A full row is left for a new one, on the tape for the same place. -/
theorem Windows.wrap {top : ℕ} {cells : ℕ → Cell} (h : s.Windows top cells) :
    ∃ top', s.wrap.Windows top' cells ∧ s.wrap.spot top' = s.spot top
      ∧ s.wrap.column < screenColumns ∧ s.wrap.colors = s.colors := by
  unfold Screen.wrap
  split
  next hfull =>
    obtain ⟨top', hnew, hrow⟩ := h.newLine
    have hcolumn := column_newLine s
    have hle := h.column_le
    refine ⟨top', hnew, ?_, by rw [hcolumn]; decide, colors_newLine s⟩
    simp only [spot, position, hcolumn, screenColumns] at *
    omega
  next hroom => exact ⟨top, h, rfl, Nat.lt_of_not_le hroom, rfl⟩

theorem tape_set (s : Screen) {place : ℕ} (h : place < screenRows * screenColumns) (cell : Cell)
    (column : ℕ) : Screen.tape { s with cells := s.cells.set place cell, column := column }
      = Function.update s.tape place cell := by
  funext other
  rw [Function.update_apply, tape, Vector.getElem?_set, tape]
  split
  next heq => rw [if_pos heq.symm, Option.getD_some]
  next hne => rw [if_neg fun heq => hne heq.symm]; rfl

theorem Windows.put? {top : ℕ} {cells : ℕ → Cell} (h : s.Windows top cells)
    (hroom : s.column < screenColumns) (byte : UInt8) : ∃ t, s.put? byte = some t
      ∧ t.Windows top (Function.update cells (s.spot top) ⟨byte, s.colors⟩)
      ∧ t.spot top = s.spot top + 1 ∧ 0 < t.column ∧ t.colors = s.colors := by
  have hrow := h.row_lt
  have hcell : s.position < screenRows * screenColumns := by
    simp only [position, screenRows, screenColumns] at *
    omega
  rw [Screen.put?, dif_pos hcell]
  refine ⟨_, rfl, ⟨fun place => ?_, hrow, hroom, h.lost⟩, ?_, Nat.succ_pos _, rfl⟩
  · rw [tape_set, Function.update_apply, Function.update_apply, h.tape_eq, spot]
    simp only [Nat.add_left_cancel_iff]
  · simp only [spot, position]
    omega

/-- **A byte that is shown** is entered on the tape where the screen is written to. -/
theorem Windows.writeByte? {top : ℕ} {cells : ℕ → Cell} (h : s.Windows top cells) {byte : UInt8}
    (hfeed : byte ≠ 0x0A) (hreturn : byte ≠ 0x0D) : ∃ t top', s.writeByte? byte = some t
      ∧ t.Windows top' (Function.update cells (s.spot top) ⟨byte, s.colors⟩)
      ∧ t.spot top' = s.spot top + 1 ∧ 0 < t.column ∧ t.colors = s.colors := by
  obtain ⟨top', hwrap, hspot, hroom, hcolors⟩ := h.wrap
  obtain ⟨t, hput, hwindows, hnext, hcolumn, hcolors'⟩ := hwrap.put? hroom byte
  rw [Screen.writeByte?, if_neg hfeed, if_neg hreturn]
  rw [hspot, hcolors] at hwindows
  exact ⟨t, top', hput, hwindows, by rw [hnext, hspot], hcolumn, hcolors'.trans hcolors⟩

/-! ### Printed texts -/

/-- A tape after cells were laid onto it from a place on. -/
def overlaid (cells : ℕ → Cell) (spot : ℕ) (text : List Cell) (place : ℕ) : Cell :=
  if spot ≤ place then text[place - spot]?.getD (cells place) else cells place

@[simp] theorem overlaid_nil (cells : ℕ → Cell) (spot : ℕ) : overlaid cells spot [] = cells := by
  funext place
  rw [overlaid, List.getElem?_nil, Option.getD_none, ite_self]

theorem overlaid_cons (cells : ℕ → Cell) (spot : ℕ) (cell : Cell) (text : List Cell) :
    overlaid (Function.update cells spot cell) (spot + 1) text
      = overlaid cells spot (cell :: text) := by
  funext place
  rw [overlaid, overlaid, Function.update_apply]
  rcases Nat.lt_trichotomy place spot with hlt | rfl | hgt
  · rw [if_neg (by omega), if_neg (by omega), if_neg (by omega)]
  · rw [if_neg (by omega), if_pos rfl, if_pos (Nat.le_refl _), Nat.sub_self,
      List.getElem?_cons_zero, Option.getD_some]
  · rw [if_pos (by omega), if_neg (by omega), if_pos (by omega),
      show place - spot = place - (spot + 1) + 1 by omega, List.getElem?_cons_succ]

theorem overlaid_add {cells : ℕ → Cell} {spot i : ℕ} {text : List Cell} (h : i < text.length) :
    overlaid cells spot text (spot + i) = text[i] := by
  rw [overlaid, if_pos (Nat.le_add_right _ _), Nat.add_sub_cancel_left,
    List.getElem?_eq_getElem h, Option.getD_some]

theorem overlaid_outside {cells : ℕ → Cell} {spot place : ℕ} {text : List Cell}
    (h : place < spot ∨ spot + text.length ≤ place) :
    overlaid cells spot text place = cells place := by
  rw [overlaid]
  split
  next hle => rw [List.getElem?_eq_none (by omega), Option.getD_none]
  next => rfl

theorem glyph_of_isPrintable {byte : UInt8} (h : isPrintableByte byte = true) :
    glyph byte = byte := by
  rw [glyph, h, Bool.true_or, if_pos rfl]

/-- **A text of printable characters** is laid onto the tape where the screen is written to. -/
theorem Windows.printed {top : ℕ} {cells : ℕ → Cell} (h : s.Windows top cells) {text : List UInt8}
    (htext : ∀ byte ∈ text, isPrintableByte byte = true) :
    ∃ t top', text.foldlM (fun s byte => Screen.writeByte? s (glyph byte)) s = some t
      ∧ t.Windows top' (overlaid cells (s.spot top) (text.map (⟨·, s.colors⟩)))
      ∧ t.spot top' = s.spot top + text.length ∧ (text ≠ [] → 0 < t.column) := by
  induction text generalizing s top cells with
  | nil => exact ⟨s, top, rfl, by rwa [List.map_nil, overlaid_nil], rfl, fun hne => absurd rfl hne⟩
  | cons byte text ih =>
    have hbyte := htext byte List.mem_cons_self
    have hshown : byte ≠ 0x0A ∧ byte ≠ 0x0D := by
      constructor <;> rintro rfl <;> exact absurd hbyte (by decide)
    obtain ⟨t, top', hwrite, hwindows, hspot, hcolumn, hcolors⟩ :=
      h.writeByte? hshown.1 hshown.2
    obtain ⟨u, top'', hwrites, hwindows', hspot', hcolumn'⟩ :=
      ih hwindows fun other hother => htext other (List.mem_cons_of_mem _ hother)
    rw [hspot, hcolors, overlaid_cons] at hwindows'
    refine ⟨u, top'', ?_, hwindows', by rw [hspot', hspot, List.length_cons]; omega, fun _ => ?_⟩
    · rw [List.foldlM_cons, glyph_of_isPrintable hbyte, hwrite]
      exact hwrites
    · by_cases hnil : text = []
      · subst hnil
        obtain rfl : t = u := Option.some.inj hwrites
        exact hcolumn
      · exact hcolumn' hnil

/-- The rows that leave the screen when a number of cells is printed. -/
def rowsLost (s : Screen) (count : ℕ) : ℕ :=
  (s.position + (count - 1)) / screenColumns - (screenRows - 1)

/-- What a text leaves on the screen `t` when it is printed on `s`: its characters from where `s` is
written to, and in all other cells what was there or came up from below; all of it is moved up by
the rows that were lost. -/
structure Printed (s : Screen) (text : List UInt8) (t : Screen) : Prop where
  text_at : ∀ place (hplace : place < screenRows * screenColumns) i (hi : i < text.length),
    place + s.rowsLost text.length * screenColumns = s.position + i →
    t.cells[place] = ⟨text[i], s.colors⟩
  others : ∀ place (hplace : place < screenRows * screenColumns),
    (∀ i < text.length, place + s.rowsLost text.length * screenColumns ≠ s.position + i) →
    t.cells[place] = s.tape (place + s.rowsLost text.length * screenColumns)

/-- The cursor of the screen `u` is on the cell of the first character of a text that was printed
on `s`, and the characters of the text are in the cells from there on. Nothing is erased. -/
structure AtStart (s : Screen) (text : List UInt8) (u : Screen) : Prop where
  printed : s.Printed text u
  row_lt : u.row < screenRows
  column_lt : u.column < screenColumns
  position_eq : u.position + s.rowsLost text.length * screenColumns = s.position
  shownCursor_eq : u.shownCursor = some u.position
  text_at : ∀ i (hi : i < text.length), u.cells[u.position + i]? = some ⟨text[i], s.colors⟩

/-! ### The way back -/

theorem column_cursorLeft_lt (s : Screen) (count : ℕ) :
    (s.cursorLeft count).column < screenColumns := Nat.mod_lt _ (by decide)

theorem position_cursorLeft (s : Screen) (count : ℕ) :
    (s.cursorLeft count).position = s.position - count := Nat.div_add_mod' _ _

theorem shownCursor_cursorLeft (s : Screen) (count : ℕ) :
    (s.cursorLeft count).shownCursor = some (s.cursorLeft count).position := by
  have hshown : (s.cursorLeft count).shownCursor = some (s.cursorLeft count).cursorPosition := rfl
  rw [hshown, cursorPosition, Nat.min_eq_left (Nat.le_sub_one_of_lt (column_cursorLeft_lt s count)),
    position]

/-- The rows that were lost are the ones above the window. -/
theorem Windows.top_eq_rowsLost {top count : ℕ} {cells : ℕ → Cell} (h : t.Windows top cells)
    (hspot : t.spot top = s.position + count) (hcount : 0 < count) (hcolumn : 0 < t.column) :
    top = s.rowsLost count := by
  have hrow := h.row_lt
  have hle := h.column_le
  have hlost := h.lost
  simp only [rowsLost, spot, position, screenRows, screenColumns] at *
  omega

theorem Windows.printed_on {cells : ℕ → Cell} {text : List UInt8}
    (h : t.Windows (s.rowsLost text.length) cells)
    (hcells : cells = overlaid s.tape s.position (text.map (⟨·, s.colors⟩))) :
    s.Printed text t := by
  subst hcells
  constructor
  · intro place hplace i hi heq
    rw [← tape_of_lt hplace, h.tape_eq, Nat.add_comm, heq, overlaid_add (by simpa using hi),
      List.getElem_map]
  · intro place hplace hothers
    rw [← tape_of_lt hplace, h.tape_eq, Nat.add_comm, overlaid_outside]
    rw [List.length_map]
    by_contra hinside
    exact hothers (place + s.rowsLost text.length * screenColumns - s.position) (by omega)
      (by omega)

/-- The way back from behind a text leads to its first character, if that is still shown. -/
theorem Printed.atStart {text : List UInt8} (h : s.Printed text t) (hrow : t.row < screenRows)
    (hcolumn : t.column ≤ screenColumns) (hne : text ≠ [])
    (hspot : t.spot (s.rowsLost text.length) = s.position + text.length)
    (hstill : s.rowsLost text.length * screenColumns ≤ s.position) :
    s.AtStart text (t.cursorLeft text.length) := by
  have hlength := List.length_pos_iff.mpr hne
  have hend : t.position ≤ screenRows * screenColumns := by
    simp only [position, screenRows, screenColumns] at *
    omega
  rw [spot] at hspot
  have hposition := position_cursorLeft t text.length
  have hleft : (t.cursorLeft text.length).position + s.rowsLost text.length * screenColumns
      = s.position := by omega
  refine ⟨⟨h.text_at, h.others⟩, ?_, column_cursorLeft_lt t _, hleft, shownCursor_cursorLeft t _,
    fun i hi => ?_⟩
  · have hlt : (t.cursorLeft text.length).position < screenRows * screenColumns := by omega
    rw [position] at hlt
    exact Nat.lt_of_mul_lt_mul_right (Nat.lt_of_le_of_lt (Nat.le_add_right _ _) hlt)
  · have hplace : (t.cursorLeft text.length).position + i < screenRows * screenColumns := by omega
    rw [Vector.getElem?_eq_getElem hplace]
    exact congrArg some (h.text_at _ hplace i hi (by omega))

/-- **A move back undoes printing.** Wherever a text of printable characters is printed, it is on
the screen afterwards, except for the rows that were lost at the top, and everything else is as it
was or came up blank. If its first character is still there, a move back by its length leads to that
character, over any number of rows. -/
theorem cursorLeft_undoes_print (hrow : s.row < screenRows) (hcolumn : s.column ≤ screenColumns)
    {text : List UInt8} (hne : text ≠ [])
    (htext : ∀ byte ∈ text, isPrintableByte byte = true) :
    ∃ t, s.write? text = some t ∧ s.Printed text t
      ∧ (s.rowsLost text.length * screenColumns ≤ s.position →
        s.AtStart text (t.cursorLeft text.length)) := by
  obtain ⟨t, top, hwrites, hwindows, hspot, hpos⟩ := (windows_tape hrow hcolumn).printed htext
  have hlength := List.length_pos_iff.mpr hne
  rw [show s.spot 0 = s.position by rw [spot, Nat.zero_mul, Nat.zero_add]] at hwindows hspot
  obtain rfl := hwindows.top_eq_rowsLost hspot hlength (hpos hne)
  have hprinted : s.Printed text t.showCursor := hwindows.showCursor.printed_on rfl
  refine ⟨t.showCursor, by rw [write?, hwrites, Option.map_some], hprinted, ?_⟩
  exact hprinted.atStart hwindows.row_lt hwindows.column_le hne hspot

/-- A screen that is written to in the last two cells of its last row. -/
def corner : Screen := { blank with row := 24, column := 78 }

/-- Three characters go over the end of the last row. One row is lost, and the way back leads to the
last but one cell of the row before the last. -/
theorem cursorLeft_undoes_print_corner :
    corner.row < screenRows ∧ corner.column ≤ screenColumns
      ∧ (∀ byte ∈ [0x61, 0x62, 0x63], isPrintableByte byte = true) ∧ corner.rowsLost 3 = 1
      ∧ ∃ t, corner.write? [0x61, 0x62, 0x63] = some t ∧ corner.Printed [0x61, 0x62, 0x63] t
        ∧ corner.AtStart [0x61, 0x62, 0x63] (t.cursorLeft 3)
        ∧ (t.cursorLeft 3).row = 23 ∧ (t.cursorLeft 3).column = 78 := by
  have hlost : corner.rowsLost 3 = 1 := rfl
  have hprintable : ∀ byte ∈ [0x61, 0x62, 0x63], isPrintableByte byte = true := by
    decide +kernel
  obtain ⟨t, hwrite, hprinted, hback⟩ := cursorLeft_undoes_print (s := corner)
    (by decide) (by decide) (List.cons_ne_nil _ _) hprintable
  have hstart := hback (by decide)
  have hplace : (t.cursorLeft 3).position + 80 = 1998 := hstart.position_eq
  have hcolumn : (t.cursorLeft 3).column < 80 := hstart.column_lt
  rw [position, screenColumns] at hplace
  exact ⟨by decide, by decide, hprintable, hlost, t, hwrite, hprinted, hstart, by omega, by omega⟩

end Screen

end PocketKernel
