import PocketKernel.Text.Printable

/-!
# The text screen

The screen is 25 rows of 80 cells, held as one row-major list of 2000 cells. Each cell has a byte
and the two colours it is shown in. Text is written at the cursor in the current colours. A row
that is full is left only when the next byte comes, so the column may rest at 80. A line feed on
the last row moves everything up by one row.

The hardware shows a cursor of its own, which follows only when it is told to. A screen whose
cursor was moved off the cells cannot be written to.

## Main definitions

* `Cell`, `Screen`, `Screen.blank`: the state.
* `Screen.writeByte?`, `Screen.write?`: write at the cursor.
* `Screen.cursorLeft`, `Screen.setColors`, `Screen.clear`: the other operations.
-/

namespace PocketKernel

/-- One of sixteen colours: black, blue, green, cyan, red, magenta, brown, light gray, and then
dark gray, light blue, light green, light cyan, light red, pink, yellow, white. -/
abbrev Color := Fin 16

/-- The colours of a cell as one byte, by the colour of its letter and the colour behind it. -/
def Color.pair (letter back : Color) : UInt8 := UInt8.ofNat (16 * back.val + letter.val)

/-- One character place of the screen. -/
structure Cell where
  byte : UInt8
  colors : UInt8
deriving DecidableEq, Repr

/-- The number of rows. -/
def screenRows : Nat := 25

/-- The number of cells in a row. -/
def screenColumns : Nat := 80

/-- The screen and where it is written to. -/
structure Screen where
  /-- The cells, row after row. -/
  cells : Vector Cell (screenRows * screenColumns)
  /-- The row that is written to. -/
  row : Nat
  /-- The column that is written to next; 80 if the row is full. -/
  column : Nat
  /-- The colours of what is written. -/
  colors : UInt8
  /-- Where the hardware was last told to show its cursor. -/
  shownCursor : Option Nat
deriving DecidableEq, Repr

namespace Screen

/-- A blank cell in the current colours. -/
def blankCell (screen : Screen) : Cell := ⟨0x20, screen.colors⟩

/-- A blank screen in white on black, with the cursor in its first cell. -/
def blank : Screen where
  cells := Vector.replicate (screenRows * screenColumns) ⟨0x20, Color.pair 15 0⟩
  row := 0
  column := 0
  colors := Color.pair 15 0
  shownCursor := none

/-- The number of the cell that is written to next, counting through the rows. -/
def position (screen : Screen) : Nat := screen.row * screenColumns + screen.column

/-- Move every row up by one. The last row becomes blank. -/
def scroll (screen : Screen) : Screen :=
  { screen with
    cells := Vector.ofFn fun i =>
      if h : i.val + screenColumns < screenRows * screenColumns then
        screen.cells[i.val + screenColumns]
      else screen.blankCell }

/-- Go to the start of the next row. -/
def newLine (screen : Screen) : Screen :=
  if screen.row < screenRows - 1 then { screen with row := screen.row + 1, column := 0 }
  else { screen.scroll with column := 0 }

/-- Leave a row that is full. -/
def wrap (screen : Screen) : Screen :=
  if screenColumns ≤ screen.column then screen.newLine else screen

/-- Put a byte into the cell at the cursor, if there is such a cell. -/
def put? (screen : Screen) (byte : UInt8) : Option Screen :=
  if h : screen.position < screenRows * screenColumns then
    some { screen with
      cells := screen.cells.set screen.position ⟨byte, screen.colors⟩
      column := screen.column + 1 }
  else
    none

/-- Write one byte: a line feed, a return to the start of the row, or something to show. -/
def writeByte? (screen : Screen) (byte : UInt8) : Option Screen :=
  if byte = 0x0A then some screen.newLine
  else if byte = 0x0D then some { screen with column := 0 }
  else screen.wrap.put? byte

/-- What is written for a byte of text: printable characters and line feeds stand for themselves,
everything else is shown as a block. -/
def glyph (byte : UInt8) : UInt8 :=
  if isPrintableByte byte || byte == 0x0A then byte else 0xFE

/-- Where the hardware cursor belongs: in a row that is full, on the last cell. -/
def cursorPosition (screen : Screen) : Nat :=
  screen.row * screenColumns + min screen.column (screenColumns - 1)

/-- Tell the hardware where to show its cursor. -/
def showCursor (screen : Screen) : Screen :=
  { screen with shownCursor := some screen.cursorPosition }

/-- Write a text. -/
def write? (screen : Screen) (bytes : List UInt8) : Option Screen :=
  (bytes.foldlM (fun screen byte => writeByte? screen (glyph byte)) screen).map showCursor

/-- Move the cursor back by a number of cells, at most to the first one. -/
def cursorLeft (screen : Screen) (count : Nat) : Screen :=
  let target := screen.position - count
  showCursor { screen with row := target / screenColumns, column := target % screenColumns }

/-- Change the colours of what is written from now on. -/
def setColors (screen : Screen) (letter back : Color) : Screen :=
  { screen with colors := Color.pair letter back }

/-- Make the whole screen blank in the current colours, and go to its first cell. -/
def clear (screen : Screen) : Screen :=
  showCursor { screen with
    cells := Vector.replicate (screenRows * screenColumns) screen.blankCell
    row := 0
    column := 0 }

/-- The cells of one row. -/
def rowCells (screen : Screen) (row : Nat) : List Cell :=
  (screen.cells.toList.drop (row * screenColumns)).take screenColumns

@[simp] theorem row_showCursor (screen : Screen) : screen.showCursor.row = screen.row := rfl

@[simp] theorem column_showCursor (screen : Screen) : screen.showCursor.column = screen.column :=
  rfl

@[simp] theorem cells_showCursor (screen : Screen) : screen.showCursor.cells = screen.cells := rfl

@[simp] theorem shownCursor_showCursor (screen : Screen) :
    screen.showCursor.shownCursor = some screen.cursorPosition := rfl

theorem column_newLine (screen : Screen) : screen.newLine.column = 0 := by
  unfold newLine
  split <;> rfl

-- The screen is taken apart first: to compare it with what was scrolled would compare all cells.
theorem row_newLine (screen : Screen) :
    screen.newLine.row = if screen.row < screenRows - 1 then screen.row + 1 else screen.row := by
  cases screen
  unfold newLine
  split <;> rfl

theorem shownCursor_newLine (screen : Screen) :
    screen.newLine.shownCursor = screen.shownCursor := by
  cases screen
  unfold newLine
  split <;> rfl

end Screen

end PocketKernel
