import PocketKernel.Shell.Console
import PocketKernel.Shell.History
import PocketKernel.Text.Boundary
import PocketKernel.Text.Printable

/-!
# The line editor

The line that is being typed, the place in it where typing goes on, and the position in the
history while lines are recalled. Every change of the line is shown on the console right away: what
stands behind the cursor is written again, cells that are left over are blanked, and the cursor is
moved back.

Positions and lengths are counted in bytes. As long as a line consists of printable characters, a
byte is a character and a cell of the console. A recalled line may contain others; an operation
that has to cut such a line inside of a character breaks the editor off.

## Main definitions

* `LineEditor`, `LineEditor.empty`: the state.
* `EditM`: an operation, with what it shows.
* `EditM.insert`, `EditM.backspace`, `EditM.delete`: change the line.
* `EditM.moveLeft`, `EditM.moveRight`, `EditM.home`, `EditM.toEnd`: move in the line.
* `EditM.older`, `EditM.newer`: recall lines.
-/

namespace PocketKernel

/-- The line that is being typed. -/
structure LineEditor where
  line : Text
  /-- How many bytes of the line stand before the cursor. -/
  cursor : Nat
  /-- The index of the line that was recalled last, while lines are recalled. -/
  recalled : Option Nat
deriving DecidableEq, Repr

namespace LineEditor

/-- Nothing was typed. -/
def empty : LineEditor := ⟨[], 0, none⟩

/-- The length of the line in bytes. -/
def size (editor : LineEditor) : Nat := Text.utf8Size editor.line

/-- Typing does not make a line longer than this many bytes. -/
def sizeLimit : Nat := 127

end LineEditor

/-- The editor, and what it has shown. -/
structure Editing where
  editor : LineEditor
  shown : List ConsoleEvent
deriving DecidableEq, Repr

/-- An operation of the editor. It breaks off if it has to cut a line inside of a character. -/
abbrev EditM := StateT Editing Option

namespace EditM

/-- The state of the editor. -/
def editor : EditM LineEditor := do
  pure (← get).editor

/-- Change the state of the editor. -/
def change (f : LineEditor → LineEditor) : EditM Unit :=
  modify fun editing => { editing with editor := f editing.editor }

/-- Show something on the console. -/
def tell (event : ConsoleEvent) : EditM Unit :=
  modify fun editing => { editing with shown := editing.shown ++ [event] }

/-- Write a text on the console. -/
def display (text : Text) : EditM Unit := tell (.text text)

/-- Move the cursor of the console back. -/
def back (count : Nat) : EditM Unit := tell (.left count)

/-- The parts of the line before and behind the cursor. -/
def parts : EditM (Text × Text) := do
  let editor ← editor
  StateT.lift (Text.splitAtByte? editor.line editor.cursor)

/-- Write the line again from the cursor on, blank some cells behind it, and move back. -/
def redraw (stale : Nat) : EditM Unit := do
  let (_, tail) ← parts
  display tail
  display (List.replicate stale ' ')
  back (Text.utf8Size tail + stale)

/-- Take out the character at the cursor. -/
def remove : EditM Unit := do
  match ← parts with
  | (before, _ :: after) => change fun editor => { editor with line := before ++ after }
  | (_, []) => failure

/-- Move one byte to the right. -/
def moveRight : EditM Unit := do
  let editor ← editor
  if editor.cursor < editor.size then
    match ← parts with
    | (_, c :: _) =>
      if c.utf8Size = 1 then
        display [c]
        change fun editor => { editor with cursor := editor.cursor + 1 }
      else
        failure
    | (_, []) => failure

/-- Move one byte to the left. -/
def moveLeft : EditM Unit := do
  if 0 < (← editor).cursor then
    change fun editor => { editor with cursor := editor.cursor - 1 }
    back 1

/-- Type a character at the cursor, unless the line is as long as it may be. -/
def insert (c : Char) : EditM Unit := do
  let editor ← editor
  if editor.size < LineEditor.sizeLimit then
    if editor.cursor = editor.size then
      change fun editor => { editor with line := editor.line ++ [c] }
      moveRight
    else
      let (before, after) ← parts
      change fun editor => { editor with line := before ++ c :: after }
      redraw 0
      moveRight

/-- Type the printable characters of a text. -/
def insertAll (text : Text) : EditM Unit := (text.filter isPrintable).forM insert

/-- Take out the character before the cursor. -/
def backspace : EditM Unit := do
  if 0 < (← editor).cursor then
    change fun editor => { editor with cursor := editor.cursor - 1 }
    back 1
    remove
    redraw 1

/-- Take out the character behind the cursor. -/
def delete : EditM Unit := do
  let editor ← editor
  if editor.cursor ≠ editor.size then
    remove
    redraw 1

/-- Move to the start of the line. -/
def home : EditM Unit := do
  back (← editor).cursor
  change fun editor => { editor with cursor := 0 }

/-- Move to the end of the line. -/
def toEnd : EditM Unit := do
  let (_, tail) ← parts
  display tail
  change fun editor => { editor with cursor := editor.size }

/-- Put another line in the place of the line, with the cursor at its end. -/
def replace (line : Text) : EditM Unit := do
  let old := (← editor).size
  home
  display line
  change fun editor => { editor with line := line, cursor := Text.utf8Size line }
  let stale := old - Text.utf8Size line
  display (List.replicate stale ' ')
  back stale

/-- Recall the line at an index of the history. -/
def recallAt (history : History) (index : Nat) : EditM Unit := do
  change fun editor => { editor with recalled := some index }
  replace ((history.get? index).getD [])

/-- Recall the line before the one that was recalled last, or the latest one. -/
def older (history : History) : EditM Unit := do
  if !history.isEmpty then
    match (← editor).recalled with
    | none => recallAt history (history.size - 1)
    | some 0 => pure ()
    | some (index + 1) => recallAt history index

/-- Recall the line behind the one that was recalled last; behind the latest one is an empty
line. -/
def newer (history : History) : EditM Unit := do
  match (← editor).recalled with
  | none => pure ()
  | some index =>
    if index + 1 < history.size then
      recallAt history (index + 1)
    else
      change fun editor => { editor with recalled := none }
      replace []

/-- Drop the line. Nothing is shown. -/
def clear : EditM Unit := change fun _ => .empty

end EditM

end PocketKernel
