import PocketKernel.Text.Blank

/-!
# The history of a shell

The shell remembers the last sixteen lines that it was given, oldest first. Lines of nothing but
blanks are not remembered.

## Main definitions

* `History`, `History.push`: the lines, and one more.
-/

namespace PocketKernel

/-- The lines that are remembered, oldest first. -/
structure History where
  lines : List Text
deriving DecidableEq, Repr

namespace History

/-- How many lines are remembered. -/
def capacity : Nat := 16

/-- Nothing is remembered. -/
def empty : History := ⟨[]⟩

/-- The number of lines. -/
def size (history : History) : Nat := history.lines.length

/-- Nothing is remembered. -/
def isEmpty (history : History) : Bool := history.lines.isEmpty

/-- Remember a line. The oldest one is forgotten if there are too many. -/
def push (history : History) (line : Text) : History :=
  if line.all Text.isBlank then history
  else ⟨(if history.size < capacity then history.lines else history.lines.drop 1) ++ [line]⟩

/-- The line at an index, counted from the oldest. -/
def get? (history : History) (index : Nat) : Option Text := history.lines[index]?

end History

end PocketKernel
