import PocketKernel.Text.Numeral
import PocketKernel.Text.Utf8

/-!
# What a console is told

The shell talks to its console in three ways: it writes bytes at the cursor, it moves the cursor
back over what is there, and it clears the screen. What it says is kept as a row of events, so it
can be shown on any kind of console.

## Main definitions

* `ConsoleEvent`: one thing that is said.
* `ConsoleEvent.ansi`: how a terminal is told.
-/

namespace PocketKernel

/-- One thing that a console is told. -/
inductive ConsoleEvent where
  /-- Write bytes at the cursor. -/
  | write (bytes : List UInt8)
  /-- Move the cursor back by a number of cells. Nothing is erased. -/
  | left (count : Nat)
  /-- Clear the screen. -/
  | clear
deriving DecidableEq, Repr

namespace ConsoleEvent

/-- Write a text at the cursor. -/
def text (text : Text) : ConsoleEvent := write (Text.utf8 text)

/-- The bytes that tell a terminal of an event, with control sequences where they are needed. -/
def ansi : ConsoleEvent → List UInt8
  | write bytes => bytes
  | left count => if count = 0 then [] else Text.utf8 ("\x1b[" ++ Text.decimal count ++ ['D'])
  | clear => Text.utf8 "\x1b[2J\x1b[H"

end ConsoleEvent

end PocketKernel
