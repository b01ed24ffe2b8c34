import PocketKernel.Screen.Basic
import PocketKernel.Text.Utf8

/-!
# The log

A record of the log has a level, a target and a text. Records above the limit are dropped. Every
other record is written to the serial line, and warnings and errors also to the screen, there
without the target.

The serial line rubs out: a backspace or delete character is sent as backspace, blank, backspace.

## Main definitions

* `LogLevel`, `LogRecord`: records and how urgent they are.
* `LogRecord.serialText?`, `LogRecord.screenText?`: where a record goes.
* `serialBytes`: what is sent over the serial line for a text.
-/

namespace PocketKernel

/-- How urgent a record is. -/
inductive LogLevel where
  | error
  | warning
  | info
  | debug
  | trace
deriving DecidableEq, Repr

namespace LogLevel

/-- The name of a level. -/
def name : LogLevel → String
  | .error => "ERROR"
  | .warning => "WARN"
  | .info => "INFO"
  | .debug => "DEBUG"
  | .trace => "TRACE"

/-- The least limit that lets records of a level pass. Limit zero lets nothing pass. -/
def rank : LogLevel → Nat
  | .error => 1
  | .warning => 2
  | .info => 3
  | .debug => 4
  | .trace => 5

end LogLevel

/-- A record of the log. -/
structure LogRecord where
  level : LogLevel
  /-- The part of the system that it comes from. -/
  target : Text
  text : Text
deriving DecidableEq, Repr

namespace LogRecord

/-- The level in brackets, as records start. -/
def heading (record : LogRecord) : Text := '[' :: record.level.name.toList ++ [']', ' ']

/-- What a record puts on the serial line. -/
def serialText? (record : LogRecord) (limit : Nat) : Option Text :=
  if record.level.rank ≤ limit then
    some (record.heading ++ record.target ++ [':', ' '] ++ record.text ++ ['\n'])
  else
    none

/-- What a record puts on the screen. -/
def screenText? (record : LogRecord) (limit : Nat) : Option Text :=
  if record.level.rank ≤ limit && record.level.rank ≤ LogLevel.warning.rank then
    some (record.heading ++ record.text ++ ['\n'])
  else
    none

end LogRecord

/-- The bytes that are sent over the serial line for a text. -/
def serialBytes (text : Text) : List UInt8 :=
  (Text.utf8 text).flatMap fun byte =>
    if byte = 0x08 ∨ byte = 0x7F then [0x08, 0x20, 0x08] else [byte]

end PocketKernel
