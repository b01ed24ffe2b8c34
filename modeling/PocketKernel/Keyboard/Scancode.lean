import PocketKernel.Keyboard.Key

/-!
# Scancodes

The keyboard sends a byte for each key that goes down and the same byte with its highest bit set
when the key goes up. The bytes E0 and E1 announce that the next byte, whatever it is, is to be
looked up in a table of its own. A byte that the table does not have is dropped.

## Main definitions

* `ScancodeTable`: which table the next byte is looked up in.
* `ScancodeTable.key?`: the tables.
* `ScancodeTable.feed`: one byte.
-/

namespace PocketKernel

/-- The table in which the next byte is looked up. -/
inductive ScancodeTable where
  | plain
  | extended
  | secondExtended
deriving DecidableEq, Repr

namespace ScancodeTable

/-- The letter keys of a row, from a code on. -/
private def rowKey? (letters : List Char) (first code : Nat) : Option Key :=
  if code < first then none else (letters[code - first]?).map Key.letter

/-- The key of a code in the plain table. -/
def plainKey? (code : Nat) : Option Key :=
  match code with
  | 0x01 => some .escape
  | 0x02 => some (.digit 1)
  | 0x03 => some (.digit 2)
  | 0x04 => some (.digit 3)
  | 0x05 => some (.digit 4)
  | 0x06 => some (.digit 5)
  | 0x07 => some (.digit 6)
  | 0x08 => some (.digit 7)
  | 0x09 => some (.digit 8)
  | 0x0A => some (.digit 9)
  | 0x0B => some (.digit 0)
  | 0x0C => some .minus
  | 0x0D => some .plus
  | 0x0E => some .backspace
  | 0x0F => some .tab
  | 0x1A => some .leftBracket
  | 0x1B => some .rightBracket
  | 0x1C => some .enter
  | 0x1D => some .leftControl
  | 0x27 => some .semicolon
  | 0x28 => some .quote
  | 0x29 => some .grave
  | 0x2A => some .leftShift
  | 0x2B => some .backslash
  | 0x33 => some .comma
  | 0x34 => some .period
  | 0x35 => some .slash
  | 0x36 => some .rightShift
  | 0x37 => some .padMultiply
  | 0x38 => some .leftAlt
  | 0x39 => some .space
  | 0x3A => some .capsLock
  | 0x45 => some .numLock
  | 0x46 => some .mute
  | 0x47 => some (.pad 7)
  | 0x48 => some (.pad 8)
  | 0x49 => some (.pad 9)
  | 0x4A => some .padSubtract
  | 0x4B => some (.pad 4)
  | 0x4C => some (.pad 5)
  | 0x4D => some (.pad 6)
  | 0x4E => some .padAdd
  | 0x4F => some (.pad 1)
  | 0x50 => some (.pad 2)
  | 0x51 => some (.pad 3)
  | 0x52 => some (.pad 0)
  | 0x53 => some .padPeriod
  | 0x54 => some .mute
  | 0x56 => some .angle
  | 0x57 => some .mute
  | 0x58 => some .mute
  | _ =>
    if 0x3B ≤ code && code ≤ 0x44 then
      some .mute
    else
      rowKey? "qwertyuiop".toList 0x10 code
        <|> rowKey? "asdfghjkl".toList 0x1E code
        <|> rowKey? "zxcvbnm".toList 0x2C code

/-- The key of a code in the table behind E0. Codes whose keys do nothing are left out. -/
def extendedKey? (code : Nat) : Option Key :=
  match code with
  | 0x1C => some .padEnter
  | 0x1D => some .rightControl
  | 0x35 => some .padDivide
  | 0x38 => some .rightAlt
  | 0x47 => some .home
  | 0x48 => some .arrowUp
  | 0x4B => some .arrowLeft
  | 0x4D => some .arrowRight
  | 0x4F => some .toEnd
  | 0x50 => some .arrowDown
  | 0x53 => some .delete
  | _ => none

/-- The key of a code in the table behind E1. -/
def secondExtendedKey? (code : Nat) : Option Key :=
  if code = 0x1D then some .pauseControl else none

/-- The key of a code in a table. -/
def key? : ScancodeTable → Nat → Option Key
  | .plain => plainKey?
  | .extended => extendedKey?
  | .secondExtended => secondExtendedKey?

/-- Feed one byte: the table for the next one, and the key that went down or up, if the byte
names one. -/
def feed (table : ScancodeTable) (byte : UInt8) : ScancodeTable × Option (Key × Motion) :=
  if table = .plain && byte = 0xE0 then
    (.extended, none)
  else if table = .plain && byte = 0xE1 then
    (.secondExtended, none)
  else
    let motion := if byte < 0x80 then Motion.down else Motion.up
    (.plain, (table.key? (byte.toNat % 128)).map (·, motion))

end ScancodeTable

end PocketKernel
