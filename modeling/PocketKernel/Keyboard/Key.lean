/-!
# Keys and the modifiers that are held

A key is named for its place on a keyboard with 104 or 105 keys, in terms of what it carries in
the United States; what it produces is up to the layout. `Held` is the state of the keys that
change what others produce.

## Main definitions

* `Key`: the keys that can produce something, or that modify.
* `Held`, `Held.after`: the modifiers, and how a key that goes down or up changes them.
* `Modifiers`: the four modifiers that an event reports.
-/

namespace PocketKernel

/-- A key of the keyboard. -/
inductive Key where
  /-- A letter key, by the small letter that it carries in the United States. -/
  | letter (c : Char)
  /-- A key of the row of digits. -/
  | digit (n : Fin 10)
  | minus
  | plus
  /-- Left of the digit 1. -/
  | grave
  /-- The two keys right of the letter P. -/
  | leftBracket
  | rightBracket
  /-- The three keys right of the letter L. -/
  | semicolon
  | quote
  | backslash
  | comma
  | period
  | slash
  /-- Between left shift and the letter Z, on keyboards with 105 keys. -/
  | angle
  | escape
  | backspace
  | tab
  | enter
  | space
  | delete
  | home
  | toEnd
  | arrowUp
  | arrowDown
  | arrowLeft
  | arrowRight
  /-- A digit of the number pad. -/
  | pad (n : Fin 10)
  | padPeriod
  | padMultiply
  | padSubtract
  | padAdd
  | padDivide
  | padEnter
  | leftShift
  | rightShift
  | leftControl
  | rightControl
  /-- The control key that the pause key pretends to press. -/
  | pauseControl
  | leftAlt
  | rightAlt
  | capsLock
  | numLock
  /-- A key that never produces anything. -/
  | mute
deriving DecidableEq, Repr

/-- A key goes down or up. -/
inductive Motion where
  | down
  | up
deriving DecidableEq, Repr

/-- The keys that are held, and the locks that are on. -/
structure Held where
  leftShift : Bool
  rightShift : Bool
  leftControl : Bool
  rightControl : Bool
  pauseControl : Bool
  leftAlt : Bool
  rightAlt : Bool
  capsLock : Bool
  numLock : Bool
deriving DecidableEq, Repr

namespace Held

/-- Nothing is held, and only the number lock is on. -/
def initial : Held where
  leftShift := false
  rightShift := false
  leftControl := false
  rightControl := false
  pauseControl := false
  leftAlt := false
  rightAlt := false
  capsLock := false
  numLock := true

/-- A shift key is held. -/
def shifted (held : Held) : Bool := held.leftShift || held.rightShift

/-- A control key is held. -/
def control (held : Held) : Bool := held.leftControl || held.rightControl

/-- The right alt key is held, or the left one together with a control key. -/
def altGr (held : Held) : Bool := held.rightAlt || (held.leftAlt && held.control)

/-- Letters come out as capitals: shift and the lock cancel each other. -/
def caps (held : Held) : Bool := held.shifted ^^ held.capsLock

/-- The state after a key went down or up. The locks change when their key goes down; the number
lock does not while the pause key pretends to hold control. -/
def after (held : Held) (key : Key) (motion : Motion) : Held :=
  let down := motion = .down
  match key with
  | .leftShift => { held with leftShift := down }
  | .rightShift => { held with rightShift := down }
  | .leftControl => { held with leftControl := down }
  | .rightControl => { held with rightControl := down }
  | .pauseControl => { held with pauseControl := down }
  | .leftAlt => { held with leftAlt := down }
  | .rightAlt => { held with rightAlt := down }
  | .capsLock => { held with capsLock := held.capsLock ^^ down }
  | .numLock => { held with numLock := held.numLock ^^ (down && !held.pauseControl) }
  | _ => held

end Held

/-- The modifiers that an event reports. -/
structure Modifiers where
  shift : Bool
  control : Bool
  altGr : Bool
  capsLock : Bool
deriving DecidableEq, Repr

namespace Modifiers

/-- No modifier. -/
def none : Modifiers := ⟨false, false, false, false⟩

/-- One bit for each modifier, in the order shift, control, alt, lock. -/
def bits (mods : Modifiers) : Nat :=
  mods.shift.toNat + 2 * mods.control.toNat + 4 * mods.altGr.toNat + 8 * mods.capsLock.toNat

/-- The modifiers whose bits are set; bits beyond the fourth mean nothing. -/
def ofBits (bits : Nat) : Modifiers :=
  ⟨bits.testBit 0, bits.testBit 1, bits.testBit 2, bits.testBit 3⟩

end Modifiers

/-- The modifiers that are in effect. -/
def Held.modifiers (held : Held) : Modifiers where
  shift := held.shifted
  control := held.control
  altGr := held.altGr
  capsLock := held.capsLock

end PocketKernel
