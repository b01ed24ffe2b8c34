import PocketKernel.Keyboard.Key
import PocketKernel.Text.Utf8

/-!
# Keyboard layouts

A layout says what a key produces while given modifiers are held: a character, the meaning of a
key without a character, or nothing. The German layout differs from the one of the United States
in some keys and agrees with it in all others.

## Main definitions

* `Layout`, `Layout.name`, `Layout.ofName?`: the layouts.
* `Produced`: what a key produces.
* `Layout.produce`: the layout itself.
-/

namespace PocketKernel

/-- A keyboard layout. -/
inductive Layout where
  | us
  | german
deriving DecidableEq, Repr

/-- What a key produces. -/
inductive Produced where
  | char (c : Char)
  /-- The key stands for itself. -/
  | key (key : Key)
deriving DecidableEq, Repr

namespace Layout

/-- The short name of a layout. -/
def name : Layout → String
  | .us => "us"
  | .german => "de"

/-- The layout with a short name. -/
def ofName? (name : Text) : Option Layout :=
  if name = "us".toList then some .us
  else if name = "de".toList then some .german
  else none

/-- One of two characters, by whether a modifier is in effect. -/
def pick (modified : Bool) (plain other : Char) : Option Produced :=
  some (.char (if modified then other else plain))

/-- What the keys of the number pad stand for while the number lock is off. -/
def padMotion (n : Fin 10) : Option Produced :=
  match n with
  | 7 => some (.key .home)
  | 8 => some (.key .arrowUp)
  | 4 => some (.key .arrowLeft)
  | 6 => some (.key .arrowRight)
  | 1 => some (.key .toEnd)
  | 2 => some (.key .arrowDown)
  | 5 => some (.char '5')
  | _ => none

/-- The digit that a number is written with. -/
def digitChar (n : Fin 10) : Char := Char.ofNat (48 + n.val)

/-- What a key produces in the United States. -/
def produceUs (key : Key) (held : Held) : Option Produced :=
  let pair := pick held.shifted
  match key with
  | .letter c => pick held.caps c c.toUpper
  | .digit n =>
    some (.char (if held.shifted then ")!@#$%^&*(".toList.getD n.val ' ' else digitChar n))
  | .minus => pair '-' '_'
  | .plus => pair '=' '+'
  | .grave => pair '\x60' '~'
  | .leftBracket => pair '[' '\x7b'
  | .rightBracket => pair ']' '\x7d'
  | .semicolon => pair ';' ':'
  | .quote => pair '\'' '"'
  | .backslash => pair '\\' '|'
  | .comma => pair ',' '<'
  | .period => pair '.' '>'
  | .slash => pair '/' '?'
  | .escape => some (.char '\x1b')
  | .backspace => some (.char '\x08')
  | .tab => some (.char '\t')
  | .enter => some (.char '\n')
  | .padEnter => some (.char '\n')
  | .space => some (.char ' ')
  | .delete => some (.char '\x7f')
  | .pad n => if held.numLock then some (.char (digitChar n)) else padMotion n
  | .padPeriod => some (.char (if held.numLock then '.' else '\x7f'))
  | .padMultiply => some (.char '*')
  | .padSubtract => some (.char '-')
  | .padAdd => some (.char '+')
  | .padDivide => some (.char '/')
  | .home => some (.key .home)
  | .toEnd => some (.key .toEnd)
  | .arrowUp => some (.key .arrowUp)
  | .arrowDown => some (.key .arrowDown)
  | .arrowLeft => some (.key .arrowLeft)
  | .arrowRight => some (.key .arrowRight)
  | _ => none

/-- What a key produces in Germany. -/
def produceGerman (key : Key) (held : Held) : Option Produced :=
  let pair := pick held.shifted
  match key with
  | .grave => pair '^' '°'
  | .digit n =>
    some (.char (if held.shifted then "=!\"§$%&/()".toList.getD n.val ' ' else digitChar n))
  | .minus => pair 'ß' '?'
  | .plus => pair '´' '\x60'
  | .backslash => pair '#' '\''
  | .semicolon => pair 'ö' 'Ö'
  | .quote => pair 'ä' 'Ä'
  | .comma => pair ',' ';'
  | .period => pair '.' ':'
  | .slash => pair '-' '_'
  | .leftBracket => pick held.caps 'ü' 'Ü'
  | .rightBracket => if held.altGr then some (.char '~') else pick held.caps '+' '*'
  | .angle =>
    if held.shifted then some (.char '>')
    else some (.char (if held.altGr then '|' else '<'))
  | .letter 'y' => pick held.caps 'z' 'Z'
  | .letter 'z' => pick held.caps 'y' 'Y'
  | .letter 'q' => if held.altGr then some (.char '@') else pick held.caps 'q' 'Q'
  | .letter 'e' => if held.altGr then some (.char '€') else pick held.caps 'e' 'E'
  | _ => produceUs key held

/-- What a key produces in a layout while modifiers are held. -/
def produce : Layout → Key → Held → Option Produced
  | .us => produceUs
  | .german => produceGerman

end Layout

end PocketKernel
