import PocketKernel.Text.Utf8

/-!
# Numbers in texts

How numbers are written and read. A number is written in decimal, or in hexadecimal with upper
case digits and leading zeros up to a width. A number that is read consists of digits of its base,
in either case, with at most one plus sign before them, and has to stay below a limit.

## Main definitions

* `Text.decimal`, `Text.hexadecimal`: write a number.
* `Text.number?`: read a number.
* `Text.padLeft`, `Text.padRight`: fill a text up with blanks to a width.
-/

namespace PocketKernel.Text

/-- A number in decimal. -/
def decimal (n : Nat) : Text := Nat.toDigits 10 n

/-- The upper case digit of a value below sixteen. -/
def hexDigit (value : Nat) : Char := Char.ofNat (if value < 10 then 48 + value else 55 + value)

/-- The last digits of a number in hexadecimal, as many as the width. -/
def hexadecimal : Nat → Nat → Text
  | 0, _ => []
  | width + 1, n => hexadecimal width (n / 16) ++ [hexDigit (n % 16)]

/-- Fill up with blanks before a text. -/
def padLeft (width : Nat) (text : Text) : Text :=
  List.replicate (width - text.length) ' ' ++ text

/-- Fill up with blanks behind a text. -/
def padRight (width : Nat) (text : Text) : Text :=
  text ++ List.replicate (width - text.length) ' '

/-- The value of a character as a digit of a base. -/
def digit? (base : Nat) (c : Char) : Option Nat :=
  let value :=
    if '0' ≤ c ∧ c ≤ '9' then c.toNat - 48
    else if 'a' ≤ c ∧ c ≤ 'z' then c.toNat - 87
    else if 'A' ≤ c ∧ c ≤ 'Z' then c.toNat - 55
    else base
  if value < base then some value else none

/-- The value of a row of digits, read after what came before them. -/
def digits? (base : Nat) (before : Nat) : Text → Option Nat
  | [] => some before
  | c :: text => do
    let value ← digit? base c
    digits? base (base * before + value) text

/-- A text without one plus sign at its start. -/
def dropPlus : Text → Text
  | '+' :: text => text
  | text => text

/-- The number that a text means in a base, if it is below the limit. -/
def number? (base limit : Nat) (text : Text) : Option Nat :=
  let digits := dropPlus text
  if digits = [] then none
  else (digits? base 0 digits).filter (· < limit)

example : decimal 4096 = "4096".toList := by decide
example : hexadecimal 8 0x1F0 = "000001F0".toList := by decide
example : number? 10 100 "+42".toList = some 42 := by decide
example : number? 10 100 "++4".toList = none := by decide
example : number? 10 100 "+".toList = none := by decide
example : number? 10 100 "100".toList = none := by decide
example : number? 16 256 "fF".toList = some 255 := by decide

end PocketKernel.Text
