import PocketKernel.Text.Numeral
import PocketKernel.Text.Printable

/-!
# Hexadecimal dumps

A dump shows bytes in lines of sixteen: the position of the first byte of the line, the bytes in
hexadecimal, and the bytes as characters, with a dot for each one that cannot be shown. Places
behind the last byte are left blank.

## Main definitions

* `Dump.rows`: bytes in rows, with their positions.
* `Dump.line`: the line for a row.
-/

namespace PocketKernel.Dump

/-- How many bytes a line shows. -/
def width : Nat := 16

/-- Bytes in rows, each with the position of its first byte. -/
def rows (position : Nat) (bytes : List UInt8) : List (Nat × List UInt8) :=
  if bytes = [] then []
  else (position, bytes.take width) :: rows (position + width) (bytes.drop width)
termination_by bytes.length
decreasing_by
  have hpos : 0 < bytes.length := List.length_pos_iff.mpr ‹_›
  simp only [List.length_drop, width]
  omega

/-- A byte as a character of a line. -/
def character (byte : UInt8) : Char :=
  if isPrintableByte byte then Char.ofNat byte.toNat else '.'

/-- One place among the bytes of a line. -/
def place : Option UInt8 → Text
  | some byte => Text.hexadecimal 2 byte.toNat ++ [' ']
  | none => [' ', ' ', ' ']

/-- The line for a row of at most sixteen bytes. -/
def line (position : Nat) (row : List UInt8) : Text :=
  Text.hexadecimal 8 position ++ [':', ' '] ++
    (List.range width).flatMap (fun index => place row[index]?) ++ [' '] ++ row.map character

end PocketKernel.Dump
