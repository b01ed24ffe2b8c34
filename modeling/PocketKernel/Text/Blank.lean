import PocketKernel.Text.Utf8

/-!
# Blank characters

Which characters are blank is a property that the Unicode standard lists: 25 characters in ten
ranges. Lines of nothing else are not remembered, and blanks at the end of a line do not count.

The grammar of command lines has separators of its own and does not use this table.

## Main definitions

* `Text.blankRanges`, `Text.isBlank`: the property.
* `Text.trimEnd`: a text without the blanks at its end.
-/

namespace PocketKernel.Text

/-- The ranges of the characters that are white space, first and last code point each. -/
def blankRanges : List (Nat × Nat) :=
  [(0x09, 0x0D), (0x20, 0x20), (0x85, 0x85), (0xA0, 0xA0), (0x1680, 0x1680), (0x2000, 0x200A),
    (0x2028, 0x2029), (0x202F, 0x202F), (0x205F, 0x205F), (0x3000, 0x3000)]

/-- The character is white space. -/
def isBlank (c : Char) : Bool :=
  blankRanges.any fun (first, last) => first ≤ c.toNat && c.toNat ≤ last

/-- A text without the blanks at its end. -/
def trimEnd (text : Text) : Text := (text.reverse.dropWhile isBlank).reverse

example : (blankRanges.map fun (first, last) => last + 1 - first).sum = 25 := by decide
example : blankRanges.Pairwise (fun a b => a.2 < b.1) := by decide
example : trimEnd "ls  \u3000\r".toList = "ls".toList := by decide

end PocketKernel.Text
