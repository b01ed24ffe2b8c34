/-!
# Printable characters

The characters that are shown as they are, in a line that is edited, in a dump and on the screen:
the ones of ASCII from the blank to the tilde.
-/

namespace PocketKernel

/-- The character is one of ASCII and is shown as it is. -/
def isPrintable (c : Char) : Bool := ' ' ≤ c && c ≤ '~'

/-- The byte is a character of ASCII that is shown as it is. -/
def isPrintableByte (byte : UInt8) : Bool := 0x20 ≤ byte && byte ≤ 0x7E

end PocketKernel
