/-!
# Texts and their UTF-8 bytes

A text is the list of its characters. Names, paths and command lines are texts; everything that
is stored on a disk or sent to a terminal is bytes. This module is the bridge: `utf8` encodes,
`ofUtf8?` decodes, and `utf8Size` is the length that limits on names and paths are stated in.

## Main definitions

* `Text`: a list of characters.
* `Text.utf8`, `Text.utf8Size`: the encoded bytes and their number.
* `Text.ofUtf8?`: the text that a byte string encodes, if there is one.

## Main results

* `Text.length_utf8`: `utf8Size` counts the bytes of `utf8`.
* `Text.utf8_append`: encoding goes character by character.
-/

namespace PocketKernel

/-- A text is the list of its characters. -/
abbrev Text := List Char

namespace Text

/-- A literal stands for its characters. -/
instance : Coe String Text := ⟨String.toList⟩

/-- The UTF-8 encoding of a text. -/
def utf8 (text : Text) : List UInt8 :=
  text.flatMap String.utf8EncodeChar

/-- The number of bytes that a text takes in UTF-8. -/
def utf8Size : Text → Nat
  | [] => 0
  | c :: text => c.utf8Size + utf8Size text

/-- The text that some bytes encode; `none` if they are not UTF-8. -/
def ofUtf8? (bytes : List UInt8) : Option Text :=
  (String.fromUTF8? ⟨bytes.toArray⟩).map String.toList

@[simp] theorem utf8_nil : utf8 [] = [] := rfl

@[simp] theorem utf8_cons (c : Char) (text : Text) :
    utf8 (c :: text) = String.utf8EncodeChar c ++ utf8 text := rfl

@[simp] theorem utf8_append (a b : Text) : utf8 (a ++ b) = utf8 a ++ utf8 b := by
  simp [utf8]

@[simp] theorem utf8Size_nil : utf8Size [] = 0 := rfl

@[simp] theorem utf8Size_cons (c : Char) (text : Text) :
    utf8Size (c :: text) = c.utf8Size + utf8Size text := rfl

@[simp] theorem utf8Size_append (a b : Text) : utf8Size (a ++ b) = utf8Size a + utf8Size b := by
  induction a with
  | nil => simp
  | cons c a ih => simp [ih, Nat.add_assoc]

theorem length_utf8 (text : Text) : (utf8 text).length = utf8Size text := by
  induction text with
  | nil => rfl
  | cons c text ih => simp [ih]

end Text

end PocketKernel
