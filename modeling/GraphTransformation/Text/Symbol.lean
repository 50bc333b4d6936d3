/-!
The symbols of encoded text.

Text is encoded in UTF-8. A symbol is one of its characters, or a byte that
belongs to none: bytes that are not an encoding keep their places among the
characters, so that a reader may pass over them.
-/

namespace GraphTransformation.Text

/-- A character of an encoded text; none for a byte that belongs to no character. -/
abbrev Symbol := Option Char

/-- The symbols of a text. -/
def symbols (text : String) : List Symbol := text.toList.map some

/-- The symbols of encoded text from the `i`th byte on, at most `fuel` of them. -/
def symbolsFrom (bytes : ByteArray) : (fuel i : Nat) → List Symbol
  | 0, _ => []
  | fuel + 1, i =>
    if i < bytes.size then
      match bytes.utf8DecodeChar? i with
      | some c => some c :: symbolsFrom bytes fuel (i + c.utf8Size)
      | none => none :: symbolsFrom bytes fuel (i + 1)
    else []

/-- The symbols of encoded text, of which there are no more than bytes. -/
def symbolsOfBytes (bytes : ByteArray) : List Symbol := symbolsFrom bytes bytes.size 0

end GraphTransformation.Text
