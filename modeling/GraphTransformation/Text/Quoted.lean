import GraphTransformation.Text.Mark
import GraphTransformation.Text.Printable

/-!
Text in double quotes, as names and file paths are shown in messages.

Double quotes, backslashes and the usual controls have a backslash before them;
other characters that are not printable, and marks that extend the character
before them, are shown by their code points.
-/

namespace GraphTransformation.Text

/-- A number in hexadecimal, in lower case. -/
def hex (n : Nat) : String := String.ofList (Nat.toDigits 16 n)

/-- A character by its code point. -/
def codePoint (c : Char) : String := "\\u\x7b" ++ hex c.toNat ++ "\x7d"

/-- Whether the character can be shown as it is between quotes. The halfwidth sound
marks can, although they extend the character before them. -/
def isShown (c : Char) : Bool :=
  isPrintable c && (!isExtending c || isBetween 0xFF9E 0xFF9F c)

/-- A character between quotes. -/
def escape (c : Char) : String :=
  if c == '\x00' then "\\0"
  else if c == '\t' then "\\t"
  else if c == '\r' then "\\r"
  else if c == '\n' then "\\n"
  else if c == '\\' || c == '"' then "\\" ++ c.toString
  else if isShown c then c.toString
  else codePoint c

/-- A text in quotes. -/
def quoted (s : String) : String := "\"" ++ String.join (s.toList.map escape) ++ "\""

end GraphTransformation.Text
