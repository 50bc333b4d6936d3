import GraphTransformation.Decimal.Layout
import GraphTransformation.Json.Basic

/-!
From documents to JSON text.

Only quotes, backslashes and control characters are escaped. A number that is
not finite is written as `null`. The compact text has no blanks; the pretty text
has one item or field a line, indented by two blanks for each level.
-/

namespace GraphTransformation.Json

/-! ### Strings and numbers -/

/-- A character inside quotes. -/
def escape (c : Char) : List Char :=
  match c with
  | '"' => ['\\', '"']
  | '\\' => ['\\', '\\']
  | '\x08' => ['\\', 'b']
  | '\x0c' => ['\\', 'f']
  | '\n' => ['\\', 'n']
  | '\r' => ['\\', 'r']
  | '\t' => ['\\', 't']
  | c =>
    if c.toNat < 0x20 then
      ['\\', 'u', '0', '0', Nat.digitChar (c.toNat / 16), Nat.digitChar (c.toNat % 16)]
    else [c]

/-- A string in quotes. -/
def quoted (s : String) : String := "\"" ++ String.ofList (s.toList.flatMap escape) ++ "\""

/-- A floating-point number, or `null` if it is not finite. -/
def floatText (x : Float) : String :=
  if x.isFinite then Decimal.Layout.json.text x else "null"

/-! ### Compact text -/

mutual

/-- The text of the document without blanks. -/
def compact : Json → String
  | .null => "null"
  | .bool b => if b then "true" else "false"
  | .int n => n.repr
  | .float x => floatText x
  | .string s => quoted s
  | .array items => "[" ++ ",".intercalate (compactItems items) ++ "]"
  | .object fields => "\x7b" ++ ",".intercalate (compactFields fields) ++ "\x7d"

def compactItems : List Json → List String
  | [] => []
  | j :: rest => j.compact :: compactItems rest

def compactFields : List (String × Json) → List String
  | [] => []
  | (name, j) :: rest => (quoted name ++ ":" ++ j.compact) :: compactFields rest

end

/-! ### Pretty text -/

/-- Blanks for a level of nesting. -/
def indent (level : Nat) : String := String.ofList (List.replicate (2 * level) ' ')

/-- Lines between two brackets, one deeper than the level of the brackets; without
lines the brackets stand together. -/
def block (level : Nat) (opening closing : String) : List String → String
  | [] => opening ++ closing
  | lines =>
    opening ++ "\n" ++ ",\n".intercalate (lines.map (indent (level + 1) ++ ·)) ++ "\n" ++
      indent level ++ closing

mutual

/-- The text of the document with one item or field a line, at a level of nesting. -/
def prettyAt (level : Nat) : Json → String
  | .array items => block level "[" "]" (prettyItems (level + 1) items)
  | .object fields => block level "\x7b" "\x7d" (prettyFields (level + 1) fields)
  | .null => "null"
  | .bool b => if b then "true" else "false"
  | .int n => n.repr
  | .float x => floatText x
  | .string s => quoted s

def prettyItems (level : Nat) : List Json → List String
  | [] => []
  | j :: rest => j.prettyAt level :: prettyItems level rest

def prettyFields (level : Nat) : List (String × Json) → List String
  | [] => []
  | (name, j) :: rest => (quoted name ++ ": " ++ j.prettyAt level) :: prettyFields level rest

end

/-- The text of the document with one item or field a line. -/
def pretty (j : Json) : String := j.prettyAt 0

end GraphTransformation.Json
