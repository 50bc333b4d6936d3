import GraphTransformation.Json.Number

/-!
From JSON text to drafts.

The grammar is the strict one: no leading zeros, no raw control characters in
strings, nothing but blanks between values. Where the text leaves it, nothing
more is read. Of two calls one within the other, at least one reads a symbol, so
twice as many as the text has symbols are enough.
-/

namespace GraphTransformation.Json

open Text (Symbol)

/-- The characters that may stand between tokens. -/
def isBlank (c : Char) : Bool := c == ' ' || c == '\n' || c == '\t' || c == '\r'

/-- The text after its leading blanks. -/
def skipBlanks (cs : List Symbol) : List Symbol := cs.dropWhile (·.any isBlank)

/-! ### Strings -/

/-- A part of a string. -/
inductive Piece where
  | char (c : Char)
  /-- A unit of UTF-16, given by its number. -/
  | unit (n : Nat)
  /-- A byte that belongs to no character. -/
  | stray
  deriving DecidableEq, Repr

/-- The value of a hexadecimal digit. -/
def hexDigit (c : Char) : Option Nat :=
  if c.isDigit then some (Decimal.digit c)
  else if 'a' ≤ c ∧ c ≤ 'f' then some (c.toNat - 'a'.toNat + 10)
  else if 'A' ≤ c ∧ c ≤ 'F' then some (c.toNat - 'A'.toNat + 10)
  else none

/-- The value of four hexadecimal digits. -/
def hexUnit (a b c d : Symbol) : Option Nat := do
  return (← hexDigit (← a)) * 4096 + (← hexDigit (← b)) * 256 + (← hexDigit (← c)) * 16 +
    (← hexDigit (← d))

/-- The character that a backslash and this letter stand for. -/
def escaped : Char → Option Char
  | '"' => some '"'
  | '\\' => some '\\'
  | '/' => some '/'
  | 'b' => some '\x08'
  | 'f' => some '\x0c'
  | 'n' => some '\n'
  | 'r' => some '\r'
  | 't' => some '\t'
  | _ => none

/-- The rest of a string, after its opening quote. -/
def scanString : List Symbol → Option (List Piece × List Symbol)
  | [] => none
  | none :: rest => (scanString rest).map fun (ps, rest) => (.stray :: ps, rest)
  | some '"' :: rest => some ([], rest)
  | some '\\' :: some 'u' :: a :: b :: c :: d :: rest => do
    let unit ← hexUnit a b c d
    (scanString rest).map fun (ps, rest) => (.unit unit :: ps, rest)
  | some '\\' :: some c :: rest => do
    let c ← escaped c
    (scanString rest).map fun (ps, rest) => (.char c :: ps, rest)
  | some c :: rest =>
    if c.toNat < 0x20 || c == '\\' then none
    else (scanString rest).map fun (ps, rest) => (.char c :: ps, rest)

/-- Whether the unit is the first of a pair that stands for one character. -/
def isLeading (n : Nat) : Bool := 0xD800 ≤ n && n < 0xDC00

/-- Whether the unit is the second of a pair that stands for one character. -/
def isTrailing (n : Nat) : Bool := 0xDC00 ≤ n && n < 0xE000

/-- The text that the pieces make, unless one of them stands for no character. -/
def joinPieces : List Piece → Option (List Char)
  | [] => some []
  | .char c :: rest => (joinPieces rest).map (c :: ·)
  | .unit n :: rest =>
    if isLeading n then
      match rest with
      | .unit m :: rest =>
        if isTrailing m then
          (joinPieces rest).map
            (Char.ofNat (0x10000 + (n - 0xD800) * 0x400 + (m - 0xDC00)) :: ·)
        else none
      | _ => none
    else if isTrailing n then none
    else (joinPieces rest).map (Char.ofNat n :: ·)
  | .stray :: _ => none

/-- The string that the pieces make. -/
def ofPieces (ps : List Piece) : Option String := (joinPieces ps).map String.ofList

/-! ### Values -/

/-- How deep arrays and objects may be nested to be entered. -/
def maxDepth : Nat := 127

/-- A draft of what is between two brackets. One that stands too deep is not
entered, and is cut after its opening bracket. -/
def entered {α β : Type} (make : List α → Ending → β) (room : Nat) (items : List α)
    (ending : Ending) : β :=
  if room = 0 then make [] .cut else make items ending

mutual

/-- The draft of the value at the front of the text, after blanks, with `room` for
nested arrays and objects; and the text after it, if it can be read to its end. -/
def scanValue : (fuel room : Nat) → List Symbol → Draft × Option (List Symbol)
  | 0, _, _ => (.nothing, none)
  | fuel + 1, room, cs =>
    match skipBlanks cs with
    | some 'n' :: some 'u' :: some 'l' :: some 'l' :: rest => (.null, some rest)
    | some 't' :: some 'r' :: some 'u' :: some 'e' :: rest => (.bool true, some rest)
    | some 'f' :: some 'a' :: some 'l' :: some 's' :: some 'e' :: rest =>
      (.bool false, some rest)
    | some '"' :: rest =>
      match scanString rest with
      | some (ps, rest) => (.string (ofPieces ps), some rest)
      | none => (.nothing, none)
    | some '[' :: rest =>
      match skipBlanks rest with
      | some ']' :: rest => (entered .array room [] .closed, some rest)
      | rest =>
        let (items, ending, rest) := scanItems fuel (room - 1) rest
        (entered .array room items ending, rest)
    | some '{' :: rest =>
      match skipBlanks rest with
      | some '}' :: rest => (entered .object room [] .closed, some rest)
      | rest =>
        let (fields, ending, rest) := scanFields fuel (room - 1) rest
        (entered .object room fields ending, rest)
    | cs =>
      match scanNumber cs with
      | some (n, rest) => (n.draft, some rest)
      | none => (.nothing, none)

/-- The items of an array, from the first or the one after a comma on. -/
def scanItems : (fuel room : Nat) → List Symbol → List Draft × Ending × Option (List Symbol)
  | 0, _, _ => ([], .cut, none)
  | fuel + 1, room, cs =>
    match scanValue fuel room cs with
    | (item, none) => ([item], .cut, none)
    | (item, some rest) =>
      match skipBlanks rest with
      | some ']' :: rest => ([item], .closed, some rest)
      | some ',' :: rest =>
        let (items, ending, rest) := scanItems fuel room rest
        (item :: items, ending, rest)
      | _ => ([item], .cut, none)

/-- The fields of an object, from the first or the one after a comma on. -/
def scanFields : (fuel room : Nat) → List Symbol →
    List (Option String × Draft) × Ending × Option (List Symbol)
  | 0, _, _ => ([], .cut, none)
  | fuel + 1, room, cs =>
    match skipBlanks cs with
    | some '"' :: rest =>
      match scanString rest with
      | none => ([], .cut, none)
      | some (ps, rest) =>
        let name := ofPieces ps
        match skipBlanks rest with
        | some ':' :: rest =>
          match scanValue fuel room rest with
          | (d, none) => ([(name, d)], .cut, none)
          | (d, some rest) =>
            match skipBlanks rest with
            | some '}' :: rest => ([(name, d)], .closed, some rest)
            | some ',' :: rest =>
              let (fields, ending, rest) := scanFields fuel room rest
              ((name, d) :: fields, ending, rest)
            | _ => ([(name, d)], .cut, none)
        | _ => ([(name, .nothing)], .cut, none)
    | cs => ([], if (scanValue fuel room cs).1.isFaulty then .cut else .unnamed, none)

end

/-- The draft of the value that a text begins with, and the text after it. -/
def scan (text : List Symbol) : Draft × Option (List Symbol) :=
  scanValue (2 * text.length + 2) maxDepth text

/-- Whether nothing but blanks is left of a text. -/
def isDone (rest : Option (List Symbol)) : Bool := rest.any fun cs => (skipBlanks cs).isEmpty

/-- The document that the text is, if it is one. -/
def ofText? (text : String) : Option Json :=
  let (d, rest) := scan (Text.symbols text)
  if isDone rest then d.document? else none

end GraphTransformation.Json
