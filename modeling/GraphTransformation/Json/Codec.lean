import GraphTransformation.Error
import GraphTransformation.Json.Reading
import GraphTransformation.Json.Writing

/-!
Typed values in JSON.

A `Codec` reads a value from a draft and writes it as a document. Records are
read from an object or from an array of their fields in order of declaration;
variants from their name or from an object with the name as its only field.

Reading goes through a text from its start, and the first fault is reported,
whether the text stops being JSON there or a value does not fit. A missing field
shows at the end of its object, and what a type does not look at is passed over.
A document that is known as a whole is read in the same order, but there what is
left over in an array or object is a misfit, and not a fault of the text.
-/

namespace GraphTransformation

/-- Why a document does not fit a type. -/
inductive DataFault where
  /-- A value of the wrong kind, range or length. -/
  | misfit
  | missingField (name : String)
  | duplicateField (name : String)
  | unknownVariant (name : String) (expected : List String)
  /-- Not an attribute value. -/
  | notValue
  /-- A graph that lists its elements wrongly. -/
  | refused (e : Error)
  deriving DecidableEq, Repr

/-- A name between backquotes. -/
def backquoted (name : String) : String := s!"`{name}`"

/-- The wording of the fault, for those that have one. -/
def DataFault.message? : DataFault → Option String
  | .misfit => none
  | .missingField name => some s!"missing field `{name}`"
  | .duplicateField name => some s!"duplicate field `{name}`"
  | .unknownVariant name expected =>
    let choice := match expected with
      | [a, b] => s!"{backquoted a} or {backquoted b}"
      | names => "one of " ++ ", ".intercalate (names.map backquoted)
    some s!"unknown variant `{name}`, expected {choice}"
  | .notValue => some "data did not match any variant of untagged enum Value"
  | .refused e => some e.message

/-- Why a value cannot be read. -/
inductive DocumentFault where
  /-- The text is not JSON there, or has a number or a depth out of bounds. -/
  | malformed
  | data (fault : DataFault)
  deriving DecidableEq, Repr

/-- The fault of a value of the wrong kind. -/
def DocumentFault.misfit : DocumentFault := .data .misfit

/-- The fault of reading a draft as a kind of value that it is not. -/
def Json.Draft.fault (d : Json.Draft) : DocumentFault :=
  if d.isFaulty then .malformed else .misfit

/-- Goes on where an array or object should end. -/
def Json.Ending.check : Json.Ending → Except DocumentFault Unit
  | .closed => .ok ()
  | .cut | .unnamed => .error .malformed

/-- What a value is read from. -/
inductive Source where
  /-- A text, of which no more is known than what was read. -/
  | text
  /-- A document that is known as a whole. -/
  | document
  deriving DecidableEq, Repr

/-- The fault of what is left over, or of what stands for no variant. -/
def Source.surplus : Source → DocumentFault
  | .text => .malformed
  | .document => .misfit

/-- A way to read values and to write them. -/
structure Codec (α : Type) where
  read : Source → Json.Draft → Except DocumentFault α
  write : α → Json

namespace Codec

variable {α β : Type}

/-- The value in a document. -/
def ofDocument (c : Codec α) (j : Json) : Except DocumentFault α := c.read .document j.draft

/-- The value that a text holds. It is read before what follows it. -/
def decodeSymbols (c : Codec α) (text : List Text.Symbol) : Except DocumentFault α := do
  let (d, rest) := Json.scan text
  let a ← c.read .text d
  if Json.isDone rest then return a else .error .malformed

/-- The value in a text. -/
def decode (c : Codec α) (text : String) : Except DocumentFault α :=
  c.decodeSymbols (Text.symbols text)

/-- The value in an encoded text. -/
def decodeBytes (c : Codec α) (bytes : ByteArray) : Except DocumentFault α :=
  c.decodeSymbols (Text.symbolsOfBytes bytes)

/-! ### Simple values -/

def string : Codec String where
  read
    | _, .string (some s) => .ok s
    | _, d => .error d.fault
  write := .string

/-- An unsigned 64-bit number. -/
def word : Codec UInt64 where
  read
    | _, .int n => if 0 ≤ n ∧ n.toNat < UInt64.size then .ok n.toNat.toUInt64 else .error .misfit
    | _, d => .error d.fault
  write n := .int n.toNat

/-- A floating-point number, for which an integer may stand. One that is not finite
is written as `null`. -/
def float : Codec Float where
  read
    | _, .int n => .ok (Float.ofInt n)
    | _, .float x => if x.isFinite then .ok x else .error .malformed
    | _, d => .error d.fault
  write x := if x.isFinite then .float x else .null

/-- A value or `null`. -/
def nullable (c : Codec α) : Codec (Option α) where
  read
    | _, .null => .ok none
    | source, d => (c.read source d).map some
  write
    | none => .null
    | some a => c.write a

/-! ### Arrays -/

/-- Reads the items of an array one after another. -/
def readAll (read : Json.Draft → Except DocumentFault α) (ending : Json.Ending) :
    List Json.Draft → Except DocumentFault (List α)
  | [] => do
    ending.check
    return []
  | d :: rest => do return (← read d) :: (← readAll read ending rest)

/-- An array of values. -/
def list (c : Codec α) : Codec (List α) where
  read
    | source, .array items ending => readAll (c.read source) ending items
    | _, d => .error d.fault
  write as := .array (as.map c.write)

/-- The first item that is left of an array; there must be one. -/
def nextItem (ending : Json.Ending) :
    List Json.Draft → Except DocumentFault (Json.Draft × List Json.Draft)
  | d :: rest => .ok (d, rest)
  | [] => do
    ending.check
    .error .misfit

/-- Goes on where no item should be left of an array. -/
def finishItems (source : Source) (ending : Json.Ending) :
    List Json.Draft → Except DocumentFault Unit
  | [] => ending.check
  | _ :: _ => .error source.surplus

/-- An array of two values. -/
def pair (c : Codec α) (d : Codec β) : Codec (α × β) where
  read
    | source, .array items ending => do
      let (first, rest) ← nextItem ending items
      let a ← c.read source first
      let (second, rest) ← nextItem ending rest
      let b ← d.read source second
      finishItems source ending rest
      return (a, b)
    | _, d => .error d.fault
  write p := .array [c.write p.1, d.write p.2]

/-! ### Records -/

/-- A field of a record. -/
structure Field (α : Type) where
  name : String
  required : Bool
  /-- Puts what is read into the record. -/
  read : Source → Json.Draft → α → Except DocumentFault α
  /-- What is written, if the field is not left out. -/
  write : α → Option Json

namespace Field

/-- A field that is always written. -/
def always (required : Bool) (name : String) (c : Codec β) (get : α → β) (set : α → β → α) :
    Field α :=
  ⟨name, required, fun source d a => (c.read source d).map (set a),
   fun a => some (c.write (get a))⟩

/-- A field that must be given. -/
def needed (name : String) (c : Codec β) (get : α → β) (set : α → β → α) : Field α :=
  always true name c get set

/-- A field that may be missing. -/
def optional (name : String) (c : Codec β) (get : α → β) (set : α → β → α) : Field α :=
  always false name c get set

/-- A field that may be missing and is left out when there is no value. -/
def omittable (name : String) (c : Codec β) (get : α → Option β) (set : α → Option β → α) :
    Field α :=
  ⟨name, false, fun source d a => (c.nullable.read source d).map (set a),
   fun a => (get a).map c.write⟩

end Field

/-- Reads the fields of an object in its order. Fields that the record does not
have are passed over; one that is given again is refused before its value. -/
def readFields (source : Source) (fields : List (Field α)) (ending : Json.Ending) :
    (seen : List String) → List (Option String × Json.Draft) → α → Except DocumentFault α
  | seen, [], a => do
    ending.check
    match fields.find? fun f => f.required && !seen.contains f.name with
    | some f => .error (.data (.missingField f.name))
    | none => return a
  | _, (none, _) :: _, _ => .error .malformed
  | seen, (some name, d) :: rest, a =>
    match fields.find? (·.name == name) with
    | none => readFields source fields ending seen rest a
    | some f =>
      if seen.contains name then .error (.data (.duplicateField name))
      else do readFields source fields ending (name :: seen) rest (← f.read source d a)

/-- Reads the fields from an array in the order of their declaration. -/
def readItems (source : Source) (ending : Json.Ending) :
    List (Field α) → List Json.Draft → α → Except DocumentFault α
  | [], items, a => do
    finishItems source ending items
    return a
  | fields, [], a => do
    ending.check
    if fields.any (·.required) then .error .misfit else return a
  | f :: fields, d :: rest, a => do
    readItems source ending fields rest (← f.read source d a)

/-- What is written of a record. -/
def writeFields (fields : List (Field α)) (a : α) : Json :=
  .object (fields.filterMap fun f => (f.write a).map (f.name, ·))

/-- A record with these fields; `blank` holds the values of the missing ones. -/
def record (blank : α) (fields : List (Field α)) : Codec α where
  read
    | source, .object given ending => readFields source fields ending [] given blank
    | source, .array items ending => readItems source ending fields items blank
    | _, d => .error d.fault
  write := writeFields fields

/-! ### Variants -/

/-- The record of the fields of a variant. In a document it must be an object. -/
def variantRecord (blank : α) (fields : List (Field α)) : Codec α where
  read
    | .document, .array _ _ => .error .misfit
    | source, d => (record blank fields).read source d
  write := writeFields fields

/-- What a variant holds. -/
inductive Content (α : Type) where
  | nothing (a : α)
  | held (read : Source → Json.Draft → Except DocumentFault α)

/-- A variant that holds a value. -/
def Content.holding (c : Codec β) (make : β → α) : Content α :=
  .held fun source d => (c.read source d).map make

/-- A named choice of a type. -/
structure Variant (α : Type) where
  name : String
  content : Content α

/-- The content of the named variant. -/
def content (variants : List (Variant α)) (name : String) : Except DocumentFault (Content α) :=
  match variants.find? (·.name == name) with
  | some v => .ok v.content
  | none => .error (.data (.unknownVariant name (variants.map (·.name))))

/-- The value of a variant that is given by its name alone. -/
def Content.alone : Content α → Except DocumentFault α
  | .nothing a => .ok a
  | .held _ => .error .misfit

/-- The value of a variant that is given with what it holds. -/
def Content.read (source : Source) (d : Json.Draft) : Content α → Except DocumentFault α
  | .nothing a =>
    match d with
    | .null => .ok a
    | d => .error d.fault
  | .held read => read source d

/-- Reads one of the variants. That an object has one field shows in a document
before its name is read, and in a text only after its value. -/
def readVariant (variants : List (Variant α)) : Source → Json.Draft → Except DocumentFault α
  | _, .string (some name) => do (← content variants name).alone
  | .document, .object [(some name, d)] .closed => do
    (← content variants name).read .document d
  | .text, .object ((some name, d) :: rest) ending => do
    let a ← (← content variants name).read .text d
    if rest.isEmpty then ending.check else .error .malformed
    return a
  | .text, .object [] .unnamed => .error .misfit
  | source, _ => .error source.surplus

/-- A choice among values that hold nothing. -/
def choice (variants : List (Variant α)) (name : α → String) : Codec α where
  read := readVariant variants
  write a := .string (name a)

end Codec

end GraphTransformation
