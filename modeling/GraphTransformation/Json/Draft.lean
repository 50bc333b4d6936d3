import GraphTransformation.Json.Basic

/-!
JSON text as far as it can be read.

A draft holds what the text has up to the place where it stops being JSON: every
array and object has the items that could be read, and a mark for how it ends.
A value that a reader passes over may hold more than a document may: strings
that are not text and numbers too large to be finite. They are kept as such, and
a fault shows only where they are read. `document?` and `Json.draft` go between
documents and the drafts without any fault.
-/

namespace GraphTransformation.Json

/-- How an array or object ends. -/
inductive Ending where
  /-- By its closing bracket. -/
  | closed
  /-- Nothing more of it can be read. -/
  | cut
  /-- Where the name of a field should be, there is a value that is not a string. -/
  | unnamed
  deriving DecidableEq, Repr

/-- A JSON text as far as it can be read. -/
inductive Draft where
  /-- No value can be read. -/
  | nothing
  | null
  | bool (b : Bool)
  | int (n : Int)
  /-- A floating-point number; infinite if it is too large. -/
  | float (x : Float)
  /-- A string; none if what it holds is not text. -/
  | string (s : Option String)
  | array (items : List Draft) (ending : Ending)
  | object (fields : List (Option String × Draft)) (ending : Ending)

namespace Draft

/-- Whether there is no value of any kind, or one that no reader accepts. -/
def isFaulty : Draft → Bool
  | .nothing | .string none => true
  | .float x => !x.isFinite
  | _ => false

/-! ### Documents -/

mutual

/-- The document that the draft holds, if it can be read to its end. -/
def document? : Draft → Option Json
  | .nothing => none
  | .null => some .null
  | .bool b => some (.bool b)
  | .int n => some (.int n)
  | .float x => if x.isFinite then some (.float x) else none
  | .string s => s.map .string
  | .array items .closed => (documents? items).map .array
  | .object fields .closed => (fieldDocuments? fields).map .object
  | .array _ _ | .object _ _ => none

def documents? : List Draft → Option (List Json)
  | [] => some []
  | d :: rest => do return (← d.document?) :: (← documents? rest)

def fieldDocuments? : List (Option String × Draft) → Option (List (String × Json))
  | [] => some []
  | (name, d) :: rest => do
    let name ← name
    return (name, ← d.document?) :: (← fieldDocuments? rest)

end

end Draft

mutual

/-- The draft of a document. -/
def draft : Json → Draft
  | .null => .null
  | .bool b => .bool b
  | .int n => .int n
  | .float x => .float x
  | .string s => .string (some s)
  | .array items => .array (drafts items) .closed
  | .object fields => .object (fieldDrafts fields) .closed

def drafts : List Json → List Draft
  | [] => []
  | j :: rest => j.draft :: drafts rest

def fieldDrafts : List (String × Json) → List (Option String × Draft)
  | [] => []
  | (name, j) :: rest => (some name, j.draft) :: fieldDrafts rest

end

end GraphTransformation.Json
