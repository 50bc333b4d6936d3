/-!
JSON documents as values.

Integers and floating-point numbers are different nodes. The fields of an object
are kept in the order of the document, repetitions included.
-/

namespace GraphTransformation

/-- A JSON document. -/
inductive Json where
  | null
  | bool (b : Bool)
  | int (n : Int)
  | float (x : Float)
  | string (s : String)
  | array (items : List Json)
  | object (fields : List (String × Json))

namespace Json

instance : Inhabited Json := ⟨.null⟩

/-- The value of a field of an object; of repeated ones the first. -/
def field? (name : String) : Json → Option Json
  | .object fields => (fields.find? (·.1 == name)).map (·.2)
  | _ => none

end Json

end GraphTransformation
