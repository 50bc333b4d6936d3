import GraphTransformation.Graph.Snapshot
import GraphTransformation.Json.Codec
import GraphTransformation.Constraint

/-!
Attribute values, conditions and graphs in JSON documents.

A value is a bare JSON value; an integer beyond the signed 64-bit range is read
as a floating-point number. Conditions can be written and read; a predicate that is a
test is refused when it is written. A graph is written as its snapshot and read back by
loading it.
-/

namespace GraphTransformation

/-! ### Values -/

/-- The attribute value that a document is. -/
def Value.ofDocument : Json → Except DocumentFault Value
  | .bool b => .ok (.bool b)
  | .int n =>
    if Int64.minValue.toInt ≤ n ∧ n ≤ Int64.maxValue.toInt then .ok (.int (Int64.ofInt n))
    else .ok (.float (Float.ofInt n))
  | .float x => .ok (.float x)
  | .string s => .ok (.string s)
  | .null | .array _ | .object _ => .error (.data .notValue)

/-- An attribute value. It is read to its end before it is looked at. -/
def Value.codec : Codec Value where
  read _ d :=
    match d.document? with
    | some j => Value.ofDocument j
    | none => .error .malformed
  write
    | .bool b => .bool b
    | .int n => .int n.toInt
    | .float x => if x.isFinite then .float x else .null
    | .string s => .string s

/-- Reads attributes one after another; of two with one name the later counts. -/
def Attributes.readInto (source : Source) (ending : Json.Ending) (attributes : Attributes) :
    List (Option String × Json.Draft) → Except DocumentFault Attributes
  | [] => do
    ending.check
    return attributes
  | (none, _) :: _ => .error .malformed
  | (some name, d) :: rest => do
    let v ← Value.codec.read source d
    readInto source ending (SortedMap.insert attributes name v) rest

/-- An attribute map, as an object. -/
def Attributes.codec : Codec Attributes where
  read
    | source, .object fields ending => Attributes.readInto source ending .empty fields
    | _, d => .error d.fault
  write attributes := .object (attributes.toList.map fun (name, v) => (name, Value.codec.write v))

/-! ### Conditions -/

/-- The bounds of a range. -/
def Condition.boundsCodec : Codec (Option Float × Option Float) :=
  .variantRecord (none, none)
    [.optional "min" (.nullable .float) (·.1) fun b min => (min, b.2),
     .optional "max" (.nullable .float) (·.2) fun b max => (b.1, max)]

/-- A condition, as a variant. -/
def Condition.codec : Codec Condition where
  read := Codec.readVariant
    [⟨"equals", .holding Value.codec .equals⟩,
     ⟨"not_equals", .holding Value.codec .notEquals⟩,
     ⟨"range", .holding boundsCodec fun b => .range b.1 b.2⟩,
     ⟨"one_of", .holding Value.codec.list .oneOf⟩,
     ⟨"present", .nothing .present⟩,
     ⟨"absent", .nothing .absent⟩]
  write
    | .equals v => .object [("equals", Value.codec.write v)]
    | .notEquals v => .object [("not_equals", Value.codec.write v)]
    | .range min max => .object [("range", boundsCodec.write (min, max))]
    | .oneOf vs => .object [("one_of", Value.codec.list.write vs)]
    | .present => .string "present"
    | .absent => .string "absent"

/-- Why a value cannot be written. -/
inductive WritingFault where
  /-- A test given by a function stands for no document. -/
  | custom
  deriving DecidableEq, Repr

/-- The wording of the fault. -/
def WritingFault.message : WritingFault → String
  | .custom => "the enum variant AttributePredicate::Custom cannot be serialized"

/-- The condition that a predicate is, if it can be written. -/
def Predicate.stored : Predicate → Except WritingFault Condition
  | .condition c => .ok c
  | .custom _ _ => .error .custom

/-! ### Graphs -/

def Handle.codec {kind : Kind} : Codec (Handle kind) where
  read source d := (Codec.word.read source d).map (⟨·⟩)
  write h := Codec.word.write h.word

def Vertex.codec : Codec Vertex :=
  .record ⟨⟨0⟩, .empty⟩
    [.needed "id" Handle.codec (·.id) fun v id => { v with id },
     .optional "attributes" Attributes.codec (·.attributes) fun v attributes =>
       { v with attributes }]

def Edge.codec : Codec Edge :=
  .record ⟨⟨0⟩, ⟨0⟩, ⟨0⟩, .empty⟩
    [.needed "id" Handle.codec (·.id) fun e id => { e with id },
     .needed "vertex1" Handle.codec (·.source) fun e source => { e with source },
     .needed "vertex2" Handle.codec (·.target) fun e target => { e with target },
     .optional "attributes" Attributes.codec (·.attributes) fun e attributes =>
       { e with attributes }]

def Snapshot.codec : Codec Snapshot :=
  .record ⟨[], [], none, none⟩
    [.needed "vertices" Vertex.codec.list (·.vertices) fun s vertices => { s with vertices },
     .optional "edges" Edge.codec.list (·.edges) fun s edges => { s with edges },
     .optional "next_vertex" (.nullable .word) (·.nextVertex) fun s nextVertex =>
       { s with nextVertex },
     .optional "next_edge" (.nullable .word) (·.nextEdge) fun s nextEdge => { s with nextEdge }]

/-- A graph, as its snapshot. -/
def Graph.codec : Codec Graph where
  read source d := do
    match (← Snapshot.codec.read source d).load with
    | .ok g => return g
    | .error e => .error (.data (.refused e))
  write g := Snapshot.codec.write g.snapshot

end GraphTransformation
