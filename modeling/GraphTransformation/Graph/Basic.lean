import GraphTransformation.Error
import GraphTransformation.Value

/-!
Attributed directed multigraphs.

A graph holds its vertices and edges by handle, an index of the edges that leave
and that enter each vertex, and for either kind the next handle to be given out.
The counters are 64-bit words. An addition whose counter has come to the last word
stops before it has put anything in; no handle is ever given out twice. An operation
that fails or stops gives no graph, so the graph it was asked of is what remains.
-/

namespace GraphTransformation

/-- Whether an edge may be followed against its orientation when matching. -/
inductive EdgeMode where
  | directed
  | undirected
  deriving DecidableEq, Repr, Inhabited

/-- What happens to the incident edges of a removed vertex. -/
inductive DanglingPolicy where
  /-- They are removed together with the vertex. -/
  | cascade
  /-- The removal fails while there are any. -/
  | reject
  deriving DecidableEq, Repr, Inhabited

structure Vertex where
  id : VertexId
  attributes : Attributes
  deriving DecidableEq

/-- A directed edge. Its endpoints never change. -/
structure Edge where
  id : EdgeId
  source : VertexId
  target : VertexId
  attributes : Attributes
  deriving DecidableEq

/-- Whether both ends of the edge are one vertex. -/
def Edge.isLoop (e : Edge) : Bool := e.source == e.target

/-- The other end of the edge, if `v` is an end at all. -/
def Edge.opposite (e : Edge) (v : VertexId) : Option VertexId :=
  if v = e.source then some e.target
  else if v = e.target then some e.source
  else none

/-- An attributed directed multigraph. -/
structure Graph where
  vertexMap : SortedMap VertexId Vertex
  edgeMap : SortedMap EdgeId Edge
  /-- The edges leaving each vertex. -/
  outgoingIndex : SortedMap VertexId (SortedSet EdgeId)
  /-- The edges entering each vertex. -/
  incomingIndex : SortedMap VertexId (SortedSet EdgeId)
  nextVertex : UInt64
  nextEdge : UInt64
  deriving DecidableEq

namespace Graph

/-- The graph without elements that has given out no handle. -/
def empty : Graph := ⟨.empty, .empty, .empty, .empty, 0, 0⟩

instance : Inhabited Graph := ⟨empty⟩

/-! ### Queries -/

variable (g : Graph)

/-- The vertices in handle order. -/
def vertices : List Vertex := g.vertexMap.values

/-- The edges in handle order. -/
def edges : List Edge := g.edgeMap.values

/-- The vertex handles in order. -/
def vertexIds : List VertexId := g.vertexMap.keys

/-- The edge handles in order. -/
def edgeIds : List EdgeId := g.edgeMap.keys

def vertexCount : Nat := g.vertexMap.size

def edgeCount : Nat := g.edgeMap.size

/-- Whether the graph has no vertex. -/
def isEmpty : Bool := g.vertexMap.isEmpty

def vertex? (id : VertexId) : Option Vertex := g.vertexMap.get? id

def edge? (id : EdgeId) : Option Edge := g.edgeMap.get? id

/-- Whether the element is a member of the graph. -/
def contains : Element → Bool
  | .vertex id => g.vertexMap.contains id
  | .edge id => g.edgeMap.contains id

/-- The attributes of a member. -/
def attributes? : Element → Option Attributes
  | .vertex id => (g.vertex? id).map (·.attributes)
  | .edge id => (g.edge? id).map (·.attributes)

/-- The edges leaving `v`, in handle order. -/
def outgoing (v : VertexId) : List EdgeId := ((g.outgoingIndex.get? v).getD .empty).keys

/-- The edges entering `v`, in handle order. -/
def incoming (v : VertexId) : List EdgeId := ((g.incomingIndex.get? v).getD .empty).keys

/-- The edges touching `v`, each once, in handle order. -/
def incidentEdges (v : VertexId) : List EdgeId :=
  SortedMap.distinct (g.outgoing v ++ g.incoming v)

def outDegree (v : VertexId) : Nat := (g.outgoing v).length

def inDegree (v : VertexId) : Nat := (g.incoming v).length

/-- The number of edge ends at `v`; a loop has two. -/
def degree (v : VertexId) : Nat := g.outDegree v + g.inDegree v

/-- The edges among those leaving `v` that enter `w`. -/
def outgoingTo (v w : VertexId) : List EdgeId :=
  (g.outgoing v).filter fun id => (g.edge? id).any (·.target == w)

/-- The edges that connect `v` to `w`, in handle order; in undirected mode also
those that connect `w` to `v`. -/
def edgesBetween (v w : VertexId) : EdgeMode → List EdgeId
  | .directed => g.outgoingTo v w
  | .undirected => SortedMap.distinct (g.outgoingTo v w ++ g.outgoingTo w v)

/-- Whether both graphs have the same vertices and edges with equal attributes;
the counters do not count. -/
def equal (h : Graph) : Bool :=
  g.vertexCount == h.vertexCount && g.edgeCount == h.edgeCount &&
    ((g.vertices.zip h.vertices).all fun (a, b) =>
      a.id == b.id && a.attributes.equal b.attributes) &&
    (g.edges.zip h.edges).all fun (a, b) =>
      a.id == b.id && a.source == b.source && a.target == b.target &&
        a.attributes.equal b.attributes

/-! ### Insertion -/

/-- Records the edge under `v` in an index. -/
def indexEdge (index : SortedMap VertexId (SortedSet EdgeId)) (v : VertexId) (e : EdgeId) :
    SortedMap VertexId (SortedSet EdgeId) :=
  index.insert v (((index.get? v).getD .empty).insert e ())

/-- Puts in a vertex under its own handle; the counters stay. -/
def insertVertex (v : Vertex) : Graph :=
  { g with
    vertexMap := g.vertexMap.insert v.id v
    outgoingIndex := g.outgoingIndex.insert v.id ((g.outgoingIndex.get? v.id).getD .empty)
    incomingIndex := g.incomingIndex.insert v.id ((g.incomingIndex.get? v.id).getD .empty) }

/-- Puts in an edge under its own handle; the counters stay. -/
def insertEdge (e : Edge) : Graph :=
  { g with
    edgeMap := g.edgeMap.insert e.id e
    outgoingIndex := indexEdge g.outgoingIndex e.source e.id
    incomingIndex := indexEdge g.incomingIndex e.target e.id }

/-- Fails at the first of the vertices that is not a member. -/
def checkEndpoints : List VertexId → Except Error Unit
  | [] => .ok ()
  | v :: rest =>
    if g.vertexMap.contains v then checkEndpoints rest else .error (.invalidReference v)

/-- The counter after one more handle; the last word has no successor. -/
def advance (counter : UInt64) : Except Stop UInt64 :=
  if counter = lastWord then .error .overflow else .ok (counter + 1)

/-- Adds a vertex under the next vertex handle. -/
def addVertex (attributes : Attributes) : Except Stop (VertexId × Graph) := do
  let id : VertexId := ⟨g.nextVertex⟩
  let nextVertex ← advance g.nextVertex
  return (id, { g.insertVertex ⟨id, attributes⟩ with nextVertex })

/-- Adds an edge from `source` to `target` under the next edge handle. -/
def addEdge (source target : VertexId) (attributes : Attributes) :
    Except Stop (EdgeId × Graph) := do
  g.checkEndpoints [source, target]
  let id : EdgeId := ⟨g.nextEdge⟩
  let nextEdge ← advance g.nextEdge
  return (id, { g.insertEdge ⟨id, source, target, attributes⟩ with nextEdge })

/-- What is to be added to a graph. -/
inductive NewElement where
  | vertex (attributes : Attributes)
  | edge (source target : VertexId) (attributes : Attributes)

/-- Adds an element of either kind. -/
def add : NewElement → Except Stop (Element × Graph)
  | .vertex attributes => do
    let (id, h) ← g.addVertex attributes
    return (.vertex id, h)
  | .edge source target attributes => do
    let (id, h) ← g.addEdge source target attributes
    return (.edge id, h)

/-! ### Attributes -/

/-- Replaces the attributes of a member by their image under `f`. -/
def modifyAttributes (f : Attributes → Attributes) : Element → Graph
  | .vertex id =>
    { g with vertexMap := g.vertexMap.modify id fun v => { v with attributes := f v.attributes } }
  | .edge id =>
    { g with edgeMap := g.edgeMap.modify id fun e => { e with attributes := f e.attributes } }

/-! ### Removal -/

/-- Removes an edge and gives it back. -/
def removeEdge (id : EdgeId) : Except Error (Edge × Graph) :=
  match g.edge? id with
  | none => .error (.unknownElement (.edge id))
  | some e => .ok (e,
      { g with
        edgeMap := g.edgeMap.erase id
        outgoingIndex := g.outgoingIndex.modify e.source (·.erase id)
        incomingIndex := g.incomingIndex.modify e.target (·.erase id) })

/-- Removes edges one after another. -/
def removeEdges (g : Graph) : List EdgeId → Except Error Graph
  | [] => .ok g
  | id :: rest => do
    let (_, h) ← g.removeEdge id
    removeEdges h rest

/-- Takes out a vertex that no edge touches. -/
def dropVertex (id : VertexId) : Graph :=
  { g with
    vertexMap := g.vertexMap.erase id
    outgoingIndex := g.outgoingIndex.erase id
    incomingIndex := g.incomingIndex.erase id }

/-- Removes a vertex and gives back the edges removed with it, in handle order. -/
def removeVertex (id : VertexId) (policy : DanglingPolicy) : Except Error (List EdgeId × Graph) :=
  if !g.vertexMap.contains id then .error (.unknownElement (.vertex id))
  else
    let incident := g.incidentEdges id
    if policy = .reject ∧ incident ≠ [] then .error (.danglingEdges id incident)
    else do
      let h ← g.removeEdges incident
      return (incident, h.dropVertex id)

/-- Removes an element and gives back all that was removed: the edges of a
vertex in handle order, then the element. -/
def removeWithPolicy (policy : DanglingPolicy) : Element → Except Error (List Element × Graph)
  | .edge id => do
    let (_, h) ← g.removeEdge id
    return ([.edge id], h)
  | .vertex id => do
    let (removed, h) ← g.removeVertex id policy
    return (removed.map .edge ++ [.vertex id], h)

/-- Removes an element together with the edges that touch it. -/
def remove (element : Element) : Except Error (List Element × Graph) :=
  g.removeWithPolicy .cascade element

/-! ### Sub-structures -/

/-- Copies the listed vertices of `g` into `part`. -/
def takeVertices (part : Graph) : List VertexId → Except Error Graph
  | [] => .ok part
  | id :: rest =>
    match g.vertex? id with
    | none => .error (.unknownElement (.vertex id))
    | some v => takeVertices (part.insertVertex v) rest

/-- Copies the listed edges of `g` into `part`, which must hold their endpoints. -/
def takeEdges (part : Graph) : List EdgeId → Except Error Graph
  | [] => .ok part
  | id :: rest =>
    match g.edge? id with
    | none => .error (.unknownElement (.edge id))
    | some e => do
      part.checkEndpoints [e.source, e.target]
      takeEdges (part.insertEdge e) rest

/-- The sub-structure of the listed vertices and edges. Handles and counters are kept. -/
def subgraph (vertices : List VertexId) (edges : List EdgeId) : Except Error Graph := do
  let blank := { empty with nextVertex := g.nextVertex, nextEdge := g.nextEdge }
  let part ← g.takeVertices blank vertices
  g.takeEdges part edges

end Graph

end GraphTransformation
