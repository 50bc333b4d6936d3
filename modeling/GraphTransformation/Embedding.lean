import GraphTransformation.Pattern

/-!
Embeddings of a pattern into a host graph.

An embedding maps pattern vertices to host vertices and pattern edges to host
edges. `verify` checks that it is an occurrence of a pattern in a host and names
the first fault.
-/

namespace GraphTransformation

/-- A map from pattern elements to host elements. -/
structure Embedding where
  vertexMap : SortedMap VertexId VertexId
  edgeMap : SortedMap EdgeId EdgeId
  deriving DecidableEq

namespace Embedding

/-- The embedding of the empty pattern. -/
def empty : Embedding := ⟨.empty, .empty⟩

instance : Inhabited Embedding := ⟨empty⟩

variable (m : Embedding)

/-- The image of a pattern vertex. -/
def vertex? (p : VertexId) : Option VertexId := m.vertexMap.get? p

/-- The image of a pattern edge. -/
def edge? (p : EdgeId) : Option EdgeId := m.edgeMap.get? p

/-- The image of a pattern element. -/
def image? : Element → Option Element
  | .vertex p => (m.vertex? p).map .vertex
  | .edge p => (m.edge? p).map .edge

/-- The host vertices in the order of their pattern vertices. -/
def hostVertices : List VertexId := m.vertexMap.values

/-- The host edges in the order of their pattern edges. -/
def hostEdges : List EdgeId := m.edgeMap.values

/-- The pairs `pattern->host`, vertices first, each kind in pattern order. -/
def text : String :=
  ", ".intercalate
    ((m.vertexMap.toList.map fun (p, h) => p.text ++ "->" ++ h.text) ++
      m.edgeMap.toList.map fun (p, h) => p.text ++ "->" ++ h.text)

/-! ### Verification -/

/-- Whether the embedding is defined on exactly the pattern's elements. -/
def covers (pattern : Pattern) : Bool :=
  m.vertexMap.keys == pattern.graph.vertexIds && m.edgeMap.keys == pattern.graph.edgeIds

/-- Whether no two pattern elements have the same image. -/
def injective : Bool := decide m.hostVertices.Nodup && decide m.hostEdges.Nodup

/-- The fault of the pair `p->h` of vertices, if it has one. -/
def vertexFault? (pattern : Pattern) (host : Graph) (p h : VertexId) : Option MatchFault :=
  match host.vertex? h with
  | none => some (.missingVertex h)
  | some v =>
    if pattern.admits (.vertex p) v.attributes then none else some (.refusedVertex h p)

/-- The fault of the pair `p->h` of edges, if it has one. -/
def edgeFault? (pattern : Pattern) (host : Graph) (p h : EdgeId) : Option MatchFault :=
  match host.edge? h with
  | none => some (.missingEdge h)
  | some e =>
    if pattern.admits (.edge p) e.attributes then
      match pattern.graph.edge? p with
      | none => some (.notPatternEdge p)
      | some edge =>
        match m.vertex? edge.source, m.vertex? edge.target with
        | some source, some target =>
          if (host.edgesBetween source target pattern.edgeMode).contains h then none
          else some (.misplacedEdge h p)
        | _, _ => some (.unmappedEndpoints p)
    else some (.refusedEdge h p)

/-- The first fault of the embedding as an occurrence of `pattern` in `host`. -/
def fault? (pattern : Pattern) (host : Graph) : Option MatchFault :=
  if !m.covers pattern then some .notCovering
  else if !m.injective then some .notInjective
  else
    (m.vertexMap.toList.findSome? fun (p, h) => vertexFault? pattern host p h).or
      (m.edgeMap.toList.findSome? fun (p, h) => m.edgeFault? pattern host p h)

/-- Checks that the embedding is an occurrence of `pattern` in `host`. -/
def verify (pattern : Pattern) (host : Graph) : Except Error Unit :=
  match m.fault? pattern host with
  | none => .ok ()
  | some fault => .error (.invalidMatch fault)

end Embedding

end GraphTransformation
