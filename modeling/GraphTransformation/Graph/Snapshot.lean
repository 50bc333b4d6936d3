import GraphTransformation.Graph.Basic

/-!
Graphs as flat lists of their elements.

A snapshot lists vertices and edges and may record the counters. Loading one
recomputes the indexes, and each counter becomes the larger of the recorded one
and the first handle after the listed ones. A snapshot whose handles repeat, or
that leaves no handle to give out, is refused.
-/

namespace GraphTransformation

/-- The elements of a graph as lists, with the counters where they are recorded. -/
structure Snapshot where
  vertices : List Vertex
  edges : List Edge
  nextVertex : Option UInt64
  nextEdge : Option UInt64
  deriving DecidableEq

namespace Snapshot

/-- The least word above `next` and all of the words, if there is one. -/
def successor (next : UInt64) : List UInt64 → Except Error UInt64
  | [] => .ok next
  | word :: rest =>
    if word = lastWord then .error (.invalidSnapshot (.outOfRange word))
    else successor (max next (word + 1)) rest

/-- The first free handle after the listed ones, never below the recorded counter. -/
def nextHandle (recorded : Option UInt64) (words : List UInt64) : Except Error UInt64 := do
  let next ← successor (recorded.getD 0) words
  if next = lastWord then .error (.invalidSnapshot .exhausted) else return next

/-- Puts in the vertices, each under a handle that is not taken. -/
def loadVertices (g : Graph) : List Vertex → Except Error Graph
  | [] => .ok g
  | v :: rest =>
    if g.vertexMap.contains v.id then .error (.invalidSnapshot (.repeatedVertex v.id))
    else loadVertices (g.insertVertex v) rest

/-- Puts in the edges, each under a handle that is not taken and between members. -/
def loadEdges (g : Graph) : List Edge → Except Error Graph
  | [] => .ok g
  | e :: rest =>
    if g.edgeMap.contains e.id then .error (.invalidSnapshot (.repeatedEdge e.id))
    else do
      g.checkEndpoints [e.source, e.target]
      loadEdges (g.insertEdge e) rest

/-- The graph that the snapshot lists. -/
def load (s : Snapshot) : Except Error Graph := do
  let nextVertex ← nextHandle s.nextVertex (s.vertices.map (·.id.word))
  let nextEdge ← nextHandle s.nextEdge (s.edges.map (·.id.word))
  let g ← loadVertices { Graph.empty with nextVertex, nextEdge } s.vertices
  loadEdges g s.edges

end Snapshot

/-- The elements of the graph in handle order, with both counters. -/
def Graph.snapshot (g : Graph) : Snapshot :=
  ⟨g.vertices, g.edges, some g.nextVertex, some g.nextEdge⟩

end GraphTransformation
