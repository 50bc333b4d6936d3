import GraphTransformation.Pattern

/-!
The order in which a search assigns the vertices of a pattern.

Vertices linked to those already placed come first, then those with many edge
ends, then those with low handles. Each step also names the pattern edges whose
endpoints are all placed once its vertex is, a placed neighbour to search from
(its anchor), and the host vertices that may be the image of its vertex.
-/

namespace GraphTransformation

/-- A placed neighbour of a pattern vertex. -/
structure Anchor where
  vertex : VertexId
  /-- Whether the pattern edge between the two leaves the anchor. -/
  outgoing : Bool
  deriving DecidableEq, Repr

/-- One step of a search: the assignment of a pattern vertex. -/
structure PlanStep where
  vertex : VertexId
  anchor : Option Anchor
  /-- The pattern edges whose endpoints are all placed once `vertex` is. -/
  covered : List EdgeId
  /-- The host vertices that pass the attribute and degree tests, in handle order. -/
  candidates : List VertexId
  deriving DecidableEq, Repr

namespace Plan

/-! ### Order -/

/-- Whether the pattern edge joins `v` to a placed vertex. -/
def joinsPlaced (lhs : Graph) (placed : List VertexId) (v : VertexId) (e : EdgeId) : Bool :=
  ((lhs.edge? e).bind (·.opposite v)).any placed.contains

/-- The number of edges that join `v` to placed vertices. -/
def links (lhs : Graph) (placed : List VertexId) (v : VertexId) : Nat :=
  (lhs.incidentEdges v).countP (joinsPlaced lhs placed v)

/-- Whether `v` has more links than `w`, or as many and more edge ends. -/
def outranks (lhs : Graph) (placed : List VertexId) (v w : VertexId) : Bool :=
  links lhs placed w < links lhs placed v ||
    (links lhs placed w == links lhs placed v && lhs.degree w < lhs.degree v)

/-- The first of the vertices that none outranks. -/
def nextVertex (lhs : Graph) (placed : List VertexId) : List VertexId → Option VertexId
  | [] => none
  | v :: rest => some (rest.foldl (fun best w => if outranks lhs placed w best then w else best) v)

/-! ### Steps -/

/-- Whether `image` has at least as many edge ends as the pattern vertex. -/
def hasRoom (pattern : Pattern) (host : Graph) (v image : VertexId) : Bool :=
  match pattern.edgeMode with
  | .directed =>
    pattern.graph.outDegree v ≤ host.outDegree image &&
      pattern.graph.inDegree v ≤ host.inDegree image
  | .undirected => pattern.graph.degree v ≤ host.degree image

/-- The host vertices that may be the image of the pattern vertex, in handle order. -/
def candidates (pattern : Pattern) (host : Graph) (v : VertexId) : List VertexId :=
  ((host.vertices.filter fun h => pattern.admits (.vertex v) h.attributes).map (·.id)).filter
    (hasRoom pattern host v)

/-- The pattern edges between `v` and the placed vertices, in handle order. -/
def coveredEdges (lhs : Graph) (placed : List VertexId) (v : VertexId) : List EdgeId :=
  (lhs.incidentEdges v).filter (joinsPlaced lhs placed v)

/-- The other end of a covered edge of `v` that is not a loop. -/
def anchorAlong (v : VertexId) (e : Edge) : Option Anchor :=
  (e.opposite v).map fun other => ⟨other, e.source == other⟩

/-- The anchor of `v`: the other end of its first covered edge that is not a loop. -/
def anchor? (lhs : Graph) (v : VertexId) (covered : List EdgeId) : Option Anchor :=
  ((covered.filterMap lhs.edge?).find? (!·.isLoop)).bind (anchorAlong v)

/-- The step that places `v`, which is among `placed`. -/
def step (pattern : Pattern) (host : Graph) (placed : List VertexId) (v : VertexId) : PlanStep :=
  let covered := coveredEdges pattern.graph placed v
  { vertex := v
    anchor := anchor? pattern.graph v covered
    covered
    candidates := candidates pattern host v }

/-- The steps that place the `count` remaining vertices. -/
def steps (pattern : Pattern) (host : Graph) :
    Nat → (placed remaining : List VertexId) → List PlanStep
  | 0, _, _ => []
  | count + 1, placed, remaining =>
    match nextVertex pattern.graph placed remaining with
    | none => []
    | some v =>
      step pattern host (v :: placed) v ::
        steps pattern host count (v :: placed) (remaining.erase v)

end Plan

/-- The steps of a search for `pattern` in `host`, one for each pattern vertex. -/
def searchPlan (pattern : Pattern) (host : Graph) : List PlanStep :=
  Plan.steps pattern host pattern.graph.vertexCount [] pattern.graph.vertexIds

end GraphTransformation
