import GraphTransformation.Embedding
import GraphTransformation.Search.Plan

/-!
The depth-first search for embeddings, as the sequence of what it does.

A search extends a partial embedding plan step by plan step: it tries the
candidates of the step's vertex in handle order, and for each the host edges for
the step's covered edges, also in handle order. Its trace lists the embeddings
found and, between them, the points at which it looks at its deadline.
-/

namespace GraphTransformation

/-- What a search does: it looks at its deadline or finds an embedding. -/
inductive SearchEvent where
  | check
  | found (m : Embedding)
  deriving DecidableEq

namespace Search

variable (pattern : Pattern) (host : Graph)

/-! ### Candidates -/

/-- The host vertices next to `image` that an edge between them allows, in handle order. -/
def neighbours (image : VertexId) (outgoing : Bool) : List VertexId :=
  let undirected := pattern.edgeMode == .undirected
  let after := if outgoing || undirected then
    (host.outgoing image).filterMap fun e => (host.edge? e).map (·.target) else []
  let before := if !outgoing || undirected then
    (host.incoming image).filterMap fun e => (host.edge? e).map (·.source) else []
  SortedMap.distinct (after ++ before)

/-- The host vertices to try for a step, in handle order. -/
def stepCandidates (step : PlanStep) (m : Embedding) : List VertexId :=
  match step.anchor with
  | none => step.candidates
  | some anchor =>
    match m.vertex? anchor.vertex with
    | none => step.candidates
    | some image =>
      (neighbours pattern host image anchor.outgoing).filter step.candidates.contains

/-- Whether the host edge may be the image of the pattern edge. -/
def admitsEdge (p h : EdgeId) : Bool :=
  (host.edge? h).any fun e => pattern.admits (.edge p) e.attributes

/-- The host edges to try for a pattern edge whose endpoints are mapped, in handle order. -/
def edgeCandidates (p : EdgeId) (m : Embedding) : List EdgeId :=
  match pattern.graph.edge? p with
  | none => []
  | some edge =>
    match m.vertex? edge.source, m.vertex? edge.target with
    | some source, some target =>
      (host.edgesBetween source target pattern.edgeMode).filter fun h =>
        !m.hostEdges.contains h && admitsEdge pattern host p h
    | _, _ => []

/-! ### Trace -/

/-- The embedding with one more vertex pair. -/
def mapVertex (m : Embedding) (p h : VertexId) : Embedding :=
  { m with vertexMap := m.vertexMap.insert p h }

/-- The embedding with one more edge pair. -/
def mapEdge (m : Embedding) (p h : EdgeId) : Embedding :=
  { m with edgeMap := m.edgeMap.insert p h }

/-- Assigns host edges to the pattern edges one after another and goes on from
each complete assignment. -/
def assignEdges (next : Embedding → List SearchEvent) :
    List EdgeId → Embedding → List SearchEvent
  | [], m => next m
  | p :: rest, m =>
    (edgeCandidates pattern host p m).flatMap fun h => assignEdges next rest (mapEdge m p h)

/-- Maps the step's vertex to `candidate`, unless that is an image already. -/
def tryVertex (next : Embedding → List SearchEvent) (step : PlanStep) (m : Embedding)
    (candidate : VertexId) : List SearchEvent :=
  if m.hostVertices.contains candidate then []
  else assignEdges pattern host next step.covered (mapVertex m step.vertex candidate)

/-- Extends a partial embedding by the steps of a plan. -/
def extend : List PlanStep → Embedding → List SearchEvent
  | [], m => [.check, .found m]
  | step :: rest, m =>
    .check :: (stepCandidates pattern host step m).flatMap
      (tryVertex pattern host (extend rest) step m)

/-- The search of the whole space. -/
def trace : List SearchEvent := extend pattern host (searchPlan pattern host) .empty

/-- The searches of the whole space apart from one another, one for each candidate
of the first step. A pattern without vertices has only one. -/
def branches : List (List SearchEvent) :=
  match searchPlan pattern host with
  | [] => [extend pattern host [] .empty]
  | root :: rest =>
    root.candidates.map fun candidate =>
      .check :: tryVertex pattern host (extend pattern host rest) root .empty candidate

end Search

end GraphTransformation
