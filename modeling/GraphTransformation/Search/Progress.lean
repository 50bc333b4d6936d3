import GraphTransformation.Search.Matcher

/-!
The search for embeddings, step by step.

A search holds one assignment, which it extends and takes back: the pairs that are
assigned at present and, beside them, the host elements that are in use as images. The
first look at the deadline that comes too late raises a flag, and every loop stops when
it sees it.
-/

namespace GraphTransformation

namespace Search

/-! ### The assignment -/

/-- What is assigned at present. -/
structure Assignment where
  part : Embedding
  usedVertices : SortedSet VertexId
  usedEdges : SortedSet EdgeId

namespace Assignment

def empty : Assignment := ⟨.empty, .empty, .empty⟩

def takeVertex (a : Assignment) (p h : VertexId) : Assignment :=
  { a with part := mapVertex a.part p h, usedVertices := a.usedVertices.insert h () }

def releaseVertex (a : Assignment) (p h : VertexId) : Assignment :=
  { a with
    part := { a.part with vertexMap := a.part.vertexMap.erase p }
    usedVertices := a.usedVertices.erase h }

def takeEdge (a : Assignment) (p h : EdgeId) : Assignment :=
  { a with part := mapEdge a.part p h, usedEdges := a.usedEdges.insert h () }

def releaseEdge (a : Assignment) (p h : EdgeId) : Assignment :=
  { a with
    part := { a.part with edgeMap := a.part.edgeMap.erase p }
    usedEdges := a.usedEdges.erase h }

end Assignment

/-! ### The search -/

/-- A search in progress. -/
structure Progress where
  held : Assignment
  /-- What is left of the deadline. -/
  deadline : Deadline
  /-- Whether a look at the deadline came too late. -/
  expired : Bool
  /-- The embeddings found so far, in order. -/
  found : List Embedding

namespace Progress

/-- A search that has not begun. -/
def start (deadline : Deadline) : Progress := ⟨.empty, deadline, false, []⟩

/-- The outcome of a search that stops here. -/
def outcome (s : Progress) : SearchOutcome := ⟨s.found, !s.expired⟩

/-- Looks at the deadline, unless it is known to have passed. -/
def look (s : Progress) : Progress :=
  if s.expired then s
  else
    match s.deadline with
    | .never => s
    | .after 0 => { s with expired := true }
    | .after (checks + 1) => { s with deadline := .after checks }

/-- Changes the assignment and nothing else. -/
def reassign (s : Progress) (change : Assignment → Assignment) : Progress :=
  { s with held := change s.held }

/-- Keeps a copy of the embedding as it is at present. -/
def report (s : Progress) : Progress := { s with found := s.found ++ [s.held.part] }

end Progress

/-- Makes the visits in turn, up to the first after which the deadline is known to have passed. -/
def visitEach {α : Type} (visit : α → Progress → Progress) : List α → Progress → Progress
  | [], s => s
  | a :: rest, s =>
    if (visit a s).expired then visit a s else visitEach visit rest (visit a s)

section

variable (pattern : Pattern) (host : Graph)

/-- The host edges that join the images of the ends of a pattern edge, in handle order. -/
def joiningEdges (p : EdgeId) (m : Embedding) : List EdgeId :=
  match pattern.graph.edge? p with
  | none => []
  | some edge =>
    match m.vertex? edge.source, m.vertex? edge.target with
    | some source, some target => host.edgesBetween source target pattern.edgeMode
    | _, _ => []

/-- Assigns host edges to the pattern edges one after another, passing over those in use,
goes on from each complete assignment, and takes the pairs back. -/
def exploreEdges (next : Progress → Progress) : List EdgeId → Progress → Progress
  | [], s => next s
  | p :: rest, s =>
    let visit := fun (h : EdgeId) (s : Progress) =>
      if s.held.usedEdges.contains h then s
      else if admitsEdge pattern host p h then
        (exploreEdges next rest (s.reassign (·.takeEdge p h))).reassign (·.releaseEdge p h)
      else s
    visitEach visit (joiningEdges pattern host p s.held.part) s

/-- Maps the step's vertex to `candidate`, unless that is in use, goes on from there, and
takes the pair back. -/
def exploreVertex (next : Progress → Progress) (step : PlanStep) (candidate : VertexId)
    (s : Progress) : Progress :=
  if s.held.usedVertices.contains candidate then s
  else
    (exploreEdges pattern host next step.covered
      (s.reassign (·.takeVertex step.vertex candidate))).reassign
        (·.releaseVertex step.vertex candidate)

/-- Extends the present assignment by the steps of a plan. -/
def explore : List PlanStep → Progress → Progress
  | [], s => if s.look.expired then s.look else s.look.report
  | step :: rest, s =>
    if s.look.expired then s.look
    else
      visitEach (exploreVertex pattern host (explore rest) step)
        (stepCandidates pattern host step s.look.held.part) s.look

/-- Searches only where the first step's vertex is mapped to `candidate`. -/
def exploreFrom (root : PlanStep) (rest : List PlanStep) (candidate : VertexId)
    (s : Progress) : Progress :=
  if s.look.expired then s.look
  else exploreVertex pattern host (explore pattern host rest) root candidate s.look

end

end Search

/-- Searches for the embeddings of `pattern` in `host` step by step, in one search or in one
for each candidate of the first planned vertex. -/
def Strategy.search (deadline : Nat → Deadline) (pattern : Pattern) (host : Graph) :
    Strategy → SearchOutcome
  | .backtracking =>
    (Search.explore pattern host (searchPlan pattern host) (.start (deadline 0))).outcome
  | .parallel =>
    match searchPlan pattern host with
    | [] => (Search.explore pattern host [] (.start (deadline 0))).outcome
    | root :: rest =>
      .merge (root.candidates.mapIdx fun i candidate =>
        (Search.exploreFrom pattern host root rest candidate (.start (deadline i))).outcome)

end GraphTransformation
