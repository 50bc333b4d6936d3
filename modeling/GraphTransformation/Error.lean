import GraphTransformation.Handle

/-!
Why an operation on graphs, productions or matches fails.

Each failure is a cause with the elements and names it concerns; `message` gives
its wording. An operation that gives out handles may also find no next word for its
counter. That is no failure that is reported: it stops the operation, and whatever
called it, where it stands (`Stop`).
-/

namespace GraphTransformation

/-- Why a match does not fit. -/
inductive MatchFault where
  | otherProduction (name : String)
  | notCovering
  | notInjective
  | missingVertex (image : VertexId)
  | refusedVertex (image pattern : VertexId)
  | missingEdge (image : EdgeId)
  | refusedEdge (image pattern : EdgeId)
  | notPatternEdge (pattern : EdgeId)
  | unmappedEndpoints (pattern : EdgeId)
  | misplacedEdge (image pattern : EdgeId)
  | unmappedVertex (pattern : VertexId)
  | unmappedEdge (pattern : EdgeId)
  deriving DecidableEq, Repr

/-- Why a production is ill-formed. -/
inductive ProductionFault where
  | vertexPairClash (left right : VertexId)
  | edgePairClash (left right : EdgeId)
  | notPatternVertex (left : VertexId)
  | notReplacementVertex (right : VertexId)
  | notPatternEdge (left : EdgeId)
  | notReplacementEdge (right : EdgeId)
  | movedEndpoints (left right : EdgeId)
  | constraintOutside (element : Element)
  | ruleOutside (name : String) (element : Element)
  | sourceOutside (name : String) (source : Element)
  | differentKinds (left right : String)
  deriving DecidableEq, Repr

/-- Why a stored graph is refused. -/
inductive SnapshotFault where
  | outOfRange (handle : UInt64)
  | exhausted
  | repeatedVertex (id : VertexId)
  | repeatedEdge (id : EdgeId)
  deriving DecidableEq, Repr

/-- Why a name does not resolve. -/
inductive NameFault where
  | undeclared (name : String)
  | notVertex (name : String)
  | notEdge (name : String)
  deriving DecidableEq, Repr

/-- A failed operation. -/
inductive Error where
  /-- An edge endpoint is not a member of the graph. -/
  | invalidReference (vertex : VertexId)
  /-- The element is not a member of the graph. -/
  | unknownElement (element : Element)
  /-- Removing the vertex would leave these edges without an endpoint. -/
  | danglingEdges (vertex : VertexId) (edges : List EdgeId)
  /-- The match belongs to another production or does not fit the graph. -/
  | invalidMatch (fault : MatchFault)
  /-- The correspondence, a constraint or a rule refers to a missing element. -/
  | illFormedProduction (fault : ProductionFault)
  /-- A name is declared twice. -/
  | duplicateName (name : String)
  /-- A stored graph has repeated or exhausted handles. -/
  | invalidSnapshot (fault : SnapshotFault)
  /-- A name is used that does not stand for an element of the wanted kind. -/
  | unknownName (fault : NameFault)
  deriving DecidableEq, Repr

/-- Why an operation that gives out handles ends without a result. -/
inductive Stop where
  | failed (cause : Error)
  /-- A counter would have gone past the last word. -/
  | overflow
  deriving DecidableEq, Repr

instance : MonadLift (Except Error) (Except Stop) := ⟨Except.mapError .failed⟩

def MatchFault.message : MatchFault → String
  | .otherProduction name => s!"match was not produced by production `{name}`"
  | .notCovering => "embedding does not cover exactly the pattern elements"
  | .notInjective => "embedding is not injective"
  | .missingVertex h => s!"{h.text} is not a host vertex"
  | .refusedVertex h p => s!"{h.text} does not satisfy the constraints of {p.text}"
  | .missingEdge h => s!"{h.text} is not a host edge"
  | .refusedEdge h p => s!"{h.text} does not satisfy the constraints of {p.text}"
  | .notPatternEdge p => s!"{p.text} is not a pattern edge"
  | .unmappedEndpoints p => s!"endpoints of {p.text} are not mapped"
  | .misplacedEdge h p => s!"{h.text} does not connect the images of {p.text}"
  | .unmappedVertex l => s!"{l.text} is not mapped"
  | .unmappedEdge l => s!"{l.text} is not mapped"

def ProductionFault.message : ProductionFault → String
  | .vertexPairClash l r => s!"vertex correspondence {l.text} -> {r.text} is not injective"
  | .edgePairClash l r => s!"edge correspondence {l.text} -> {r.text} is not injective"
  | .notPatternVertex l => s!"{l.text} is not a pattern vertex"
  | .notReplacementVertex r => s!"{r.text} is not a replacement vertex"
  | .notPatternEdge l => s!"{l.text} is not a pattern edge"
  | .notReplacementEdge r => s!"{r.text} is not a replacement edge"
  | .movedEndpoints l r => s!"preserved edge {l.text} -> {r.text} does not keep its endpoints"
  | .constraintOutside e => s!"constraint on {e.text}, which is not part of the pattern"
  | .ruleOutside name e => s!"rule for `{name}` on {e.text}, which is not part of the replacement"
  | .sourceOutside name e => s!"rule for `{name}` reads {e.text}, which is not part of the pattern"
  | .differentKinds l r => s!"`{l}` and `{r}` are not of the same kind"

def SnapshotFault.message : SnapshotFault → String
  | .outOfRange handle => s!"handle {handle.toNat} is out of range"
  | .exhausted => "no handles left"
  | .repeatedVertex id => s!"{id.text} appears twice"
  | .repeatedEdge id => s!"{id.text} appears twice"

def NameFault.message : NameFault → String
  | .undeclared name => name
  | .notVertex name => s!"{name} (not a vertex)"
  | .notEdge name => s!"{name} (not an edge)"

/-- The wording of the failure. -/
def Error.message : Error → String
  | .invalidReference v => s!"edge endpoint {v.text} is not a member of the graph"
  | .unknownElement e => s!"{e.text} is not a member of the graph"
  | .danglingEdges v edges =>
    s!"removing {v.text} would orphan {edges.length} incident edge(s)"
  | .invalidMatch fault => s!"invalid match: {fault.message}"
  | .illFormedProduction fault => s!"ill-formed production: {fault.message}"
  | .duplicateName name => s!"duplicate element name: {name}"
  | .invalidSnapshot fault => s!"invalid graph snapshot: {fault.message}"
  | .unknownName fault => s!"unknown element name: {fault.message}"

end GraphTransformation
