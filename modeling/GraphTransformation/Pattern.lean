import GraphTransformation.Graph.Basic
import GraphTransformation.Constraint

/-!
Patterns: what a production looks for.

A pattern is a small graph, a mode for its edges, and constraints attached to
its elements. The attributes of a pattern element are required of its image, on
top of the constraints attached to it.
-/

namespace GraphTransformation

/-- The left-hand side of a production. -/
structure Pattern where
  graph : Graph
  edgeMode : EdgeMode
  /-- The constraints in the order of their attachment, each with its element. -/
  attached : List (Element × Constraint)

namespace Pattern

/-- The pattern of a graph, without constraints. -/
def ofGraph (graph : Graph) (edgeMode : EdgeMode) : Pattern := ⟨graph, edgeMode, []⟩

/-- Attaches a constraint to a pattern element, on top of those it has. -/
def constrain (p : Pattern) (element : Element) (c : Constraint) : Except Error Pattern :=
  if p.graph.contains element then
    .ok { p with attached := p.attached ++ [(element, c)] }
  else
    .error (.illFormedProduction (.constraintOutside element))

/-- The constraints attached to an element. -/
def constraintsOn (p : Pattern) (element : Element) : List Constraint :=
  (p.attached.filter (·.1 == element)).map (·.2)

/-- All clauses attached to an element, if a constraint was attached to it. -/
def constraint? (p : Pattern) (element : Element) : Option Constraint :=
  match p.constraintsOn element with
  | [] => none
  | cs => some (cs.foldl (· ++ ·) .empty)

/-- Whether a host element with these attributes may be the image of `element`. -/
def admits (p : Pattern) (element : Element) (attributes : Attributes) : Bool :=
  match p.graph.attributes? element with
  | none => false
  | some required =>
    (required.toList.all fun (name, value) => (attributes.get? name).any (·.sameAs value)) &&
      (p.constraint? element).all (·.holds attributes)

end Pattern

end GraphTransformation
