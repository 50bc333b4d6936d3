import GraphTransformation.Declaration.Graph
import GraphTransformation.Derivation.Basic
import GraphTransformation.Production.Builder

/-!
Productions and grammars declared by the names of their elements.

Building a production resolves, in order, the two graphs, the preserved pairs,
the constraints and the rules, and then puts the production together. The first
name that does not resolve is the failure.

A declaration is built with any predicates. What can be stored are declarations whose
predicates are conditions; the type of the predicates is a parameter.
-/

namespace GraphTransformation

/-- A predicate on the attribute `key` of a named pattern element. -/
structure ConstraintDeclaration (π : Type) where
  element : String
  key : String
  predicate : π
  deriving DecidableEq

/-- How an attribute is set, with pattern elements by name. -/
inductive RuleDeclaration where
  | set (value : Value)
  | remove
  | copy (source key : String)
  deriving DecidableEq

/-- A rule for the attribute `key` of a named replacement element. -/
structure AssignmentDeclaration where
  element : String
  key : String
  rule : RuleDeclaration
  deriving DecidableEq

/-- A production by the names of its elements. -/
structure ProductionDeclaration (π : Type) where
  name : String
  lhs : GraphDeclaration
  rhs : GraphDeclaration
  /-- The preserved elements: pattern name and replacement name. -/
  preserve : List (String × String)
  constraints : List (ConstraintDeclaration π)
  assignments : List AssignmentDeclaration
  edgeMode : EdgeMode
  dangling : DanglingPolicy
  deriving DecidableEq

/-- The productions of a grammar and the seed of its random choices. -/
structure GrammarDeclaration (π : Type) where
  productions : List (ProductionDeclaration π)
  seed : Option UInt64
  deriving DecidableEq

/-! ### Other predicates -/

section Predicates

variable {π ρ : Type}

/-- The declaration with the image of its predicate. -/
def ConstraintDeclaration.map (f : π → ρ) (c : ConstraintDeclaration π) :
    ConstraintDeclaration ρ := ⟨c.element, c.key, f c.predicate⟩

/-- The declaration with the images of its predicates. -/
def ProductionDeclaration.map (f : π → ρ) (d : ProductionDeclaration π) :
    ProductionDeclaration ρ := { d with constraints := d.constraints.map (.map f) }

/-- The declaration with the images of its predicates. -/
def GrammarDeclaration.map (f : π → ρ) (d : GrammarDeclaration π) : GrammarDeclaration ρ :=
  { d with productions := d.productions.map (.map f) }

end Predicates

namespace ProductionDeclaration

/-! ### Resolution -/

/-- The preserved pairs of either kind, in order. -/
def resolvePairs (lhs rhs : NamedGraph) : List (String × String) →
    Except Error (List (VertexId × VertexId) × List (EdgeId × EdgeId))
  | [] => .ok ([], [])
  | (l, r) :: rest => do
    match ← lhs.element l, ← rhs.element r with
    | .vertex a, .vertex b =>
      let (vertices, edges) ← resolvePairs lhs rhs rest
      return ((a, b) :: vertices, edges)
    | .edge a, .edge b =>
      let (vertices, edges) ← resolvePairs lhs rhs rest
      return (vertices, (a, b) :: edges)
    | _, _ => .error (.illFormedProduction (.differentKinds l r))

/-- The clause of a constraint with its pattern element. -/
def resolveConstraint (lhs : NamedGraph) (c : ConstraintDeclaration Predicate) :
    Except Error (Element × String × Predicate) := do
  return (← lhs.element c.element, c.key, c.predicate)

/-- The rule with its pattern element, if it reads one. -/
def resolveRule (lhs : NamedGraph) : RuleDeclaration → Except Error Rule
  | .set value => .ok (.set value)
  | .remove => .ok .remove
  | .copy source key => do return .copy (← lhs.element source) key

/-- The rule of an assignment with its replacement element. -/
def resolveAssignment (lhs rhs : NamedGraph) (a : AssignmentDeclaration) :
    Except Error (Element × String × Rule) := do
  let rule ← resolveRule lhs a.rule
  return (← rhs.element a.element, a.key, rule)

/-- The declared production between its two graphs, with the given identity. -/
def assemble (d : ProductionDeclaration Predicate) (lhs rhs : NamedGraph) (id : ProductionId) :
    Except Error Production := do
  let (vertexPairs, edgePairs) ← resolvePairs lhs rhs d.preserve
  let constraints ← d.constraints.mapM (resolveConstraint lhs)
  let rules ← d.assignments.mapM (resolveAssignment lhs rhs)
  let draft : ProductionDraft :=
    { name := d.name, lhs := lhs.graph, rhs := rhs.graph, edgeMode := d.edgeMode,
      dangling := d.dangling, vertexPairs, edgePairs, constraints, rules }
  draft.build id

/-- The declared production, with the given identity. -/
def build (d : ProductionDeclaration Predicate) (id : ProductionId) : Except Stop Production := do
  let lhs ← d.lhs.build
  let rhs ← d.rhs.build
  d.assemble lhs rhs id

end ProductionDeclaration

namespace GrammarDeclaration

/-- The declared productions, each with its position as its identity. -/
def buildProductions (start : Nat) :
    List (ProductionDeclaration Predicate) → Except Stop (List Production)
  | [] => .ok []
  | d :: rest => do
    let p ← d.build ⟨start⟩
    return p :: (← buildProductions (start + 1) rest)

/-- The declared grammar; `generator` makes its choices if no seed is declared. -/
def build (d : GrammarDeclaration Predicate) (generator : Random.Generator) :
    Except Stop Grammar := do
  let productions ← buildProductions 0 d.productions
  return .make productions ((d.seed.map Random.Generator.ofSeed).getD generator)

end GrammarDeclaration

end GraphTransformation
