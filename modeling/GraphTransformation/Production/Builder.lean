import GraphTransformation.Production.Basic

/-!
Productions put together from parts.

A draft collects the two graphs, the pairs of preserved elements, constraints
and rules. Building it checks the pairs, then each constraint, then each rule,
and fails at the first part that refers to a missing element.
-/

namespace GraphTransformation

/-- The parts of a production. -/
structure ProductionDraft where
  name : String
  lhs : Graph
  rhs : Graph
  edgeMode : EdgeMode
  dangling : DanglingPolicy
  vertexPairs : List (VertexId × VertexId)
  edgePairs : List (EdgeId × EdgeId)
  constraints : List (Element × String × Predicate)
  rules : List (Element × String × Rule)

namespace ProductionDraft

/-- Attaches constraints of one clause each, one after another. -/
def attach (pattern : Pattern) : List (Element × String × Predicate) → Except Error Pattern
  | [] => .ok pattern
  | (element, name, predicate) :: rest => do
    attach (← pattern.constrain element (Constraint.empty.push name predicate)) rest

/-- The fault of a rule in a production, if it has one. -/
def ruleFault? (lhs rhs : Graph) (element : Element) (name : String) (rule : Rule) :
    Option ProductionFault :=
  if rhs.contains element then
    match rule.source? with
    | some source => if lhs.contains source then none else some (.sourceOutside name source)
    | none => none
  else some (.ruleOutside name element)

/-- Builds the production, with the given identity. -/
def build (d : ProductionDraft) (id : ProductionId) : Except Error Production := do
  let correspondence ← Correspondence.ofPairs d.vertexPairs d.edgePairs
  let p ← Production.make id d.name (.ofGraph d.lhs d.edgeMode) d.rhs correspondence d.dangling
  let lhs ← attach p.lhs d.constraints
  match d.rules.findSome? fun (element, name, rule) => ruleFault? d.lhs d.rhs element name rule with
  | some fault => .error (.illFormedProduction fault)
  | none => return { p with lhs, rules := d.rules }

end ProductionDraft

end GraphTransformation
