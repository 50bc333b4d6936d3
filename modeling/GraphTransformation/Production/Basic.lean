import GraphTransformation.Production.Correspondence
import GraphTransformation.Production.Rule
import GraphTransformation.Search.Matcher

/-!
Productions and their matches.

A production replaces an occurrence of its pattern: paired pattern elements are
preserved, the others are deleted, and unpaired replacement elements are
created. A match is an embedding of the pattern with the identity of the
production it was found for.
-/

namespace GraphTransformation

/-- The identity of a production. Whoever makes productions gives each its own. -/
structure ProductionId where
  number : Nat
  deriving DecidableEq, Repr

/-- An occurrence of a production's pattern in a host graph. -/
structure Match where
  production : ProductionId
  embedding : Embedding
  deriving DecidableEq

/-- The part of the host that the match covers. -/
def Match.subgraph (m : Match) (host : Graph) : Except Error Graph :=
  host.subgraph m.embedding.hostVertices m.embedding.hostEdges

/-- A rule that replaces occurrences of a pattern. -/
structure Production where
  id : ProductionId
  name : String
  lhs : Pattern
  rhs : Graph
  correspondence : Correspondence
  /-- Attribute rules in the order of their declaration, each with its
  replacement element and attribute name. -/
  rules : List (Element × String × Rule)
  dangling : DanglingPolicy

namespace Production

/-- A production without constraints and rules. The correspondence must fit both sides. -/
def make (id : ProductionId) (name : String) (lhs : Pattern) (rhs : Graph)
    (correspondence : Correspondence) (dangling : DanglingPolicy) : Except Error Production := do
  correspondence.validate lhs.graph rhs
  return { id, name, lhs, rhs, correspondence, rules := [], dangling }

/-- The rules of a replacement element, in the order of their declaration. -/
def rulesOn (p : Production) (element : Element) : List (String × Rule) :=
  (p.rules.filter (·.1 == element)).map (·.2)

/-! ### Matches -/

/-- Every match of the pattern in `host`. -/
def findMatches (p : Production) (host : Graph) (matcher : Matcher) : List Match :=
  (matcher.findAll p.lhs host).map (⟨p.id, ·⟩)

/-- Every match of the pattern in `host`, unless the search stopped at its deadline. -/
def findMatchesWithin (p : Production) (host : Graph) (matcher : Matcher)
    (deadline : Nat → Deadline) : Option (List Match) :=
  let outcome := matcher.find deadline p.lhs host
  if outcome.complete then some (outcome.embeddings.map (⟨p.id, ·⟩)) else none

/-- Checks that the match was found for this production and fits `host`. -/
def verify (p : Production) (host : Graph) (m : Match) : Except Error Unit :=
  if m.production = p.id then m.embedding.verify p.lhs host
  else .error (.invalidMatch (.otherProduction p.name))

end Production

end GraphTransformation
