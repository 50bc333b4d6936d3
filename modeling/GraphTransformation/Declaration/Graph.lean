import GraphTransformation.Graph.Basic

/-!
Graphs declared by the names of their elements.

Vertices and edges share one set of names. Vertices are declared in order, then
edges, whose endpoints are given by name; an edge need not have a name of its own.
-/

namespace GraphTransformation

structure VertexDeclaration where
  name : String
  attributes : Attributes
  deriving DecidableEq

structure EdgeDeclaration where
  name : Option String
  source : String
  target : String
  attributes : Attributes
  deriving DecidableEq

/-- A graph by the names of its elements. -/
structure GraphDeclaration where
  vertices : List VertexDeclaration
  edges : List EdgeDeclaration
  deriving DecidableEq

/-- A graph together with the names its elements were declared with. -/
structure NamedGraph where
  graph : Graph
  names : SortedMap String Element
  deriving DecidableEq

namespace NamedGraph

/-- The graph without elements and names. -/
def empty : NamedGraph := ⟨.empty, .empty⟩

variable (n : NamedGraph)

/-! ### Lookup -/

/-- The element with this name. -/
def element (name : String) : Except Error Element :=
  match n.names.get? name with
  | some e => .ok e
  | none => .error (.unknownName (.undeclared name))

/-- The vertex with this name. -/
def vertex (name : String) : Except Error VertexId :=
  match n.element name with
  | .ok (.vertex id) => .ok id
  | .ok (.edge _) => .error (.unknownName (.notVertex name))
  | .error e => .error e

/-- The edge with this name. -/
def edge (name : String) : Except Error EdgeId :=
  match n.element name with
  | .ok (.edge id) => .ok id
  | .ok (.vertex _) => .error (.unknownName (.notEdge name))
  | .error e => .error e

/-! ### Declaration -/

/-- Gives an element a name that is not taken. -/
def declare (name : String) (e : Element) : Except Error NamedGraph :=
  if n.names.contains name then .error (.duplicateName name)
  else .ok { n with names := n.names.insert name e }

/-- Adds a vertex and declares its name. -/
def addVertex (d : VertexDeclaration) : Except Stop NamedGraph := do
  let (id, graph) ← n.graph.addVertex d.attributes
  NamedGraph.declare { n with graph } d.name (.vertex id)

/-- Adds an edge between named vertices and declares its name, if it has one. -/
def addEdge (d : EdgeDeclaration) : Except Stop NamedGraph := do
  let source ← n.vertex d.source
  let target ← n.vertex d.target
  let (id, graph) ← n.graph.addEdge source target d.attributes
  match d.name with
  | some name => NamedGraph.declare { n with graph } name (.edge id)
  | none => return { n with graph }

/-- Adds vertices one after another. -/
def addVertices (n : NamedGraph) : List VertexDeclaration → Except Stop NamedGraph
  | [] => .ok n
  | d :: rest => do addVertices (← n.addVertex d) rest

/-- Adds edges one after another. -/
def addEdges (n : NamedGraph) : List EdgeDeclaration → Except Stop NamedGraph
  | [] => .ok n
  | d :: rest => do addEdges (← n.addEdge d) rest

end NamedGraph

namespace GraphDeclaration

/-- The declaration of the empty graph. -/
def empty : GraphDeclaration := ⟨[], []⟩

/-- The declared graph. -/
def build (d : GraphDeclaration) : Except Stop NamedGraph := do
  (← NamedGraph.empty.addVertices d.vertices).addEdges d.edges

end GraphDeclaration

end GraphTransformation
