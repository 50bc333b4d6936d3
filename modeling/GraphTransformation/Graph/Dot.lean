import GraphTransformation.Graph.Basic

/-!
Graphs in the DOT language.

Each vertex is a node statement whose label is its handle and its attributes,
each edge an edge statement whose label is its attributes. Inside a label a
double quote is written with a backslash before it and a line end as `\n`.
-/

namespace GraphTransformation.Dot

/-- A character inside a quoted label. -/
def escape : Char → List Char
  | '"' => ['\\', '"']
  | '\n' => ['\\', 'n']
  | c => [c]

/-- The attributes as a label, to stand between double quotes. -/
def label (attributes : Attributes) : String :=
  String.ofList (attributes.describe.toList.flatMap escape)

/-- The node statement of a vertex. -/
def nodeStatement (v : Vertex) : String :=
  "    " ++ v.id.digits ++ " [label=\"" ++ v.id.text ++ "\\n" ++ label v.attributes ++ "\"];\n"

/-- The edge statement of an edge. -/
def edgeStatement (e : Edge) : String :=
  "    " ++ e.source.digits ++ " -> " ++ e.target.digits ++
    " [label=\"" ++ label e.attributes ++ "\"];\n"

/-- The whole graph: nodes in handle order, then edges in handle order. -/
def render (g : Graph) : String :=
  "digraph G \x7b\n" ++ String.join (g.vertices.map nodeStatement) ++
    String.join (g.edges.map edgeStatement) ++ "\x7d"

end GraphTransformation.Dot
