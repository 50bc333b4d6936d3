import GraphTransformation.Derivation.Basic
import GraphTransformation.Graph.Document
import GraphTransformation.Text.Table

/-!
Summaries of a derivation: a table of its steps, its state in words, and a
document with all its graphs.
-/

namespace GraphTransformation

/-- What the table says about one step. -/
structure StepRow where
  step : Nat
  production : String
  candidates : Nat
  embedding : String
  vertices : Nat
  edges : Nat
  deriving DecidableEq, Repr

namespace Derivation

/-- One row for each step. -/
def rows (d : Derivation) : List StepRow :=
  (d.steps.zip d.graphs).mapIdx fun i (record, g) =>
    { step := i + 1
      production := record.production
      candidates := record.candidates
      embedding := record.matched.embedding.text
      vertices := g.vertexCount
      edges := g.edgeCount }

/-- The cells of a row. -/
def cells (r : StepRow) : Table.Row :=
  [r.step.repr, r.production, r.candidates.repr, r.embedding, r.vertices.repr, r.edges.repr]

/-- The table of the steps; empty if no step was taken. -/
def table (d : Derivation) : String :=
  match d.rows with
  | [] => ""
  | rows =>
    Table.render ["Step", "Production", "Matches", "Match", "Vertices", "Edges"] (rows.map cells)

end Derivation

/-! ### States -/

/-- The code that switches to the colour of a state. -/
def DerivationState.colour : DerivationState → String
  | .running => "33"
  | .haltedNoMatch => "1;32"
  | .haltedStepLimit => "1;36"

/-- The state as it is shown, in its colour or without colours. -/
def DerivationState.shown (colours : Bool) (s : DerivationState) : String :=
  if colours then "\x1b[" ++ s.colour ++ "m" ++ s.text ++ "\x1b[0m" else s.text

/-- The name of the state in documents. -/
def DerivationState.name : DerivationState → String
  | .running => "Running"
  | .haltedNoMatch => "HaltedNoMatch"
  | .haltedStepLimit => "HaltedStepLimit"

/-! ### Documents -/

/-- The document of a derivation: its state, the graph it starts from, and its steps. -/
def Derivation.document (d : Derivation) (seed : Graph) : Json :=
  .object
    [("state", .string d.state.name),
     ("seed", Graph.codec.write seed),
     ("steps", .array ((d.steps.zip d.graphs).map fun (record, g) =>
       .object
         [("production", .string record.production),
          ("candidates", .int record.candidates),
          ("graph", Graph.codec.write g)]))]

end GraphTransformation
