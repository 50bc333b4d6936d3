import GraphTransformation.Declaration.Grammar
import GraphTransformation.Graph.Document

/-!
Declarations in JSON documents.

Every field but the names and the list of productions may be missing. An edge
without a name and a grammar without a seed are written without the field. What is read
has conditions only; a declaration with a test among its predicates cannot be written.
-/

namespace GraphTransformation

/-! ### Graphs -/

def VertexDeclaration.codec : Codec VertexDeclaration :=
  .record ⟨"", .empty⟩
    [.needed "name" .string (·.name) fun d name => { d with name },
     .optional "attributes" Attributes.codec (·.attributes) fun d attributes =>
       { d with attributes }]

def EdgeDeclaration.codec : Codec EdgeDeclaration :=
  .record ⟨none, "", "", .empty⟩
    [.omittable "name" .string (·.name) fun d name => { d with name },
     .needed "from" .string (·.source) fun d source => { d with source },
     .needed "to" .string (·.target) fun d target => { d with target },
     .optional "attributes" Attributes.codec (·.attributes) fun d attributes =>
       { d with attributes }]

def GraphDeclaration.codec : Codec GraphDeclaration :=
  .record .empty
    [.optional "vertices" VertexDeclaration.codec.list (·.vertices) fun d vertices =>
       { d with vertices },
     .optional "edges" EdgeDeclaration.codec.list (·.edges) fun d edges => { d with edges }]

/-! ### Productions -/

def EdgeMode.codec : Codec EdgeMode :=
  .choice [⟨"directed", .nothing .directed⟩, ⟨"undirected", .nothing .undirected⟩] fun
    | .directed => "directed"
    | .undirected => "undirected"

def DanglingPolicy.codec : Codec DanglingPolicy :=
  .choice [⟨"cascade", .nothing .cascade⟩, ⟨"reject", .nothing .reject⟩] fun
    | .cascade => "cascade"
    | .reject => "reject"

def ConstraintDeclaration.codec : Codec (ConstraintDeclaration Condition) :=
  .record ⟨"", "", .present⟩
    [.needed "element" .string (·.element) fun d element => { d with element },
     .needed "attribute" .string (·.key) fun d key => { d with key },
     .needed "predicate" Condition.codec (·.predicate) fun d predicate =>
       { d with predicate }]

/-- What a copying rule reads. -/
def RuleDeclaration.copyCodec : Codec (String × String) :=
  .variantRecord ("", "")
    [.needed "from" .string (·.1) fun c source => (source, c.2),
     .needed "attribute" .string (·.2) fun c key => (c.1, key)]

def RuleDeclaration.codec : Codec RuleDeclaration where
  read := Codec.readVariant
    [⟨"set", .holding Value.codec .set⟩,
     ⟨"remove", .nothing .remove⟩,
     ⟨"copy", .holding copyCodec fun c => .copy c.1 c.2⟩]
  write
    | .set v => .object [("set", Value.codec.write v)]
    | .remove => .string "remove"
    | .copy source key => .object [("copy", copyCodec.write (source, key))]

def AssignmentDeclaration.codec : Codec AssignmentDeclaration :=
  .record ⟨"", "", .remove⟩
    [.needed "element" .string (·.element) fun d element => { d with element },
     .needed "attribute" .string (·.key) fun d key => { d with key },
     .needed "rule" RuleDeclaration.codec (·.rule) fun d rule => { d with rule }]

def ProductionDeclaration.codec : Codec (ProductionDeclaration Condition) :=
  .record ⟨"", .empty, .empty, [], [], [], .directed, .cascade⟩
    [.needed "name" .string (·.name) fun d name => { d with name },
     .optional "lhs" GraphDeclaration.codec (·.lhs) fun d lhs => { d with lhs },
     .optional "rhs" GraphDeclaration.codec (·.rhs) fun d rhs => { d with rhs },
     .optional "preserve" (.list (.pair .string .string)) (·.preserve) fun d preserve =>
       { d with preserve },
     .optional "constraints" ConstraintDeclaration.codec.list (·.constraints)
       fun d constraints => { d with constraints },
     .optional "assignments" AssignmentDeclaration.codec.list (·.assignments)
       fun d assignments => { d with assignments },
     .optional "edge_mode" EdgeMode.codec (·.edgeMode) fun d edgeMode => { d with edgeMode },
     .optional "dangling" DanglingPolicy.codec (·.dangling) fun d dangling =>
       { d with dangling }]

/-- The constraint as it can be written. -/
def ConstraintDeclaration.stored (c : ConstraintDeclaration Predicate) :
    Except WritingFault (ConstraintDeclaration Condition) := do
  return ⟨c.element, c.key, ← c.predicate.stored⟩

/-- The production as it can be written. -/
def ProductionDeclaration.stored (d : ProductionDeclaration Predicate) :
    Except WritingFault (ProductionDeclaration Condition) := do
  return { d with constraints := ← d.constraints.mapM (·.stored) }

/-! ### Grammars -/

def GrammarDeclaration.codec : Codec (GrammarDeclaration Condition) :=
  .record ⟨[], none⟩
    [.needed "productions" ProductionDeclaration.codec.list (·.productions)
       fun d productions => { d with productions },
     .omittable "seed" .word (·.seed) fun d seed => { d with seed }]

/-- The grammar as it can be written. -/
def GrammarDeclaration.stored (d : GrammarDeclaration Predicate) :
    Except WritingFault (GrammarDeclaration Condition) := do
  return { d with productions := ← d.productions.mapM (·.stored) }

end GraphTransformation
