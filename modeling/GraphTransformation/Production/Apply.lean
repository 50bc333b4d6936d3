import GraphTransformation.Production.Basic

/-!
Applying a production to a host graph at a match.

The images of unpaired pattern elements are deleted, then the attributes of
preserved elements are set, then the unpaired replacement elements are created.
Under the reject policy a deleted vertex must not have an edge that
is not deleted by the match itself. All rules read the host as it was before. The
host is not touched, also when creation stops at the last word of a counter.
-/

namespace GraphTransformation.Production

variable (p : Production)

/-! ### Deletion -/

/-- The host edges that the match deletes, in handle order. -/
def deletedEdges (m : Embedding) : List EdgeId :=
  SortedMap.distinct
    ((p.lhs.graph.edgeIds.filter fun e => (p.correspondence.edges.right? e).isNone).filterMap
      m.edge?)

/-- The host vertices that the match deletes, in the order of their pattern vertices. -/
def deletedVertices (m : Embedding) : List VertexId :=
  (p.lhs.graph.vertexIds.filter fun v => (p.correspondence.vertices.right? v).isNone).filterMap
    m.vertex?

/-- The edges of `v` that the match leaves without an endpoint when it deletes `v`. -/
def danglingEdges (host : Graph) (m : Embedding) (v : VertexId) : List EdgeId :=
  (host.incidentEdges v).filter (!(p.deletedEdges m).contains ·)

/-- Fails at the first deleted vertex with dangling edges, if the policy is to reject. -/
def checkDangling (host : Graph) (m : Embedding) : Except Error Unit :=
  if p.dangling = .reject then
    match (p.deletedVertices m).find? fun v => p.danglingEdges host m v ≠ [] with
    | some v => .error (.danglingEdges v (p.danglingEdges host m v))
    | none => .ok ()
  else .ok ()

/-- Removes vertices one after another with the edges that touch them. -/
def removeVertices (g : Graph) : List VertexId → Except Error Graph
  | [] => .ok g
  | v :: rest => do
    let (_, h) ← g.removeVertex v .cascade
    removeVertices h rest

/-! ### Attributes -/

/-- The attributes with the replacement element's own put over them and then its
rules applied in the order of their declaration. -/
def assigned (ctx : RuleContext) (element : Element) (attributes : Attributes) : Attributes :=
  (p.rulesOn element).foldl (fun as (name, rule) => rule.apply ctx name as)
    (attributes.override ((p.rhs.attributes? element).getD .empty))

/-- Sets the attributes of a preserved element. -/
def setAttributes (ctx : RuleContext) (g : Graph) (image element : Element) :
    Except Error Graph :=
  match g.attributes? image with
  | none => .error (.unknownElement image)
  | some current => .ok (g.modifyAttributes (fun _ => p.assigned ctx element current) image)

/-- Sets the attributes of the preserved vertices. -/
def updateVertices (ctx : RuleContext) (g : Graph) :
    List (VertexId × VertexId) → Except Error Graph
  | [] => .ok g
  | (l, r) :: rest =>
    match ctx.embedding.vertex? l with
    | none => .error (.invalidMatch (.unmappedVertex l))
    | some image => do
      updateVertices ctx (← p.setAttributes ctx g (.vertex image) (.vertex r)) rest

/-- Sets the attributes of the preserved edges. -/
def updateEdges (ctx : RuleContext) (g : Graph) : List (EdgeId × EdgeId) → Except Error Graph
  | [] => .ok g
  | (l, r) :: rest =>
    match ctx.embedding.edge? l with
    | none => .error (.invalidMatch (.unmappedEdge l))
    | some image => do
      updateEdges ctx (← p.setAttributes ctx g (.edge image) (.edge r)) rest

/-! ### Creation -/

/-- The host vertices created for replacement vertices. -/
abbrev Created := SortedMap VertexId VertexId

/-- Creates the unpaired ones of the replacement vertices. -/
def createVertices (ctx : RuleContext) (g : Graph) (created : Created) :
    List VertexId → Except Stop (Graph × Created)
  | [] => .ok (g, created)
  | r :: rest =>
    if (p.correspondence.vertices.left? r).isSome then createVertices ctx g created rest
    else do
      let (v, h) ← g.addVertex (p.assigned ctx (.vertex r) .empty)
      createVertices ctx h (created.insert r v) rest

/-- The vertex of the result that a replacement vertex stands for. -/
def resolve (m : Embedding) (created : Created) (r : VertexId) : Except Error VertexId :=
  match (created.get? r).or ((p.correspondence.vertices.left? r).bind m.vertex?) with
  | some v => .ok v
  | none => .error (.invalidReference r)

/-- Creates the unpaired ones of the replacement edges. -/
def createEdges (ctx : RuleContext) (created : Created) (g : Graph) :
    List Edge → Except Stop Graph
  | [] => .ok g
  | e :: rest =>
    if (p.correspondence.edges.left? e.id).isSome then createEdges ctx created g rest
    else do
      let source ← p.resolve ctx.embedding created e.source
      let target ← p.resolve ctx.embedding created e.target
      let (_, h) ← g.addEdge source target (p.assigned ctx (.edge e.id) .empty)
      createEdges ctx created h rest

/-! ### Application -/

/-- The host with the pattern replaced at an embedding that fits it. -/
def replace (host : Graph) (m : Embedding) : Except Stop Graph := do
  let ctx : RuleContext := ⟨host, m⟩
  p.checkDangling host m
  let pruned ← host.removeEdges (p.deletedEdges m)
  let kept ← removeVertices pruned (p.deletedVertices m)
  let withVertices ← p.updateVertices ctx kept p.correspondence.vertices.pairs
  let preserved ← p.updateEdges ctx withVertices p.correspondence.edges.pairs
  let (grown, created) ← p.createVertices ctx preserved .empty p.rhs.vertexIds
  p.createEdges ctx created grown p.rhs.edges

/-- The host with the production applied at a match, which must be a match of this
production in it. -/
def apply (host : Graph) (m : Match) : Except Stop Graph := do
  p.verify host m
  p.replace host m.embedding

end GraphTransformation.Production
