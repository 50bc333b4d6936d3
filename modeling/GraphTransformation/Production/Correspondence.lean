import GraphTransformation.Graph.Basic

/-!
Correspondences between the two sides of a production.

A correspondence pairs pattern elements with replacement elements, each with at
most one partner on either side, and looks them up in both directions. Paired
elements are preserved.
-/

namespace GraphTransformation

/-- A one-to-one pairing of keys, held in both directions. -/
structure Pairing (κ : Type) [Ord κ] where
  forward : SortedMap κ κ
  backward : SortedMap κ κ
  deriving DecidableEq

namespace Pairing

variable {κ : Type} [Ord κ]

/-- The pairing of nothing. -/
def empty : Pairing κ := ⟨.empty, .empty⟩

/-- Pairs `l` with `r`, unless one of them has a partner. -/
def insert? [Std.TransOrd κ] (p : Pairing κ) (l r : κ) : Option (Pairing κ) :=
  if p.forward.contains l || p.backward.contains r then none
  else some ⟨p.forward.insert l r, p.backward.insert r l⟩

/-- The right partner of `l`. -/
def right? (p : Pairing κ) (l : κ) : Option κ := p.forward.get? l

/-- The left partner of `r`. -/
def left? (p : Pairing κ) (r : κ) : Option κ := p.backward.get? r

/-- The pairs in the order of their left sides. -/
def pairs (p : Pairing κ) : List (κ × κ) := p.forward.toList

end Pairing

/-- Which pattern elements persist as which replacement elements. -/
structure Correspondence where
  vertices : Pairing VertexId
  edges : Pairing EdgeId
  deriving DecidableEq

namespace Correspondence

/-- The correspondence that preserves nothing. -/
def empty : Correspondence := ⟨.empty, .empty⟩

instance : Inhabited Correspondence := ⟨empty⟩

/-! ### Construction -/

/-- Pairs a pattern vertex with a replacement vertex. -/
def insertVertex (c : Correspondence) (l r : VertexId) : Except Error Correspondence :=
  match c.vertices.insert? l r with
  | some vertices => .ok { c with vertices }
  | none => .error (.illFormedProduction (.vertexPairClash l r))

/-- Pairs a pattern edge with a replacement edge. -/
def insertEdge (c : Correspondence) (l r : EdgeId) : Except Error Correspondence :=
  match c.edges.insert? l r with
  | some edges => .ok { c with edges }
  | none => .error (.illFormedProduction (.edgePairClash l r))

/-- Inserts vertex pairs one after another. -/
def insertVertices (c : Correspondence) : List (VertexId × VertexId) → Except Error Correspondence
  | [] => .ok c
  | (l, r) :: rest => do insertVertices (← c.insertVertex l r) rest

/-- Inserts edge pairs one after another. -/
def insertEdges (c : Correspondence) : List (EdgeId × EdgeId) → Except Error Correspondence
  | [] => .ok c
  | (l, r) :: rest => do insertEdges (← c.insertEdge l r) rest

/-- The correspondence of the given pairs. -/
def ofPairs (vertices : List (VertexId × VertexId)) (edges : List (EdgeId × EdgeId)) :
    Except Error Correspondence := do
  (← empty.insertVertices vertices).insertEdges edges

/-! ### Validation -/

/-- The fault of a pair of vertices, if it has one. -/
def vertexFault? (lhs rhs : Graph) (l r : VertexId) : Option ProductionFault :=
  if (lhs.vertex? l).isNone then some (.notPatternVertex l)
  else if (rhs.vertex? r).isNone then some (.notReplacementVertex r)
  else none

/-- The fault of a pair of edges, if it has one. A preserved edge keeps its
endpoints, in order. -/
def edgeFault? (c : Correspondence) (lhs rhs : Graph) (l r : EdgeId) : Option ProductionFault :=
  match lhs.edge? l, rhs.edge? r with
  | none, _ => some (.notPatternEdge l)
  | some _, none => some (.notReplacementEdge r)
  | some a, some b =>
    if c.vertices.right? a.source = some b.source ∧ c.vertices.right? a.target = some b.target then
      none
    else some (.movedEndpoints l r)

/-- The first fault of the correspondence between the two graphs. -/
def fault? (c : Correspondence) (lhs rhs : Graph) : Option ProductionFault :=
  (c.vertices.pairs.findSome? fun (l, r) => vertexFault? lhs rhs l r).or
    (c.edges.pairs.findSome? fun (l, r) => c.edgeFault? lhs rhs l r)

/-- Checks the correspondence against the two sides of a production. -/
def validate (c : Correspondence) (lhs rhs : Graph) : Except Error Unit :=
  match c.fault? lhs rhs with
  | none => .ok ()
  | some fault => .error (.illFormedProduction fault)

end Correspondence

end GraphTransformation
