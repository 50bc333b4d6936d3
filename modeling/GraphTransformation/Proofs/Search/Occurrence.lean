import GraphTransformation.Proofs.Graph.Consistency
import GraphTransformation.Search.Matcher

/-!
Occurrences of a pattern in a host graph, whole and in part.

`Embedding.EmbedsPart` says what an embedding must be that is defined on some of
the pattern's elements only; on all of them it is an occurrence (`Occurs`). A
part grows by one vertex (`EmbedsPart.mapVertex`) or by one edge between placed
vertices (`EmbedsPart.mapEdge`), and an occurrence that extends a part determines
by which pair (`extends_mapVertex`, `extends_mapEdge`).
-/

namespace GraphTransformation

/-- The edge runs from `s` to `t` or, in undirected mode, from `t` to `s`. -/
def Edge.Joins (mode : EdgeMode) (x : Edge) (s t : VertexId) : Prop :=
  (x.source = s ∧ x.target = t) ∨ (mode = .undirected ∧ x.source = t ∧ x.target = s)

namespace Graph

variable {g : Graph} {s t : VertexId} {mode : EdgeMode}

theorem Consistent.mem_outgoingTo (cons : g.Consistent) {k : EdgeId} :
    k ∈ g.outgoingTo s t ↔ ∃ x, g.edge? k = some x ∧ x.source = s ∧ x.target = t := by
  rw [outgoingTo, List.mem_filter, cons.mem_outgoing]
  constructor
  · rintro ⟨⟨x, stored, source⟩, target⟩
    rw [stored] at target
    exact ⟨x, stored, source, by simpa using target⟩
  · rintro ⟨x, stored, source, target⟩
    exact ⟨⟨x, stored, source⟩, by simp [stored, target]⟩

theorem Consistent.mem_edgesBetween (cons : g.Consistent) {k : EdgeId} :
    k ∈ g.edgesBetween s t mode ↔ ∃ x, g.edge? k = some x ∧ x.Joins mode s t := by
  cases mode with
  | directed =>
    rw [edgesBetween, cons.mem_outgoingTo]
    simp [Edge.Joins]
  | undirected =>
    rw [edgesBetween, SortedMap.mem_distinct, List.mem_append, cons.mem_outgoingTo,
      cons.mem_outgoingTo, ← exists_or]
    simp [Edge.Joins, and_or_left]

theorem edgesBetween_increasing (g : Graph) (s t : VertexId) (mode : EdgeMode) :
    SortedMap.Increasing (g.edgesBetween s t mode) := by
  cases mode with
  | directed => exact (g.outgoing_increasing s).filter _
  | undirected => exact SortedMap.distinct_increasing _

end Graph

namespace Embedding

variable {pattern : Pattern} {host : Graph} {placed : List VertexId} {assigned : List EdgeId}
  {m n : Embedding}

/-! ### Parts of occurrences -/

/-- The embedding is defined on the placed vertices and the assigned edges, is injective
on either, and sends each element to a host member that may be its image, edges so that
they join the images of their ends. -/
structure EmbedsPart (pattern : Pattern) (host : Graph) (placed : List VertexId)
    (assigned : List EdgeId) (m : Embedding) : Prop where
  vertices : ∀ v, m.vertexMap.contains v = true ↔ v ∈ placed
  edges : ∀ e, m.edgeMap.contains e = true ↔ e ∈ assigned
  vertex_injective : ∀ {p q h}, m.vertex? p = some h → m.vertex? q = some h → p = q
  edge_injective : ∀ {p q h}, m.edge? p = some h → m.edge? q = some h → p = q
  vertex_admitted : ∀ {p h}, m.vertex? p = some h →
    ∃ x, host.vertex? h = some x ∧ pattern.admits (.vertex p) x.attributes = true
  edge_admitted : ∀ {p h}, m.edge? p = some h →
    ∃ x, host.edge? h = some x ∧ pattern.admits (.edge p) x.attributes = true
  edge_joins : ∀ {p h}, m.edge? p = some h → ∃ e x s t,
    pattern.graph.edge? p = some e ∧ host.edge? h = some x ∧
      m.vertex? e.source = some s ∧ m.vertex? e.target = some t ∧ x.Joins pattern.edgeMode s t

/-- The embedding is an occurrence of the whole pattern in the host. -/
def Occurs (pattern : Pattern) (host : Graph) (m : Embedding) : Prop :=
  m.EmbedsPart pattern host pattern.graph.vertexIds pattern.graph.edgeIds

theorem empty_embedsPart : empty.EmbedsPart pattern host [] [] where
  vertices := by simp [empty]
  edges := by simp [empty]
  vertex_injective found := by cases found
  edge_injective found := by cases found
  vertex_admitted found := by cases found
  edge_admitted found := by cases found
  edge_joins found := by cases found

theorem EmbedsPart.vertex?_isSome (part : m.EmbedsPart pattern host placed assigned)
    {v : VertexId} (mem : v ∈ placed) : ∃ h, m.vertex? v = some h :=
  SortedMap.contains_iff.mp ((part.vertices v).mpr mem)

theorem EmbedsPart.edge?_isSome (part : m.EmbedsPart pattern host placed assigned)
    {e : EdgeId} (mem : e ∈ assigned) : ∃ h, m.edge? e = some h :=
  SortedMap.contains_iff.mp ((part.edges e).mpr mem)

theorem EmbedsPart.vertex?_eq_none (part : m.EmbedsPart pattern host placed assigned)
    {v : VertexId} (new : v ∉ placed) : m.vertex? v = none :=
  SortedMap.get?_eq_none_of_not_contains fun mem => new ((part.vertices v).mp mem)

theorem EmbedsPart.edge?_eq_none (part : m.EmbedsPart pattern host placed assigned)
    {e : EdgeId} (new : e ∉ assigned) : m.edge? e = none :=
  SortedMap.get?_eq_none_of_not_contains fun mem => new ((part.edges e).mp mem)

/-- A pattern edge that has an image joins the images of its ends there. -/
theorem EmbedsPart.image_joins (part : m.EmbedsPart pattern host placed assigned) {e k : EdgeId}
    {a : Edge} (inPattern : pattern.graph.edge? e = some a) (image : m.edge? e = some k) :
    ∃ x s t, host.edge? k = some x ∧ m.vertex? a.source = some s ∧ m.vertex? a.target = some t ∧
      x.Joins pattern.edgeMode s t := by
  obtain ⟨b, x, s, t, found, joined⟩ := part.edge_joins image
  cases found.symm.trans inPattern
  exact ⟨x, s, t, joined⟩

/-- An occurrence has an image for each pattern edge. -/
theorem Occurs.edge?_isSome_of (occurs : n.Occurs pattern host) {e : EdgeId} {a : Edge}
    (inPattern : pattern.graph.edge? e = some a) : ∃ k, n.edge? e = some k :=
  occurs.edge?_isSome (SortedMap.mem_keys.mpr (SortedMap.contains_of_get? inPattern))

/-- Only the members of the two lists count. -/
theorem EmbedsPart.congr (part : m.EmbedsPart pattern host placed assigned)
    {placed' : List VertexId} {assigned' : List EdgeId}
    (vertices : ∀ v, v ∈ placed ↔ v ∈ placed') (edges : ∀ e, e ∈ assigned ↔ e ∈ assigned') :
    m.EmbedsPart pattern host placed' assigned' :=
  { part with
    vertices := fun v => (part.vertices v).trans (vertices v)
    edges := fun e => (part.edges e).trans (edges e) }

/-! ### One more pair -/

theorem vertex?_mapVertex {p q h : VertexId} :
    (Search.mapVertex m p h).vertex? q = if q = p then some h else m.vertex? q :=
  SortedMap.get?_insert

theorem edge?_mapEdge {p q h : EdgeId} :
    (Search.mapEdge m p h).edge? q = if q = p then some h else m.edge? q :=
  SortedMap.get?_insert

theorem mem_hostVertices {h : VertexId} : h ∈ m.hostVertices ↔ ∃ p, m.vertex? p = some h :=
  SortedMap.mem_values

theorem mem_hostEdges {h : EdgeId} : h ∈ m.hostEdges ↔ ∃ p, m.edge? p = some h :=
  SortedMap.mem_values

/-- A new pair adds its image to the images there are. -/
theorem image_fresh_iff {α β : Type} [DecidableEq α] {f : α → Option β} {p : α} {h k : β}
    (new : f p = none) :
    (∃ q, (if q = p then some h else f q) = some k) ↔ k = h ∨ ∃ q, f q = some k := by
  constructor
  · rintro ⟨q, found⟩
    split at found
    · exact .inl (Option.some.inj found).symm
    · exact .inr ⟨q, found⟩
  · rintro (rfl | ⟨q, found⟩)
    · exact ⟨p, if_pos rfl⟩
    · have other : q ≠ p := by
        rintro rfl
        simp [new] at found
      exact ⟨q, by rw [if_neg other, found]⟩

theorem mem_hostVertices_mapVertex {p h k : VertexId} (new : m.vertex? p = none) :
    k ∈ (Search.mapVertex m p h).hostVertices ↔ k = h ∨ k ∈ m.hostVertices := by
  simp only [mem_hostVertices, vertex?_mapVertex, image_fresh_iff new]

theorem mem_hostEdges_mapEdge {p h k : EdgeId} (new : m.edge? p = none) :
    k ∈ (Search.mapEdge m p h).hostEdges ↔ k = h ∨ k ∈ m.hostEdges := by
  simp only [mem_hostEdges, edge?_mapEdge, image_fresh_iff new]

/-! ### Extension -/

/-- Every pair of `m` is a pair of `n`. -/
structure Extends (n m : Embedding) : Prop where
  vertices : ∀ {p h}, m.vertex? p = some h → n.vertex? p = some h
  edges : ∀ {p h}, m.edge? p = some h → n.edge? p = some h

theorem extends_empty (n : Embedding) : n.Extends empty where
  vertices found := by cases found
  edges found := by cases found

/-- To have the pairs of `f` and a new one is to have the pairs of `f` and to have that one. -/
theorem covers_fresh {α β : Type} [DecidableEq α] {f g : α → Option β} {p : α} {h : β}
    (new : f p = none) :
    (∀ {q k}, (if q = p then some h else f q) = some k → g q = some k) ↔
      (∀ {q k}, f q = some k → g q = some k) ∧ g p = some h := by
  constructor
  · intro more
    refine ⟨fun {q k} found => more ?_, more (if_pos rfl)⟩
    have other : q ≠ p := by
      rintro rfl
      simp [new] at found
    rw [if_neg other, found]
  · rintro ⟨more, image⟩ q k found
    split at found
    · rename_i here
      rw [here, image, found]
    · exact more found

theorem extends_mapVertex {v h : VertexId} (new : m.vertex? v = none) :
    n.Extends (Search.mapVertex m v h) ↔ n.Extends m ∧ n.vertex? v = some h := by
  have vertices := @covers_fresh _ _ _ m.vertex? n.vertex? v h new
  simp only [← vertex?_mapVertex] at vertices
  constructor
  · intro more
    obtain ⟨old, image⟩ := vertices.mp more.vertices
    exact ⟨⟨old, more.edges⟩, image⟩
  · rintro ⟨more, image⟩
    exact ⟨vertices.mpr ⟨more.vertices, image⟩, more.edges⟩

theorem extends_mapEdge {e h : EdgeId} (new : m.edge? e = none) :
    n.Extends (Search.mapEdge m e h) ↔ n.Extends m ∧ n.edge? e = some h := by
  have edges := @covers_fresh _ _ _ m.edge? n.edge? e h new
  simp only [← edge?_mapEdge] at edges
  constructor
  · intro more
    obtain ⟨old, image⟩ := edges.mp more.edges
    exact ⟨⟨more.vertices, old⟩, image⟩
  · rintro ⟨more, image⟩
    exact ⟨more.vertices, edges.mpr ⟨more.edges, image⟩⟩

/-! ### Growing a part -/

theorem injective_of_fresh {α β : Type} [DecidableEq α] {f : α → Option β} {p q r : α} {h k : β}
    (injective : ∀ {q r k}, f q = some k → f r = some k → q = r) (free : ∀ q, f q ≠ some h)
    (left : (if q = p then some h else f q) = some k)
    (right : (if r = p then some h else f r) = some k) : q = r := by
  split at left
  · rename_i atQ
    cases left
    split at right
    · rename_i atR
      exact atQ.trans atR.symm
    · exact absurd right (free r)
  · split at right
    · cases right
      exact absurd left (free q)
    · exact injective left right

/-- A part grows by a new vertex whose image is free and may be its image. -/
theorem EmbedsPart.mapVertex (part : m.EmbedsPart pattern host placed assigned)
    {v h : VertexId} {x : Vertex} (new : v ∉ placed) (free : h ∉ m.hostVertices)
    (stored : host.vertex? h = some x) (admitted : pattern.admits (.vertex v) x.attributes = true) :
    (Search.mapVertex m v h).EmbedsPart pattern host (v :: placed) assigned := by
  obtain ⟨kept, -⟩ := (extends_mapVertex (part.vertex?_eq_none new)).mp
    (⟨id, id⟩ : (Search.mapVertex m v h).Extends (Search.mapVertex m v h))
  constructor
  case vertices =>
    intro q
    rw [List.mem_cons, ← part.vertices]
    exact SortedMap.contains_insert
  case edges => exact part.edges
  case vertex_injective =>
    intro p q k left right
    rw [vertex?_mapVertex] at left right
    exact injective_of_fresh part.vertex_injective
      (fun q found => free (mem_hostVertices.mpr ⟨q, found⟩)) left right
  case edge_injective => exact part.edge_injective
  case vertex_admitted =>
    intro p k found
    rw [vertex?_mapVertex] at found
    split at found
    · rename_i here
      cases found
      exact ⟨x, stored, here ▸ admitted⟩
    · exact part.vertex_admitted found
  case edge_admitted => exact part.edge_admitted
  case edge_joins =>
    intro p k found
    obtain ⟨e, x, s, t, inPattern, inHost, source, target, joins⟩ := part.edge_joins found
    exact ⟨e, x, s, t, inPattern, inHost, kept.vertices source, kept.vertices target, joins⟩

/-- The host edges to try for a pattern edge are the free ones that may be its image
and join the images of its ends. -/
theorem mem_edgeCandidates (cons : host.Consistent) {e : EdgeId} {h : EdgeId} :
    h ∈ Search.edgeCandidates pattern host e m ↔
      h ∉ m.hostEdges ∧
        (∃ x, host.edge? h = some x ∧ pattern.admits (.edge e) x.attributes = true) ∧
        ∃ a x s t, pattern.graph.edge? e = some a ∧ host.edge? h = some x ∧
          m.vertex? a.source = some s ∧ m.vertex? a.target = some t ∧
          x.Joins pattern.edgeMode s t := by
  rw [Search.edgeCandidates]
  cases inPattern : pattern.graph.edge? e with
  | none => simp
  | some a =>
    constructor
    · intro mem
      simp only at mem
      split at mem
      · rename_i s t source target
        obtain ⟨between, allowed⟩ := List.mem_filter.mp mem
        obtain ⟨x, stored, joins⟩ := cons.mem_edgesBetween.mp between
        simp only [Search.admitsEdge, stored, Option.any_some, Bool.and_eq_true,
          Bool.not_eq_true', List.contains_eq_mem, decide_eq_false_iff_not] at allowed
        exact ⟨allowed.1, ⟨x, stored, allowed.2⟩, a, x, s, t, rfl, stored, source, target, joins⟩
      · cases mem
    · rintro ⟨free, ⟨y, found, admitted⟩, b, x, s, t, eq, stored, source, target, joins⟩
      cases eq
      cases found.symm.trans stored
      simp only [source, target]
      refine List.mem_filter.mpr ⟨cons.mem_edgesBetween.mpr ⟨_, stored, joins⟩, ?_⟩
      simp [Search.admitsEdge, free, stored, admitted]

/-- A part grows by a new edge whose image is among those to try. -/
theorem EmbedsPart.mapEdge (part : m.EmbedsPart pattern host placed assigned)
    (cons : host.Consistent) {e h : EdgeId}
    (candidate : h ∈ Search.edgeCandidates pattern host e m) :
    (Search.mapEdge m e h).EmbedsPart pattern host placed (e :: assigned) := by
  obtain ⟨free, admitted, joins⟩ := (mem_edgeCandidates cons).mp candidate
  constructor
  case vertices => exact part.vertices
  case edges =>
    intro q
    rw [List.mem_cons, ← part.edges]
    exact SortedMap.contains_insert
  case vertex_injective => exact part.vertex_injective
  case edge_injective =>
    intro p q k left right
    rw [edge?_mapEdge] at left right
    exact injective_of_fresh part.edge_injective
      (fun q found => free (mem_hostEdges.mpr ⟨q, found⟩)) left right
  case vertex_admitted => exact part.vertex_admitted
  case edge_admitted =>
    intro p k found
    rw [edge?_mapEdge] at found
    split at found
    · rename_i here
      cases found
      exact here ▸ admitted
    · exact part.edge_admitted found
  case edge_joins =>
    intro p k found
    rw [edge?_mapEdge] at found
    split at found
    · rename_i here
      cases found
      exact here ▸ joins
    · exact part.edge_joins found

/-! ### Whole occurrences -/

/-- An occurrence extends no other occurrence. -/
theorem Occurs.eq_of_extends (occurs : n.Occurs pattern host) (whole : m.Occurs pattern host)
    (more : n.Extends m) : n = m := by
  have vertices : n.vertexMap = m.vertexMap := by
    refine SortedMap.ext_get? fun p => ?_
    by_cases mem : p ∈ pattern.graph.vertexIds
    · obtain ⟨h, found⟩ := whole.vertex?_isSome mem
      exact (more.vertices found).trans found.symm
    · exact (occurs.vertex?_eq_none mem).trans (whole.vertex?_eq_none mem).symm
  have edges : n.edgeMap = m.edgeMap := by
    refine SortedMap.ext_get? fun p => ?_
    by_cases mem : p ∈ pattern.graph.edgeIds
    · obtain ⟨h, found⟩ := whole.edge?_isSome mem
      exact (more.edges found).trans found.symm
    · exact (occurs.edge?_eq_none mem).trans (whole.edge?_eq_none mem).symm
  cases n
  cases m
  cases vertices
  cases edges
  rfl

/-- The image of an edge under an occurrence is among those to try for it in any part
of the occurrence that places its ends. -/
theorem Occurs.mem_edgeCandidates (occurs : n.Occurs pattern host) (cons : host.Consistent)
    (part : m.EmbedsPart pattern host placed assigned) (more : n.Extends m) {e : EdgeId} {a : Edge}
    (new : e ∉ assigned) (inPattern : pattern.graph.edge? e = some a)
    (source : a.source ∈ placed) (target : a.target ∈ placed) :
    ∃ h ∈ Search.edgeCandidates pattern host e m, n.edge? e = some h := by
  obtain ⟨h, image⟩ := occurs.edge?_isSome_of inPattern
  obtain ⟨x, s, t, stored, atSource, atTarget, joins⟩ := occurs.image_joins inPattern image
  obtain ⟨s', placedSource⟩ := part.vertex?_isSome source
  obtain ⟨t', placedTarget⟩ := part.vertex?_isSome target
  cases (more.vertices placedSource).symm.trans atSource
  cases (more.vertices placedTarget).symm.trans atTarget
  refine ⟨h, (Embedding.mem_edgeCandidates cons).mpr ⟨?_, occurs.edge_admitted image,
    a, x, s, t, inPattern, stored, placedSource, placedTarget, joins⟩, image⟩
  intro taken
  obtain ⟨q, earlier⟩ := mem_hostEdges.mp taken
  have same : q = e := occurs.edge_injective (more.edges earlier) image
  rw [same, part.edge?_eq_none new] at earlier
  cases earlier

end Embedding

end GraphTransformation
