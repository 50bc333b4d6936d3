import GraphTransformation.Proofs.Descent
import GraphTransformation.Proofs.Exhaustion
import GraphTransformation.Proofs.Graph.Removal

/-!
Sub-structures of a graph.

A sub-structure is extracted exactly if its elements are members and its edges end at its vertices
(`Closed`). It is then what the lists say and nothing else (`Part`): whatever the order of the
lists and however often they name an element, they give the same graph (`Part.unique`). The copies
are put in by raw insertions, so what the indexes list is drawn from the invariant of the result
(`Indexed.restrict`). As the counters are kept, the handles that are given out afterwards are none
that the graph has given out before (`Part.handedOut_fresh`).
-/

namespace GraphTransformation

/-- Of two indexes the one for a part of the vertices and of the edges lists, for the vertices of
the part, what the other lists of its edges. -/
theorem Indexed.restrict {vertices part : SortedMap VertexId Vertex}
    {edges partEdges : SortedMap EdgeId Edge} {terminal : Edge → VertexId}
    {index partIndex : SortedMap VertexId (SortedSet EdgeId)} {vs : List VertexId}
    {es : List EdgeId} (whole : Indexed vertices edges terminal index)
    (kept : Indexed part partEdges terminal partIndex)
    (vertex : ∀ v, part.get? v = if v ∈ vs then vertices.get? v else none)
    (edge : ∀ k, partEdges.get? k = if k ∈ es then edges.get? k else none) (v : VertexId) :
    (partIndex.get? v).map (·.keys) =
      if v ∈ vs then (index.get? v).map fun entry => entry.keys.filter (· ∈ es) else none := by
  have keys : partIndex.contains v = true ↔ v ∈ vs ∧ index.contains v = true := by
    rw [kept.keys, whole.keys, SortedMap.contains, SortedMap.contains, vertex]
    by_cases listed : v ∈ vs <;> simp [listed]
  cases found : partIndex.get? v with
  | none =>
    have absent : ¬ (v ∈ vs ∧ index.contains v = true) := by
      rw [← keys, SortedMap.contains, found]
      simp
    by_cases listed : v ∈ vs
    · have unindexed := SortedMap.get?_eq_none_of_not_contains (mt (And.intro listed) absent)
      simp [listed, unindexed]
    · simp [listed]
  | some entry =>
    obtain ⟨listed, indexed⟩ := keys.mp (SortedMap.contains_of_get? found)
    obtain ⟨all, stored⟩ := SortedMap.contains_iff.mp indexed
    have same : entry.keys = all.keys.filter (· ∈ es) := by
      refine SortedMap.eq_of_increasing entry.keys_increasing (all.keys_increasing.filter _) ?_
      intro k
      rw [List.mem_filter, SortedMap.mem_keys, SortedMap.mem_keys, kept.entries found,
        whole.entries stored, edge]
      by_cases chosen : k ∈ es <;> simp [chosen]
    rw [if_pos listed, stored, Option.map_some, Option.map_some, same]

namespace Graph

variable {g part h k past : Graph} {vertices vertices' : List VertexId}
  {edges edges' : List EdgeId} {v : VertexId} {cause : Error}

/-! ### What can be extracted -/

/-- The listed elements are members, and the listed edges end at listed vertices. -/
structure Closed (g : Graph) (vertices : List VertexId) (edges : List EdgeId) : Prop where
  vertex : ∀ v ∈ vertices, ∃ x, g.vertex? v = some x
  edge : ∀ id ∈ edges, ∃ e, g.edge? id = some e ∧ e.source ∈ vertices ∧ e.target ∈ vertices

theorem takeVertices_isOk : (∃ h, g.takeVertices part vertices = .ok h) ↔
    ∀ v ∈ vertices, ∃ x, g.vertex? v = some x := by
  induction vertices generalizing part with
  | nil => simp [takeVertices]
  | cons v rest ih =>
    rw [takeVertices, List.forall_mem_cons]
    cases g.vertex? v with
    | none => simp
    | some x => simp [ih]

theorem takeEdges_isOk : (∃ h, g.takeEdges part edges = .ok h) ↔
    ∀ id ∈ edges, ∃ e, g.edge? id = some e ∧
      part.vertexMap.contains e.source = true ∧ part.vertexMap.contains e.target = true := by
  induction edges generalizing part with
  | nil => simp [takeEdges]
  | cons id rest ih =>
    rw [takeEdges, List.forall_mem_cons]
    cases stored : g.edge? id with
    | none => simp
    | some e =>
      -- putting in an edge leaves the vertices, so the other edges are checked against the same
      have later : (∃ h, g.takeEdges (part.insertEdge e) rest = .ok h) ↔
          ∀ id ∈ rest, ∃ f, g.edge? id = some f ∧
            part.vertexMap.contains f.source = true ∧ part.vertexMap.contains f.target = true := ih
      constructor
      · rintro ⟨h, taken⟩
        obtain ⟨_, checked, others⟩ := bind_eq_ok.mp taken
        exact ⟨⟨e, rfl, checkEndpoints_pair.mp checked⟩, later.mp ⟨h, others⟩⟩
      · rintro ⟨⟨_, same, ends⟩, others⟩
        cases same
        obtain ⟨h, taken⟩ := later.mpr others
        exact ⟨h, bind_eq_ok.mpr ⟨(), checkEndpoints_pair.mpr ends, taken⟩⟩

/-- The first pass puts in the listed vertices and no others. -/
theorem Consistent.takeVertices_contains (cons : g.Consistent) {nextVertex nextEdge : UInt64}
    (taken : g.takeVertices { empty with nextVertex, nextEdge } vertices = .ok part) :
    part.vertexMap.contains v = true ↔ v ∈ vertices := by
  obtain ⟨copied, -⟩ := cons.takeVertices_frame taken
  rw [SortedMap.contains_iff, ← vertex?, copied]
  constructor
  · rintro ⟨x, stored⟩
    by_contra unlisted
    rw [if_neg unlisted] at stored
    cases stored
  · intro listed
    rw [if_pos listed]
    exact takeVertices_isOk.mp ⟨part, taken⟩ v listed

/-- A sub-structure is extracted exactly if the lists are closed. -/
theorem Consistent.subgraph_isOk (cons : g.Consistent) :
    (∃ h, g.subgraph vertices edges = .ok h) ↔ g.Closed vertices edges := by
  constructor
  · rintro ⟨h, taken⟩
    obtain ⟨part, first, second⟩ := bind_eq_ok.mp taken
    refine ⟨takeVertices_isOk.mp ⟨part, first⟩, fun id listed => ?_⟩
    obtain ⟨e, stored, source, target⟩ := takeEdges_isOk.mp ⟨h, second⟩ id listed
    exact ⟨e, stored, (cons.takeVertices_contains first).mp source,
      (cons.takeVertices_contains first).mp target⟩
  · intro closed
    let blank : Graph := { empty with nextVertex := g.nextVertex, nextEdge := g.nextEdge }
    obtain ⟨part, first⟩ : ∃ part, g.takeVertices blank vertices = .ok part :=
      takeVertices_isOk.mpr closed.vertex
    obtain ⟨h, second⟩ : ∃ h, g.takeEdges part edges = .ok h := by
      refine takeEdges_isOk.mpr fun id listed => ?_
      obtain ⟨e, stored, source, target⟩ := closed.edge id listed
      exact ⟨e, stored, (cons.takeVertices_contains first).mpr source,
        (cons.takeVertices_contains first).mpr target⟩
    exact ⟨h, bind_eq_ok.mpr ⟨part, first, second⟩⟩

/-! ### What the failure says -/

/-- The failure names what keeps the lists from being closed: an element that is no member, or an
end of a listed edge that is not listed itself. -/
inductive Lacks (g : Graph) (vertices : List VertexId) (edges : List EdgeId) : Error → Prop where
  | vertex {v : VertexId} : v ∈ vertices → g.vertex? v = none →
    Lacks g vertices edges (.unknownElement (.vertex v))
  | edge {id : EdgeId} : id ∈ edges → g.edge? id = none →
    Lacks g vertices edges (.unknownElement (.edge id))
  | terminal {v : VertexId} {id : EdgeId} {e : Edge} : v ∉ vertices → id ∈ edges →
    g.edge? id = some e → e.source = v ∨ e.target = v →
    Lacks g vertices edges (.invalidReference v)

theorem takeVertices_error (failed : g.takeVertices part vertices = .error cause) :
    ∃ v ∈ vertices, g.vertex? v = none ∧ cause = .unknownElement (.vertex v) := by
  induction vertices generalizing part with
  | nil => cases failed
  | cons v rest ih =>
    rw [takeVertices] at failed
    split at failed
    · rename_i missing
      cases failed
      exact ⟨v, List.mem_cons_self, missing, rfl⟩
    · obtain ⟨w, listed, missing⟩ := ih failed
      exact ⟨w, List.mem_cons_of_mem _ listed, missing⟩

theorem takeEdges_error (failed : g.takeEdges part edges = .error cause) :
    (∃ id ∈ edges, g.edge? id = none ∧ cause = .unknownElement (.edge id)) ∨
      ∃ id ∈ edges, ∃ e v, g.edge? id = some e ∧ (e.source = v ∨ e.target = v) ∧
        ¬ part.vertexMap.contains v = true ∧ cause = .invalidReference v := by
  induction edges generalizing part with
  | nil => cases failed
  | cons id rest ih =>
    rw [takeEdges] at failed
    split at failed
    · rename_i missing
      cases failed
      exact .inl ⟨id, List.mem_cons_self, missing, rfl⟩
    · rename_i e stored
      obtain unlisted | ⟨_, -, later⟩ := bind_eq_error.mp failed
      · obtain ⟨v, isEnd, missing, rfl⟩ := checkEndpoints_error unlisted
        have terminal : e.source = v ∨ e.target = v :=
          (List.mem_pair.mp isEnd).imp Eq.symm Eq.symm
        exact .inr ⟨id, List.mem_cons_self, e, v, stored, terminal, missing, rfl⟩
      · rcases ih later with ⟨other, listed, missing⟩ | ⟨other, listed, outside⟩
        · exact .inl ⟨other, List.mem_cons_of_mem _ listed, missing⟩
        · exact .inr ⟨other, List.mem_cons_of_mem _ listed, outside⟩

theorem Consistent.subgraph_lacks (cons : g.Consistent)
    (failed : g.subgraph vertices edges = .error cause) : g.Lacks vertices edges cause := by
  obtain early | ⟨part, first, late⟩ := bind_eq_error.mp failed
  · obtain ⟨v, listed, missing, rfl⟩ := takeVertices_error early
    exact .vertex listed missing
  · rcases takeEdges_error late with
      ⟨id, listed, missing, rfl⟩ | ⟨id, listed, e, v, stored, terminal, outside, rfl⟩
    · exact .edge listed missing
    · rw [cons.takeVertices_contains first] at outside
      exact .terminal outside listed stored terminal

/-! ### What is extracted -/

/-- `h` is the part of `g` on the listed elements: these as they are in `g`, for each listed
vertex the index entries without the edges that are not listed, and both counters. -/
structure Part (g : Graph) (vertices : List VertexId) (edges : List EdgeId) (h : Graph) :
    Prop where
  vertex : ∀ v, h.vertex? v = if v ∈ vertices then g.vertex? v else none
  edge : ∀ id, h.edge? id = if id ∈ edges then g.edge? id else none
  outgoing : ∀ v, (h.outgoingIndex.get? v).map (·.keys) =
    if v ∈ vertices then
      (g.outgoingIndex.get? v).map fun entry => entry.keys.filter (· ∈ edges)
    else none
  incoming : ∀ v, (h.incomingIndex.get? v).map (·.keys) =
    if v ∈ vertices then
      (g.incomingIndex.get? v).map fun entry => entry.keys.filter (· ∈ edges)
    else none
  nextVertex : h.nextVertex = g.nextVertex
  nextEdge : h.nextEdge = g.nextEdge

theorem Consistent.subgraph_part (cons : g.Consistent)
    (taken : g.subgraph vertices edges = .ok h) : g.Part vertices edges h := by
  have kept := cons.subgraph taken
  obtain ⟨vertex, edge, nextVertex, nextEdge⟩ := cons.subgraph_frame taken
  constructor
  case vertex => exact vertex
  case edge => exact edge
  case outgoing => exact cons.outgoing.restrict kept.outgoing vertex edge
  case incoming => exact cons.incoming.restrict kept.incoming vertex edge
  case nextVertex => exact nextVertex
  case nextEdge => exact nextEdge

/-- Lists with the same members have the same part. -/
theorem Part.unique (first : g.Part vertices edges h) (second : g.Part vertices' edges' k)
    (cons : h.Consistent) (cons' : k.Consistent) (sameVertices : ∀ v, v ∈ vertices' ↔ v ∈ vertices)
    (sameEdges : ∀ id, id ∈ edges' ↔ id ∈ edges) : k = h := by
  have vertexMap : k.vertexMap = h.vertexMap := by
    refine SortedMap.ext_get? fun v => ?_
    have left := second.vertex v
    simp only [sameVertices] at left
    exact left.trans (first.vertex v).symm
  have edgeMap : k.edgeMap = h.edgeMap := by
    refine SortedMap.ext_get? fun id => ?_
    have left := second.edge id
    simp only [sameEdges] at left
    exact left.trans (first.edge id).symm
  exact cons'.ext cons vertexMap edgeMap (second.nextVertex.trans first.nextVertex.symm)
    (second.nextEdge.trans first.nextEdge.symm)

theorem Closed.congr (closed : g.Closed vertices edges)
    (sameVertices : ∀ v, v ∈ vertices' ↔ v ∈ vertices)
    (sameEdges : ∀ id, id ∈ edges' ↔ id ∈ edges) : g.Closed vertices' edges' := by
  constructor
  · simpa only [sameVertices] using closed.vertex
  · simpa only [sameVertices, sameEdges] using closed.edge

/-- The order of the lists does not matter, nor how often they name an element. -/
theorem Consistent.subgraph_congr (cons : g.Consistent)
    (taken : g.subgraph vertices edges = .ok h) (sameVertices : ∀ v, v ∈ vertices' ↔ v ∈ vertices)
    (sameEdges : ∀ id, id ∈ edges' ↔ id ∈ edges) : g.subgraph vertices' edges' = .ok h := by
  have closed := (cons.subgraph_isOk.mp ⟨h, taken⟩).congr sameVertices sameEdges
  obtain ⟨k, taken'⟩ := cons.subgraph_isOk.mpr closed
  have same : k = h := (cons.subgraph_part taken).unique (cons.subgraph_part taken')
    (cons.subgraph taken) (cons.subgraph taken') sameVertices sameEdges
  rw [taken', same]

/-! ### Handles given out later -/

/-- The part goes on at the counters of the graph, so what a history of it gives out had not been
given out by the graph. -/
theorem Part.handedOut_fresh (part : g.Part vertices edges h) (cons : h.Consistent)
    (ops : List Operation) : ∀ element ∈ h.handedOut ops, ¬ g.Issued element := by
  obtain ⟨-, run⟩ := performAll_allocates cons ops
  intro element out earlier
  refine run.fresh element out ?_
  cases element with
  | vertex v =>
    rw [Issued, part.nextVertex]
    exact earlier
  | edge id =>
    rw [Issued, part.nextEdge]
    exact earlier

/-- What a graph has had as a member at any time, it has given out. -/
theorem Descends.issued (reach : past.Reachable) (line : past.Descends g) {element : Element}
    (member : past.contains element = true) : g.Issued element :=
  (line.follows reach).issued element (reach.consistent.issued member)

/-- A sub-structure is extracted exactly if its lists are closed, and the failure says otherwise
what is missing. It is the part of the graph on the listed elements, a consistent graph again, and
the same for all lists with these members. What is added to it later stands under handles that the
graph has not given out, so in none of the graphs that led to it. -/
theorem subgraph_exact (reach : g.Reachable) (vertices : List VertexId) (edges : List EdgeId) :
    ((∃ h, g.subgraph vertices edges = .ok h) ↔ g.Closed vertices edges) ∧
      (∀ cause, g.subgraph vertices edges = .error cause → g.Lacks vertices edges cause) ∧
      ∀ h, g.subgraph vertices edges = .ok h →
        g.Part vertices edges h ∧ h.Consistent ∧
        (∀ vertices' edges', (∀ v, v ∈ vertices' ↔ v ∈ vertices) →
          (∀ id, id ∈ edges' ↔ id ∈ edges) → g.subgraph vertices' edges' = .ok h) ∧
        ∀ ops, ∀ element ∈ h.handedOut ops, ¬ g.Issued element ∧
          ∀ past : Graph, past.Reachable → past.Descends g → ¬ past.contains element = true := by
  have cons := reach.consistent
  refine ⟨cons.subgraph_isOk, fun cause => cons.subgraph_lacks, fun h taken => ?_⟩
  have part := cons.subgraph_part taken
  have kept := cons.subgraph taken
  refine ⟨part, kept, fun _ _ => cons.subgraph_congr taken, fun ops element out => ?_⟩
  have fresh := part.handedOut_fresh kept ops element out
  exact ⟨fresh, fun past start line member => fresh (line.issued start member)⟩

/-- The first two vertices of the knot with the loop and the edge back, named twice and in any
order; without its second vertex the edge back cannot be taken. -/
theorem knot_part :
    knot.Reachable ∧
      knot.subgraph [⟨0⟩] [⟨1⟩, ⟨2⟩] = .error (.invalidReference ⟨1⟩) ∧
      knot.Lacks [⟨0⟩] [⟨1⟩, ⟨2⟩] (.invalidReference ⟨1⟩) ∧
      ∃ h, knot.subgraph [⟨1⟩, ⟨0⟩, ⟨1⟩] [⟨2⟩, ⟨1⟩, ⟨2⟩] = .ok h ∧
        knot.subgraph [⟨0⟩, ⟨1⟩] [⟨1⟩, ⟨2⟩] = .ok h ∧
        (h.outgoingIndex.get? ⟨0⟩).map (·.keys) = some [⟨1⟩] ∧ h.vertex? ⟨2⟩ = none ∧
        h.handedOut [.addVertex .empty] = [.vertex ⟨3⟩] ∧ ¬ knot.Issued (.vertex ⟨3⟩) := by
  obtain ⟨-, lacks, -⟩ := subgraph_exact knot_reachable [⟨0⟩] [⟨1⟩, ⟨2⟩]
  obtain ⟨-, -, extracted⟩ := subgraph_exact knot_reachable [⟨1⟩, ⟨0⟩, ⟨1⟩] [⟨2⟩, ⟨1⟩, ⟨2⟩]
  obtain ⟨h, taken⟩ : ∃ h, knot.subgraph [⟨1⟩, ⟨0⟩, ⟨1⟩] [⟨2⟩, ⟨1⟩, ⟨2⟩] = .ok h := ⟨_, rfl⟩
  obtain ⟨part, -, reordered, later⟩ := extracted h taken
  have out : h.handedOut [.addVertex .empty] = [.vertex ⟨3⟩] := by
    cases taken
    rfl
  refine ⟨knot_reachable, rfl, lacks _ rfl, h, taken, reordered _ _ ?_ ?_, ?_, ?_, out, ?_⟩
  · simp [or_comm]
  · simp [or_comm]
  · rw [part.outgoing]
    rfl
  · rw [part.vertex]
    rfl
  · exact (later [.addVertex .empty] (.vertex ⟨3⟩) (by simp [out])).1

end Graph

end GraphTransformation
