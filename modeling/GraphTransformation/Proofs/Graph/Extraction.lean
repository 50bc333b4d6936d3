import GraphTransformation.Proofs.Graph.Consistency

/-!
What an extracted sub-structure holds.

Extraction copies the listed elements one after another into a blank graph at the same
counters. Since each element stands under its own handle, what is copied twice is copied once,
and the result has of the original exactly what is listed (`Consistent.subgraph_frame`).
-/

namespace GraphTransformation.Graph

variable {g part h : Graph}

theorem Consistent.takeVertices_frame (cons : g.Consistent) {ids : List VertexId}
    (taken : g.takeVertices part ids = .ok h) :
    (∀ v, h.vertex? v = if v ∈ ids then g.vertex? v else part.vertex? v) ∧
      h.edgeMap = part.edgeMap ∧ h.nextVertex = part.nextVertex ∧ h.nextEdge = part.nextEdge := by
  induction ids generalizing part with
  | nil =>
    cases taken
    simp
  | cons id rest ih =>
    rw [takeVertices] at taken
    split at taken
    · cases taken
    · rename_i x stored
      obtain ⟨vertices, frame⟩ := ih taken
      refine ⟨fun v => ?_, frame⟩
      have inserted : (part.insertVertex x).vertex? v =
          if v = id then some x else part.vertex? v := by
        rw [vertex?, Graph.insertVertex, SortedMap.get?_insert, cons.vertex_id stored]
        rfl
      rw [vertices, inserted]
      by_cases here : v = id
      · simp [here, stored]
      · simp [here]

theorem Consistent.takeEdges_frame (cons : g.Consistent) {ids : List EdgeId}
    (taken : g.takeEdges part ids = .ok h) :
    (∀ k, h.edge? k = if k ∈ ids then g.edge? k else part.edge? k) ∧
      h.vertexMap = part.vertexMap ∧ h.nextVertex = part.nextVertex ∧
      h.nextEdge = part.nextEdge := by
  induction ids generalizing part with
  | nil =>
    cases taken
    simp
  | cons id rest ih =>
    rw [takeEdges] at taken
    split at taken
    · cases taken
    · rename_i x stored
      obtain ⟨-, -, others⟩ := bind_eq_ok.mp taken
      obtain ⟨edges, frame⟩ := ih others
      refine ⟨fun k => ?_, frame⟩
      have inserted : (part.insertEdge x).edge? k =
          if k = id then some x else part.edge? k := by
        rw [edge?, Graph.insertEdge, SortedMap.get?_insert, cons.edge_id stored]
        rfl
      rw [edges, inserted]
      by_cases here : k = id
      · simp [here, stored]
      · simp [here]

/-- The sub-structure has the listed elements as they are in the graph, and the graph's
counters. -/
theorem Consistent.subgraph_frame (cons : g.Consistent) {vertices : List VertexId}
    {edges : List EdgeId} (taken : g.subgraph vertices edges = .ok h) :
    (∀ v, h.vertex? v = if v ∈ vertices then g.vertex? v else none) ∧
      (∀ k, h.edge? k = if k ∈ edges then g.edge? k else none) ∧
      h.nextVertex = g.nextVertex ∧ h.nextEdge = g.nextEdge := by
  obtain ⟨part, first, second⟩ := bind_eq_ok.mp taken
  obtain ⟨partVertices, partEdges, partNextVertex, partNextEdge⟩ := cons.takeVertices_frame first
  obtain ⟨hEdges, hVertices, hNextVertex, hNextEdge⟩ := cons.takeEdges_frame second
  refine ⟨fun v => ?_, fun k => ?_, hNextVertex.trans partNextVertex,
    hNextEdge.trans partNextEdge⟩
  · rw [vertex?, hVertices]
    exact partVertices v
  · rw [hEdges, edge?, edge?, partEdges]
    rfl

end GraphTransformation.Graph
