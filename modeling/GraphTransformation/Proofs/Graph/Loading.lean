import GraphTransformation.Proofs.Graph.Assembly

/-!
Graphs from their snapshots.

A consistent graph is known by its elements and its counters, since there is only one index
for given edges (`Consistent.ext`). A snapshot is loaded by two passes of insertions, each of
which succeeds exactly when its handles are free and distinct (`loadVertices_eq_ok`,
`loadEdges_eq_ok`). So the snapshot of a graph is loaded as the graph itself, or refused
because a counter has reached the last word (`Consistent.load_snapshot`).
-/

namespace GraphTransformation

/-! ### What a graph is known by -/

/-- There is one index for given vertices and edges. -/
theorem Indexed.unique {vertices : SortedMap VertexId Vertex} {edges : SortedMap EdgeId Edge}
    {terminal : Edge → VertexId} {index other : SortedMap VertexId (SortedSet EdgeId)}
    (first : Indexed vertices edges terminal index)
    (second : Indexed vertices edges terminal other) : index = other := by
  refine SortedMap.ext_get? fun v => ?_
  by_cases member : vertices.contains v = true
  · obtain ⟨s, listed⟩ := SortedMap.contains_iff.mp ((first.keys v).mpr member)
    obtain ⟨t, listed'⟩ := SortedMap.contains_iff.mp ((second.keys v).mpr member)
    have same : s = t := SortedMap.eq_of_contains fun k => by
      rw [first.entries listed, second.entries listed']
    rw [listed, listed', same]
  · have absent := SortedMap.get?_eq_none_of_not_contains fun key => member ((first.keys v).mp key)
    have absent' :=
      SortedMap.get?_eq_none_of_not_contains fun key => member ((second.keys v).mp key)
    rw [absent, absent']

namespace Graph

variable {g h : Graph}

/-- A consistent graph is determined by its elements and its counters. -/
theorem Consistent.ext (cons : g.Consistent) (cons' : h.Consistent)
    (vertices : g.vertexMap = h.vertexMap) (edges : g.edgeMap = h.edgeMap)
    (nextVertex : g.nextVertex = h.nextVertex) (nextEdge : g.nextEdge = h.nextEdge) : g = h := by
  have outgoing := cons'.outgoing
  have incoming := cons'.incoming
  rw [← vertices, ← edges] at outgoing incoming
  have sameOutgoing := cons.outgoing.unique outgoing
  have sameIncoming := cons.incoming.unique incoming
  cases g
  cases h
  simp_all

/-- The vertices are the bindings of their map, each under its own handle. -/
theorem Consistent.ofList_vertices (cons : g.Consistent) :
    SortedMap.ofList (g.vertices.map fun v => (v.id, v)) = g.vertexMap := by
  rw [vertices, SortedMap.values_map_eq_toList cons.vertex_id, SortedMap.ofList_toList]

theorem Consistent.ofList_edges (cons : g.Consistent) :
    SortedMap.ofList (g.edges.map fun e => (e.id, e)) = g.edgeMap := by
  rw [edges, SortedMap.values_map_eq_toList cons.edge_id, SortedMap.ofList_toList]

end Graph

namespace Snapshot

open GraphTransformation.Graph

variable {g h : Graph}

/-! ### Insertions one after another -/

theorem foldl_insertVertex (vs : List Vertex) :
    (vs.foldl insertVertex g).vertexMap = g.vertexMap.insertAll (vs.map fun v => (v.id, v)) ∧
      (vs.foldl insertVertex g).edgeMap = g.edgeMap ∧
      (vs.foldl insertVertex g).nextVertex = g.nextVertex ∧
      (vs.foldl insertVertex g).nextEdge = g.nextEdge := by
  induction vs generalizing g with
  | nil => exact ⟨rfl, rfl, rfl, rfl⟩
  | cons v rest ih => exact ih (g := g.insertVertex v)

theorem foldl_insertEdge (es : List Edge) :
    (es.foldl insertEdge g).vertexMap = g.vertexMap ∧
      (es.foldl insertEdge g).edgeMap = g.edgeMap.insertAll (es.map fun e => (e.id, e)) ∧
      (es.foldl insertEdge g).nextVertex = g.nextVertex ∧
      (es.foldl insertEdge g).nextEdge = g.nextEdge := by
  induction es generalizing g with
  | nil => exact ⟨rfl, rfl, rfl, rfl⟩
  | cons e rest ih => exact ih (g := g.insertEdge e)

/-- The first pass puts in the vertices if their handles are free and distinct. -/
theorem loadVertices_eq_ok {vs : List Vertex} : loadVertices g vs = .ok h ↔
    (vs.map (·.id)).Nodup ∧ (∀ v ∈ vs, ¬ g.vertexMap.contains v.id = true) ∧
      h = vs.foldl insertVertex g := by
  induction vs generalizing g with
  | nil =>
    constructor
    · intro loaded
      cases loaded
      simp
    · intro filled
      obtain rfl : h = g := by simpa using filled
      rfl
  | cons v rest ih =>
    rw [loadVertices, List.map_cons, List.nodup_cons, List.forall_mem_cons]
    split
    · rename_i taken
      simp [taken]
    · rename_i free
      have apart : (∀ w ∈ rest, ¬ (g.insertVertex v).vertexMap.contains w.id = true) ↔
          v.id ∉ rest.map (·.id) ∧ ∀ w ∈ rest, ¬ g.vertexMap.contains w.id = true := by
        simp only [insertVertex, SortedMap.contains_insert, not_or, List.mem_map, not_exists,
          not_and, forall_and]
      rw [ih, apart, and_iff_right free]
      simp only [List.foldl_cons]
      tauto

/-- The second pass puts in the edges if their handles are free and distinct and their ends
are members. -/
theorem loadEdges_eq_ok {es : List Edge} : loadEdges g es = .ok h ↔
    (es.map (·.id)).Nodup ∧ (∀ e ∈ es, ¬ g.edgeMap.contains e.id = true) ∧
      (∀ e ∈ es, g.vertexMap.contains e.source = true ∧ g.vertexMap.contains e.target = true) ∧
      h = es.foldl insertEdge g := by
  induction es generalizing g with
  | nil =>
    constructor
    · intro loaded
      cases loaded
      simp
    · intro filled
      obtain rfl : h = g := by simpa using filled
      rfl
  | cons e rest ih =>
    rw [loadEdges, List.map_cons, List.nodup_cons, List.forall_mem_cons, List.forall_mem_cons]
    split
    · rename_i taken
      simp [taken]
    · rename_i free
      have apart : (∀ f ∈ rest, ¬ (g.insertEdge e).edgeMap.contains f.id = true) ↔
          e.id ∉ rest.map (·.id) ∧ ∀ f ∈ rest, ¬ g.edgeMap.contains f.id = true := by
        simp only [insertEdge, SortedMap.contains_insert, not_or, List.mem_map, not_exists,
          not_and, forall_and]
      have check : (∃ a, g.checkEndpoints [e.source, e.target] = .ok a) ↔
          g.vertexMap.contains e.source = true ∧ g.vertexMap.contains e.target = true := by
        constructor
        · rintro ⟨_, checked⟩
          exact checkEndpoints_pair.mp checked
        · intro members
          exact ⟨(), checkEndpoints_pair.mpr members⟩
      rw [bind_eq_ok, exists_and_right, check, ih, apart, and_iff_right free]
      simp only [List.foldl_cons]
      tauto

/-! ### Counters -/

/-- The counters of a loaded graph are the ones that are chosen for the listed handles. -/
theorem load_counters {s : Snapshot} (loaded : s.load = .ok g) :
    nextHandle s.nextVertex (s.vertices.map (·.id.word)) = .ok g.nextVertex ∧
      nextHandle s.nextEdge (s.edges.map (·.id.word)) = .ok g.nextEdge := by
  obtain ⟨nextVertex, vertexChosen, rest⟩ := bind_eq_ok.mp loaded
  obtain ⟨nextEdge, edgeChosen, rest⟩ := bind_eq_ok.mp rest
  obtain ⟨k, vertices, edges⟩ := bind_eq_ok.mp rest
  obtain ⟨-, -, rfl⟩ := loadVertices_eq_ok.mp vertices
  obtain ⟨-, -, -, rfl⟩ := loadEdges_eq_ok.mp edges
  obtain ⟨-, -, vertexKept, edgeKept⟩ := foldl_insertEdge s.edges
  obtain ⟨-, -, vertexKept', edgeKept'⟩ := foldl_insertVertex s.vertices
  rw [vertexKept, edgeKept, vertexKept', edgeKept']
  exact ⟨vertexChosen, edgeChosen⟩

end Snapshot

namespace Graph

variable {g : Graph}

theorem Consistent.listed_vertex_below (cons : g.Consistent) :
    ∀ v ∈ g.vertices, v.id.word < g.nextVertex := by
  intro v mem
  exact cons.vertex_below (SortedMap.contains_of_get? (cons.mem_vertices.mp mem))

theorem Consistent.listed_edge_below (cons : g.Consistent) :
    ∀ e ∈ g.edges, e.id.word < g.nextEdge := by
  intro e mem
  exact cons.edge_below (SortedMap.contains_of_get? (cons.mem_edges.mp mem))

/-- The elements of a consistent graph, put in one after another at its counters, give the
graph again. -/
theorem Consistent.refill (cons : g.Consistent) : ∃ k,
    Snapshot.loadVertices { Graph.empty with nextVertex := g.nextVertex, nextEdge := g.nextEdge }
      g.vertices = .ok k ∧ Snapshot.loadEdges k g.edges = .ok g := by
  have vertexIds : (g.vertices.map (·.id)).Nodup := cons.vertices_ids ▸ SortedMap.keys_nodup _
  have edgeIds : (g.edges.map (·.id)).Nodup := cons.edges_ids ▸ SortedMap.keys_nodup _
  let blank := { Graph.empty with nextVertex := g.nextVertex, nextEdge := g.nextEdge }
  let k := g.vertices.foldl Graph.insertVertex blank
  have first : Snapshot.loadVertices blank g.vertices = .ok k :=
    Snapshot.loadVertices_eq_ok.mpr ⟨vertexIds, by simp [blank, Graph.empty], rfl⟩
  obtain ⟨kCons, kNextVertex, kNextEdge⟩ :=
    Snapshot.loadVertices_consistent (blank_consistent _ _) cons.listed_vertex_below first
  have kVertices : k.vertexMap = g.vertexMap :=
    (Snapshot.foldl_insertVertex g.vertices).1.trans cons.ofList_vertices
  have kEdges : k.edgeMap = .empty := (Snapshot.foldl_insertVertex g.vertices).2.1
  have members : ∀ e ∈ g.edges,
      k.vertexMap.contains e.source = true ∧ k.vertexMap.contains e.target = true := by
    intro e mem
    have stored := cons.mem_edges.mp mem
    rw [kVertices]
    exact ⟨cons.outgoing.member stored, cons.incoming.member stored⟩
  have second : Snapshot.loadEdges k g.edges = .ok (g.edges.foldl Graph.insertEdge k) :=
    Snapshot.loadEdges_eq_ok.mpr ⟨edgeIds, by simp [kEdges], members, rfl⟩
  have edgeBelow : ∀ e ∈ g.edges, e.id.word < k.nextEdge := by
    rw [kNextEdge]
    exact cons.listed_edge_below
  have filled := Snapshot.loadEdges_consistent kCons edgeBelow second
  obtain ⟨vertexMap, edgeMap, nextVertex, nextEdge⟩ :=
    Snapshot.foldl_insertEdge (g := k) g.edges
  rw [kEdges] at edgeMap
  have same := filled.ext cons (vertexMap.trans kVertices) (edgeMap.trans cons.ofList_edges)
    (nextVertex.trans kNextVertex) (nextEdge.trans kNextEdge)
  exact ⟨k, first, second.trans (congrArg _ same)⟩

/-- The snapshot of a consistent graph is loaded as the graph itself, unless one of its
counters has reached the last word. -/
theorem Consistent.load_snapshot (cons : g.Consistent) : g.snapshot.load =
    if g.nextVertex = lastWord ∨ g.nextEdge = lastWord then .error (.invalidSnapshot .exhausted)
    else .ok g := by
  have vertexBelow : ∀ w ∈ g.vertices.map (·.id.word), w < g.nextVertex :=
    List.forall_mem_map.mpr cons.listed_vertex_below
  have edgeBelow : ∀ w ∈ g.edges.map (·.id.word), w < g.nextEdge :=
    List.forall_mem_map.mpr cons.listed_edge_below
  rw [Snapshot.load]
  simp only [snapshot, Snapshot.nextHandle_recorded vertexBelow,
    Snapshot.nextHandle_recorded edgeBelow]
  by_cases vertexLast : g.nextVertex = lastWord
  · simp [vertexLast, bind, Except.bind]
  by_cases edgeLast : g.nextEdge = lastWord
  · simp [vertexLast, edgeLast, bind, Except.bind]
  obtain ⟨k, vertices, edges⟩ := cons.refill
  simp [vertexLast, edgeLast, bind, Except.bind, vertices, edges]

end Graph

end GraphTransformation
