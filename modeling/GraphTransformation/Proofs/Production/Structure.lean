import GraphTransformation.Proofs.History

/-!
The structure of a rewritten graph.

`apply_structure` gives the vertices, the edges with their ends and the counters
of the result of a production from those of the host, as lists in handle order:
what is not deleted stays, and what is created follows under the next handles. What
is deleted is said through the images of the match (`DeletesVertex`, `DeletesEdge`).
It holds of every production, whether its sides were checked against each other
or not, since an application that succeeds has resolved every end it needs and has
found room for what it creates.
-/

namespace GraphTransformation

/-- An edge's handle and ends, as they are to be compared with ends that may be missing. -/
def Edge.placement (e : Edge) : EdgeId × Option VertexId × Option VertexId :=
  (e.id, some e.source, some e.target)

namespace Graph

variable {g : Graph}

theorem Consistent.placements_increasing (cons : g.Consistent) {es : List Edge}
    (sub : es.Sublist g.edges) : SortedMap.Increasing ((es.map Edge.placement).map (·.1)) := by
  have ids : (g.edges.map (·.id)).Pairwise fun j k => compare j k = .lt := by
    rw [cons.edges_ids]
    exact SortedMap.keys_increasing _
  rw [List.map_map]
  exact List.Pairwise.sublist (sub.map _) ids

theorem ends_eq_some {k : EdgeId} {s t : VertexId} :
    (g.edge? k).map Edge.ends = some (s, t) ↔
      ∃ e, g.edge? k = some e ∧ e.source = s ∧ e.target = t := by
  simp only [Option.map_eq_some_iff, Edge.ends, Prod.mk.injEq]

theorem Consistent.mem_placements (cons : g.Consistent)
    {b : EdgeId × Option VertexId × Option VertexId} :
    b ∈ g.edges.map Edge.placement ↔
      ∃ s t, (g.edge? b.1).map Edge.ends = some (s, t) ∧ b.2 = (some s, some t) := by
  simp only [List.mem_map, cons.mem_edges]
  constructor
  · rintro ⟨e, stored, rfl⟩
    exact ⟨e.source, e.target, congrArg (Option.map Edge.ends) stored, rfl⟩
  · rintro ⟨s, t, found, ends⟩
    obtain ⟨e, stored, rfl, rfl⟩ := ends_eq_some.mp found
    have same : e.id = b.1 := cons.edge_id stored
    exact ⟨e, same ▸ stored, Prod.ext same ends.symm⟩

theorem Consistent.freshVertex_absent (cons : g.Consistent) {i : Nat}
    (room : g.nextVertex.toNat + i < UInt64.size) : g.vertex? (g.freshVertex i) = none :=
  cons.vertex_fresh (Handle.issued_not_below room)

theorem Consistent.freshEdge_absent (cons : g.Consistent) {i : Nat}
    (room : g.nextEdge.toNat + i < UInt64.size) : g.edge? (g.freshEdge i) = none :=
  cons.edge_fresh (Handle.issued_not_below room)

end Graph

namespace Production

open GraphTransformation.Graph

variable {p : Production} {host result : Graph} {m : Embedding}

/-- The pattern vertex is not preserved, and `v` is its image. -/
def DeletesVertex (p : Production) (m : Embedding) (l v : VertexId) : Prop :=
  p.lhs.graph.vertexMap.contains l = true ∧ p.correspondence.vertices.right? l = none ∧
    m.vertex? l = some v

/-- The edge is the image of a pattern edge that is not preserved. -/
def DeletesEdge (p : Production) (m : Embedding) (k : EdgeId) : Prop :=
  ∃ l, p.lhs.graph.edgeMap.contains l = true ∧ p.correspondence.edges.right? l = none ∧
    m.edge? l = some k

theorem mem_deletedVertices {v : VertexId} :
    v ∈ p.deletedVertices m ↔ ∃ l, p.DeletesVertex m l v := by
  simp only [deletedVertices, DeletesVertex, List.mem_filterMap, List.mem_filter, vertexIds,
    SortedMap.mem_keys, Option.isNone_iff_eq_none, and_assoc]

theorem mem_deletedEdges {k : EdgeId} : k ∈ p.deletedEdges m ↔ p.DeletesEdge m k := by
  simp only [deletedEdges, DeletesEdge, SortedMap.mem_distinct, List.mem_filterMap,
    List.mem_filter, edgeIds, SortedMap.mem_keys, Option.isNone_iff_eq_none, and_assoc]

instance (v : VertexId) : Decidable (∃ l, p.DeletesVertex m l v) :=
  decidable_of_iff _ (List.contains_iff_mem.trans mem_deletedVertices)

instance (k : EdgeId) : Decidable (p.DeletesEdge m k) :=
  decidable_of_iff _ (List.contains_iff_mem.trans mem_deletedEdges)

/-- The edge is neither deleted itself nor touches a deleted vertex. -/
def Survives (p : Production) (m : Embedding) (e : Edge) : Prop :=
  ¬ p.DeletesEdge m e.id ∧ (¬ ∃ l, p.DeletesVertex m l e.source) ∧
    ¬ ∃ l, p.DeletesVertex m l e.target

instance (e : Edge) : Decidable (p.Survives m e) := inferInstanceAs (Decidable (_ ∧ _ ∧ _))

/-- The vertex of the result that a replacement vertex stands for: the image of its
partner, or the vertex created for it. -/
def standIn (p : Production) (host : Graph) (m : Embedding) (r : VertexId) : Option VertexId :=
  match p.correspondence.vertices.left? r with
  | some l => m.vertex? l
  | none => (p.newVertices.idxOf? r).map host.freshVertex

/-- The edges that an application creates, with what their ends stand for. -/
def createdPlacements (p : Production) (host : Graph) (m : Embedding) :
    List (EdgeId × Option VertexId × Option VertexId) :=
  p.newEdges.mapIdx fun i e =>
    (host.freshEdge i, p.standIn host m e.source, p.standIn host m e.target)

theorem resolve_eq_ok {created : Created} {r v : VertexId}
    (known : ∀ r, created.get? r = (p.newVertices.idxOf? r).map host.freshVertex) :
    p.resolve m created r = .ok v ↔ p.standIn host m r = some v := by
  have resolved : p.resolve m created r = .ok v ↔
      (created.get? r).or ((p.correspondence.vertices.left? r).bind m.vertex?) = some v := by
    rw [resolve]
    split
    · rename_i found
      simp [found]
    · rename_i missing
      simp [missing]
  rw [resolved, known, standIn]
  cases partner : p.correspondence.vertices.left? r with
  | none => simp
  | some l =>
    have absent : p.newVertices.idxOf? r = none := by
      refine List.idxOf?_eq_none_iff.mpr fun mem => ?_
      have := (List.mem_filter.mp mem).2
      simp [partner] at this
    simp [absent]

theorem mem_survivors (cons : host.Consistent)
    {b : EdgeId × Option VertexId × Option VertexId} :
    b ∈ (host.edges.filter (p.Survives m)).map Edge.placement ↔
      ∃ s t, ((host.edge? b.1).map Edge.ends = some (s, t) ∧ b.1 ∉ p.deletedEdges m ∧
        s ∉ p.deletedVertices m ∧ t ∉ p.deletedVertices m) ∧ b.2 = (some s, some t) := by
  simp only [List.mem_map, List.mem_filter, cons.mem_edges, decide_eq_true_eq]
  simp only [Survives, mem_deletedVertices, mem_deletedEdges]
  constructor
  · rintro ⟨e, ⟨stored, kept, source, target⟩, rfl⟩
    exact ⟨e.source, e.target,
      ⟨congrArg (Option.map Edge.ends) stored, kept, source, target⟩, rfl⟩
  · rintro ⟨s, t, ⟨found, kept, source, target⟩, ends⟩
    obtain ⟨e, stored, rfl, rfl⟩ := ends_eq_some.mp found
    have same : e.id = b.1 := cons.edge_id stored
    exact ⟨e, ⟨same ▸ stored, same ▸ kept, source, target⟩, Prod.ext same ends.symm⟩

theorem mem_createdPlacements {b : EdgeId × Option VertexId × Option VertexId} :
    b ∈ p.createdPlacements host m ↔ ∃ i e, p.newEdges[i]? = some e ∧
      b = (host.freshEdge i, p.standIn host m e.source, p.standIn host m e.target) := by
  simp only [createdPlacements, List.mem_mapIdx]
  constructor
  · rintro ⟨i, lt, rfl⟩
    exact ⟨i, _, List.getElem?_eq_getElem lt, rfl⟩
  · rintro ⟨i, e, here, rfl⟩
    obtain ⟨lt, rfl⟩ := List.getElem?_eq_some_iff.mp here
    exact ⟨i, lt, rfl⟩

theorem createdPlacements_keys :
    (p.createdPlacements host m).map (·.1) =
      (List.range p.newEdges.length).map host.freshEdge := by
  refine List.ext_getElem (by simp [createdPlacements]) fun i _ _ => ?_
  simp [createdPlacements]

/-- The created vertices are known by their replacement vertices. -/
theorem known_created {preserved grown : Graph} {created : Created} {ctx : RuleContext}
    (vertices : p.createVertices ctx preserved .empty p.rhs.vertexIds = .ok (grown, created))
    (r : VertexId) : created.get? r = (p.newVertices.idxOf? r).map preserved.freshVertex := by
  rw [createVertices_known p.rhs.vertexIds_nodup vertices, SortedMap.get?_empty, Option.or_none,
    newVertices]

/-- What creation adds to a graph, element by element: the new vertices and edges under
the handles that follow the counters, and nothing else. -/
theorem create_frame {preserved grown : Graph} {created : Created} {ctx : RuleContext}
    (vertices : p.createVertices ctx preserved .empty p.rhs.vertexIds = .ok (grown, created))
    (edges : p.createEdges ctx created grown p.rhs.edges = .ok result) :
    result.nextVertex = preserved.nextVertex + UInt64.ofNat p.newVertices.length ∧
      result.nextEdge = preserved.nextEdge + UInt64.ofNat p.newEdges.length ∧
      (∀ v, result.vertexMap.contains v = true ↔ preserved.vertexMap.contains v = true ∨
        ∃ i < p.newVertices.length, v = preserved.freshVertex i) ∧
      (∀ i e, p.newEdges[i]? = some e → ∃ s t,
        p.standIn preserved ctx.embedding e.source = some s ∧
        p.standIn preserved ctx.embedding e.target = some t ∧
        (result.edge? (preserved.freshEdge i)).map Edge.ends = some (s, t)) ∧
      ∀ k, (∀ i < p.newEdges.length, k ≠ preserved.freshEdge i) →
        result.edge? k = preserved.edge? k := by
  obtain ⟨-, grownEdges, grownNextEdge, grownNextVertex⟩ := createVertices_counters vertices
  obtain ⟨newVertex, oldVertex⟩ := createVertices_vertices vertices
  have known := known_created vertices
  obtain ⟨-, sameVertices, nextVertex, nextEdge⟩ := createEdges_counters edges
  obtain ⟨newEdge, oldEdge⟩ := createEdges_edges edges
  rw [freshEdge_congr grownNextEdge] at newEdge oldEdge
  refine ⟨?_, ?_, fun v => ?_, fun i e here => ?_, fun k apart => ?_⟩
  · rw [nextVertex, grownNextVertex, newVertices]
  · rw [nextEdge, grownNextEdge, newEdges]
  · rw [sameVertices]
    by_cases new : ∃ i < p.newVertices.length, v = preserved.freshVertex i
    · obtain ⟨i, lt, rfl⟩ := new
      have stored := newVertex i _ (List.getElem?_eq_getElem lt)
      exact iff_of_true (SortedMap.contains_of_get? stored) (.inr ⟨i, lt, rfl⟩)
    · have old := oldVertex v fun i lt eq => new ⟨i, lt, eq⟩
      rw [or_iff_left new, SortedMap.contains_iff, SortedMap.contains_iff]
      exact exists_congr fun x => by rw [← Graph.vertex?, ← Graph.vertex?, old]
  · obtain ⟨s, t, source, target, stored⟩ := newEdge i e here
    refine ⟨s, t, (resolve_eq_ok known).mp source, (resolve_eq_ok known).mp target, ?_⟩
    rw [stored]
    rfl
  · rw [oldEdge k apart, Graph.edge?, grownEdges]
    rfl

/-- The result of an application, element by element: its vertices and edges are those
left of the host, and under the handles that follow the counters the created ones. -/
theorem apply_frame {m : Match} (cons : host.Consistent)
    (applied : p.apply host m = .ok result) :
    result.nextVertex = host.nextVertex + UInt64.ofNat p.newVertices.length ∧
      result.nextEdge = host.nextEdge + UInt64.ofNat p.newEdges.length ∧
      (∀ v, result.vertexMap.contains v = true ↔
        (host.vertexMap.contains v = true ∧ v ∉ p.deletedVertices m.embedding) ∨
          ∃ i < p.newVertices.length, v = host.freshVertex i) ∧
      (∀ i e, p.newEdges[i]? = some e → ∃ s t,
        p.standIn host m.embedding e.source = some s ∧
        p.standIn host m.embedding e.target = some t ∧
        (result.edge? (host.freshEdge i)).map Edge.ends = some (s, t)) ∧
      ∀ k, (∀ i < p.newEdges.length, k ≠ host.freshEdge i) → ∀ s t,
        (result.edge? k).map Edge.ends = some (s, t) ↔
          (host.edge? k).map Edge.ends = some (s, t) ∧ k ∉ p.deletedEdges m.embedding ∧
            s ∉ p.deletedVertices m.embedding ∧ t ∉ p.deletedVertices m.embedding := by
  obtain ⟨-, replaced⟩ := apply_eq_ok.mp applied
  obtain ⟨-, pruned, kept, relabelled, preserved, grown, created, first, second, third, fourth,
    fifth, done⟩ := replace_eq_ok.mp replaced
  obtain ⟨-, nextVertex, nextEdge, vertices, edges⟩ :=
    preserved_frame cons first second third fourth
  have freshVertex := freshVertex_congr nextVertex
  have freshEdge := freshEdge_congr nextEdge
  obtain ⟨resultNextVertex, resultNextEdge, resultVertices, newEdge, oldEdge⟩ :=
    create_frame fifth done
  simp only [standIn, freshVertex, freshEdge] at resultVertices newEdge oldEdge
  refine ⟨nextVertex ▸ resultNextVertex, nextEdge ▸ resultNextEdge, fun v => ?_, newEdge,
    fun k apart s t => ?_⟩
  · rw [resultVertices, vertices]
  · rw [oldEdge k apart]
    exact edges k s t

theorem apply_vertexIds {m : Match} (cons : host.Consistent)
    (applied : p.apply host m = .ok result) :
    result.vertexIds =
      host.vertexIds.filter (fun v => ¬ ∃ l, p.DeletesVertex m.embedding l v) ++
        (List.range p.newVertices.length).map host.freshVertex := by
  have room := apply_hasRoom cons applied
  obtain ⟨-, -, vertices, -, -⟩ := apply_frame cons applied
  refine SortedMap.eq_of_increasing (SortedMap.keys_increasing _) ?_ fun v => ?_
  · refine SortedMap.Increasing.append ((SortedMap.keys_increasing _).filter _)
      (Handle.issued_increasing room.1) fun v old w new => ?_
    obtain ⟨i, lt, rfl⟩ := List.mem_map.mp new
    have room := room.1
    have lt := List.mem_range.mp lt
    refine Handle.lt_issued (by omega) (cons.vertex_below ?_)
    exact SortedMap.mem_keys.mp (List.mem_filter.mp old).1
  · simp only [vertexIds, SortedMap.mem_keys, vertices, List.mem_append, List.mem_filter,
      List.mem_map, List.mem_range, decide_eq_true_eq, mem_deletedVertices, @eq_comm _ v]

theorem apply_placements {m : Match} (cons : host.Consistent)
    (applied : p.apply host m = .ok result) :
    result.edges.map Edge.placement =
      (host.edges.filter (p.Survives m.embedding)).map Edge.placement ++
        p.createdPlacements host m.embedding := by
  have room := apply_hasRoom cons applied
  have after := apply_consistent cons applied
  obtain ⟨-, -, -, newEdge, oldEdge⟩ := apply_frame cons applied
  refine SortedMap.eq_of_increasing_keys (after.placements_increasing (.refl _)) ?_ fun b => ?_
  · rw [List.map_append, createdPlacements_keys]
    refine SortedMap.Increasing.append (cons.placements_increasing List.filter_sublist)
      (Handle.issued_increasing room.2) fun k old l new => ?_
    obtain ⟨b, mem, rfl⟩ := List.mem_map.mp old
    obtain ⟨s, t, ⟨found, -⟩, -⟩ := (mem_survivors cons).mp mem
    obtain ⟨e, stored, -⟩ := ends_eq_some.mp found
    obtain ⟨i, lt, rfl⟩ := List.mem_map.mp new
    have room := room.2
    have lt := List.mem_range.mp lt
    exact Handle.lt_issued (by omega) (cons.edge_below (SortedMap.contains_of_get? stored))
  · rw [List.mem_append, after.mem_placements, mem_survivors cons, mem_createdPlacements]
    constructor
    · rintro ⟨s, t, found, ends⟩
      by_cases new : ∃ i < p.newEdges.length, b.1 = host.freshEdge i
      · obtain ⟨i, lt, handle⟩ := new
        have here := List.getElem?_eq_getElem lt
        obtain ⟨s', t', source, target, stored⟩ := newEdge i _ here
        rw [handle, stored] at found
        cases found
        exact .inr ⟨i, _, here, Prod.ext handle (ends.trans (by rw [source, target]))⟩
      · have apart : ∀ i < p.newEdges.length, b.1 ≠ host.freshEdge i :=
          fun i lt eq => new ⟨i, lt, eq⟩
        exact .inl ⟨s, t, (oldEdge b.1 apart s t).mp found, ends⟩
    · rintro (⟨s, t, kept, ends⟩ | ⟨i, e, here, rfl⟩)
      · refine ⟨s, t, (oldEdge b.1 (fun i lt handle => ?_) s t).mpr kept, ends⟩
        have room := room.2
        simp [handle, cons.freshEdge_absent (show _ + i < _ by omega)] at kept
      · obtain ⟨s, t, source, target, stored⟩ := newEdge i e here
        exact ⟨s, t, stored, by rw [source, target]⟩

/-- A production that is applied at a match gives exactly this: the vertices that are not the
image of an unpreserved pattern vertex and one created for each unpaired replacement vertex, the
edges that are not the image of an unpreserved pattern edge and touch no deleted vertex and one
created for each unpaired replacement edge, each list in handle order, with counters that are as
much further as was created. -/
theorem apply_structure {m : Match} (reach : host.Reachable)
    (applied : p.apply host m = .ok result) :
    result.vertexIds =
        host.vertexIds.filter (fun v => ¬ ∃ l, p.DeletesVertex m.embedding l v) ++
          (List.range p.newVertices.length).map host.freshVertex ∧
      result.edges.map Edge.placement =
        (host.edges.filter (p.Survives m.embedding)).map Edge.placement ++
          p.createdPlacements host m.embedding ∧
      result.nextVertex.toNat = host.nextVertex.toNat + p.newVertices.length ∧
      result.nextEdge.toNat = host.nextEdge.toNat + p.newEdges.length := by
  have cons := reach.consistent
  have room := apply_hasRoom cons applied
  obtain ⟨nextVertex, nextEdge, -, -, -⟩ := apply_frame cons applied
  refine ⟨apply_vertexIds cons applied, apply_placements cons applied, ?_, ?_⟩
  · rw [nextVertex, Handle.toNat_word_add room.1]
  · rw [nextEdge, Handle.toNat_word_add room.2]

/-- Replaces the second end of an arrow, with the edge, by a new one. -/
def regrow : Production :=
  { id := ⟨0⟩, name := "regrow", lhs := .ofGraph .arrow .directed, rhs := .arrow
    correspondence := ⟨⟨.ofList [(⟨0⟩, ⟨0⟩)], .ofList [(⟨0⟩, ⟨0⟩)]⟩, .empty⟩
    rules := [], dangling := .reject }

/-- An arrow, and a third vertex with an edge to either end of it. -/
def arrowBelow : Graph :=
  [.addVertex .empty, .addEdge ⟨2⟩ ⟨0⟩ .empty, .addEdge ⟨2⟩ ⟨1⟩ .empty].foldl
    (fun g op => (g.perform op).1) .arrow

/-- The match is at the edge from the third vertex to the first, which is deleted together with
the old arrow. -/
theorem regrow_arrowBelow_structure : ∃ m result,
    let p : Production := { regrow with dangling := .cascade }
    arrowBelow.Reachable ∧ p.apply arrowBelow m = .ok result ∧
      m.embedding.vertex? ⟨0⟩ = some ⟨2⟩ ∧ m.embedding.vertex? ⟨1⟩ = some ⟨0⟩ ∧
      result.vertexIds = [⟨1⟩, ⟨2⟩, ⟨3⟩] ∧
      result.edges.map Edge.placement =
        [(⟨2⟩, some ⟨2⟩, some ⟨1⟩), (⟨3⟩, some ⟨2⟩, some ⟨3⟩)] := by
  let p : Production := { regrow with dangling := .cascade }
  let m : Match := ⟨⟨0⟩, .ofList [(⟨0⟩, ⟨2⟩), (⟨1⟩, ⟨0⟩)], .ofList [(⟨0⟩, ⟨1⟩)]⟩
  have reach : arrowBelow.Reachable := .step _ (.step _ (.step _ Graph.arrow_reachable))
  obtain ⟨result, applied⟩ : ∃ result, p.apply arrowBelow m = .ok result := ⟨_, rfl⟩
  obtain ⟨vertices, edges, -, -⟩ := apply_structure reach applied
  refine ⟨m, result, reach, applied, rfl, rfl, ?_, ?_⟩
  · rw [vertices]
    decide
  · rw [edges]
    decide

end Production

end GraphTransformation
