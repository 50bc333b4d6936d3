import GraphTransformation.Proofs.Graph.Extraction
import GraphTransformation.Proofs.Graph.Loading
import GraphTransformation.Proofs.Graph.Succession
import GraphTransformation.Proofs.History

/-!
The handles that an operation gives out.

`Graph.handsOut` lists what an addition returns and what an application puts its new elements
under; all other operations give out nothing, nor does one that ends early. These are the
handles of the new members, and they follow the counters (`perform_yields`), so they are none
that the graph has given out before.
-/

namespace GraphTransformation

/-- Whether the element is a vertex. -/
def Element.isVertex : Element → Bool
  | .vertex _ => true
  | .edge _ => false

/-- Whether the element is an edge. -/
def Element.isEdge : Element → Bool
  | .vertex _ => false
  | .edge _ => true

namespace Graph

variable {g h k : Graph} {out later : List Element}

/-! ### Handles of one operation -/

/-- The handles that the operation gives out on the graph: what an addition returns, and
what an application puts its new elements under. -/
def handsOut (g : Graph) : Operation → List Element
  | .addVertex attributes =>
    match g.addVertex attributes with
    | .ok (id, _) => [.vertex id]
    | .error _ => []
  | .addEdge source target attributes =>
    match g.addEdge source target attributes with
    | .ok (id, _) => [.edge id]
    | .error _ => []
  | .add new =>
    match g.add new with
    | .ok (element, _) => [element]
    | .error _ => []
  | .apply p m =>
    match p.apply g m with
    | .ok _ => ((List.range p.newVertices.length).map g.freshVertex).map .vertex ++
        ((List.range p.newEdges.length).map g.freshEdge).map .edge
    | .error _ => []
  | _ => []

/-- From `g` to `h` the counters have moved by what was given out, and what was given out had
not been before. -/
structure Allocates (g h : Graph) (out : List Element) : Prop where
  vertexCounter : h.nextVertex.toNat = g.nextVertex.toNat + out.countP Element.isVertex
  edgeCounter : h.nextEdge.toNat = g.nextEdge.toNat + out.countP Element.isEdge
  distinct : out.Nodup
  fresh : ∀ element ∈ out, ¬ g.Issued element
  issued : ∀ element ∈ out, h.Issued element

/-- One operation has led from `g` to `h`: what was given out are the new members, and an
edge of both graphs has the same ends in both. -/
structure Yields (g h : Graph) (out : List Element) : Prop extends Allocates g h out where
  new : ∀ element, element ∈ out ↔ h.contains element = true ∧ ¬ g.contains element = true
  ends : ∀ {e x y}, g.edge? e = some x → h.edge? e = some y → y.ends = x.ends

/-- A graph with nothing but elements of `g`, at the same counters. -/
theorem Yields.of_part (nextVertex : h.nextVertex = g.nextVertex) (nextEdge : h.nextEdge = g.nextEdge)
    (vertices : ∀ v, h.vertexMap.contains v = true → g.vertexMap.contains v = true)
    (edges : ∀ {e y}, h.edge? e = some y → ∃ x, g.edge? e = some x ∧ y.ends = x.ends) :
    Yields g h [] where
  vertexCounter := by simp [nextVertex]
  edgeCounter := by simp [nextEdge]
  distinct := List.nodup_nil
  fresh := by simp
  issued := by simp
  new element := by
    have kept : h.contains element = true → g.contains element = true := by
      intro member
      cases element with
      | vertex v => exact vertices v member
      | edge e =>
        obtain ⟨y, stored⟩ := SortedMap.contains_iff.mp member
        obtain ⟨x, before, -⟩ := edges stored
        exact SortedMap.contains_of_get? before
    simpa using kept
  ends before after := by
    obtain ⟨x, stored, same⟩ := edges after
    cases before.symm.trans stored
    exact same

theorem Yields.refl (g : Graph) : Yields g g [] :=
  .of_part rfl rfl (fun _ => id) fun stored => ⟨_, stored, rfl⟩

theorem Allocates.refl (g : Graph) : Allocates g g [] := (Yields.refl g).toAllocates

theorem Allocates.issues (alloc : Allocates g h out) {element : Element}
    (earlier : g.Issued element) : h.Issued element := by
  have := alloc.vertexCounter
  have := alloc.edgeCounter
  cases element with
  | vertex v =>
    have : v.word.toNat < g.nextVertex.toNat := UInt64.lt_iff_toNat_lt.mp earlier
    exact UInt64.lt_iff_toNat_lt.mpr (by omega)
  | edge e =>
    have : e.word.toNat < g.nextEdge.toNat := UInt64.lt_iff_toNat_lt.mp earlier
    exact UInt64.lt_iff_toNat_lt.mpr (by omega)

/-- What is given out later differs from what was given out before. -/
theorem Allocates.trans (first : Allocates g h out) (second : Allocates h k later) :
    Allocates g k (out ++ later) where
  vertexCounter := by
    rw [second.vertexCounter, first.vertexCounter, List.countP_append, Nat.add_assoc]
  edgeCounter := by
    rw [second.edgeCounter, first.edgeCounter, List.countP_append, Nat.add_assoc]
  distinct := by
    refine List.nodup_append.mpr ⟨first.distinct, second.distinct, ?_⟩
    rintro element early _ late rfl
    exact second.fresh element late (first.issued element early)
  fresh element mem := by
    rcases List.mem_append.mp mem with early | late
    · exact first.fresh element early
    · exact fun earlier => second.fresh element late (first.issues earlier)
  issued element mem := by
    rcases List.mem_append.mp mem with early | late
    · exact second.issues (first.issued element early)
    · exact second.issued element late

/-- A graph with one element more, under a handle that `g` had still to give out. -/
theorem Yields.of_one (cons : g.Consistent) {added : Element} (fresh : ¬ g.Issued added)
    (issued : h.Issued added)
    (vertexCounter : h.nextVertex.toNat = g.nextVertex.toNat + [added].countP Element.isVertex)
    (edgeCounter : h.nextEdge.toNat = g.nextEdge.toNat + [added].countP Element.isEdge)
    (members : ∀ element, h.contains element = true ↔
      element = added ∨ g.contains element = true)
    (ends : ∀ {e x y}, g.edge? e = some x → h.edge? e = some y → y.ends = x.ends) :
    Yields g h [added] where
  vertexCounter := vertexCounter
  edgeCounter := edgeCounter
  distinct := List.nodup_singleton _
  fresh := List.forall_mem_singleton.mpr fresh
  issued := List.forall_mem_singleton.mpr issued
  new element := by
    rw [List.mem_singleton, members]
    constructor
    · rintro rfl
      exact ⟨.inl rfl, fun member => fresh (cons.issued member)⟩
    · rintro ⟨rfl | member, absent⟩
      · rfl
      · exact absurd member absent
  ends := ends

theorem addVertex_yields (cons : g.Consistent) {attributes : Attributes} {id : VertexId}
    (added : g.addVertex attributes = .ok (id, h)) : Yields g h [.vertex id] := by
  obtain ⟨room, rfl, rfl⟩ := addVertex_eq_ok.mp added
  refine .of_one cons (UInt64.lt_irrefl _) (lt_succ_of_room room) (toNat_succ room) rfl
    (fun element => ?_) fun before after => ?_
  · cases element with
    | vertex v =>
      rw [Element.vertex.injEq]
      exact SortedMap.contains_insert
    | edge e => simp [contains, insertVertex]
  · cases before.symm.trans after
    rfl

theorem addEdge_yields (cons : g.Consistent) {source target : VertexId}
    {attributes : Attributes} {id : EdgeId}
    (added : g.addEdge source target attributes = .ok (id, h)) : Yields g h [.edge id] := by
  obtain ⟨-, -, room, rfl, rfl⟩ := addEdge_eq_ok.mp added
  refine .of_one cons (UInt64.lt_irrefl _) (lt_succ_of_room room) rfl (toNat_succ room)
    (fun element => ?_) fun {e x y} before after => ?_
  · cases element with
    | vertex v => simp [contains, insertEdge]
    | edge e =>
      rw [Element.edge.injEq]
      exact SortedMap.contains_insert
  · have apart : e ≠ ⟨g.nextEdge⟩ := by
      rintro rfl
      exact UInt64.lt_irrefl _ (cons.edge_below (SortedMap.contains_of_get? before))
    rw [edge?, insertEdge, SortedMap.get?_insert, if_neg apart] at after
    cases before.symm.trans after
    rfl

theorem add_yields (cons : g.Consistent) {new : NewElement} {element : Element}
    (added : g.add new = .ok (element, h)) : Yields g h [element] := by
  cases new with
  | vertex attributes =>
    obtain ⟨⟨id, k⟩, inner, rest⟩ := bind_eq_ok.mp added
    cases rest
    exact addVertex_yields cons inner
  | edge source target attributes =>
    obtain ⟨⟨id, k⟩, inner, rest⟩ := bind_eq_ok.mp added
    cases rest
    exact addEdge_yields cons inner

theorem takeOut_yields (cons : g.Consistent) (policy : DanglingPolicy) (element : Element) :
    Yields g (g.takeOut policy element).1 [] := by
  rcases cons.takeOut_cases policy element with ⟨e, left, -⟩ | ⟨k, removed, left, done⟩
  · rw [left]
    exact .refl g
  · rw [left]
    cases element with
    | vertex id =>
      obtain ⟨⟨edges, k⟩, inner, rest⟩ := bind_eq_ok.mp done
      cases rest
      obtain ⟨nextVertex, nextEdge, vertices, edges⟩ := cons.removeVertex_frame inner
      refine .of_part nextVertex nextEdge (fun v member => ?_) fun stored => ?_
      · obtain ⟨x, stored⟩ := SortedMap.contains_iff.mp member
        exact SortedMap.contains_of_get? ((vertices v x).mp stored).1
      · exact ⟨_, ((edges _ _).mp stored).1, rfl⟩
    | edge id =>
      obtain ⟨⟨x, k⟩, inner, rest⟩ := bind_eq_ok.mp done
      cases rest
      obtain ⟨-, rfl⟩ := removeEdge_eq_ok.mp inner
      refine .of_part rfl rfl (fun _ member => member) fun {e y} stored => ?_
      rw [edge?, SortedMap.get?_erase] at stored
      split at stored
      · cases stored
      · exact ⟨y, stored, rfl⟩

theorem edit_yields (g : Graph) (f : Attributes → Attributes) (element : Element) :
    Yields g (g.modifyAttributes f element) [] := by
  obtain ⟨vertices, edges, nextVertex, nextEdge⟩ := modifyAttributes_sameStructure g f element
  refine .of_part nextVertex nextEdge (fun v member => vertices v ▸ member) fun {e y} stored => ?_
  have same := edges e
  rw [stored, Option.map_some] at same
  obtain ⟨x, before, ends⟩ := Option.map_eq_some_iff.mp same.symm
  exact ⟨x, before, ends.symm⟩

theorem subgraph_yields (cons : g.Consistent) {vertices : List VertexId} {edges : List EdgeId}
    (taken : g.subgraph vertices edges = .ok h) : Yields g h [] := by
  obtain ⟨hVertices, hEdges, nextVertex, nextEdge⟩ := cons.subgraph_frame taken
  refine .of_part nextVertex nextEdge (fun v member => ?_) fun {e y} stored => ?_
  · obtain ⟨x, stored⟩ := SortedMap.contains_iff.mp member
    rw [← vertex?, hVertices] at stored
    split at stored
    · exact SortedMap.contains_of_get? stored
    · cases stored
  · rw [hEdges] at stored
    split at stored
    · exact ⟨y, stored, rfl⟩
    · cases stored

section Applications

variable {p : Production} {m : Match} {v : VertexId} {e : EdgeId}

theorem vertex_mem_handsOut (applied : p.apply g m = .ok h) :
    .vertex v ∈ g.handsOut (.apply p m) ↔ ∃ i < p.newVertices.length, v = g.freshVertex i := by
  simp [handsOut, applied, eq_comm]

theorem edge_mem_handsOut (applied : p.apply g m = .ok h) :
    .edge e ∈ g.handsOut (.apply p m) ↔ ∃ i < p.newEdges.length, e = g.freshEdge i := by
  simp [handsOut, applied, eq_comm]

/-- An application gives out a handle for each element that it creates. -/
theorem countP_handsOut_apply (applied : p.apply g m = .ok h) :
    (g.handsOut (.apply p m)).countP Element.isVertex = p.newVertices.length ∧
      (g.handsOut (.apply p m)).countP Element.isEdge = p.newEdges.length := by
  simp only [handsOut, applied]
  constructor
  · simp [List.countP_map, Function.comp_def, Element.isVertex]
  · simp [List.countP_map, Function.comp_def, Element.isEdge]

theorem handsOut_apply_nodup (cons : g.Consistent) (applied : p.apply g m = .ok h) :
    (g.handsOut (.apply p m)).Nodup := by
  have room := Production.apply_hasRoom cons applied
  have vertices : ((List.range p.newVertices.length).map g.freshVertex).Nodup :=
    (Handle.issued_increasing room.1).nodup
  have edges : ((List.range p.newEdges.length).map g.freshEdge).Nodup :=
    (Handle.issued_increasing room.2).nodup
  simp only [handsOut, applied]
  refine List.nodup_append.mpr ⟨?_, ?_, ?_⟩
  · exact vertices.map fun _ _ => Element.vertex.inj
  · exact edges.map fun _ _ => Element.edge.inj
  · simp

theorem handsOut_apply_fresh (cons : g.Consistent) (applied : p.apply g m = .ok h)
    {element : Element} (out : element ∈ g.handsOut (.apply p m)) : ¬ g.Issued element := by
  obtain ⟨vertexRoom, edgeRoom⟩ := Production.apply_hasRoom cons applied
  cases element with
  | vertex v =>
    obtain ⟨i, lt, rfl⟩ := (vertex_mem_handsOut applied).mp out
    exact Handle.issued_not_below (by omega)
  | edge e =>
    obtain ⟨i, lt, rfl⟩ := (edge_mem_handsOut applied).mp out
    exact Handle.issued_not_below (by omega)

/-- What an application gives out are the elements that it adds. -/
theorem mem_handsOut_apply (cons : g.Consistent) (applied : p.apply g m = .ok h)
    (element : Element) :
    element ∈ g.handsOut (.apply p m) ↔
      h.contains element = true ∧ ¬ g.contains element = true := by
  obtain ⟨-, -, vertices, newEdge, oldEdge⟩ := Production.apply_frame cons applied
  constructor
  · intro out
    refine ⟨?_, fun member => handsOut_apply_fresh cons applied out (cons.issued member)⟩
    cases element with
    | vertex v => exact (vertices v).mpr (.inr ((vertex_mem_handsOut applied).mp out))
    | edge e =>
      obtain ⟨i, lt, rfl⟩ := (edge_mem_handsOut applied).mp out
      obtain ⟨s, t, -, -, ends⟩ := newEdge i _ (List.getElem?_eq_getElem lt)
      obtain ⟨x, stored, -⟩ := ends_eq_some.mp ends
      exact SortedMap.contains_of_get? stored
  · rintro ⟨member, absent⟩
    cases element with
    | vertex v =>
      rcases (vertices v).mp member with ⟨before, -⟩ | created
      · exact absurd before absent
      · exact (vertex_mem_handsOut applied).mpr created
    | edge e =>
      refine (edge_mem_handsOut applied).mpr ?_
      by_contra old
      obtain ⟨y, stored⟩ := SortedMap.contains_iff.mp member
      have apart : ∀ i < p.newEdges.length, e ≠ g.freshEdge i := fun i lt eq => old ⟨i, lt, eq⟩
      obtain ⟨left, -⟩ := (oldEdge e apart _ _).mp (ends_eq_some.mpr ⟨y, stored, rfl, rfl⟩)
      obtain ⟨x, before, -⟩ := ends_eq_some.mp left
      exact absent (SortedMap.contains_of_get? before)

/-- The new elements of an application stand under the handles that follow the counters. -/
theorem apply_yields (cons : g.Consistent) (applied : p.apply g m = .ok h) :
    Yields g h (g.handsOut (.apply p m)) := by
  have room := Production.apply_hasRoom cons applied
  have hCons := Production.apply_consistent cons applied
  have follows := Production.apply_follows cons applied
  have added := mem_handsOut_apply cons applied
  obtain ⟨nextVertex, nextEdge, -⟩ := Production.apply_frame cons applied
  obtain ⟨vertices, edges⟩ := countP_handsOut_apply applied
  constructor
  case new => exact added
  case ends => exact follows.ends
  case toAllocates =>
    constructor
    case vertexCounter => rw [nextVertex, Handle.toNat_word_add room.1, vertices]
    case edgeCounter => rw [nextEdge, Handle.toNat_word_add room.2, edges]
    case distinct => exact handsOut_apply_nodup cons applied
    case fresh => exact fun element out => handsOut_apply_fresh cons applied out
    case issued => exact fun element out => hCons.issued ((added element).mp out).1

end Applications

/-- An operation gives out the handles of the new members, which follow the counters. -/
theorem perform_yields (cons : g.Consistent) (op : Operation) :
    Yields g (g.perform op).1 (g.handsOut op) := by
  cases op with
  | addVertex attributes =>
    rw [perform, handsOut]
    cases outcome : g.addVertex attributes with
    | error e => exact .refl g
    | ok r => exact addVertex_yields cons outcome
  | addEdge source target attributes =>
    rw [perform, handsOut]
    cases outcome : g.addEdge source target attributes with
    | error e => exact .refl g
    | ok r => exact addEdge_yields cons outcome
  | add new =>
    rw [perform, handsOut]
    cases outcome : g.add new with
    | error e => exact .refl g
    | ok r => exact add_yields cons outcome
  | removeEdge id => exact takeOut_yields cons .cascade (.edge id)
  | removeVertex id policy => exact takeOut_yields cons policy (.vertex id)
  | remove element => exact takeOut_yields cons .cascade element
  | removeWithPolicy policy element => exact takeOut_yields cons policy element
  | edit f element => exact edit_yields g f element
  | subgraph vertices edges =>
    rw [perform]
    cases outcome : g.subgraph vertices edges with
    | error e => exact .refl g
    | ok k => exact subgraph_yields cons outcome
  | reload =>
    rw [perform, cons.load_snapshot]
    split
    · exact .refl g
    · exact .refl g
  | apply p m =>
    rw [perform]
    cases outcome : p.apply g m with
    | error e =>
      rw [handsOut, outcome]
      exact .refl g
    | ok k => exact apply_yields cons outcome

end Graph

end GraphTransformation
