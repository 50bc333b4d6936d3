import GraphTransformation.Graph.Basic
import GraphTransformation.Proofs.SortedMap

/-!
The invariant that ties the maps, the indexes and the counters of a graph.

`Graph.Consistent` says that elements are stored under their own handles, that no
edge dangles, that each index lists for every vertex, and for nothing else, the
edges with that end, and that all handles lie below the counters. The invariant
of one index (`Indexed`) is shown once for both ends; each operation that changes
a graph then keeps `Consistent`.
-/

namespace GraphTransformation

/-! ### Steps that succeed and steps that fail -/

theorem bind_eq_ok {ε α β : Type} {x : Except ε α} {f : α → Except ε β} {b : β} :
    (x >>= f) = .ok b ↔ ∃ a, x = .ok a ∧ f a = .ok b := by
  cases x with
  | error e => simp [bind, Except.bind]
  | ok a => simp [bind, Except.bind]

theorem bind_eq_error {ε α β : Type} {x : Except ε α} {f : α → Except ε β} {e : ε} :
    (x >>= f) = .error e ↔ x = .error e ∨ ∃ a, x = .ok a ∧ f a = .error e := by
  cases x with
  | error cause => simp [bind, Except.bind]
  | ok a => simp [bind, Except.bind]

/-- A step that may only fail, among steps that may also carry a counter past the last word. -/
theorem liftM_eq_ok {α : Type} {x : Except Error α} {a : α} :
    (liftM x : Except Stop α) = .ok a ↔ x = .ok a := by
  cases x with
  | error e => simp [liftM, monadLift, MonadLift.monadLift, Except.mapError]
  | ok b => simp [liftM, monadLift, MonadLift.monadLift, Except.mapError]

theorem liftM_eq_error {α : Type} {x : Except Error α} {s : Stop} :
    (liftM x : Except Stop α) = .error s ↔ ∃ e, x = .error e ∧ s = .failed e := by
  cases x with
  | error e => simp [liftM, monadLift, MonadLift.monadLift, Except.mapError, eq_comm]
  | ok b => simp [liftM, monadLift, MonadLift.monadLift, Except.mapError]

theorem liftM_bind_of_ok {α β : Type} {x : Except Error α} {a : α} {f : α → Except Stop β}
    (done : x = .ok a) : (liftM x >>= f) = f a := by
  rw [done]
  rfl

/-- A step that may only fail does not stop the others for want of a handle. -/
theorem liftM_bind_overflow {α β : Type} {x : Except Error α} {f : α → Except Stop β} :
    (liftM x >>= f) = .error .overflow ↔ ∃ a, x = .ok a ∧ f a = .error .overflow := by
  rw [bind_eq_error]
  constructor
  · rintro (lifted | ⟨a, done, stopped⟩)
    · obtain ⟨e, -, differs⟩ := liftM_eq_error.mp lifted
      cases differs
    · exact ⟨a, liftM_eq_ok.mp done, stopped⟩
  · rintro ⟨a, done, stopped⟩
    exact .inr ⟨a, liftM_eq_ok.mpr done, stopped⟩

/-! ### One index -/

/-- Every edge has its end `terminal` among the vertices, and the index lists for
each vertex, and for nothing else, the edges with that end. -/
structure Indexed (vertices : SortedMap VertexId Vertex) (edges : SortedMap EdgeId Edge)
    (terminal : Edge → VertexId) (index : SortedMap VertexId (SortedSet EdgeId)) : Prop where
  member : ∀ {k e}, edges.get? k = some e → vertices.contains (terminal e) = true
  keys : ∀ v, index.contains v = true ↔ vertices.contains v = true
  entries : ∀ {v s}, index.get? v = some s →
    ∀ k, s.contains k = true ↔ (edges.get? k).map terminal = some v

namespace Indexed

variable {vertices : SortedMap VertexId Vertex} {edges : SortedMap EdgeId Edge}
  {terminal : Edge → VertexId} {index : SortedMap VertexId (SortedSet EdgeId)}

theorem empty : Indexed .empty .empty terminal .empty where
  member found := by simp at found
  keys v := by simp
  entries found := by simp at found

/-- What the index lists for a vertex, be it a member or not. -/
theorem contains_entry (h : Indexed vertices edges terminal index) (v : VertexId) (k : EdgeId) :
    ((index.get? v).getD .empty).contains k = true ↔ (edges.get? k).map terminal = some v := by
  cases found : index.get? v with
  | some s => exact h.entries found k
  | none =>
    simp only [Option.getD_none, SortedMap.contains_empty, Bool.false_eq_true, false_iff]
    intro listed
    obtain ⟨e, stored, rfl⟩ := Option.map_eq_some_iff.mp listed
    have key := (h.keys (terminal e)).mpr (h.member stored)
    obtain ⟨s, present⟩ := SortedMap.contains_iff.mp key
    simp [found] at present

theorem insertVertex (h : Indexed vertices edges terminal index) (id : VertexId) (v : Vertex) :
    Indexed (vertices.insert id v) edges terminal
      (index.insert id ((index.get? id).getD .empty)) where
  member found := SortedMap.contains_insert.mpr (.inr (h.member found))
  keys w := by rw [SortedMap.contains_insert, SortedMap.contains_insert, h.keys]
  entries {w s} found k := by
    rw [SortedMap.get?_insert] at found
    split at found
    · rename_i eq
      cases found
      rw [eq]
      exact h.contains_entry id k
    · exact h.entries found k

/-- An edge may be put in again as long as its end stays. -/
theorem insertEdge (h : Indexed vertices edges terminal index) {e : Edge}
    (mem : vertices.contains (terminal e) = true)
    (same : ∀ old, edges.get? e.id = some old → terminal old = terminal e) :
    Indexed vertices (edges.insert e.id e) terminal
      (Graph.indexEdge index (terminal e) e.id) where
  member {k old} found := by
    rw [SortedMap.get?_insert] at found
    split at found
    · cases found
      exact mem
    · exact h.member found
  keys v := by
    rw [Graph.indexEdge, SortedMap.contains_insert, h.keys]
    constructor
    · rintro (rfl | key)
      · exact mem
      · exact key
    · exact .inr
  entries {v s} found k := by
    rw [Graph.indexEdge, SortedMap.get?_insert] at found
    rw [SortedMap.get?_insert]
    split at found
    · rename_i eq
      cases found
      rw [SortedMap.contains_insert, h.contains_entry, eq]
      by_cases new : k = e.id <;> simp [new]
    · rename_i other
      rw [h.entries found k]
      by_cases new : k = e.id
      · subst new
        -- an earlier edge of this handle had the same end, so it is not listed here either
        simp only [if_true, Option.map_some, Option.some.injEq]
        constructor
        · intro listed
          obtain ⟨old, stored, rfl⟩ := Option.map_eq_some_iff.mp listed
          exact (same old stored).symm
        · intro eq
          exact absurd eq.symm other
      · simp [new]

theorem eraseEdge (h : Indexed vertices edges terminal index) {id : EdgeId} {e : Edge}
    (stored : edges.get? id = some e) :
    Indexed vertices (edges.erase id) terminal (index.modify (terminal e) (·.erase id)) where
  member {k old} found := by
    rw [SortedMap.get?_erase] at found
    split at found
    · cases found
    · exact h.member found
  keys v := by rw [SortedMap.contains_modify, h.keys]
  entries {v s} found k := by
    rw [SortedMap.get?_modify] at found
    rw [SortedMap.get?_erase]
    split at found
    · rename_i eq
      obtain ⟨t, present, rfl⟩ := Option.map_eq_some_iff.mp found
      rw [SortedMap.contains_erase, h.entries present, eq]
      by_cases gone : k = id <;> simp [gone]
    · rename_i other
      rw [h.entries found]
      by_cases gone : k = id
      · subst gone
        simp [stored, Ne.symm other]
      · simp [gone]

theorem eraseVertex (h : Indexed vertices edges terminal index) {id : VertexId}
    (clear : ∀ k e, edges.get? k = some e → terminal e ≠ id) :
    Indexed (vertices.erase id) edges terminal (index.erase id) where
  member {k e} found := SortedMap.contains_erase.mpr ⟨clear k e found, h.member found⟩
  keys v := by rw [SortedMap.contains_erase, SortedMap.contains_erase, h.keys]
  entries {v s} found k := by
    rw [SortedMap.get?_erase] at found
    split at found
    · cases found
    · exact h.entries found k

theorem modifyVertex (h : Indexed vertices edges terminal index) (id : VertexId)
    (f : Vertex → Vertex) : Indexed (vertices.modify id f) edges terminal index where
  member found := by rw [SortedMap.contains_modify]; exact h.member found
  keys v := by rw [SortedMap.contains_modify]; exact h.keys v
  entries := h.entries

theorem modifyEdge (h : Indexed vertices edges terminal index) (id : EdgeId) {f : Edge → Edge}
    (keeps : ∀ e, terminal (f e) = terminal e) :
    Indexed vertices (edges.modify id f) terminal index := by
  have ends : ∀ k, ((edges.modify id f).get? k).map terminal = (edges.get? k).map terminal := by
    intro k
    rw [SortedMap.get?_modify]
    split
    · rename_i eq
      subst eq
      rw [Option.map_map]
      exact congrArg (Option.map · _) (funext keeps)
    · rfl
  refine ⟨fun {k e} found => ?_, h.keys, fun found k => ?_⟩
  · have stored := ends k
    rw [found, Option.map_some] at stored
    obtain ⟨old, present, eq⟩ := Option.map_eq_some_iff.mp stored.symm
    exact eq ▸ h.member present
  · rw [ends]
    exact h.entries found k

end Indexed

namespace Graph

/-! ### The invariant -/

/-- The maps, the indexes and the counters of the graph fit together. -/
structure Consistent (g : Graph) : Prop where
  vertex_id : ∀ {k v}, g.vertex? k = some v → v.id = k
  edge_id : ∀ {k e}, g.edge? k = some e → e.id = k
  outgoing : Indexed g.vertexMap g.edgeMap Edge.source g.outgoingIndex
  incoming : Indexed g.vertexMap g.edgeMap Edge.target g.incomingIndex
  vertex_below : ∀ {k}, g.vertexMap.contains k = true → k.word < g.nextVertex
  edge_below : ∀ {k}, g.edgeMap.contains k = true → k.word < g.nextEdge

/-- Both maps and both indexes are unchanged, and no counter has gone down. -/
theorem Consistent.raise {g : Graph} (h : g.Consistent) {nextVertex nextEdge : UInt64}
    (vertexLe : g.nextVertex ≤ nextVertex) (edgeLe : g.nextEdge ≤ nextEdge) :
    Consistent { g with nextVertex, nextEdge } where
  vertex_id := h.vertex_id
  edge_id := h.edge_id
  outgoing := h.outgoing
  incoming := h.incoming
  vertex_below mem := UInt64.lt_of_lt_of_le (h.vertex_below mem) vertexLe
  edge_below mem := UInt64.lt_of_lt_of_le (h.edge_below mem) edgeLe

/-- The graph without elements, at any counters. -/
theorem blank_consistent (nextVertex nextEdge : UInt64) :
    Consistent { empty with nextVertex, nextEdge } where
  vertex_id found := by simp [vertex?, empty] at found
  edge_id found := by simp [edge?, empty] at found
  outgoing := .empty
  incoming := .empty
  vertex_below mem := by simp [empty] at mem
  edge_below mem := by simp [empty] at mem

variable {g h : Graph}

/-- No member stands under a handle that is still to be given out. -/
theorem Consistent.vertex_fresh (cons : g.Consistent) {v : VertexId}
    (fresh : ¬ v.word < g.nextVertex) : g.vertex? v = none :=
  SortedMap.get?_eq_none_of_not_contains fun mem => fresh (cons.vertex_below mem)

theorem Consistent.edge_fresh (cons : g.Consistent) {k : EdgeId}
    (fresh : ¬ k.word < g.nextEdge) : g.edge? k = none :=
  SortedMap.get?_eq_none_of_not_contains fun mem => fresh (cons.edge_below mem)

/-! ### Insertion -/

theorem Consistent.insertVertex (cons : g.Consistent) {v : Vertex}
    (below : v.id.word < g.nextVertex) : (g.insertVertex v).Consistent where
  vertex_id {k w} found := by
    rw [vertex?, Graph.insertVertex, SortedMap.get?_insert] at found
    split at found
    · rename_i eq
      cases found
      exact eq.symm
    · exact cons.vertex_id found
  edge_id := cons.edge_id
  outgoing := cons.outgoing.insertVertex v.id v
  incoming := cons.incoming.insertVertex v.id v
  vertex_below {k} mem := by
    rcases SortedMap.contains_insert.mp mem with rfl | old
    · exact below
    · exact cons.vertex_below old
  edge_below := cons.edge_below

theorem Consistent.insertEdge (cons : g.Consistent) {e : Edge}
    (below : e.id.word < g.nextEdge)
    (source : g.vertexMap.contains e.source = true)
    (target : g.vertexMap.contains e.target = true)
    (same : ∀ old, g.edge? e.id = some old → old.source = e.source ∧ old.target = e.target) :
    (g.insertEdge e).Consistent where
  vertex_id := cons.vertex_id
  edge_id {k old} found := by
    rw [edge?, Graph.insertEdge, SortedMap.get?_insert] at found
    split at found
    · rename_i eq
      cases found
      exact eq.symm
    · exact cons.edge_id found
  outgoing := cons.outgoing.insertEdge source fun old stored => (same old stored).1
  incoming := cons.incoming.insertEdge target fun old stored => (same old stored).2
  vertex_below := cons.vertex_below
  edge_below {k} mem := by
    rcases SortedMap.contains_insert.mp mem with rfl | old
    · exact below
    · exact cons.edge_below old

theorem checkEndpoints_eq_ok {vs : List VertexId} :
    g.checkEndpoints vs = .ok () ↔ ∀ v ∈ vs, g.vertexMap.contains v = true := by
  induction vs with
  | nil => simp [checkEndpoints]
  | cons v rest ih =>
    rw [checkEndpoints]
    split
    · rename_i mem
      simp [ih, mem]
    · rename_i missing
      simp [missing]

theorem checkEndpoints_pair {v w : VertexId} : g.checkEndpoints [v, w] = .ok () ↔
    g.vertexMap.contains v = true ∧ g.vertexMap.contains w = true := by
  simp [checkEndpoints_eq_ok]

theorem checkEndpoints_error {vs : List VertexId} {cause : Error}
    (failed : g.checkEndpoints vs = .error cause) :
    ∃ v ∈ vs, ¬ g.vertexMap.contains v = true ∧ cause = .invalidReference v := by
  induction vs with
  | nil => cases failed
  | cons v rest ih =>
    rw [checkEndpoints] at failed
    split at failed
    · obtain ⟨w, listed, missing⟩ := ih failed
      exact ⟨w, List.mem_cons_of_mem _ listed, missing⟩
    · rename_i missing
      cases failed
      exact ⟨v, List.mem_cons_self, missing, rfl⟩

theorem eq_lastWord_iff {counter : UInt64} :
    counter = lastWord ↔ ¬ counter.toNat + 1 < UInt64.size := by
  have bound := counter.toNat_lt
  have size : UInt64.size = 2 ^ 64 := rfl
  have word : lastWord.toNat = 2 ^ 64 - 1 := rfl
  rw [← UInt64.toNat_inj, word]
  omega

/-- A counter goes one up, unless it has come to the last word. -/
theorem advance_eq_ok {counter next : UInt64} : advance counter = .ok next ↔
    counter.toNat + 1 < UInt64.size ∧ next = counter + 1 := by
  rw [advance]
  split
  · rename_i last
    simp [eq_lastWord_iff.mp last]
  · rename_i before
    rw [eq_lastWord_iff, not_not] at before
    simp [before, eq_comm]

theorem advance_eq_error {counter : UInt64} {s : Stop} : advance counter = .error s ↔
    s = .overflow ∧ ¬ counter.toNat + 1 < UInt64.size := by
  rw [advance, ← eq_lastWord_iff]
  split
  · rename_i last
    simp [last, eq_comm]
  · rename_i before
    simp [before]

theorem toNat_succ {counter : UInt64} (room : counter.toNat + 1 < UInt64.size) :
    (counter + 1).toNat = counter.toNat + 1 := by
  rw [UInt64.toNat_add]
  exact Nat.mod_eq_of_lt room

theorem lt_succ_of_room {counter : UInt64} (room : counter.toNat + 1 < UInt64.size) :
    counter < counter + 1 := by
  rw [UInt64.lt_iff_toNat_lt, toNat_succ room]
  omega

/-- What adding a vertex does when it succeeds. -/
theorem addVertex_eq_ok {attributes : Attributes} {id : VertexId} :
    g.addVertex attributes = .ok (id, h) ↔ g.nextVertex.toNat + 1 < UInt64.size ∧
      id = ⟨g.nextVertex⟩ ∧
      h = { g.insertVertex ⟨⟨g.nextVertex⟩, attributes⟩ with nextVertex := g.nextVertex + 1 } := by
  rw [addVertex, bind_eq_ok]
  constructor
  · rintro ⟨next, advanced, done⟩
    obtain ⟨room, rfl⟩ := advance_eq_ok.mp advanced
    cases done
    exact ⟨room, rfl, rfl⟩
  · rintro ⟨room, rfl, rfl⟩
    exact ⟨_, advance_eq_ok.mpr ⟨room, rfl⟩, rfl⟩

/-- Adding a vertex stops for want of a handle, and for nothing else. -/
theorem addVertex_eq_error {attributes : Attributes} {s : Stop} :
    g.addVertex attributes = .error s ↔
      s = .overflow ∧ ¬ g.nextVertex.toNat + 1 < UInt64.size := by
  rw [addVertex, bind_eq_error]
  constructor
  · rintro (stopped | ⟨next, -, done⟩)
    · exact advance_eq_error.mp stopped
    · cases done
  · exact fun stopped => .inl (advance_eq_error.mpr stopped)

theorem Consistent.addVertex (cons : g.Consistent) {attributes : Attributes} {id : VertexId}
    (added : g.addVertex attributes = .ok (id, h)) : h.Consistent := by
  obtain ⟨room, -, rfl⟩ := addVertex_eq_ok.mp added
  have lt := lt_succ_of_room room
  have raised := cons.raise (UInt64.le_of_lt lt) (UInt64.le_refl g.nextEdge)
  exact raised.insertVertex (v := ⟨⟨g.nextVertex⟩, attributes⟩) lt

/-- What adding an edge does when it succeeds. -/
theorem addEdge_eq_ok {source target : VertexId} {attributes : Attributes} {id : EdgeId} :
    g.addEdge source target attributes = .ok (id, h) ↔
      g.vertexMap.contains source = true ∧ g.vertexMap.contains target = true ∧
        g.nextEdge.toNat + 1 < UInt64.size ∧ id = ⟨g.nextEdge⟩ ∧
        h = { g.insertEdge ⟨⟨g.nextEdge⟩, source, target, attributes⟩ with
          nextEdge := g.nextEdge + 1 } := by
  rw [addEdge, bind_eq_ok]
  constructor
  · rintro ⟨_, checked, rest⟩
    obtain ⟨sourceMem, targetMem⟩ := checkEndpoints_pair.mp (liftM_eq_ok.mp checked)
    obtain ⟨next, advanced, done⟩ := bind_eq_ok.mp rest
    obtain ⟨room, rfl⟩ := advance_eq_ok.mp advanced
    cases done
    exact ⟨sourceMem, targetMem, room, rfl, rfl⟩
  · rintro ⟨sourceMem, targetMem, room, rfl, rfl⟩
    exact ⟨(), liftM_eq_ok.mpr (checkEndpoints_pair.mpr ⟨sourceMem, targetMem⟩),
      bind_eq_ok.mpr ⟨_, advance_eq_ok.mpr ⟨room, rfl⟩, rfl⟩⟩

/-- Adding an edge stops for want of a handle if its ends are there. -/
theorem addEdge_overflow {source target : VertexId} {attributes : Attributes} :
    g.addEdge source target attributes = .error .overflow ↔
      g.vertexMap.contains source = true ∧ g.vertexMap.contains target = true ∧
        ¬ g.nextEdge.toNat + 1 < UInt64.size := by
  rw [addEdge, liftM_bind_overflow]
  constructor
  · rintro ⟨_, checked, rest⟩
    obtain ⟨sourceMem, targetMem⟩ := checkEndpoints_pair.mp checked
    rcases bind_eq_error.mp rest with stopped | ⟨next, -, done⟩
    · exact ⟨sourceMem, targetMem, (advance_eq_error.mp stopped).2⟩
    · cases done
  · rintro ⟨sourceMem, targetMem, full⟩
    exact ⟨(), checkEndpoints_pair.mpr ⟨sourceMem, targetMem⟩,
      bind_eq_error.mpr (.inl (advance_eq_error.mpr ⟨rfl, full⟩))⟩

/-- Adding an edge between members does not fail. -/
theorem addEdge_not_failed {source target : VertexId} {attributes : Attributes} {e : Error}
    (sourceMem : g.vertexMap.contains source = true)
    (targetMem : g.vertexMap.contains target = true) :
    g.addEdge source target attributes ≠ .error (.failed e) := by
  intro failed
  have checked := checkEndpoints_pair.mpr ⟨sourceMem, targetMem⟩
  rw [addEdge, liftM_bind_of_ok checked] at failed
  rcases bind_eq_error.mp failed with stopped | ⟨next, -, done⟩
  · cases (advance_eq_error.mp stopped).1
  · cases done

theorem Consistent.addEdge (cons : g.Consistent) {source target : VertexId}
    {attributes : Attributes} {id : EdgeId}
    (added : g.addEdge source target attributes = .ok (id, h)) : h.Consistent := by
  obtain ⟨sourceMem, targetMem, room, -, rfl⟩ := addEdge_eq_ok.mp added
  have lt := lt_succ_of_room room
  have raised := cons.raise (UInt64.le_refl g.nextVertex) (UInt64.le_of_lt lt)
  refine raised.insertEdge (e := ⟨⟨g.nextEdge⟩, source, target, attributes⟩) lt sourceMem
    targetMem fun old stored => ?_
  have fresh : g.edge? ⟨g.nextEdge⟩ = none := cons.edge_fresh (UInt64.lt_irrefl _)
  rw [show g.edge? ⟨g.nextEdge⟩ = some old from stored] at fresh
  cases fresh

theorem Consistent.add (cons : g.Consistent) {new : NewElement} {element : Element}
    (added : g.add new = .ok (element, h)) : h.Consistent := by
  cases new with
  | vertex attributes =>
    obtain ⟨⟨id, k⟩, inner, rest⟩ := bind_eq_ok.mp added
    cases rest
    exact cons.addVertex inner
  | edge source target attributes =>
    obtain ⟨⟨id, k⟩, inner, rest⟩ := bind_eq_ok.mp added
    cases rest
    exact cons.addEdge inner

/-! ### Attributes -/

theorem Consistent.modifyAttributes (cons : g.Consistent) (f : Attributes → Attributes)
    (element : Element) : (g.modifyAttributes f element).Consistent := by
  cases element with
  | vertex id =>
    refine ⟨fun {k v} found => ?_, cons.edge_id, cons.outgoing.modifyVertex id _,
      cons.incoming.modifyVertex id _, fun mem => ?_, cons.edge_below⟩
    · rw [vertex?, Graph.modifyAttributes, SortedMap.get?_modify] at found
      split at found
      · rename_i eq
        obtain ⟨w, stored, rfl⟩ := Option.map_eq_some_iff.mp found
        exact (cons.vertex_id stored).trans eq.symm
      · exact cons.vertex_id found
    · exact cons.vertex_below (SortedMap.contains_modify.symm.trans mem)
  | edge id =>
    refine ⟨cons.vertex_id, fun {k e} found => ?_, cons.outgoing.modifyEdge id fun _ => rfl,
      cons.incoming.modifyEdge id fun _ => rfl, cons.vertex_below, fun mem => ?_⟩
    · rw [edge?, Graph.modifyAttributes, SortedMap.get?_modify] at found
      split at found
      · rename_i eq
        obtain ⟨w, stored, rfl⟩ := Option.map_eq_some_iff.mp found
        exact (cons.edge_id stored).trans eq.symm
      · exact cons.edge_id found
    · exact cons.edge_below (SortedMap.contains_modify.symm.trans mem)

/-! ### Listed members -/

theorem vertexIds_nodup (g : Graph) : g.vertexIds.Nodup := SortedMap.keys_nodup g.vertexMap

theorem length_vertexIds : g.vertexIds.length = g.vertexCount := List.length_map _

theorem Consistent.mem_vertices (cons : g.Consistent) {x : Vertex} :
    x ∈ g.vertices ↔ g.vertex? x.id = some x := SortedMap.mem_values_iff cons.vertex_id

theorem Consistent.mem_edges (cons : g.Consistent) {e : Edge} :
    e ∈ g.edges ↔ g.edge? e.id = some e := SortedMap.mem_values_iff cons.edge_id

theorem Consistent.vertices_ids (cons : g.Consistent) : g.vertices.map (·.id) = g.vertexIds :=
  SortedMap.values_map_eq_keys cons.vertex_id

theorem Consistent.edges_ids (cons : g.Consistent) : g.edges.map (·.id) = g.edgeIds :=
  SortedMap.values_map_eq_keys cons.edge_id

theorem Consistent.source_mem (cons : g.Consistent) {k : EdgeId} {e : Edge}
    (stored : g.edge? k = some e) : e.source ∈ g.vertexIds :=
  SortedMap.mem_keys.mpr (cons.outgoing.member stored)

theorem Consistent.target_mem (cons : g.Consistent) {k : EdgeId} {e : Edge}
    (stored : g.edge? k = some e) : e.target ∈ g.vertexIds :=
  SortedMap.mem_keys.mpr (cons.incoming.member stored)

/-- The edges that pass a test, found by going through all edges, in handle order. -/
def scan (g : Graph) (test : Edge → Bool) : List EdgeId := (g.edges.filter test).map (·.id)

theorem Consistent.mem_scan (cons : g.Consistent) {test : Edge → Bool} {id : EdgeId} :
    id ∈ g.scan test ↔ ∃ e, g.edge? id = some e ∧ test e = true := by
  simp only [scan, List.mem_map, List.mem_filter]
  constructor
  · rintro ⟨e, ⟨mem, passes⟩, rfl⟩
    exact ⟨e, cons.mem_edges.mp mem, passes⟩
  · rintro ⟨e, stored, passes⟩
    have own := cons.edge_id stored
    exact ⟨e, ⟨cons.mem_edges.mpr (own.symm ▸ stored), passes⟩, own⟩

theorem Consistent.scan_increasing (cons : g.Consistent) (test : Edge → Bool) :
    SortedMap.Increasing (g.scan test) := by
  have all : SortedMap.Increasing (g.edges.map (·.id)) :=
    cons.edges_ids ▸ SortedMap.keys_increasing g.edgeMap
  exact List.Pairwise.sublist (List.filter_sublist.map _) all

/-- A list in handle order with the members of a scan is the scan. -/
theorem Consistent.eq_scan (cons : g.Consistent) {ids : List EdgeId}
    (inc : SortedMap.Increasing ids) {test : Edge → Bool}
    (members : ∀ id, id ∈ ids ↔ ∃ e, g.edge? id = some e ∧ test e = true) :
    ids = g.scan test :=
  SortedMap.eq_of_increasing inc (cons.scan_increasing test) fun id =>
    (members id).trans cons.mem_scan.symm

/-! ### Edges at a vertex -/

theorem outgoing_increasing (g : Graph) (v : VertexId) : SortedMap.Increasing (g.outgoing v) :=
  SortedMap.keys_increasing _

theorem incoming_increasing (g : Graph) (v : VertexId) : SortedMap.Increasing (g.incoming v) :=
  SortedMap.keys_increasing _

theorem Consistent.mem_outgoing (cons : g.Consistent) {v : VertexId} {k : EdgeId} :
    k ∈ g.outgoing v ↔ ∃ e, g.edge? k = some e ∧ e.source = v := by
  rw [Graph.outgoing, SortedMap.mem_keys, cons.outgoing.contains_entry, Option.map_eq_some_iff]
  rfl

theorem Consistent.mem_incoming (cons : g.Consistent) {v : VertexId} {k : EdgeId} :
    k ∈ g.incoming v ↔ ∃ e, g.edge? k = some e ∧ e.target = v := by
  rw [Graph.incoming, SortedMap.mem_keys, cons.incoming.contains_entry, Option.map_eq_some_iff]
  rfl

theorem Consistent.mem_incidentEdges (cons : g.Consistent) {v : VertexId} {k : EdgeId} :
    k ∈ g.incidentEdges v ↔ ∃ e, g.edge? k = some e ∧ (e.source = v ∨ e.target = v) := by
  rw [incidentEdges, SortedMap.mem_distinct, List.mem_append, cons.mem_outgoing,
    cons.mem_incoming, ← exists_or]
  simp only [and_or_left]

/-! ### Removal -/

/-- What removing an edge does when it succeeds. -/
theorem removeEdge_eq_ok {id : EdgeId} {e : Edge} :
    g.removeEdge id = .ok (e, h) ↔ g.edge? id = some e ∧
      h = { g with
        edgeMap := g.edgeMap.erase id
        outgoingIndex := g.outgoingIndex.modify e.source (·.erase id)
        incomingIndex := g.incomingIndex.modify e.target (·.erase id) } := by
  rw [removeEdge]
  cases stored : g.edge? id with
  | none => simp
  | some old =>
    simp only [Except.ok.injEq, Prod.mk.injEq, Option.some.injEq]
    constructor
    · rintro ⟨rfl, rfl⟩
      exact ⟨rfl, rfl⟩
    · rintro ⟨rfl, rfl⟩
      exact ⟨rfl, rfl⟩

theorem Consistent.removeEdge (cons : g.Consistent) {id : EdgeId} {e : Edge}
    (removed : g.removeEdge id = .ok (e, h)) : h.Consistent := by
  obtain ⟨stored, rfl⟩ := removeEdge_eq_ok.mp removed
  refine ⟨cons.vertex_id, fun {k old} found => ?_, cons.outgoing.eraseEdge stored,
    cons.incoming.eraseEdge stored, cons.vertex_below, fun mem => ?_⟩
  · rw [edge?, SortedMap.get?_erase] at found
    split at found
    · cases found
    · exact cons.edge_id found
  · exact cons.edge_below (SortedMap.contains_erase.mp mem).2

/-- What removing edges one after another leaves: all vertices, both counters and
the edges that were not listed. -/
theorem removeEdges_frame {ids : List EdgeId} (removed : removeEdges g ids = .ok h) :
    h.vertexMap = g.vertexMap ∧ h.nextVertex = g.nextVertex ∧ h.nextEdge = g.nextEdge ∧
      ∀ k e, h.edge? k = some e ↔ g.edge? k = some e ∧ k ∉ ids := by
  induction ids generalizing g with
  | nil =>
    cases removed
    simp
  | cons id rest ih =>
    obtain ⟨⟨first, k⟩, one, others⟩ := bind_eq_ok.mp removed
    obtain ⟨stored, rfl⟩ := removeEdge_eq_ok.mp one
    obtain ⟨vertices, nextVertex, nextEdge, edges⟩ := ih others
    refine ⟨vertices, nextVertex, nextEdge, fun k e => ?_⟩
    rw [edges, edge?, SortedMap.get?_erase, edge?, List.mem_cons]
    by_cases here : k = id
    · simp [here]
    · simp [here]

/-- Distinct members can be removed one after another. -/
theorem removeEdges_total {ids : List EdgeId} (distinct : ids.Nodup)
    (members : ∀ k ∈ ids, g.edgeMap.contains k = true) : ∃ h, removeEdges g ids = .ok h := by
  induction ids generalizing g with
  | nil => exact ⟨g, rfl⟩
  | cons id rest ih =>
    obtain ⟨absent, distinct⟩ := List.nodup_cons.mp distinct
    obtain ⟨first, others⟩ := List.forall_mem_cons.mp members
    obtain ⟨e, stored⟩ := SortedMap.contains_iff.mp first
    have one := removeEdge_eq_ok.mpr ⟨stored, rfl⟩
    obtain ⟨h, done⟩ := ih (g := { g with
        edgeMap := g.edgeMap.erase id
        outgoingIndex := g.outgoingIndex.modify e.source (·.erase id)
        incomingIndex := g.incomingIndex.modify e.target (·.erase id) }) distinct
      fun k mem => SortedMap.contains_erase.mpr ⟨fun eq => absent (eq ▸ mem), others k mem⟩
    exact ⟨h, bind_eq_ok.mpr ⟨_, one, done⟩⟩

theorem Consistent.removeEdges (cons : g.Consistent) {ids : List EdgeId}
    (removed : Graph.removeEdges g ids = .ok h) : h.Consistent := by
  induction ids generalizing g with
  | nil =>
    cases removed
    exact cons
  | cons id rest ih =>
    obtain ⟨⟨e, k⟩, first, others⟩ := bind_eq_ok.mp removed
    exact ih (cons.removeEdge first) others

/-- What removing a vertex does when it succeeds. -/
theorem removeVertex_eq_ok {id : VertexId} {policy : DanglingPolicy} {removed : List EdgeId} :
    g.removeVertex id policy = .ok (removed, h) ↔
      g.vertexMap.contains id = true ∧ ¬ (policy = .reject ∧ g.incidentEdges id ≠ []) ∧
        removed = g.incidentEdges id ∧
        ∃ k, Graph.removeEdges g (g.incidentEdges id) = .ok k ∧ h = k.dropVertex id := by
  rw [removeVertex]
  cases mem : g.vertexMap.contains id with
  | false => simp
  | true =>
    by_cases refused : policy = .reject ∧ g.incidentEdges id ≠ []
    · simp [refused]
    · simp only [Bool.not_true, Bool.false_eq_true, if_false, if_neg refused, true_and, bind_eq_ok]
      constructor
      · rintro ⟨k, cleared, done⟩
        cases done
        exact ⟨refused, rfl, k, cleared, rfl⟩
      · rintro ⟨-, rfl, k, cleared, rfl⟩
        exact ⟨k, cleared, rfl⟩

theorem Consistent.dropVertex (cons : g.Consistent) {id : VertexId}
    (clear : ∀ k e, g.edge? k = some e → e.source ≠ id ∧ e.target ≠ id) :
    (g.dropVertex id).Consistent where
  vertex_id {k v} found := by
    rw [vertex?, Graph.dropVertex, SortedMap.get?_erase] at found
    split at found
    · cases found
    · exact cons.vertex_id found
  edge_id := cons.edge_id
  outgoing := cons.outgoing.eraseVertex fun k e stored => (clear k e stored).1
  incoming := cons.incoming.eraseVertex fun k e stored => (clear k e stored).2
  vertex_below mem := cons.vertex_below (SortedMap.contains_erase.mp mem).2
  edge_below := cons.edge_below

/-- The edges at a vertex can be removed one after another, so a cascade never
stops in the middle. -/
theorem Consistent.cascade_total (cons : g.Consistent) (id : VertexId) :
    ∃ h, Graph.removeEdges g (g.incidentEdges id) = .ok h := by
  refine removeEdges_total (SortedMap.distinct_increasing _).nodup fun k mem => ?_
  obtain ⟨e, stored, -⟩ := cons.mem_incidentEdges.mp mem
  exact SortedMap.contains_of_get? stored

/-- What removing a vertex leaves: the other vertices, both counters and the edges
that did not touch it. -/
theorem Consistent.removeVertex_frame (cons : g.Consistent) {id : VertexId}
    {policy : DanglingPolicy} {removed : List EdgeId}
    (done : g.removeVertex id policy = .ok (removed, h)) :
    h.nextVertex = g.nextVertex ∧ h.nextEdge = g.nextEdge ∧
      (∀ v x, h.vertex? v = some x ↔ g.vertex? v = some x ∧ v ≠ id) ∧
      ∀ k e, h.edge? k = some e ↔ g.edge? k = some e ∧ e.source ≠ id ∧ e.target ≠ id := by
  obtain ⟨-, -, -, k, cleared, rfl⟩ := removeVertex_eq_ok.mp done
  obtain ⟨vertices, nextVertex, nextEdge, edges⟩ := removeEdges_frame cleared
  refine ⟨nextVertex, nextEdge, fun v x => ?_, fun j e => ?_⟩
  · rw [vertex?, Graph.dropVertex, SortedMap.get?_erase, vertices, vertex?]
    by_cases here : v = id
    · simp [here]
    · simp [here]
  · change k.edge? j = some e ↔ _
    rw [edges, cons.mem_incidentEdges]
    constructor
    · rintro ⟨stored, apart⟩
      exact ⟨stored, fun eq => apart ⟨e, stored, .inl eq⟩, fun eq => apart ⟨e, stored, .inr eq⟩⟩
    · rintro ⟨stored, source, target⟩
      refine ⟨stored, ?_⟩
      rintro ⟨old, present, touches⟩
      rw [stored] at present
      cases present
      exact touches.elim source target

theorem Consistent.removeVertex (cons : g.Consistent) {id : VertexId} {policy : DanglingPolicy}
    {removed : List EdgeId} (done : g.removeVertex id policy = .ok (removed, h)) :
    h.Consistent := by
  obtain ⟨-, -, -, apart⟩ := cons.removeVertex_frame done
  obtain ⟨-, -, -, k, cleared, rfl⟩ := removeVertex_eq_ok.mp done
  exact (cons.removeEdges cleared).dropVertex fun j e stored => ((apart j e).mp stored).2

theorem Consistent.removeWithPolicy (cons : g.Consistent) {policy : DanglingPolicy}
    {element : Element} {removed : List Element}
    (done : g.removeWithPolicy policy element = .ok (removed, h)) : h.Consistent := by
  cases element with
  | vertex id =>
    obtain ⟨⟨edges, k⟩, inner, rest⟩ := bind_eq_ok.mp done
    cases rest
    exact cons.removeVertex inner
  | edge id =>
    obtain ⟨⟨e, k⟩, inner, rest⟩ := bind_eq_ok.mp done
    cases rest
    exact cons.removeEdge inner

end Graph

end GraphTransformation
