import GraphTransformation.Production.Apply
import GraphTransformation.Proofs.Graph.Consistency

/-!
The stages of a replacement.

A replacement deletes, sets the attributes of what is preserved, and creates
(`replace_eq_ok`). For each stage: the elements it leaves, and that it keeps the
graph consistent. Setting attributes leaves the structure alone
(`Graph.SameStructure`); new elements take the handles that follow the counters, and
creation that succeeds has found room for them there (`apply_hasRoom`).
-/

namespace GraphTransformation

/-! ### Handles that follow a counter -/

namespace Handle

variable {kind : Kind} {counter : UInt64} {i j n : Nat}

/-- The `i`th of the handles that a counter gives out from here on. -/
def issued (counter : UInt64) (i : Nat) : Handle kind := ⟨counter + UInt64.ofNat i⟩

theorem word_add_zero (counter : UInt64) : counter + UInt64.ofNat 0 = counter := by simp

theorem word_add_succ : counter + UInt64.ofNat (i + 1) = (counter + 1) + UInt64.ofNat i := by
  rw [UInt64.ofNat_add, UInt64.add_assoc, UInt64.add_comm (UInt64.ofNat i)]
  rfl

theorem issued_zero : (issued counter 0 : Handle kind) = ⟨counter⟩ :=
  congrArg Handle.mk (word_add_zero counter)

theorem issued_succ : (issued counter (i + 1) : Handle kind) = issued (counter + 1) i :=
  congrArg Handle.mk word_add_succ

theorem toNat_word_add (room : counter.toNat + i < UInt64.size) :
    (counter + UInt64.ofNat i).toNat = counter.toNat + i := by
  have : UInt64.size = 2 ^ 64 := rfl
  rw [UInt64.toNat_add, UInt64.toNat_ofNat']
  omega

/-- The room that is left behind the first of several handles. -/
theorem room_succ (room : counter.toNat + (n + 1) < UInt64.size) :
    counter.toNat + 1 < UInt64.size ∧ (counter + 1).toNat + n < UInt64.size := by
  have first : counter.toNat + 1 < UInt64.size := by omega
  have next := Graph.toNat_succ first
  exact ⟨first, by omega⟩

/-- Later handles are greater. -/
theorem issued_lt (room : counter.toNat + j < UInt64.size) (lt : i < j) :
    compare (issued counter i : Handle kind) (issued counter j) = .lt := by
  rw [compare_eq_lt, UInt64.lt_iff_toNat_lt, issued, issued, toNat_word_add room,
    toNat_word_add (by omega)]
  omega

theorem issued_ne_of_lt (room : counter.toNat + j < UInt64.size) (lt : i < j) :
    (issued counter i : Handle kind) ≠ issued counter j := by
  intro eq
  have before : compare (issued counter i : Handle kind) (issued counter j) = .lt :=
    issued_lt room lt
  simp [eq, Std.ReflCmp.compare_self] at before

theorem issued_injective (roomI : counter.toNat + i < UInt64.size)
    (roomJ : counter.toNat + j < UInt64.size)
    (same : (issued counter i : Handle kind) = issued counter j) : i = j := by
  rcases Nat.lt_trichotomy i j with lt | eq | lt
  · exact absurd same (issued_ne_of_lt roomJ lt)
  · exact eq
  · exact absurd same.symm (issued_ne_of_lt roomI lt)

/-- A handle below the counter comes before all that the counter gives out. -/
theorem lt_issued (room : counter.toNat + i < UInt64.size) {a : Handle kind}
    (below : a.word < counter) : compare a (issued counter i) = .lt := by
  rw [UInt64.lt_iff_toNat_lt] at below
  rw [compare_eq_lt, UInt64.lt_iff_toNat_lt, issued, toNat_word_add room]
  omega

/-- The handles that follow a counter have not been given out. -/
theorem issued_not_below (room : counter.toNat + i < UInt64.size) :
    ¬ (issued counter i : Handle kind).word < counter := by
  rw [UInt64.lt_iff_toNat_lt, issued, toNat_word_add room]
  omega

theorem ne_issued (room : counter.toNat + i < UInt64.size) {a : Handle kind}
    (below : a.word < counter) : a ≠ issued counter i := by
  rintro rfl
  exact issued_not_below room below

theorem issued_increasing (room : counter.toNat + n < UInt64.size) :
    SortedMap.Increasing ((List.range n).map (issued counter : Nat → Handle kind)) := by
  refine List.pairwise_map.mpr (List.Pairwise.imp_of_mem ?_ List.pairwise_lt_range)
  intro i j _ mem lt
  have := List.mem_range.mp mem
  exact issued_lt (by omega) lt

end Handle

/-! ### Structure apart from attributes -/

/-- Both ends of an edge, in order. -/
def Edge.ends (e : Edge) : VertexId × VertexId := (e.source, e.target)

namespace Graph

/-- The graphs have the same vertices, the same edges between the same ends, and
the same counters. -/
structure SameStructure (g h : Graph) : Prop where
  vertices : ∀ v, h.vertexMap.contains v = g.vertexMap.contains v
  edges : ∀ k, (h.edge? k).map Edge.ends = (g.edge? k).map Edge.ends
  nextVertex : h.nextVertex = g.nextVertex
  nextEdge : h.nextEdge = g.nextEdge

theorem SameStructure.refl (g : Graph) : SameStructure g g :=
  ⟨fun _ => rfl, fun _ => rfl, rfl, rfl⟩

theorem SameStructure.trans {g h k : Graph} (first : SameStructure g h)
    (second : SameStructure h k) : SameStructure g k where
  vertices v := (second.vertices v).trans (first.vertices v)
  edges e := (second.edges e).trans (first.edges e)
  nextVertex := second.nextVertex.trans first.nextVertex
  nextEdge := second.nextEdge.trans first.nextEdge

theorem modifyAttributes_sameStructure (g : Graph) (f : Attributes → Attributes)
    (element : Element) : SameStructure g (g.modifyAttributes f element) := by
  cases element with
  | vertex id => exact ⟨fun _ => SortedMap.contains_modify, fun _ => rfl, rfl, rfl⟩
  | edge id =>
    refine ⟨fun _ => rfl, fun k => ?_, rfl, rfl⟩
    rw [edge?, modifyAttributes, SortedMap.get?_modify]
    split
    · rename_i eq
      rw [eq, Option.map_map]
      rfl
    · rfl

/-- The handle that the `i`th of the vertices added to the graph gets. -/
def freshVertex (g : Graph) (i : Nat) : VertexId := .issued g.nextVertex i

/-- The handle that the `i`th of the edges added to the graph gets. -/
def freshEdge (g : Graph) (i : Nat) : EdgeId := .issued g.nextEdge i

/-- The handles that follow depend on the counter alone. -/
theorem freshVertex_congr {g h : Graph} (same : g.nextVertex = h.nextVertex) :
    g.freshVertex = h.freshVertex := by
  funext i
  rw [freshVertex, freshVertex, same]

theorem freshEdge_congr {g h : Graph} (same : g.nextEdge = h.nextEdge) :
    g.freshEdge = h.freshEdge := by
  funext i
  rw [freshEdge, freshEdge, same]

end Graph

namespace Production

open GraphTransformation.Graph

variable {p : Production} {ctx : RuleContext} {g h : Graph}

/-! ### Deletion -/

theorem removeVertices_frame {vs : List VertexId} (cons : g.Consistent)
    (removed : removeVertices g vs = .ok h) :
    h.Consistent ∧ h.nextVertex = g.nextVertex ∧ h.nextEdge = g.nextEdge ∧
      (∀ v x, h.vertex? v = some x ↔ g.vertex? v = some x ∧ v ∉ vs) ∧
      ∀ k e, h.edge? k = some e ↔ g.edge? k = some e ∧ e.source ∉ vs ∧ e.target ∉ vs := by
  induction vs generalizing g with
  | nil =>
    cases removed
    simpa using cons
  | cons v rest ih =>
    obtain ⟨⟨edges, k⟩, first, others⟩ := bind_eq_ok.mp removed
    obtain ⟨vertexCounter, edgeCounter, vertices, edges⟩ := cons.removeVertex_frame first
    obtain ⟨after, vertexCounter', edgeCounter', vertices', edges'⟩ :=
      ih (cons.removeVertex first) others
    refine ⟨after, vertexCounter'.trans vertexCounter, edgeCounter'.trans edgeCounter,
      fun w x => ?_, fun j e => ?_⟩
    · rw [vertices', vertices, List.mem_cons, not_or, and_assoc]
    · rw [edges', edges, List.mem_cons, List.mem_cons, not_or, not_or]
      constructor
      · rintro ⟨⟨stored, source, target⟩, source', target'⟩
        exact ⟨stored, ⟨source, source'⟩, target, target'⟩
      · rintro ⟨stored, ⟨source, source'⟩, target, target'⟩
        exact ⟨⟨stored, source, target⟩, source', target'⟩

/-! ### Attributes of preserved elements -/

theorem setAttributes_eq_ok {image element : Element} :
    p.setAttributes ctx g image element = .ok h ↔
      ∃ current, g.attributes? image = some current ∧
        h = g.modifyAttributes (fun _ => p.assigned ctx element current) image := by
  rw [setAttributes]
  cases g.attributes? image with
  | none => simp
  | some current => simp [eq_comm]

theorem updateVertices_frame {pairs : List (VertexId × VertexId)} (cons : g.Consistent)
    (updated : p.updateVertices ctx g pairs = .ok h) :
    h.Consistent ∧ SameStructure g h := by
  induction pairs generalizing g with
  | nil =>
    cases updated
    exact ⟨cons, .refl _⟩
  | cons pair rest ih =>
    obtain ⟨l, r⟩ := pair
    rw [updateVertices] at updated
    split at updated
    · cases updated
    · obtain ⟨k, first, others⟩ := bind_eq_ok.mp updated
      obtain ⟨current, -, rfl⟩ := setAttributes_eq_ok.mp first
      obtain ⟨after, same⟩ := ih (cons.modifyAttributes _ _) others
      exact ⟨after, (modifyAttributes_sameStructure g _ _).trans same⟩

theorem updateEdges_frame {pairs : List (EdgeId × EdgeId)} (cons : g.Consistent)
    (updated : p.updateEdges ctx g pairs = .ok h) :
    h.Consistent ∧ SameStructure g h := by
  induction pairs generalizing g with
  | nil =>
    cases updated
    exact ⟨cons, .refl _⟩
  | cons pair rest ih =>
    obtain ⟨l, r⟩ := pair
    rw [updateEdges] at updated
    split at updated
    · cases updated
    · obtain ⟨k, first, others⟩ := bind_eq_ok.mp updated
      obtain ⟨current, -, rfl⟩ := setAttributes_eq_ok.mp first
      obtain ⟨after, same⟩ := ih (cons.modifyAttributes _ _) others
      exact ⟨after, (modifyAttributes_sameStructure g _ _).trans same⟩

/-! ### Creation -/

/-- The ones of the replacement vertices that have no partner. -/
def unpairedVertices (p : Production) (rs : List VertexId) : List VertexId :=
  rs.filter fun r => (p.correspondence.vertices.left? r).isNone

/-- The ones of the replacement edges that have no partner. -/
def unpairedEdges (p : Production) (es : List Edge) : List Edge :=
  es.filter fun e => (p.correspondence.edges.left? e.id).isNone

/-- The replacement vertices that an application creates, in handle order. -/
def newVertices (p : Production) : List VertexId := p.unpairedVertices p.rhs.vertexIds

/-- The replacement edges that an application creates, in handle order. -/
def newEdges (p : Production) : List Edge := p.unpairedEdges p.rhs.edges

theorem createVertices_cons_paired {created : Created} {r : VertexId} {rest : List VertexId}
    (paired : (p.correspondence.vertices.left? r).isSome = true) :
    p.createVertices ctx g created (r :: rest) = p.createVertices ctx g created rest := by
  rw [createVertices, if_pos paired]

/-- One vertex more: the first unpaired one, then the others from the graph with it. -/
theorem createVertices_cons_new {created known : Created} {r : VertexId} {rest : List VertexId}
    (new : ¬ (p.correspondence.vertices.left? r).isSome = true) :
    p.createVertices ctx g created (r :: rest) = .ok (h, known) ↔
      ∃ k, g.addVertex (p.assigned ctx (.vertex r) .empty) = .ok (g.freshVertex 0, k) ∧
        p.createVertices ctx k (created.insert r (g.freshVertex 0)) rest = .ok (h, known) := by
  rw [createVertices, if_neg new, bind_eq_ok]
  constructor
  · rintro ⟨⟨v, k⟩, added, others⟩
    have fresh : v = g.freshVertex 0 := by
      rw [(addVertex_eq_ok.mp added).2.1, freshVertex, Handle.issued_zero]
    exact ⟨k, fresh ▸ added, fresh ▸ others⟩
  · rintro ⟨k, added, others⟩
    exact ⟨(g.freshVertex 0, k), added, others⟩

theorem freshVertex_succ {attributes : Attributes} {id : VertexId}
    (added : g.addVertex attributes = .ok (id, h)) (i : Nat) :
    h.freshVertex i = g.freshVertex (i + 1) := by
  obtain ⟨-, -, rfl⟩ := addVertex_eq_ok.mp added
  rw [freshVertex, freshVertex, Handle.issued_succ]

theorem freshEdge_succ {attributes : Attributes} {source target : VertexId} {id : EdgeId}
    (added : g.addEdge source target attributes = .ok (id, h)) (i : Nat) :
    h.freshEdge i = g.freshEdge (i + 1) := by
  obtain ⟨-, -, -, -, rfl⟩ := addEdge_eq_ok.mp added
  rw [freshEdge, freshEdge, Handle.issued_succ]

theorem unpairedVertices_cons_paired {r : VertexId} {rest : List VertexId}
    (paired : (p.correspondence.vertices.left? r).isSome = true) :
    p.unpairedVertices (r :: rest) = p.unpairedVertices rest :=
  List.filter_cons_of_neg (by simpa [← Option.isSome_iff_ne_none] using paired)

theorem unpairedVertices_cons_new {r : VertexId} {rest : List VertexId}
    (new : ¬ (p.correspondence.vertices.left? r).isSome = true) :
    p.unpairedVertices (r :: rest) = r :: p.unpairedVertices rest :=
  List.filter_cons_of_pos (by simpa using new)

theorem unpairedEdges_cons_paired {e : Edge} {rest : List Edge}
    (paired : (p.correspondence.edges.left? e.id).isSome = true) :
    p.unpairedEdges (e :: rest) = p.unpairedEdges rest :=
  List.filter_cons_of_neg (by simpa [← Option.isSome_iff_ne_none] using paired)

theorem unpairedEdges_cons_new {e : Edge} {rest : List Edge}
    (new : ¬ (p.correspondence.edges.left? e.id).isSome = true) :
    p.unpairedEdges (e :: rest) = e :: p.unpairedEdges rest :=
  List.filter_cons_of_pos (by simpa using new)

/-- Creating vertices touches no edge and moves the vertex counter past the new ones, for
which it has found room. -/
theorem createVertices_counters {created known : Created} {rs : List VertexId}
    (done : p.createVertices ctx g created rs = .ok (h, known)) :
    g.nextVertex.toNat + (p.unpairedVertices rs).length < UInt64.size ∧
      h.edgeMap = g.edgeMap ∧ h.nextEdge = g.nextEdge ∧
      h.nextVertex = g.nextVertex + UInt64.ofNat (p.unpairedVertices rs).length := by
  induction rs generalizing g created with
  | nil =>
    cases done
    simpa [unpairedVertices] using UInt64.toNat_lt _
  | cons r rest ih =>
    by_cases paired : (p.correspondence.vertices.left? r).isSome = true
    · rw [createVertices_cons_paired paired] at done
      rw [unpairedVertices_cons_paired paired]
      exact ih done
    · obtain ⟨k, added, others⟩ := (createVertices_cons_new paired).mp done
      obtain ⟨room, edges, nextEdge, nextVertex⟩ := ih others
      obtain ⟨first, -, rfl⟩ := addVertex_eq_ok.mp added
      rw [unpairedVertices_cons_new paired, List.length_cons, Handle.word_add_succ]
      rw [toNat_succ first] at room
      exact ⟨by omega, edges, nextEdge, nextVertex⟩

/-- With room for the new vertices, creating them does not stop. -/
theorem createVertices_total {created : Created} {rs : List VertexId}
    (room : g.nextVertex.toNat + (p.unpairedVertices rs).length < UInt64.size) :
    ∃ h known, p.createVertices ctx g created rs = .ok (h, known) := by
  induction rs generalizing g created with
  | nil => exact ⟨g, created, rfl⟩
  | cons r rest ih =>
    by_cases paired : (p.correspondence.vertices.left? r).isSome = true
    · rw [createVertices_cons_paired paired]
      rw [unpairedVertices_cons_paired paired] at room
      exact ih room
    · rw [unpairedVertices_cons_new paired] at room
      obtain ⟨first, rest⟩ := Handle.room_succ room
      have added : g.addVertex (p.assigned ctx (.vertex r) .empty) = .ok _ :=
        addVertex_eq_ok.mpr ⟨first, congrArg Handle.mk (Handle.word_add_zero _), rfl⟩
      obtain ⟨h, known, others⟩ := ih (g := { g.insertVertex ⟨⟨g.nextVertex⟩, _⟩ with
        nextVertex := g.nextVertex + 1 }) rest
      exact ⟨h, known, (createVertices_cons_new paired).mpr ⟨_, added, others⟩⟩

theorem createVertices_consistent {created known : Created} {rs : List VertexId}
    (cons : g.Consistent) (done : p.createVertices ctx g created rs = .ok (h, known)) :
    h.Consistent := by
  induction rs generalizing g created with
  | nil =>
    cases done
    exact cons
  | cons r rest ih =>
    by_cases paired : (p.correspondence.vertices.left? r).isSome = true
    · rw [createVertices_cons_paired paired] at done
      exact ih cons done
    · obtain ⟨k, added, others⟩ := (createVertices_cons_new paired).mp done
      exact ih (cons.addVertex added) others

/-- The new vertices stand under the handles that follow the counter, in order, and
all other handles stand for what they stood for. -/
theorem createVertices_vertices {created known : Created} {rs : List VertexId}
    (done : p.createVertices ctx g created rs = .ok (h, known)) :
    (∀ i r, (p.unpairedVertices rs)[i]? = some r → h.vertex? (g.freshVertex i) =
        some ⟨g.freshVertex i, p.assigned ctx (.vertex r) .empty⟩) ∧
      ∀ v, (∀ i < (p.unpairedVertices rs).length, v ≠ g.freshVertex i) →
        h.vertex? v = g.vertex? v := by
  induction rs generalizing g created with
  | nil =>
    cases done
    simp [unpairedVertices]
  | cons r rest ih =>
    by_cases paired : (p.correspondence.vertices.left? r).isSome = true
    · rw [createVertices_cons_paired paired] at done
      rw [unpairedVertices_cons_paired paired]
      exact ih done
    · obtain ⟨room, -⟩ := createVertices_counters done
      obtain ⟨k, added, others⟩ := (createVertices_cons_new paired).mp done
      rw [unpairedVertices_cons_new paired] at room ⊢
      rw [List.length_cons] at room
      have stored : ∀ v, k.vertex? v = if v = g.freshVertex 0 then
          some ⟨g.freshVertex 0, p.assigned ctx (.vertex r) .empty⟩ else g.vertex? v := by
        intro v
        obtain ⟨-, -, rfl⟩ := addVertex_eq_ok.mp added
        rw [freshVertex, Handle.issued_zero]
        exact SortedMap.get?_insert
      obtain ⟨new, old⟩ := ih others
      simp only [freshVertex_succ added] at new old
      refine ⟨fun i x here => ?_, fun v apart => ?_⟩
      · cases i with
        | zero =>
          cases here
          rw [old, stored, if_pos rfl]
          intro i lt
          exact Handle.issued_ne_of_lt (by omega) (Nat.succ_pos i)
        | succ i => exact new i x here
      · rw [old v fun i lt => apart (i + 1) (by simpa using lt), stored, if_neg (apart 0 (by simp))]

/-- The created vertices are known by their replacement vertices. -/
theorem createVertices_known {created known : Created} {rs : List VertexId} (distinct : rs.Nodup)
    (done : p.createVertices ctx g created rs = .ok (h, known)) (r : VertexId) :
    known.get? r = (((p.unpairedVertices rs).idxOf? r).map g.freshVertex).or (created.get? r) := by
  induction rs generalizing g created with
  | nil =>
    cases done
    simp [unpairedVertices]
  | cons x rest ih =>
    obtain ⟨absent, distinct⟩ := List.nodup_cons.mp distinct
    by_cases paired : (p.correspondence.vertices.left? x).isSome = true
    · rw [createVertices_cons_paired paired] at done
      rw [unpairedVertices_cons_paired paired]
      exact ih distinct done
    · obtain ⟨k, added, others⟩ := (createVertices_cons_new paired).mp done
      rw [unpairedVertices_cons_new paired, ih distinct others, List.idxOf?_cons,
        SortedMap.get?_insert]
      by_cases here : r = x
      · have later : (p.unpairedVertices rest).idxOf? x = none :=
          List.idxOf?_eq_none_iff.mpr fun mem => absent (List.mem_filter.mp mem).1
        simp [here, later]
      · have other : (x == r) = false := beq_eq_false_iff_ne.mpr (Ne.symm here)
        simp only [here, other, Bool.false_eq_true, if_false, Option.map_map]
        congr 2
        exact funext fun i => freshVertex_succ added i

/-- One edge more: the first unpaired one, then the others from the graph with it. -/
theorem createEdges_cons_new {created : Created} {e : Edge} {rest : List Edge}
    (new : ¬ (p.correspondence.edges.left? e.id).isSome = true) :
    p.createEdges ctx created g (e :: rest) = .ok h ↔
      ∃ s t k, p.resolve ctx.embedding created e.source = .ok s ∧
        p.resolve ctx.embedding created e.target = .ok t ∧
        g.addEdge s t (p.assigned ctx (.edge e.id) .empty) = .ok (g.freshEdge 0, k) ∧
        p.createEdges ctx created k rest = .ok h := by
  rw [createEdges, if_neg new]
  simp only [bind_eq_ok, liftM_eq_ok]
  constructor
  · rintro ⟨s, source, t, target, ⟨id, k⟩, added, others⟩
    have fresh : id = g.freshEdge 0 := by
      rw [(addEdge_eq_ok.mp added).2.2.2.1, freshEdge, Handle.issued_zero]
    exact ⟨s, t, k, source, target, fresh ▸ added, others⟩
  · rintro ⟨s, t, k, source, target, added, others⟩
    exact ⟨s, source, t, target, (g.freshEdge 0, k), added, others⟩

/-- Creating edges touches no vertex and moves the edge counter past the new ones, for
which it has found room. -/
theorem createEdges_counters {created : Created} {es : List Edge}
    (done : p.createEdges ctx created g es = .ok h) :
    g.nextEdge.toNat + (p.unpairedEdges es).length < UInt64.size ∧
      h.vertexMap = g.vertexMap ∧ h.nextVertex = g.nextVertex ∧
      h.nextEdge = g.nextEdge + UInt64.ofNat (p.unpairedEdges es).length := by
  induction es generalizing g with
  | nil =>
    cases done
    simpa [unpairedEdges] using UInt64.toNat_lt _
  | cons e rest ih =>
    by_cases paired : (p.correspondence.edges.left? e.id).isSome = true
    · rw [createEdges, if_pos paired] at done
      rw [unpairedEdges_cons_paired paired]
      exact ih done
    · obtain ⟨s, t, k, -, -, added, others⟩ := (createEdges_cons_new paired).mp done
      obtain ⟨room, vertices, nextVertex, nextEdge⟩ := ih others
      obtain ⟨-, -, first, -, rfl⟩ := addEdge_eq_ok.mp added
      rw [unpairedEdges_cons_new paired, List.length_cons, Handle.word_add_succ]
      rw [toNat_succ first] at room
      exact ⟨by omega, vertices, nextVertex, nextEdge⟩

/-- Creating edges stops for want of a handle only if there is no room for the new ones. -/
theorem createEdges_overflow {created : Created} {es : List Edge}
    (stopped : p.createEdges ctx created g es = .error .overflow) :
    ¬ g.nextEdge.toNat + (p.unpairedEdges es).length < UInt64.size := by
  induction es generalizing g with
  | nil => cases stopped
  | cons e rest ih =>
    by_cases paired : (p.correspondence.edges.left? e.id).isSome = true
    · rw [createEdges, if_pos paired] at stopped
      rw [unpairedEdges_cons_paired paired]
      exact ih stopped
    · rw [createEdges, if_neg paired] at stopped
      simp only [liftM_bind_overflow] at stopped
      obtain ⟨s, -, t, -, stopped⟩ := stopped
      rw [unpairedEdges_cons_new paired, List.length_cons]
      rcases bind_eq_error.mp stopped with here | ⟨⟨id, k⟩, added, later⟩
      · obtain ⟨-, -, full⟩ := addEdge_overflow.mp here
        omega
      · have beyond := ih later
        obtain ⟨-, -, first, -, rfl⟩ := addEdge_eq_ok.mp added
        rw [toNat_succ first] at beyond
        omega

theorem createEdges_consistent {created : Created} {es : List Edge} (cons : g.Consistent)
    (done : p.createEdges ctx created g es = .ok h) : h.Consistent := by
  induction es generalizing g with
  | nil =>
    cases done
    exact cons
  | cons e rest ih =>
    by_cases paired : (p.correspondence.edges.left? e.id).isSome = true
    · rw [createEdges, if_pos paired] at done
      exact ih cons done
    · obtain ⟨s, t, k, -, -, added, others⟩ := (createEdges_cons_new paired).mp done
      exact ih (cons.addEdge added) others

/-- The new edges stand under the handles that follow the counter, in order, between what
their replacement ends stand for, and all other handles stand for what they stood for. -/
theorem createEdges_edges {created : Created} {es : List Edge}
    (done : p.createEdges ctx created g es = .ok h) :
    (∀ i e, (p.unpairedEdges es)[i]? = some e → ∃ s t,
        p.resolve ctx.embedding created e.source = .ok s ∧
        p.resolve ctx.embedding created e.target = .ok t ∧
        h.edge? (g.freshEdge i) =
          some ⟨g.freshEdge i, s, t, p.assigned ctx (.edge e.id) .empty⟩) ∧
      ∀ k, (∀ i < (p.unpairedEdges es).length, k ≠ g.freshEdge i) → h.edge? k = g.edge? k := by
  induction es generalizing g with
  | nil =>
    cases done
    simp [unpairedEdges]
  | cons e rest ih =>
    by_cases paired : (p.correspondence.edges.left? e.id).isSome = true
    · rw [createEdges, if_pos paired] at done
      rw [unpairedEdges_cons_paired paired]
      exact ih done
    · obtain ⟨room, -⟩ := createEdges_counters done
      obtain ⟨s, t, k, source, target, added, others⟩ := (createEdges_cons_new paired).mp done
      rw [unpairedEdges_cons_new paired] at room ⊢
      rw [List.length_cons] at room
      obtain ⟨new, old⟩ := ih others
      simp only [freshEdge_succ added] at new old
      have stored : ∀ x, k.edge? x = if x = g.freshEdge 0 then
          some ⟨g.freshEdge 0, s, t, p.assigned ctx (.edge e.id) .empty⟩ else g.edge? x := by
        intro x
        obtain ⟨-, -, -, -, rfl⟩ := addEdge_eq_ok.mp added
        rw [freshEdge, Handle.issued_zero]
        exact SortedMap.get?_insert
      refine ⟨fun i x here => ?_, fun x apart => ?_⟩
      · cases i with
        | zero =>
          cases here
          refine ⟨s, t, source, target, ?_⟩
          rw [old, stored, if_pos rfl]
          intro i lt
          exact Handle.issued_ne_of_lt (by omega) (Nat.succ_pos i)
        | succ i => exact new i x here
      · rw [old x fun i lt => apart (i + 1) (by simpa using lt), stored, if_neg (apart 0 (by simp))]

/-! ### The whole replacement -/

/-- The graphs between the stages of a replacement that succeeds. -/
theorem replace_eq_ok {host result : Graph} {m : Embedding} :
    p.replace host m = .ok result ↔ p.checkDangling host m = .ok () ∧
      ∃ pruned kept relabelled preserved grown created,
        removeEdges host (p.deletedEdges m) = .ok pruned ∧
        removeVertices pruned (p.deletedVertices m) = .ok kept ∧
        p.updateVertices ⟨host, m⟩ kept p.correspondence.vertices.pairs = .ok relabelled ∧
        p.updateEdges ⟨host, m⟩ relabelled p.correspondence.edges.pairs = .ok preserved ∧
        p.createVertices ⟨host, m⟩ preserved .empty p.rhs.vertexIds = .ok (grown, created) ∧
        p.createEdges ⟨host, m⟩ created grown p.rhs.edges = .ok result := by
  simp only [replace, bind_eq_ok, liftM_eq_ok]
  constructor
  · rintro ⟨_, allowed, pruned, first, kept, second, relabelled, third, preserved, fourth,
      ⟨grown, created⟩, fifth, done⟩
    exact ⟨allowed, pruned, kept, relabelled, preserved, grown, created,
      first, second, third, fourth, fifth, done⟩
  · rintro ⟨allowed, pruned, kept, relabelled, preserved, grown, created,
      first, second, third, fourth, fifth, done⟩
    exact ⟨(), allowed, pruned, first, kept, second, relabelled, third, preserved, fourth,
      (grown, created), fifth, done⟩

theorem apply_eq_ok {host result : Graph} {m : Match} :
    p.apply host m = .ok result ↔
      p.verify host m = .ok () ∧ p.replace host m.embedding = .ok result := by
  simp only [apply, bind_eq_ok, liftM_eq_ok]
  constructor
  · rintro ⟨_, verified, replaced⟩
    exact ⟨verified, replaced⟩
  · rintro ⟨verified, replaced⟩
    exact ⟨(), verified, replaced⟩

/-- What is left before anything is created: the host less what is deleted. -/
theorem preserved_frame {host pruned kept relabelled preserved : Graph} {m : Embedding}
    (cons : host.Consistent)
    (first : removeEdges host (p.deletedEdges m) = .ok pruned)
    (second : removeVertices pruned (p.deletedVertices m) = .ok kept)
    (third : p.updateVertices ctx kept p.correspondence.vertices.pairs = .ok relabelled)
    (fourth : p.updateEdges ctx relabelled p.correspondence.edges.pairs = .ok preserved) :
    preserved.Consistent ∧ preserved.nextVertex = host.nextVertex ∧
      preserved.nextEdge = host.nextEdge ∧
      (∀ v, preserved.vertexMap.contains v = true ↔
        host.vertexMap.contains v = true ∧ v ∉ p.deletedVertices m) ∧
      ∀ k s t, (preserved.edge? k).map Edge.ends = some (s, t) ↔
        (host.edge? k).map Edge.ends = some (s, t) ∧ k ∉ p.deletedEdges m ∧
          s ∉ p.deletedVertices m ∧ t ∉ p.deletedVertices m := by
  obtain ⟨prunedVertices, prunedNextVertex, prunedNextEdge, prunedEdges⟩ := removeEdges_frame first
  obtain ⟨keptCons, keptNextVertex, keptNextEdge, keptVertices, keptEdges⟩ :=
    removeVertices_frame (cons.removeEdges first) second
  obtain ⟨relabelledCons, sameVertices⟩ := updateVertices_frame keptCons third
  obtain ⟨preservedCons, sameEdges⟩ := updateEdges_frame relabelledCons fourth
  have same := sameVertices.trans sameEdges
  refine ⟨preservedCons, ?_, ?_, fun v => ?_, fun k s t => ?_⟩
  · rw [same.nextVertex, keptNextVertex, prunedNextVertex]
  · rw [same.nextEdge, keptNextEdge, prunedNextEdge]
  · rw [same.vertices, SortedMap.contains_iff, SortedMap.contains_iff, ← exists_and_right]
    refine exists_congr fun x => ?_
    rw [← prunedVertices]
    exact keptVertices v x
  · rw [same.edges]
    simp only [Option.map_eq_some_iff, keptEdges, prunedEdges, Edge.ends, Prod.mk.injEq]
    constructor
    · rintro ⟨e, ⟨⟨stored, kept⟩, source, target⟩, rfl, rfl⟩
      exact ⟨⟨e, stored, rfl, rfl⟩, kept, source, target⟩
    · rintro ⟨⟨e, stored, rfl, rfl⟩, kept, source, target⟩
      exact ⟨e, ⟨⟨stored, kept⟩, source, target⟩, rfl, rfl⟩

/-- The counters leave room for what an application creates. -/
def HasRoom (p : Production) (host : Graph) : Prop :=
  host.nextVertex.toNat + p.newVertices.length < UInt64.size ∧
    host.nextEdge.toNat + p.newEdges.length < UInt64.size

/-- Creation that succeeds has found room for all that it creates. -/
theorem create_hasRoom {preserved grown result : Graph} {created : Created}
    (vertices : p.createVertices ctx preserved .empty p.rhs.vertexIds = .ok (grown, created))
    (edges : p.createEdges ctx created grown p.rhs.edges = .ok result) : p.HasRoom preserved := by
  obtain ⟨vertexRoom, -, sameNextEdge, -⟩ := createVertices_counters vertices
  obtain ⟨edgeRoom, -⟩ := createEdges_counters edges
  exact ⟨vertexRoom, sameNextEdge ▸ edgeRoom⟩

/-- So has an application. -/
theorem apply_hasRoom {host result : Graph} {m : Match} (cons : host.Consistent)
    (applied : p.apply host m = .ok result) : p.HasRoom host := by
  obtain ⟨-, replaced⟩ := apply_eq_ok.mp applied
  obtain ⟨-, pruned, kept, relabelled, preserved, grown, created, first, second, third, fourth,
    fifth, done⟩ := replace_eq_ok.mp replaced
  obtain ⟨-, nextVertex, nextEdge, -, -⟩ := preserved_frame cons first second third fourth
  have room := create_hasRoom fifth done
  rwa [HasRoom, nextVertex, nextEdge] at room

/-- An application stops for want of a handle only if there is no room for what it creates. -/
theorem apply_overflow {host : Graph} {m : Match} (cons : host.Consistent)
    (stopped : p.apply host m = .error .overflow) : ¬ p.HasRoom host := by
  simp only [apply, replace, liftM_bind_overflow] at stopped
  obtain ⟨_, -, _, -, pruned, first, kept, second, relabelled, third, preserved, fourth, stopped⟩ :=
    stopped
  obtain ⟨-, nextVertex, nextEdge, -, -⟩ := preserved_frame cons first second third fourth
  rintro ⟨vertexRoom, edgeRoom⟩
  obtain ⟨grown, created, fifth⟩ :=
    @createVertices_total p ⟨host, m.embedding⟩ preserved .empty p.rhs.vertexIds
      (nextVertex.symm ▸ vertexRoom)
  rw [fifth] at stopped
  obtain ⟨-, -, sameNextEdge, -⟩ := createVertices_counters fifth
  exact createEdges_overflow stopped (by rwa [sameNextEdge, nextEdge])

theorem apply_consistent {host result : Graph} {m : Match} (cons : host.Consistent)
    (applied : p.apply host m = .ok result) : result.Consistent := by
  obtain ⟨-, replaced⟩ := apply_eq_ok.mp applied
  obtain ⟨-, pruned, kept, relabelled, preserved, grown, created, first, second, third, fourth,
    fifth, done⟩ := replace_eq_ok.mp replaced
  obtain ⟨preservedCons, -⟩ := preserved_frame cons first second third fourth
  exact createEdges_consistent (createVertices_consistent preservedCons fifth) done

end Production

end GraphTransformation
