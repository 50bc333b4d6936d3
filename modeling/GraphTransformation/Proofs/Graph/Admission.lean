import GraphTransformation.Proofs.Graph.Loading

/-!
Which snapshots are loaded, and as what.

A snapshot is `Admissible` if its handles are distinct, its edges run between listed vertices and
either counter, raised above the listed handles (`firstFree`), stays below the last word. These
are the snapshots that are loaded (`load_eq_ok`). The graph then has the listed elements and the
raised counters, and its own snapshot is the same one put in order (`load_exact`).
-/

namespace GraphTransformation

/-! ### Lists in the order of their keys -/

namespace SortedMap

universe u v

variable {κ : Type u} {β : Type v} [Ord κ]

/-- The list in the order of its keys. -/
def sortedBy (key : β → κ) (l : List β) : List β :=
  l.mergeSort fun a b => (compare (key a) (key b)).isLE

theorem mem_sortedBy {key : β → κ} {l : List β} {b : β} : b ∈ sortedBy key l ↔ b ∈ l :=
  (List.mergeSort_perm l _).mem_iff

/-- Distinct keys increase in the sorted list. -/
theorem sortedBy_increasing [Std.TransOrd κ] [Std.LawfulEqOrd κ] {key : β → κ} {l : List β}
    (distinct : (l.map key).Nodup) : Increasing ((sortedBy key l).map key) := by
  have total (j k : κ) : ((compare j k).isLE || (compare k j).isLE) = true := by
    rw [@Std.OrientedCmp.eq_swap κ compare _ j k]
    cases compare k j <;> rfl
  have ordered : (sortedBy key l).Pairwise fun a b => (compare (key a) (key b)).isLE = true :=
    List.pairwise_mergeSort (fun _ _ _ => Std.TransCmp.isLE_trans)
      (fun a b => total (key a) (key b)) l
  have apart : (sortedBy key l).Pairwise fun a b => key a ≠ key b :=
    List.pairwise_map.mp (((List.mergeSort_perm l _).map key).nodup_iff.mpr distinct)
  refine List.pairwise_map.mpr ((ordered.and apart).imp ?_)
  rintro a b ⟨le, ne⟩
  cases order : compare (key a) (key b) with
  | lt => rfl
  | eq => exact absurd (Std.LawfulEqCmp.eq_of_compare order) ne
  | gt => simp [order] at le

end SortedMap

namespace Snapshot

open GraphTransformation.Graph

variable {s : Snapshot} {g : Graph} {e : Error}

/-! ### Admission -/

/-- Handles are distinct, edges run between listed vertices, and there is room above all
handles for another one of either kind. -/
structure Admissible (s : Snapshot) : Prop where
  vertices : (s.vertices.map (·.id)).Nodup
  edges : (s.edges.map (·.id)).Nodup
  ends : ∀ e ∈ s.edges, e.source ∈ s.vertices.map (·.id) ∧ e.target ∈ s.vertices.map (·.id)
  nextVertex : firstFree s.nextVertex (s.vertices.map (·.id.word)) < lastWord.toNat
  nextEdge : firstFree s.nextEdge (s.edges.map (·.id.word)) < lastWord.toNat

/-- The graph that lists of vertices and edges fill at given counters. -/
def filled (vertices : List Vertex) (edges : List Edge) (nextVertex nextEdge : UInt64) : Graph :=
  edges.foldl insertEdge
    (vertices.foldl insertVertex { Graph.empty with nextVertex, nextEdge })

theorem filled_maps {vs : List Vertex} {es : List Edge} {nextVertex nextEdge : UInt64} :
    let g := filled vs es nextVertex nextEdge
    g.vertexMap = .ofList (vs.map fun v => (v.id, v)) ∧
      g.edgeMap = .ofList (es.map fun e => (e.id, e)) ∧
      g.nextVertex = nextVertex ∧ g.nextEdge = nextEdge := by
  obtain ⟨vertexMap, edgeMap, counter, counter'⟩ :=
    @foldl_insertVertex { Graph.empty with nextVertex, nextEdge } vs
  obtain ⟨vertexMap', edgeMap', counter'', counter'''⟩ :=
    @foldl_insertEdge (vs.foldl insertVertex { Graph.empty with nextVertex, nextEdge }) es
  exact ⟨vertexMap'.trans vertexMap, by rw [filled, edgeMap', edgeMap]; rfl,
    counter''.trans counter, counter'''.trans counter'⟩

/-- What loading does when it succeeds. -/
theorem load_eq_ok : s.load = .ok g ↔ s.Admissible ∧ ∃ nextVertex nextEdge : UInt64,
    nextVertex.toNat = firstFree s.nextVertex (s.vertices.map (·.id.word)) ∧
      nextEdge.toNat = firstFree s.nextEdge (s.edges.map (·.id.word)) ∧
      g = filled s.vertices s.edges nextVertex nextEdge := by
  have listed : ∀ nextVertex nextEdge v,
      (s.vertices.foldl insertVertex
        { Graph.empty with nextVertex, nextEdge }).vertexMap.contains v = true ↔
        v ∈ s.vertices.map (·.id) := by
    intro nextVertex nextEdge v
    rw [(foldl_insertVertex s.vertices).1, SortedMap.contains_insertAll]
    simp [Graph.empty]
  have noEdges : ∀ nextVertex nextEdge, (s.vertices.foldl insertVertex
      { Graph.empty with nextVertex, nextEdge }).edgeMap = .empty :=
    fun _ _ => (foldl_insertVertex s.vertices).2.1
  simp only [load, bind_eq_ok, nextHandle_eq_ok, loadVertices_eq_ok, loadEdges_eq_ok]
  constructor
  · rintro ⟨nextVertex, ⟨vertexValue, vertexRoom⟩, nextEdge, ⟨edgeValue, edgeRoom⟩, k,
      ⟨vertices, -, rfl⟩, edges, -, ends, rfl⟩
    simp only [listed] at ends
    exact ⟨⟨vertices, edges, ends, vertexRoom, edgeRoom⟩, nextVertex, nextEdge, vertexValue,
      edgeValue, rfl⟩
  · rintro ⟨admissible, nextVertex, nextEdge, vertexValue, edgeValue, rfl⟩
    refine ⟨nextVertex, ⟨vertexValue, admissible.nextVertex⟩, nextEdge,
      ⟨edgeValue, admissible.nextEdge⟩, _, ⟨admissible.vertices, by simp [Graph.empty], rfl⟩,
      admissible.edges, by simp [noEdges], ?_, rfl⟩
    simpa only [listed] using admissible.ends

theorem load_isOk : (∃ g, s.load = .ok g) ↔ s.Admissible := by
  constructor
  · rintro ⟨g, loaded⟩
    exact (load_eq_ok.mp loaded).1
  · intro admissible
    obtain ⟨nextVertex, vertexChosen⟩ := nextHandle_isOk.mpr admissible.nextVertex
    obtain ⟨nextEdge, edgeChosen⟩ := nextHandle_isOk.mpr admissible.nextEdge
    exact ⟨_, load_eq_ok.mpr ⟨admissible, nextVertex, nextEdge, (nextHandle_eq_ok.mp vertexChosen).1,
      (nextHandle_eq_ok.mp edgeChosen).1, rfl⟩⟩

/-! ### Refusal -/

/-- The failure is one of a snapshot or of the end of an edge. -/
def Refusal : Error → Prop
  | .invalidSnapshot _ | .invalidReference _ => True
  | _ => False

theorem successor_refusal {words : List UInt64} {start : UInt64}
    (failed : successor start words = .error e) : Refusal e := by
  induction words generalizing start with
  | nil => cases failed
  | cons w rest ih =>
    rw [successor] at failed
    split at failed
    · cases failed
      trivial
    · exact ih failed

theorem nextHandle_refusal {recorded : Option UInt64} {words : List UInt64}
    (failed : nextHandle recorded words = .error e) : Refusal e := by
  rw [nextHandle, bind_eq_error] at failed
  obtain stopped | ⟨next, -, exhausted⟩ := failed
  · exact successor_refusal stopped
  · split at exhausted
    · cases exhausted
      trivial
    · cases exhausted

theorem loadVertices_refusal {vs : List Vertex} (failed : loadVertices g vs = .error e) :
    Refusal e := by
  induction vs generalizing g with
  | nil => cases failed
  | cons v rest ih =>
    rw [loadVertices] at failed
    split at failed
    · cases failed
      trivial
    · exact ih failed

theorem loadEdges_refusal {es : List Edge} (failed : loadEdges g es = .error e) : Refusal e := by
  induction es generalizing g with
  | nil => cases failed
  | cons edge rest ih =>
    rw [loadEdges] at failed
    split at failed
    · cases failed
      trivial
    · obtain unlisted | ⟨-, -, later⟩ := bind_eq_error.mp failed
      · obtain ⟨v, -, -, rfl⟩ := checkEndpoints_error unlisted
        trivial
      · exact ih later

theorem load_refusal (failed : s.load = .error e) : Refusal e := by
  rw [load, bind_eq_error] at failed
  obtain stopped | ⟨nextVertex, -, failed⟩ := failed
  · exact nextHandle_refusal stopped
  obtain stopped | ⟨nextEdge, -, failed⟩ := bind_eq_error.mp failed
  · exact nextHandle_refusal stopped
  obtain stopped | ⟨g, -, failed⟩ := bind_eq_error.mp failed
  · exact loadVertices_refusal stopped
  · exact loadEdges_refusal failed

/-! ### What is loaded -/

/-- The snapshot with both lists in the order of the handles and both counters filled in. -/
def inOrder (s : Snapshot) : Snapshot where
  vertices := SortedMap.sortedBy (·.id) s.vertices
  edges := SortedMap.sortedBy (·.id) s.edges
  nextVertex := some (.ofNat (firstFree s.nextVertex (s.vertices.map (·.id.word))))
  nextEdge := some (.ofNat (firstFree s.nextEdge (s.edges.map (·.id.word))))

/-- The graph has the listed elements, each under its handle, and the raised counters. -/
structure Holds (s : Snapshot) (g : Graph) : Prop where
  vertices : ∀ k v, g.vertex? k = some v ↔ v ∈ s.vertices ∧ v.id = k
  edges : ∀ k e, g.edge? k = some e ↔ e ∈ s.edges ∧ e.id = k
  nextVertex : g.nextVertex.toNat = firstFree s.nextVertex (s.vertices.map (·.id.word))
  nextEdge : g.nextEdge.toNat = firstFree s.nextEdge (s.edges.map (·.id.word))

theorem load_holds (loaded : s.load = .ok g) : s.Holds g := by
  obtain ⟨admissible, nextVertex, nextEdge, vertexValue, edgeValue, rfl⟩ := load_eq_ok.mp loaded
  obtain ⟨vertexMap, edgeMap, counter, counter'⟩ :=
    @filled_maps s.vertices s.edges nextVertex nextEdge
  exact {
    vertices := fun k v => by
      rw [vertex?, vertexMap, SortedMap.get?_ofList_keyed admissible.vertices]
    edges := fun k e => by
      rw [edge?, edgeMap, SortedMap.get?_ofList_keyed admissible.edges]
    nextVertex := by rw [counter, vertexValue]
    nextEdge := by rw [counter', edgeValue] }

/-- The snapshot of what is loaded is the one that was loaded, put in order. -/
theorem Holds.snapshot (cons : g.Consistent) (holds : s.Holds g) (admissible : s.Admissible) :
    g.snapshot = s.inOrder := by
  have vertices : g.vertices = SortedMap.sortedBy (·.id) s.vertices := by
    have increasing : SortedMap.Increasing (g.vertices.map (·.id)) := by
      rw [cons.vertices_ids]
      exact SortedMap.keys_increasing _
    refine SortedMap.eq_of_increasing_keys increasing
      (SortedMap.sortedBy_increasing admissible.vertices) fun v => ?_
    rw [cons.mem_vertices, SortedMap.mem_sortedBy]
    exact (holds.vertices v.id v).trans (and_iff_left rfl)
  have edges : g.edges = SortedMap.sortedBy (·.id) s.edges := by
    have increasing : SortedMap.Increasing (g.edges.map (·.id)) := by
      rw [cons.edges_ids]
      exact SortedMap.keys_increasing _
    refine SortedMap.eq_of_increasing_keys increasing
      (SortedMap.sortedBy_increasing admissible.edges) fun e => ?_
    rw [cons.mem_edges, SortedMap.mem_sortedBy]
    exact (holds.edges e.id e).trans (and_iff_left rfl)
  rw [Graph.snapshot, inOrder, vertices, edges, ← holds.nextVertex, ← holds.nextEdge,
    UInt64.ofNat_toNat, UInt64.ofNat_toNat]

/-- A loaded graph is loaded again from its own snapshot. -/
theorem reload (loaded : s.load = .ok g) : g.snapshot.load = .ok g := by
  obtain ⟨admissible, -⟩ := load_eq_ok.mp loaded
  have holds := load_holds loaded
  have inRange : ∀ {n : UInt64}, n.toNat < lastWord.toNat → n ≠ lastWord := by
    rintro n lt rfl
    exact Nat.lt_irrefl _ lt
  have vertexRoom := inRange (holds.nextVertex ▸ admissible.nextVertex)
  have edgeRoom := inRange (holds.nextEdge ▸ admissible.nextEdge)
  rw [(load_consistent loaded).load_snapshot, if_neg (not_or.mpr ⟨vertexRoom, edgeRoom⟩)]

/-- Exactly the admissible snapshots are loaded. The graph has the listed elements and the
raised counters, its snapshot is the loaded one in order and is loaded as the same graph. All
other snapshots are refused as such or for the end of an edge. -/
theorem load_exact (s : Snapshot) :
    ((∃ g, s.load = .ok g) ↔ s.Admissible) ∧
      (∀ g, s.load = .ok g →
        s.Holds g ∧ g.snapshot = s.inOrder ∧ g.snapshot.load = .ok g) ∧
      ∀ e, s.load = .error e →
        (∃ fault, e = .invalidSnapshot fault) ∨ ∃ v, e = .invalidReference v := by
  refine ⟨load_isOk, fun g loaded => ?_, fun e failed => ?_⟩
  · have holds := load_holds loaded
    have inOrder := holds.snapshot (load_consistent loaded) (load_eq_ok.mp loaded).1
    exact ⟨holds, inOrder, reload loaded⟩
  · have refusal := load_refusal failed
    cases e with
    | invalidSnapshot fault => exact .inl ⟨fault, rfl⟩
    | invalidReference v => exact .inr ⟨v, rfl⟩
    | _ => exact refusal.elim

/-- Two vertices listed out of order and an edge between them, of whose counters one is missing
and the other stale. -/
theorem load_scattered :
    let s : Snapshot :=
      ⟨[⟨⟨5⟩, .empty⟩, ⟨⟨2⟩, .empty⟩], [⟨⟨3⟩, ⟨2⟩, ⟨5⟩, .empty⟩], none, some 1⟩
    ∃ g, s.load = .ok g ∧ s.Holds g ∧ g.nextVertex = 6 ∧ g.nextEdge = 4 ∧
      g.vertices = [⟨⟨2⟩, .empty⟩, ⟨⟨5⟩, .empty⟩] ∧ g.snapshot.load = .ok g := by
  intro s
  obtain ⟨admitted, loads, -⟩ := load_exact s
  obtain ⟨g, loaded⟩ := admitted.mpr
    { vertices := by decide
      edges := by decide
      ends := by decide
      nextVertex := by decide
      nextEdge := by decide }
  obtain ⟨holds, inOrder, again⟩ := loads g loaded
  refine ⟨g, loaded, holds, ?_, ?_, ?_, again⟩
  · exact UInt64.toNat_inj.mp holds.nextVertex
  · exact UInt64.toNat_inj.mp holds.nextEdge
  · have listed : g.vertices = s.inOrder.vertices := congrArg Snapshot.vertices inOrder
    rw [listed]
    simp +decide [s, Snapshot.inOrder, SortedMap.sortedBy, List.mergeSort]

end Snapshot

end GraphTransformation
