import GraphTransformation.Proofs.History

/-!
What a removal takes out of a graph.

With a vertex go the edges that have it as an end (`touching`), which is what the two indexes
list under it (`Consistent.incidentEdges_eq`). The cascade takes them out one by one and edits
the indexes on its way; `Without` says what is left of the maps, the indexes and the counters
once some elements are gone, and removals in turn compose (`Without.trans`). So a removal is
refused before it begins or takes out just what it announces (`removeWithPolicy_exact`).
-/

namespace GraphTransformation

/-! ### Entries that are left -/

/-- Taking an edge out of the entry of its end takes it out of every entry, for no other entry
lists it. -/
theorem Indexed.keys_modify {vertices : SortedMap VertexId Vertex} {edges : SortedMap EdgeId Edge}
    {terminal : Edge → VertexId} {index : SortedMap VertexId (SortedSet EdgeId)}
    (indexed : Indexed vertices edges terminal index) {id : EdgeId} {e : Edge}
    (stored : edges.get? id = some e) (v : VertexId) :
    ((index.modify (terminal e) (·.erase id)).get? v).map (·.keys) =
      (index.get? v).map fun entry => entry.keys.filter (· ≠ id) := by
  rw [SortedMap.get?_modify]
  by_cases here : v = terminal e
  · rw [if_pos here, here, Option.map_map]
    congr 1
    funext entry
    exact SortedMap.keys_erase
  · rw [if_neg here]
    cases found : index.get? v with
    | none => rfl
    | some entry =>
      have unlisted : id ∉ entry.keys := by
        rw [SortedMap.mem_keys, indexed.entries found, stored]
        exact fun same => here (Option.some.inj same).symm
      have kept : entry.keys.filter (· ≠ id) = entry.keys := by
        refine List.filter_eq_self.mpr fun k mem => decide_eq_true ?_
        rintro rfl
        exact unlisted mem
      rw [Option.map_some, Option.map_some, kept]

namespace Graph

variable {g h k : Graph}

/-! ### Edges at a vertex -/

/-- The edges that have the vertex as an end, each once, in handle order. -/
def touching (g : Graph) (v : VertexId) : List EdgeId :=
  (g.edges.filter fun e => e.source = v ∨ e.target = v).map (·.id)

theorem touching_eq_scan (v : VertexId) :
    g.touching v = g.scan fun e => e.source = v ∨ e.target = v := rfl

theorem Consistent.mem_touching (cons : g.Consistent) {v : VertexId} {id : EdgeId} :
    id ∈ g.touching v ↔ ∃ e, g.edge? id = some e ∧ (e.source = v ∨ e.target = v) := by
  rw [touching_eq_scan, cons.mem_scan]
  simp only [decide_eq_true_eq]

theorem Consistent.touching_increasing (cons : g.Consistent) (v : VertexId) :
    SortedMap.Increasing (g.touching v) :=
  cons.scan_increasing _

/-- The indexes list under a vertex the edges that have it as an end. -/
theorem Consistent.incidentEdges_eq (cons : g.Consistent) (v : VertexId) :
    g.incidentEdges v = g.touching v :=
  SortedMap.eq_of_increasing (SortedMap.distinct_increasing _) (cons.touching_increasing v)
    fun _ => cons.mem_incidentEdges.trans cons.mem_touching.symm

/-! ### What is left -/

/-- `h` is what is left of `g` when the elements `gone` are taken out: all others with their
attributes, their index entries but for the edges that are gone, and both counters. -/
structure Without (g : Graph) (gone : List Element) (h : Graph) : Prop where
  vertex : ∀ v, h.vertex? v = if .vertex v ∈ gone then none else g.vertex? v
  edge : ∀ id, h.edge? id = if .edge id ∈ gone then none else g.edge? id
  outgoing : ∀ v, (h.outgoingIndex.get? v).map (·.keys) =
    if .vertex v ∈ gone then none
    else (g.outgoingIndex.get? v).map fun entry => entry.keys.filter (.edge · ∉ gone)
  incoming : ∀ v, (h.incomingIndex.get? v).map (·.keys) =
    if .vertex v ∈ gone then none
    else (g.incomingIndex.get? v).map fun entry => entry.keys.filter (.edge · ∉ gone)
  nextVertex : h.nextVertex = g.nextVertex
  nextEdge : h.nextEdge = g.nextEdge

namespace Without

variable {first second gone : List Element}

theorem refl (g : Graph) : g.Without [] g where
  vertex v := by simp
  edge id := by simp
  outgoing v := by simp
  incoming v := by simp
  nextVertex := rfl
  nextEdge := rfl

/-- What is left of one index when elements are taken out in two rounds. -/
theorem index_trans {index between after : SortedMap VertexId (SortedSet EdgeId)} {v : VertexId}
    (one : (between.get? v).map (·.keys) =
      if .vertex v ∈ first then none
      else (index.get? v).map fun entry => entry.keys.filter (.edge · ∉ first))
    (two : (after.get? v).map (·.keys) =
      if .vertex v ∈ second then none
      else (between.get? v).map fun entry => entry.keys.filter (.edge · ∉ second)) :
    (after.get? v).map (·.keys) =
      if .vertex v ∈ first ++ second then none
      else (index.get? v).map fun entry => entry.keys.filter (.edge · ∉ first ++ second) := by
  have filtered : (between.get? v).map (fun entry => entry.keys.filter (.edge · ∉ second)) =
      ((between.get? v).map (·.keys)).map (·.filter (.edge · ∉ second)) := by
    rw [Option.map_map]
    rfl
  rw [two, filtered, one]
  by_cases early : .vertex v ∈ first
  · simp [early]
  · by_cases late : .vertex v ∈ second
    · simp [late]
    · simp only [early, late, List.mem_append, or_self, if_false, Option.map_map]
      congr 1
      funext entry
      simp [List.filter_filter, Bool.and_comm]

theorem trans (one : g.Without first k) (two : k.Without second h) :
    g.Without (first ++ second) h where
  vertex v := by
    rw [two.vertex, one.vertex]
    by_cases early : .vertex v ∈ first <;> simp [early]
  edge id := by
    rw [two.edge, one.edge]
    by_cases early : .edge id ∈ first <;> simp [early]
  outgoing v := index_trans (one.outgoing v) (two.outgoing v)
  incoming v := index_trans (one.incoming v) (two.incoming v)
  nextVertex := two.nextVertex.trans one.nextVertex
  nextEdge := two.nextEdge.trans one.nextEdge

end Without

theorem Consistent.removeEdge_without (cons : g.Consistent) {id : EdgeId} {e : Edge}
    (removed : g.removeEdge id = .ok (e, h)) : g.Without [.edge id] h := by
  obtain ⟨stored, rfl⟩ := removeEdge_eq_ok.mp removed
  refine ⟨fun v => ?_, fun j => ?_, fun v => ?_, fun v => ?_, rfl, rfl⟩
  · simp [vertex?]
  · rw [edge?, SortedMap.get?_erase]
    simp [edge?]
  · rw [cons.outgoing.keys_modify stored v]
    simp
  · rw [cons.incoming.keys_modify stored v]
    simp

theorem Consistent.removeEdges_without (cons : g.Consistent) {ids : List EdgeId}
    (removed : Graph.removeEdges g ids = .ok h) : g.Without (ids.map .edge) h := by
  induction ids generalizing g with
  | nil =>
    cases removed
    exact .refl _
  | cons id rest ih =>
    obtain ⟨⟨e, k⟩, first, others⟩ := bind_eq_ok.mp removed
    exact (cons.removeEdge_without first).trans (ih (cons.removeEdge first) others)

theorem dropVertex_without (g : Graph) (v : VertexId) :
    g.Without [.vertex v] (g.dropVertex v) where
  vertex w := by
    rw [vertex?, dropVertex, SortedMap.get?_erase]
    simp [vertex?]
  edge id := by simp [edge?, dropVertex]
  outgoing w := by
    rw [dropVertex, SortedMap.get?_erase]
    by_cases here : w = v <;> simp [here]
  incoming w := by
    rw [dropVertex, SortedMap.get?_erase]
    by_cases here : w = v <;> simp [here]
  nextVertex := rfl
  nextEdge := rfl

/-! ### Removal of an element -/

/-- The edges that go with an element. -/
def dependents (g : Graph) : Element → List EdgeId
  | .vertex v => g.touching v
  | .edge _ => []

theorem Consistent.dependents_increasing (cons : g.Consistent) (element : Element) :
    SortedMap.Increasing (g.dependents element) := by
  cases element with
  | vertex v => exact cons.touching_increasing v
  | edge id => exact List.Pairwise.nil

theorem removeWithPolicy_missing (policy : DanglingPolicy) {element : Element}
    (missing : g.contains element = false) :
    g.removeWithPolicy policy element = .error (.unknownElement element) := by
  cases element with
  | vertex v =>
    have refused : g.removeVertex v policy = .error (.unknownElement (.vertex v)) := by
      rw [removeVertex, if_pos (by simpa [contains] using missing)]
    rw [removeWithPolicy, refused]
    rfl
  | edge id =>
    have absent : g.edge? id = none :=
      SortedMap.get?_eq_none_of_not_contains (by simpa [contains] using missing)
    rw [removeWithPolicy, removeEdge, absent]
    rfl

theorem Consistent.removeWithPolicy_refused (cons : g.Consistent) {v : VertexId}
    (member : g.vertexMap.contains v = true) (touched : g.touching v ≠ []) :
    g.removeWithPolicy .reject (.vertex v) = .error (.danglingEdges v (g.touching v)) := by
  have refused : g.removeVertex v .reject = .error (.danglingEdges v (g.touching v)) := by
    rw [Graph.removeVertex, member, cons.incidentEdges_eq, if_neg (by simp), if_pos ⟨rfl, touched⟩]
  rw [Graph.removeWithPolicy, refused]
  rfl

/-- A removal that is not refused takes out the element and what goes with it. -/
theorem Consistent.removeWithPolicy_allowed (cons : g.Consistent) {policy : DanglingPolicy}
    {element : Element} (member : g.contains element = true)
    (allowed : policy = .cascade ∨ g.dependents element = []) :
    let gone := (g.dependents element).map .edge ++ [element]
    ∃ h, g.removeWithPolicy policy element = .ok (gone, h) ∧ g.Without gone h := by
  intro gone
  cases element with
  | vertex v =>
    obtain ⟨k, cleared⟩ := cons.cascade_total v
    have unrefused : ¬ (policy = .reject ∧ g.incidentEdges v ≠ []) := by
      rintro ⟨rfl, touched⟩
      rcases allowed with impossible | untouched
      · cases impossible
      · exact touched ((cons.incidentEdges_eq v).trans untouched)
    have done : g.removeVertex v policy = .ok (g.incidentEdges v, k.dropVertex v) :=
      removeVertex_eq_ok.mpr ⟨member, unrefused, rfl, k, cleared, rfl⟩
    -- the edges go first, so the vertex that goes last has empty index entries
    have left := (cons.removeEdges_without cleared).trans (dropVertex_without k v)
    rw [cons.incidentEdges_eq] at done left
    exact ⟨k.dropVertex v, bind_eq_ok.mpr ⟨_, done, rfl⟩, left⟩
  | edge id =>
    obtain ⟨e, stored⟩ := SortedMap.contains_iff.mp member
    have done := removeEdge_eq_ok.mpr ⟨stored, rfl⟩
    exact ⟨_, bind_eq_ok.mpr ⟨_, done, rfl⟩, cons.removeEdge_without done⟩

/-- In place, a removal leaves the graph as it was or leaves what the removal gives. -/
theorem Consistent.takeOut_eq_settle (cons : g.Consistent) (policy : DanglingPolicy)
    (element : Element) :
    g.takeOut policy element = g.settle ((g.removeWithPolicy policy element).map (·.2)) := by
  rcases cons.takeOut_cases policy element with ⟨e, left, failed⟩ | ⟨h, removed, left, done⟩
  · rw [left, failed]
    rfl
  · rw [left, done]
    rfl

/-- A removal takes out the right elements. Of an element that is no member it says so; a vertex
that edges touch it refuses when asked to, with these edges; in all other cases it takes out the
element after the edges that go with it, gives them back in this order, and leaves the rest as it
was. The cascade in its middle never fails, so in place as well it is done as a whole or not at
all. -/
theorem removeWithPolicy_exact (reach : g.Reachable) (policy : DanglingPolicy)
    (element : Element) :
    let edges := g.dependents element
    let gone := edges.map .edge ++ [element]
    (g.contains element = false →
        g.removeWithPolicy policy element = .error (.unknownElement element)) ∧
      (∀ v, element = .vertex v → g.contains element = true → policy = .reject → edges ≠ [] →
        g.removeWithPolicy policy element = .error (.danglingEdges v edges)) ∧
      (g.contains element = true → policy = .cascade ∨ edges = [] →
        ∃ h, g.removeWithPolicy policy element = .ok (gone, h) ∧ g.Without gone h) ∧
      SortedMap.Increasing edges ∧
      (∀ v, ∃ h, g.takeOutEdges (g.incidentEdges v) = (h, none)) ∧
      g.takeOut policy element = g.settle ((g.removeWithPolicy policy element).map (·.2)) := by
  have cons := reach.consistent
  intro edges gone
  refine ⟨removeWithPolicy_missing policy, ?_, cons.removeWithPolicy_allowed,
    cons.dependents_increasing element, fun v => ?_, cons.takeOut_eq_settle policy element⟩
  · rintro v rfl member rfl touched
    exact cons.removeWithPolicy_refused member touched
  · obtain ⟨h, cleared⟩ := cons.cascade_total v
    exact ⟨h, takeOutEdges_of_removeEdges cleared⟩

/-- The arrow with a loop at its first vertex, an edge back, and an edge from its second vertex
to a third. -/
def knot : Graph :=
  [.addVertex .empty, .addEdge ⟨0⟩ ⟨0⟩ .empty, .addEdge ⟨1⟩ ⟨0⟩ .empty,
    .addEdge ⟨1⟩ ⟨2⟩ .empty].foldl (fun g op => (g.perform op).1) arrow

theorem knot_reachable : knot.Reachable :=
  .step _ (.step _ (.step _ (.step _ arrow_reachable)))

/-- From the knot the first vertex takes with it the edge in either direction and, once, the
loop; under the other policy it stays. -/
theorem knot_removal :
    knot.Reachable ∧
      knot.removeWithPolicy .reject (.vertex ⟨0⟩) = .error (.danglingEdges ⟨0⟩ [⟨0⟩, ⟨1⟩, ⟨2⟩]) ∧
      knot.removeWithPolicy .reject (.edge ⟨9⟩) = .error (.unknownElement (.edge ⟨9⟩)) ∧
      ∃ h, knot.removeWithPolicy .cascade (.vertex ⟨0⟩) =
          .ok ([.edge ⟨0⟩, .edge ⟨1⟩, .edge ⟨2⟩, .vertex ⟨0⟩], h) ∧
        h.edge? ⟨3⟩ = knot.edge? ⟨3⟩ ∧
        (h.outgoingIndex.get? ⟨1⟩).map (·.keys) = some [⟨3⟩] := by
  have touched : knot.dependents (.vertex ⟨0⟩) = [⟨0⟩, ⟨1⟩, ⟨2⟩] := by decide
  obtain ⟨-, refused, -⟩ := removeWithPolicy_exact knot_reachable .reject (.vertex ⟨0⟩)
  obtain ⟨unknown, -⟩ := removeWithPolicy_exact knot_reachable .reject (.edge ⟨9⟩)
  obtain ⟨-, -, taken, -⟩ := removeWithPolicy_exact knot_reachable .cascade (.vertex ⟨0⟩)
  obtain ⟨h, done, left⟩ := taken (by decide) (.inl rfl)
  rw [touched] at refused done left
  refine ⟨knot_reachable, refused ⟨0⟩ rfl (by decide) rfl (by simp), unknown (by decide), h, done,
    ?_, ?_⟩
  · rw [left.edge]
    rfl
  · rw [left.outgoing]
    rfl

end Graph

end GraphTransformation
