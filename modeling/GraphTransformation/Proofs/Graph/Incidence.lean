import GraphTransformation.Proofs.Graph.Removal
import GraphTransformation.Proofs.Search.Occurrence
import Mathlib.Algebra.BigOperators.Group.Finset.Basic
import Mathlib.Algebra.Ring.Nat

/-!
What the indexes answer.

A query for the edges at a vertex, or between two, reads the indexes and never goes through the
edges. It gives the same list as a pass over all of them, since both are in handle order and have
the same members (`Consistent.eq_scan`). Degrees count the ends of the edges (`terminals`), so all
of them together count two for each edge (`Consistent.sum_degree`). `queries_scan` says so of
every query, for all handles, be they members or not.
-/

namespace GraphTransformation.Graph

variable {g : Graph} {v w : VertexId}

/-! ### Edges at a vertex -/

theorem Consistent.outgoing_eq (cons : g.Consistent) (v : VertexId) :
    g.outgoing v = g.scan fun e => e.source = v := by
  refine cons.eq_scan (g.outgoing_increasing v) fun id => ?_
  simp only [cons.mem_outgoing, decide_eq_true_eq]

theorem Consistent.incoming_eq (cons : g.Consistent) (v : VertexId) :
    g.incoming v = g.scan fun e => e.target = v := by
  refine cons.eq_scan (g.incoming_increasing v) fun id => ?_
  simp only [cons.mem_incoming, decide_eq_true_eq]

/-- What an index lists is a member, so it can be looked up. -/
theorem Consistent.listed_member (cons : g.Consistent) {id : EdgeId}
    (listed : id ∈ g.outgoing v ∨ id ∈ g.incoming v) : ∃ e, g.edge? id = some e := by
  rcases listed with leaves | enters
  · obtain ⟨e, stored, -⟩ := cons.mem_outgoing.mp leaves
    exact ⟨e, stored⟩
  · obtain ⟨e, stored, -⟩ := cons.mem_incoming.mp enters
    exact ⟨e, stored⟩

/-! ### Edges between two vertices -/

theorem Consistent.edgesBetween_directed (cons : g.Consistent) (v w : VertexId) :
    g.edgesBetween v w .directed = g.scan fun e => e.source = v ∧ e.target = w := by
  refine cons.eq_scan (g.edgesBetween_increasing v w _) fun id => ?_
  simp [cons.mem_edgesBetween, Edge.Joins]

theorem Consistent.edgesBetween_undirected (cons : g.Consistent) (v w : VertexId) :
    g.edgesBetween v w .undirected =
      g.scan fun e => e.source = v ∧ e.target = w ∨ e.source = w ∧ e.target = v := by
  refine cons.eq_scan (g.edgesBetween_increasing v w _) fun id => ?_
  simp [cons.mem_edgesBetween, Edge.Joins]

theorem Consistent.edgesBetween_comm (cons : g.Consistent) (v w : VertexId) :
    g.edgesBetween v w .undirected = g.edgesBetween w v .undirected := by
  rw [cons.edgesBetween_undirected, cons.edgesBetween_undirected]
  congr 1
  funext e
  rw [decide_eq_decide]
  exact or_comm

/-! ### Degrees -/

/-- The ends of all edges: for each edge in handle order its source and its target. -/
def terminals (g : Graph) : List VertexId := g.edges.flatMap fun e => [e.source, e.target]

theorem length_scan (test : Edge → Bool) : (g.scan test).length = g.edges.countP test := by
  rw [scan, List.length_map, ← List.countP_eq_length_filter]

theorem length_terminals : g.terminals.length = 2 * g.edgeCount := by
  have size : g.edges.length = g.edgeCount := List.length_map ..
  rw [terminals, List.length_flatMap, ← size]
  simp only [List.length_cons, List.length_nil]
  rw [List.map_const', List.sum_replicate_nat, Nat.mul_comm]

/-- A vertex is an end as often as edges leave it and as edges enter it. -/
theorem count_terminals : g.terminals.count v =
    g.edges.countP (fun e => e.source = v) + g.edges.countP (fun e => e.target = v) := by
  rw [terminals]
  induction g.edges with
  | nil => rfl
  | cons e rest ih =>
    rw [List.flatMap_cons, List.count_append, ih, List.countP_cons, List.countP_cons]
    have ends : [e.source, e.target].count v =
        (if e.source = v then 1 else 0) + if e.target = v then 1 else 0 := by
      simp [List.count_cons, Nat.add_comm]
    simp only [ends, decide_eq_true_eq]
    omega

/-- The degree counts ends, so a loop counts twice. -/
theorem Consistent.degree_eq (cons : g.Consistent) (v : VertexId) :
    g.degree v = g.terminals.count v := by
  rw [degree, outDegree, inDegree, cons.outgoing_eq, cons.incoming_eq, length_scan, length_scan,
    count_terminals]

theorem Consistent.terminals_members (cons : g.Consistent) :
    ∀ v ∈ g.terminals, v ∈ g.vertexIds := by
  intro v mem
  obtain ⟨e, listed, isEnd⟩ := List.mem_flatMap.mp mem
  have stored := cons.mem_edges.mp listed
  rcases List.mem_pair.mp isEnd with rfl | rfl
  · exact cons.source_mem stored
  · exact cons.target_mem stored

/-- Every edge has its two ends at members, so the degrees add up to twice the edges. -/
theorem Consistent.sum_degree (cons : g.Consistent) :
    (g.vertexIds.map g.degree).sum = 2 * g.edgeCount := by
  have counts : g.vertexIds.map g.degree = g.vertexIds.map fun v => g.terminals.count v :=
    List.map_congr_left fun v _ => cons.degree_eq v
  calc (g.vertexIds.map g.degree).sum
      = (g.vertexIds.map fun v => g.terminals.count v).sum := by rw [counts]
    _ = ∑ v ∈ g.vertexIds.toFinset, g.terminals.count v :=
        (List.sum_toFinset _ g.vertexIds_nodup).symm
    _ = ∑ v ∈ g.vertexIds.toFinset, (g.terminals : Multiset VertexId).count v := by
        simp only [Multiset.coe_count]
    _ = (g.terminals : Multiset VertexId).card :=
        Multiset.sum_count_eq_card fun v mem => List.mem_toFinset.mpr (cons.terminals_members v mem)
    _ = 2 * g.edgeCount := length_terminals

/-! ### All queries -/

/-- The queries that read the indexes answer what a pass over all edges answers: the edges out of
a vertex, into it and at it, its degree, and the edges between two vertices in either mode. The
lists are in handle order without repetitions, the order of two vertices does not matter in
undirected mode, and every edge that an index lists is there to be looked up. -/
theorem queries_scan (reach : g.Reachable) :
    (∀ v, g.outgoing v = g.scan (fun e => e.source = v) ∧
      g.incoming v = g.scan (fun e => e.target = v) ∧
      g.incidentEdges v = g.scan (fun e => e.source = v ∨ e.target = v) ∧
      g.degree v = g.terminals.count v) ∧
    (g.vertexIds.map g.degree).sum = 2 * g.edgeCount ∧
    (∀ v w, g.edgesBetween v w .directed = g.scan (fun e => e.source = v ∧ e.target = w) ∧
      g.edgesBetween v w .undirected =
        g.scan (fun e => e.source = v ∧ e.target = w ∨ e.source = w ∧ e.target = v) ∧
      g.edgesBetween v w .undirected = g.edgesBetween w v .undirected) ∧
    (∀ test, SortedMap.Increasing (g.scan test)) ∧
    ∀ v id, id ∈ g.outgoing v ∨ id ∈ g.incoming v → ∃ e, g.edge? id = some e := by
  have cons := reach.consistent
  refine ⟨fun v => ?_, cons.sum_degree, fun v w => ?_, cons.scan_increasing,
    fun _ _ => cons.listed_member⟩
  · exact ⟨cons.outgoing_eq v, cons.incoming_eq v, cons.incidentEdges_eq v, cons.degree_eq v⟩
  · exact ⟨cons.edgesBetween_directed v w, cons.edgesBetween_undirected v w,
      cons.edgesBetween_comm v w⟩

/-- At the first vertex of the knot the loop counts once as an edge and twice in the degree, and
between it and the second vertex there is an edge in either direction. -/
theorem knot_queries :
    knot.Reachable ∧ knot.incidentEdges ⟨0⟩ = [⟨0⟩, ⟨1⟩, ⟨2⟩] ∧ knot.degree ⟨0⟩ = 4 ∧
      (knot.vertexIds.map knot.degree).sum = 8 ∧
      knot.edgesBetween ⟨0⟩ ⟨0⟩ .undirected = [⟨1⟩] ∧
      knot.edgesBetween ⟨0⟩ ⟨1⟩ .undirected = [⟨0⟩, ⟨2⟩] ∧
      knot.edgesBetween ⟨1⟩ ⟨0⟩ .undirected = [⟨0⟩, ⟨2⟩] ∧
      knot.outgoing ⟨9⟩ = [] ∧ ∃ e, knot.edge? ⟨1⟩ = some e := by
  obtain ⟨ends, total, between, -, listed⟩ := queries_scan knot_reachable
  obtain ⟨-, -, incident, degree⟩ := ends ⟨0⟩
  obtain ⟨-, loops, -⟩ := between ⟨0⟩ ⟨0⟩
  obtain ⟨-, forth, swapped⟩ := between ⟨0⟩ ⟨1⟩
  obtain ⟨absent, -⟩ := ends ⟨9⟩
  have either : knot.edgesBetween ⟨0⟩ ⟨1⟩ .undirected = [⟨0⟩, ⟨2⟩] := forth.trans (by decide)
  exact ⟨knot_reachable, incident.trans (by decide), degree.trans (by decide),
    total.trans (by decide), loops.trans (by decide), either, swapped.symm.trans either,
    absent.trans (by decide), listed ⟨0⟩ ⟨1⟩ (.inl (by decide))⟩

end GraphTransformation.Graph
