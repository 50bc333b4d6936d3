import GraphTransformation.Proofs.Search.Exactness

/-!
Verification accepts exactly the occurrences.

`Embedding.verify` goes through the pairs of an embedding one by one;
`verify_eq_ok` says that it lets through what `Embedding.Occurs` describes. An
occurrence stays one in every host that has the same elements under its images
(`Occurs.transfer`). The search finds the same embeddings, so checking one map
and looking for it among all that are found decide the same (`verify_decides`).
-/

namespace GraphTransformation.Embedding

variable {pattern : Pattern} {host : Graph} {m : Embedding}

/-! ### The checks -/

theorem covers_iff : m.covers pattern = true ↔
    (∀ v, m.vertexMap.contains v = true ↔ v ∈ pattern.graph.vertexIds) ∧
      ∀ e, m.edgeMap.contains e = true ↔ e ∈ pattern.graph.edgeIds := by
  have same : ∀ {kind : Kind} {α β : Type} (m : SortedMap (Handle kind) α)
      (n : SortedMap (Handle kind) β), m.keys = n.keys ↔
        ∀ k, m.contains k = true ↔ k ∈ n.keys := by
    intro kind α β m n
    constructor
    · intro eq k
      rw [← eq, SortedMap.mem_keys]
    · intro members
      refine SortedMap.eq_of_increasing m.keys_increasing n.keys_increasing fun k => ?_
      rw [SortedMap.mem_keys, members]
  rw [covers, Bool.and_eq_true, beq_iff_eq, beq_iff_eq, Graph.vertexIds, Graph.edgeIds, same, same]

theorem injective_iff : m.injective = true ↔
    (∀ {p q h}, m.vertex? p = some h → m.vertex? q = some h → p = q) ∧
      ∀ {p q h}, m.edge? p = some h → m.edge? q = some h → p = q := by
  rw [injective, Bool.and_eq_true, decide_eq_true_iff, decide_eq_true_iff, hostVertices, hostEdges,
    SortedMap.values_nodup_iff, SortedMap.values_nodup_iff]
  rfl

theorem vertexFault?_eq_none {p h : VertexId} : vertexFault? pattern host p h = none ↔
    ∃ x, host.vertex? h = some x ∧ pattern.admits (.vertex p) x.attributes = true := by
  rw [vertexFault?]
  cases host.vertex? h with
  | none => simp
  | some x => simp

theorem edgeFault?_eq_none (cons : host.Consistent) {p h : EdgeId} :
    m.edgeFault? pattern host p h = none ↔
      (∃ x, host.edge? h = some x ∧ pattern.admits (.edge p) x.attributes = true) ∧
        ∃ e x s t, pattern.graph.edge? p = some e ∧ host.edge? h = some x ∧
          m.vertex? e.source = some s ∧ m.vertex? e.target = some t ∧
          x.Joins pattern.edgeMode s t := by
  rw [edgeFault?]
  cases stored : host.edge? h with
  | none => simp
  | some x =>
    by_cases admitted : pattern.admits (.edge p) x.attributes = true
    · cases inPattern : pattern.graph.edge? p with
      | none => simp [admitted]
      | some e =>
        cases source : m.vertex? e.source with
        | none => simp [admitted, source]
        | some s =>
          cases target : m.vertex? e.target with
          | none => simp [admitted, source, target]
          | some t => simp [admitted, source, target, cons.mem_edgesBetween, stored]
    · simp [admitted]

theorem verify_eq_ok (cons : host.Consistent) :
    m.verify pattern host = .ok () ↔ m.Occurs pattern host := by
  have faultless : m.verify pattern host = .ok () ↔ m.fault? pattern host = none := by
    rw [verify]
    cases m.fault? pattern host with
    | none => simp
    | some fault => simp
  have checks : m.fault? pattern host = none ↔
      m.covers pattern = true ∧ m.injective = true ∧
        (∀ p h, m.vertex? p = some h → vertexFault? pattern host p h = none) ∧
        ∀ p h, m.edge? p = some h → m.edgeFault? pattern host p h = none := by
    rw [fault?]
    cases m.covers pattern with
    | false => simp
    | true =>
      cases m.injective with
      | false => simp
      | true =>
        simp [Prod.forall, vertex?, edge?, ← SortedMap.get?_eq_some_iff]
  rw [faultless, checks, covers_iff, injective_iff]
  simp only [vertexFault?_eq_none, edgeFault?_eq_none cons]
  constructor
  · rintro ⟨⟨vertices, edges⟩, ⟨vertexInjective, edgeInjective⟩, vertexFits, edgeFits⟩
    exact ⟨vertices, edges, vertexInjective, edgeInjective, vertexFits _ _,
      fun image => (edgeFits _ _ image).1, fun image => (edgeFits _ _ image).2⟩
  · intro occurs
    exact ⟨⟨occurs.vertices, occurs.edges⟩, ⟨occurs.vertex_injective, occurs.edge_injective⟩,
      fun _ _ => occurs.vertex_admitted, fun _ _ image =>
        ⟨occurs.edge_admitted image, occurs.edge_joins image⟩⟩

/-! ### Other hosts -/

/-- Both hosts have the same elements under the images. -/
structure Agree (m : Embedding) (host next : Graph) : Prop where
  vertex : ∀ v ∈ m.hostVertices, next.vertex? v = host.vertex? v
  edge : ∀ k ∈ m.hostEdges, next.edge? k = host.edge? k

theorem Agree.symm {next : Graph} (agree : m.Agree host next) : m.Agree next host :=
  ⟨fun v image => (agree.vertex v image).symm, fun id image => (agree.edge id image).symm⟩

/-- An occurrence depends only on the elements under its images. -/
theorem Occurs.transfer {next : Graph} (occurs : m.Occurs pattern host)
    (agree : m.Agree host next) : m.Occurs pattern next where
  vertices := occurs.vertices
  edges := occurs.edges
  vertex_injective := occurs.vertex_injective
  edge_injective := occurs.edge_injective
  vertex_admitted image := by
    rw [agree.vertex _ (mem_hostVertices.mpr ⟨_, image⟩)]
    exact occurs.vertex_admitted image
  edge_admitted image := by
    rw [agree.edge _ (mem_hostEdges.mpr ⟨_, image⟩)]
    exact occurs.edge_admitted image
  edge_joins image := by
    rw [agree.edge _ (mem_hostEdges.mpr ⟨_, image⟩)]
    exact occurs.edge_joins image

/-! ### The search and the check -/

/-- The sequential matcher finds what the check lets through. -/
theorem mem_findAll_iff_verify (lhs : pattern.graph.Consistent) (cons : host.Consistent) :
    m ∈ Matcher.backtracking.findAll pattern host ↔ m.verify pattern host = .ok () := by
  rw [verify_eq_ok cons]
  exact (Search.trace_finds lhs cons).mem m

/-- The check has no other failure than that of a match that does not fit. -/
theorem verify_eq_error_of_ne_ok (refused : m.verify pattern host ≠ .ok ()) :
    ∃ fault, m.verify pattern host = .error (.invalidMatch fault) := by
  rw [verify] at refused ⊢
  split
  · rename_i none
    simp [none] at refused
  · rename_i fault _
    exact ⟨fault, rfl⟩

/-- Whatever maps an embedding is made of, the check accepts it if the search finds it, and
refuses it as an invalid match if not. -/
theorem verify_decides (lhs : pattern.graph.Reachable) (reach : host.Reachable) (m : Embedding) :
    (m.verify pattern host = .ok () ↔ m ∈ Matcher.backtracking.findAll pattern host) ∧
      (m ∉ Matcher.backtracking.findAll pattern host →
        ∃ fault, m.verify pattern host = .error (.invalidMatch fault)) := by
  have agree := @mem_findAll_iff_verify _ _ m lhs.consistent reach.consistent
  exact ⟨agree.symm, fun missed => verify_eq_error_of_ne_ok fun accepted =>
    missed (agree.mpr accepted)⟩

/-- An arrow turned around fits an undirected arrow; one whose ends are put on one vertex does
not. -/
theorem arrow_turned_or_folded :
    let pattern : Pattern := .ofGraph .arrow .undirected
    let turned : Embedding := ⟨.ofList [(⟨0⟩, ⟨1⟩), (⟨1⟩, ⟨0⟩)], .ofList [(⟨0⟩, ⟨0⟩)]⟩
    let folded : Embedding := ⟨.ofList [(⟨0⟩, ⟨1⟩), (⟨1⟩, ⟨1⟩)], .ofList [(⟨0⟩, ⟨0⟩)]⟩
    pattern.graph.Reachable ∧ Graph.arrow.Reachable ∧ turned.verify pattern .arrow = .ok () ∧
      folded ∉ Matcher.backtracking.findAll pattern .arrow ∧
      ∃ fault, folded.verify pattern .arrow = .error (.invalidMatch fault) := by
  intro pattern turned folded
  have reach := Graph.arrow_reachable
  obtain ⟨accepted, -⟩ := @verify_decides pattern _ reach reach turned
  obtain ⟨-, refused⟩ := @verify_decides pattern _ reach reach folded
  have found : turned ∈ Matcher.backtracking.findAll pattern .arrow := by decide
  have missed : folded ∉ Matcher.backtracking.findAll pattern .arrow := by decide
  exact ⟨reach, reach, accepted.mpr found, missed, refused missed⟩

end GraphTransformation.Embedding
