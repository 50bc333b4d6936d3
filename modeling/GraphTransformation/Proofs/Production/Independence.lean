import GraphTransformation.Proofs.Graph.Renaming
import GraphTransformation.Proofs.Production.Failure
import Mathlib.Data.List.Lattice

/-!
Applications at matches apart from one another.

Two matches whose images share no vertex share no edge either, so an application
at the one leaves the images of the other as they are (`Effect.agree`), and rules
that read nothing else of the host give the same values before and after it
(`Embedding.Agree.assigned`). What becomes of an old element does not depend on
which of the applications comes first (`keptVertex_comm`, `keptEdge_comm`), and a
created element is the same but for its handles (`createdVertex_rename`,
`createdEdge_rename`).
-/

namespace GraphTransformation

/-! ### Rules that read the images alone -/

/-- The rule sets, copies or removes an attribute. -/
def Rule.Plain : Rule → Prop
  | .compute _ _ => False
  | _ => True

theorem Rule.Plain.apply {rule : Rule} (plain : rule.Plain) {ctx other : RuleContext}
    (same : ctx.attributes? = other.attributes?) (name : String) (attributes : Attributes) :
    rule.apply ctx name attributes = rule.apply other name attributes := by
  have value : rule.evaluate ctx = rule.evaluate other := by
    cases rule with
    | set value => rfl
    | copy source name => simp only [evaluate, RuleContext.attribute?, same]
    | remove => rfl
    | compute name value => exact plain.elim
  rw [Rule.apply, Rule.apply, value]

/-- All rules of the production set, copy or remove attributes. -/
def Production.Plain (p : Production) : Prop := ∀ entry ∈ p.rules, entry.2.2.Plain

namespace Embedding

variable {host next : Graph} {m : Embedding} {p : Production}

theorem Agree.attributes? (agree : m.Agree host next) :
    (⟨next, m⟩ : RuleContext).attributes? = (⟨host, m⟩ : RuleContext).attributes? := by
  funext l
  cases l with
  | vertex v =>
    simp only [RuleContext.attributes?, image?]
    cases image : m.vertex? v with
    | none => rfl
    | some h => simp [Graph.attributes?, agree.vertex h (mem_hostVertices.mpr ⟨v, image⟩)]
  | edge e =>
    simp only [RuleContext.attributes?, image?]
    cases image : m.edge? e with
    | none => rfl
    | some h => simp [Graph.attributes?, agree.edge h (mem_hostEdges.mpr ⟨e, image⟩)]

/-- Plain rules give the same attributes in both hosts. -/
theorem Agree.assigned (agree : m.Agree host next) (plain : p.Plain) :
    p.assigned ⟨next, m⟩ = p.assigned ⟨host, m⟩ := by
  funext element attributes
  refine List.foldl_ext _ _ _ fun current entry mem => ?_
  obtain ⟨whole, inRules, rfl⟩ := List.mem_map.mp mem
  exact (plain whole (List.mem_of_mem_filter inRules)).apply agree.attributes? _ _

theorem Agree.keptVertex (agree : m.Agree host next) (plain : p.Plain) :
    p.keptVertex ⟨next, m⟩ = p.keptVertex ⟨host, m⟩ := by
  funext x
  simp only [Production.keptVertex, Production.revised, agree.assigned plain]

theorem Agree.keptEdge (agree : m.Agree host next) (plain : p.Plain) :
    p.keptEdge ⟨next, m⟩ = p.keptEdge ⟨host, m⟩ := by
  funext x
  simp only [Production.keptEdge, Production.revised, agree.assigned plain]

theorem Agree.createdVertex (agree : m.Agree host next) (plain : p.Plain) :
    p.createdVertex ⟨next, m⟩ = p.createdVertex ⟨host, m⟩ := by
  funext g i
  simp only [Production.createdVertex, agree.assigned plain]

theorem Agree.createdEdge (agree : m.Agree host next) (plain : p.Plain) :
    p.createdEdge ⟨next, m⟩ = p.createdEdge ⟨host, m⟩ := by
  funext g i
  simp only [Production.createdEdge, agree.assigned plain]

/-- Images are members, so their handles had been given out. -/
theorem Occurs.vertex_below {pattern : Pattern} (occurs : m.Occurs pattern host)
    (cons : host.Consistent) {v : VertexId} (mem : v ∈ m.hostVertices) :
    v.word < host.nextVertex := by
  obtain ⟨l, image⟩ := mem_hostVertices.mp mem
  obtain ⟨x, stored, -⟩ := occurs.vertex_admitted image
  exact cons.vertex_below (SortedMap.contains_of_get? stored)

theorem Occurs.edge_below {pattern : Pattern} (occurs : m.Occurs pattern host)
    (cons : host.Consistent) {k : EdgeId} (mem : k ∈ m.hostEdges) : k.word < host.nextEdge := by
  obtain ⟨l, image⟩ := mem_hostEdges.mp mem
  obtain ⟨x, stored, -⟩ := occurs.edge_admitted image
  exact cons.edge_below (SortedMap.contains_of_get? stored)

/-- The ends of an edge's image are images of vertices. -/
theorem Occurs.ends_mem {pattern : Pattern} (occurs : m.Occurs pattern host) {k : EdgeId} {x : Edge}
    (mem : k ∈ m.hostEdges) (stored : host.edge? k = some x) :
    x.source ∈ m.hostVertices ∧ x.target ∈ m.hostVertices := by
  obtain ⟨e, image⟩ := mem_hostEdges.mp mem
  obtain ⟨_, y, s, t, -, stored', source, target, joins⟩ := occurs.edge_joins image
  cases stored.symm.trans stored'
  have sourceMem := mem_hostVertices.mpr ⟨_, source⟩
  have targetMem := mem_hostVertices.mpr ⟨_, target⟩
  rcases joins with ⟨rfl, rfl⟩ | ⟨-, rfl, rfl⟩
  · exact ⟨sourceMem, targetMem⟩
  · exact ⟨targetMem, sourceMem⟩

end Embedding

namespace Production

open GraphTransformation.Graph

variable {p q : Production} {host a b ab ba : Graph} {m n : Embedding} {ctx : RuleContext}

/-! ### Elements off the images -/

theorem deletedVertices_subset : p.deletedVertices m ⊆ m.hostVertices := by
  intro v mem
  obtain ⟨l, -, -, image⟩ := mem_deletedVertices.mp mem
  exact Embedding.mem_hostVertices.mpr ⟨l, image⟩

theorem deletedEdges_subset : p.deletedEdges m ⊆ m.hostEdges := by
  intro k mem
  obtain ⟨l, -, -, image⟩ := mem_deletedEdges.mp mem
  exact Embedding.mem_hostEdges.mpr ⟨l, image⟩

theorem heir?_eq_none {element : Element} (off : ∀ l, m.image? l ≠ some element) :
    p.heir? m element = none := by
  rw [heir?, heirIn, Option.map_eq_none_iff, List.find?_eq_none]
  intro pair _
  simpa using off pair.1

theorem keptVertex_off {x : Vertex} (off : x.id ∉ ctx.embedding.hostVertices) :
    p.keptVertex ctx x = some x := by
  have noHeir : p.heir? ctx.embedding (.vertex x.id) = none := by
    refine heir?_eq_none fun l image => off ?_
    cases l with
    | vertex v => exact Embedding.mem_hostVertices.mpr ⟨v, by simpa [Embedding.image?] using image⟩
    | edge e => simp [Embedding.image?] at image
  rw [keptVertex, if_neg fun mem => off (deletedVertices_subset mem), noHeir]
  rfl

/-- An edge off the images only goes along with a vertex at its end. -/
theorem keptEdge_off {x : Edge} (off : x.id ∉ ctx.embedding.hostEdges) : p.keptEdge ctx x =
    if x.source ∈ p.deletedVertices ctx.embedding ∨ x.target ∈ p.deletedVertices ctx.embedding
      then none else some x := by
  have noHeir : p.heir? ctx.embedding (.edge x.id) = none := by
    refine heir?_eq_none fun l image => off ?_
    cases l with
    | vertex v => simp [Embedding.image?] at image
    | edge e => exact Embedding.mem_hostEdges.mpr ⟨e, by simpa [Embedding.image?] using image⟩
  have spared : x.id ∉ p.deletedEdges ctx.embedding := fun mem => off (deletedEdges_subset mem)
  simp only [keptEdge, spared, false_or, noHeir]
  rfl

theorem keptEdge_dropped_or_same {x : Edge} (off : x.id ∉ ctx.embedding.hostEdges) :
    p.keptEdge ctx x = none ∨ p.keptEdge ctx x = some x := by
  rw [keptEdge_off off]
  split
  · exact .inl rfl
  · exact .inr rfl

theorem keptEdge_apart {x : Edge} (off : x.id ∉ ctx.embedding.hostEdges)
    (source : x.source ∉ ctx.embedding.hostVertices)
    (target : x.target ∉ ctx.embedding.hostVertices) : p.keptEdge ctx x = some x := by
  rw [keptEdge_off off, if_neg]
  rintro (mem | mem)
  · exact source (deletedVertices_subset mem)
  · exact target (deletedVertices_subset mem)

theorem keptVertex_id {x y : Vertex} (kept : p.keptVertex ctx x = some y) : y.id = x.id := by
  rw [keptVertex] at kept
  split at kept
  · cases kept
  · cases kept
    rfl

theorem keptEdge_ends {x y : Edge} (kept : p.keptEdge ctx x = some y) :
    y.id = x.id ∧ y.source = x.source ∧ y.target = x.target := by
  rw [keptEdge] at kept
  split at kept
  · cases kept
  · cases kept
    exact ⟨rfl, rfl, rfl⟩

/-- Two partial changes of which the first changes nothing here, before or after the second. -/
theorem bind_comm_of_fixed {α : Type} {f g : α → Option α} {x : α} (fixed : f x = some x)
    (stays : ∀ y, g x = some y → f y = some y) : (f x).bind g = (g x).bind f := by
  rw [fixed, Option.bind_some]
  cases changed : g x with
  | none => rfl
  | some y => exact (stays y changed).symm

/-! ### Two matches apart from one another -/

/-- The images of a match apart from the applied one are left as they are. -/
theorem Effect.agree (effect : p.Effect host m a) (cons : host.Consistent)
    (occurs : m.Occurs p.lhs host) (other : n.Occurs q.lhs host)
    (apart : m.hostVertices.Disjoint n.hostVertices) : n.Agree host a where
  vertex v mem := by
    obtain ⟨l, image⟩ := Embedding.mem_hostVertices.mp mem
    obtain ⟨x, stored, -⟩ := other.vertex_admitted image
    have old := cons.vertex_below (SortedMap.contains_of_get? stored)
    have off : x.id ∉ m.hostVertices := (cons.vertex_id stored).symm ▸ fun inM => apart inM mem
    rw [effect.oldVertex v old, stored]
    exact keptVertex_off off
  edge k mem := by
    obtain ⟨l, image⟩ := Embedding.mem_hostEdges.mp mem
    obtain ⟨x, stored, -⟩ := other.edge_admitted image
    have old := cons.edge_below (SortedMap.contains_of_get? stored)
    obtain ⟨source, target⟩ := other.ends_mem mem stored
    have off : x.id ∉ m.hostEdges := (cons.edge_id stored).symm ▸ fun inM =>
      apart (occurs.ends_mem inM stored).1 source
    rw [effect.oldEdge k old, stored]
    exact keptEdge_apart off (fun inM => apart inM source) fun inM => apart inM target

/-- What is left of an old vertex does not depend on the order. -/
theorem keptVertex_comm (apart : m.hostVertices.Disjoint n.hostVertices) (x : Vertex) :
    (p.keptVertex ⟨host, m⟩ x).bind (q.keptVertex ⟨host, n⟩) =
      (q.keptVertex ⟨host, n⟩ x).bind (p.keptVertex ⟨host, m⟩) := by
  by_cases inM : x.id ∈ m.hostVertices
  · have off : x.id ∉ n.hostVertices := apart inM
    refine (bind_comm_of_fixed (keptVertex_off off) fun y kept => keptVertex_off ?_).symm
    exact keptVertex_id kept ▸ off
  · refine bind_comm_of_fixed (keptVertex_off inM) fun y kept => keptVertex_off ?_
    exact keptVertex_id kept ▸ inM

/-- An edge of the one match is not touched by the application at the other. -/
theorem keptEdge_comm_of_mem (occurs : m.Occurs p.lhs host) (other : n.Occurs q.lhs host)
    (apart : m.hostVertices.Disjoint n.hostVertices) {x : Edge} (stored : host.edge? x.id = some x)
    (mem : x.id ∈ m.hostEdges) : (q.keptEdge ⟨host, n⟩ x).bind (p.keptEdge ⟨host, m⟩) =
      (p.keptEdge ⟨host, m⟩ x).bind (q.keptEdge ⟨host, n⟩) := by
  obtain ⟨source, target⟩ := occurs.ends_mem mem stored
  have off : x.id ∉ n.hostEdges := fun inN => apart source (other.ends_mem inN stored).1
  refine bind_comm_of_fixed (keptEdge_apart off (apart source) (apart target)) fun y kept => ?_
  obtain ⟨sameId, sameSource, sameTarget⟩ := keptEdge_ends kept
  exact keptEdge_apart (sameId ▸ off) (sameSource ▸ apart source) (sameTarget ▸ apart target)

/-- What is left of an old edge does not depend on the order. -/
theorem keptEdge_comm (occurs : m.Occurs p.lhs host) (other : n.Occurs q.lhs host)
    (apart : m.hostVertices.Disjoint n.hostVertices) {x : Edge}
    (stored : host.edge? x.id = some x) :
    (p.keptEdge ⟨host, m⟩ x).bind (q.keptEdge ⟨host, n⟩) =
      (q.keptEdge ⟨host, n⟩ x).bind (p.keptEdge ⟨host, m⟩) := by
  by_cases inM : x.id ∈ m.hostEdges
  · exact (keptEdge_comm_of_mem occurs other apart stored inM).symm
  · by_cases inN : x.id ∈ n.hostEdges
    · exact keptEdge_comm_of_mem other occurs apart.symm stored inN
    · -- off both images each application either drops the edge or keeps it as it is
      have first := @keptEdge_dropped_or_same p ⟨host, m⟩ x inM
      have second := @keptEdge_dropped_or_same q ⟨host, n⟩ x inN
      rcases first with gone | same
      · rcases second with gone' | same'
        · simp [gone, gone']
        · simp [gone, same']
      · rcases second with gone' | same'
        · simp [same, gone']
        · simp [same, same']

/-! ### Created elements under other handles -/

/-- Handles that the application gives out lie below its counters, as do earlier ones. -/
theorem Effect.vertex_issued (effect : p.Effect host m a) {v : VertexId}
    (lt : v.word.toNat < host.nextVertex.toNat + p.newVertices.length) :
    v.word < a.nextVertex := by
  rwa [UInt64.lt_iff_toNat_lt, effect.nextVertex]

theorem Effect.edge_issued (effect : p.Effect host m a) {k : EdgeId}
    (lt : k.word.toNat < host.nextEdge.toNat + p.newEdges.length) : k.word < a.nextEdge := by
  rwa [UInt64.lt_iff_toNat_lt, effect.nextEdge]

theorem Effect.freshVertex (effect : p.Effect host m a) (i : Nat) :
    a.freshVertex i = host.freshVertex (p.newVertices.length + i) :=
  Handle.issued_moved effect.nextVertex i

theorem Effect.freshEdge (effect : p.Effect host m a) (i : Nat) :
    a.freshEdge i = host.freshEdge (p.newEdges.length + i) :=
  Handle.issued_moved effect.nextEdge i

variable {σ : VertexId → VertexId} {τ : EdgeId → EdgeId} {g h : Graph} {i : Nat}

theorem createdVertex_rename (moved : σ (g.freshVertex i) = h.freshVertex i) :
    p.createdVertex ctx h i = (p.createdVertex ctx g i).map (Vertex.rename σ) := by
  rw [createdVertex, createdVertex]
  cases p.newVertices[i]? with
  | none => rfl
  | some r => simp [Vertex.rename, moved]

theorem standIn_rename (fixed : ∀ v ∈ m.hostVertices, σ v = v)
    (moved : ∀ j < p.newVertices.length, σ (g.freshVertex j) = h.freshVertex j) (r : VertexId) :
    p.standIn h m r = (p.standIn g m r).map σ := by
  cases partner : p.correspondence.vertices.left? r with
  | some l =>
    rw [standIn_paired partner, standIn_paired partner]
    cases image : m.vertex? l with
    | none => rfl
    | some v => simp [fixed v (Embedding.mem_hostVertices.mpr ⟨l, image⟩)]
  | none =>
    rw [standIn_new partner, standIn_new partner]
    cases place : p.newVertices.idxOf? r with
    | none => rfl
    | some j =>
      have lt : j < p.newVertices.length := (List.idxOf?_eq_some_iff.mp place).1
      simp [moved j lt]

theorem createdEdge_rename (fixed : ∀ v ∈ ctx.embedding.hostVertices, σ v = v)
    (moved : ∀ j < p.newVertices.length, σ (g.freshVertex j) = h.freshVertex j)
    (movedEdge : τ (g.freshEdge i) = h.freshEdge i) :
    p.createdEdge ctx h i = (p.createdEdge ctx g i).map (Edge.rename σ τ) := by
  rw [createdEdge, createdEdge]
  cases p.newEdges[i]? with
  | none => rfl
  | some e =>
    simp only [Option.bind_eq_bind, Option.bind_some, standIn_rename fixed moved]
    cases p.standIn g ctx.embedding e.source with
    | none => rfl
    | some s =>
      cases p.standIn g ctx.embedding e.target with
      | none => rfl
      | some t => simp [Edge.rename, movedEdge]

theorem createdVertex_id {x : Vertex} (made : p.createdVertex ctx g i = some x) :
    x.id = g.freshVertex i := by
  rw [createdVertex] at made
  cases new : p.newVertices[i]? with
  | none => simp [new] at made
  | some r =>
    simp only [new, Option.bind_eq_bind, Option.bind_some] at made
    cases made
    rfl

/-- A created edge stands under a new handle, between vertices that stand for its ends. -/
theorem createdEdge_parts {x : Edge} (made : p.createdEdge ctx g i = some x) :
    x.id = g.freshEdge i ∧ (∃ r, p.standIn g ctx.embedding r = some x.source) ∧
      ∃ r, p.standIn g ctx.embedding r = some x.target := by
  simp only [createdEdge, Option.bind_eq_bind, Option.bind_eq_some_iff] at made
  obtain ⟨e, -, s, source, t, target, done⟩ := made
  cases done
  exact ⟨rfl, ⟨_, source⟩, ⟨_, target⟩⟩

theorem standIn_range {r v : VertexId} (stands : p.standIn g m r = some v) :
    v ∈ m.hostVertices ∨ ∃ j < p.newVertices.length, v = g.freshVertex j := by
  cases partner : p.correspondence.vertices.left? r with
  | some l =>
    rw [standIn_paired partner] at stands
    exact .inl (Embedding.mem_hostVertices.mpr ⟨l, stands⟩)
  | none =>
    rw [standIn_new partner] at stands
    obtain ⟨j, place, rfl⟩ := Option.map_eq_some_iff.mp stands
    exact .inr ⟨j, (List.idxOf?_eq_some_iff.mp place).1, rfl⟩

end Production

end GraphTransformation
