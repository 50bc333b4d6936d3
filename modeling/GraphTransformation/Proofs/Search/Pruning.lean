import GraphTransformation.Proofs.Search.Occurrence

/-!
What the search leaves out.

The candidates of a plan step are cut down by a count of edge ends and by the
neighbours of the step's anchor. Neither loses the image of a vertex under an
occurrence: `Occurs.hasRoom` matches the edge ends at a pattern vertex with edge
ends at its image, and `mem_neighbours` follows the edge to the anchor.
-/

namespace GraphTransformation

/-! ### Matching the members of two lists -/

/-- A list whose members have partners of their own in another list is not longer. -/
theorem length_le_of_partners {α β : Type} {R : α → β → Prop} {l : List α} {r : List β}
    (distinct : l.Nodup) (partner : ∀ a ∈ l, ∃ b ∈ r, R a b)
    (own : ∀ a ∈ l, ∀ a' ∈ l, ∀ b, R a b → R a' b → a = a') : l.length ≤ r.length := by
  induction l generalizing r with
  | nil => exact Nat.zero_le _
  | cons a rest ih =>
    obtain ⟨absent, distinct⟩ := List.nodup_cons.mp distinct
    obtain ⟨b, mem, related⟩ := partner a List.mem_cons_self
    obtain ⟨before, after, rfl⟩ := List.append_of_mem mem
    have shorter : rest.length ≤ (before ++ after).length := by
      refine ih distinct (fun a' mem' => ?_) fun x hx y hy =>
        own x (List.mem_cons_of_mem _ hx) y (List.mem_cons_of_mem _ hy)
      obtain ⟨b', among, related'⟩ := partner a' (List.mem_cons_of_mem _ mem')
      have other : b' ≠ b := by
        rintro rfl
        have same := own a List.mem_cons_self a' (List.mem_cons_of_mem _ mem') _ related related'
        exact absent (same ▸ mem')
      refine ⟨b', ?_, related'⟩
      simpa [other] using among
    simp only [List.length_append, List.length_cons] at shorter ⊢
    omega

/-! ### Edge ends -/

/-- The vertex at one end of the edge: its source at the end marked `true`. -/
def Edge.terminal (x : Edge) : Bool → VertexId
  | true => x.source
  | false => x.target

namespace Graph

variable {g : Graph} {v : VertexId} {k : EdgeId}

/-- The edges whose end marked `b` is at `v`. -/
def edgesAt (g : Graph) (v : VertexId) : Bool → List EdgeId
  | true => g.outgoing v
  | false => g.incoming v

/-- The edge ends at `v`; a loop has two. -/
def edgeEnds (g : Graph) (v : VertexId) : List (EdgeId × Bool) :=
  (g.edgesAt v true).map (·, true) ++ (g.edgesAt v false).map (·, false)

theorem edgesAt_nodup {b : Bool} : (g.edgesAt v b).Nodup := by
  cases b with
  | true => exact SortedMap.keys_nodup _
  | false => exact SortedMap.keys_nodup _

theorem Consistent.mem_edgesAt (cons : g.Consistent) {b : Bool} :
    k ∈ g.edgesAt v b ↔ ∃ x, g.edge? k = some x ∧ x.terminal b = v := by
  cases b with
  | true => exact cons.mem_outgoing
  | false => exact cons.mem_incoming

theorem mem_edgeEnds {b : Bool} : (k, b) ∈ g.edgeEnds v ↔ k ∈ g.edgesAt v b := by
  cases b <;> simp [edgeEnds]

theorem edgeEnds_nodup : (g.edgeEnds v).Nodup := by
  have tagged : ∀ b, ((g.edgesAt v b).map (·, b)).Nodup := by
    intro b
    refine List.pairwise_map.mpr (edgesAt_nodup.imp ?_)
    intro j k ne eq
    exact ne (congrArg Prod.fst eq)
  refine List.nodup_append.mpr ⟨tagged true, tagged false, fun x left y right => ?_⟩
  obtain ⟨j, -, rfl⟩ := List.mem_map.mp left
  obtain ⟨k, -, rfl⟩ := List.mem_map.mp right
  simp

theorem length_edgeEnds : (g.edgeEnds v).length = g.degree v := by
  simp [edgeEnds, edgesAt, degree, outDegree, inDegree]

end Graph

namespace Embedding

variable {pattern : Pattern} {host : Graph} {m n : Embedding} {v h : VertexId}

/-! ### Degrees -/

/-- The edge at a pattern vertex goes to an edge at its image, with the end of the same
mark there or, in undirected mode, maybe with the other. -/
theorem Occurs.image_edgesAt (occurs : n.Occurs pattern host) (lhs : pattern.graph.Consistent)
    (cons : host.Consistent) (image : n.vertex? v = some h) {b : Bool} {e : EdgeId}
    (mem : e ∈ pattern.graph.edgesAt v b) :
    ∃ k, n.edge? e = some k ∧
      (k ∈ host.edgesAt h b ∨ pattern.edgeMode = .undirected ∧ k ∈ host.edgesAt h (!b)) := by
  obtain ⟨a, inPattern, atV⟩ := lhs.mem_edgesAt.mp mem
  obtain ⟨k, found⟩ := occurs.edge?_isSome_of inPattern
  obtain ⟨x, s, t, stored, source, target, joins⟩ := occurs.image_joins inPattern found
  refine ⟨k, found, ?_⟩
  simp only [cons.mem_edgesAt]
  cases b with
  | true =>
    cases (atV ▸ source : n.vertex? v = some s).symm.trans image
    rcases joins with ⟨atSource, -⟩ | ⟨undirected, -, atTarget⟩
    · exact .inl ⟨x, stored, atSource⟩
    · exact .inr ⟨undirected, x, stored, atTarget⟩
  | false =>
    cases (atV ▸ target : n.vertex? v = some t).symm.trans image
    rcases joins with ⟨-, atTarget⟩ | ⟨undirected, atSource, -⟩
    · exact .inl ⟨x, stored, atTarget⟩
    · exact .inr ⟨undirected, x, stored, atSource⟩

/-- A loop goes to a loop. -/
theorem Occurs.image_loop (occurs : n.Occurs pattern host) (lhs : pattern.graph.Consistent)
    (cons : host.Consistent) (image : n.vertex? v = some h) {e k : EdgeId}
    (leaves : e ∈ pattern.graph.edgesAt v true) (enters : e ∈ pattern.graph.edgesAt v false)
    (found : n.edge? e = some k) (b : Bool) : k ∈ host.edgesAt h b := by
  obtain ⟨a, inPattern, source⟩ := lhs.mem_edgesAt.mp leaves
  obtain ⟨a', inPattern', target⟩ := lhs.mem_edgesAt.mp enters
  cases inPattern.symm.trans inPattern'
  obtain ⟨x, s, t, stored, atSource, atTarget, joins⟩ := occurs.image_joins inPattern found
  cases (source ▸ atSource : n.vertex? v = some s).symm.trans image
  cases (target ▸ atTarget : n.vertex? v = some t).symm.trans image
  refine cons.mem_edgesAt.mpr ⟨x, stored, ?_⟩
  have loop : x.source = h ∧ x.target = h := by
    rcases joins with both | ⟨-, atTarget, atSource⟩
    · exact both
    · exact ⟨atTarget, atSource⟩
  cases b with
  | true => exact loop.1
  | false => exact loop.2

/-- Without reversal the edges of either direction keep theirs. -/
theorem Occurs.length_edgesAt_le (occurs : n.Occurs pattern host)
    (lhs : pattern.graph.Consistent) (cons : host.Consistent) (image : n.vertex? v = some h)
    (directed : pattern.edgeMode = .directed) (b : Bool) :
    (pattern.graph.edgesAt v b).length ≤ (host.edgesAt h b).length := by
  refine length_le_of_partners (R := fun e k => n.edge? e = some k) Graph.edgesAt_nodup
    (fun e mem => ?_) fun e _ e' _ k left right => occurs.edge_injective left right
  obtain ⟨k, found, here | ⟨undirected, -⟩⟩ := occurs.image_edgesAt lhs cons image mem
  · exact ⟨k, here, found⟩
  · simp [directed] at undirected

/-- With reversal an edge end goes to the end of the same mark if that is at the image,
and to the other if not, so that both ends of a loop are kept apart. -/
theorem Occurs.degree_le (occurs : n.Occurs pattern host) (lhs : pattern.graph.Consistent)
    (cons : host.Consistent) (image : n.vertex? v = some h) :
    pattern.graph.degree v ≤ host.degree h := by
  rw [← Graph.length_edgeEnds, ← Graph.length_edgeEnds]
  refine length_le_of_partners (R := fun x y =>
    n.edge? x.1 = some y.1 ∧ (y.2 = x.2 ∨ y.1 ∉ host.edgesAt h x.2)) Graph.edgeEnds_nodup ?_ ?_
  · rintro ⟨e, b⟩ mem
    obtain ⟨k, found, reached⟩ :=
      occurs.image_edgesAt lhs cons image (Graph.mem_edgeEnds.mp mem)
    by_cases here : k ∈ host.edgesAt h b
    · exact ⟨(k, b), Graph.mem_edgeEnds.mpr here, found, .inl rfl⟩
    · have reversed := (reached.resolve_left here).2
      exact ⟨(k, !b), Graph.mem_edgeEnds.mpr reversed, found, .inr here⟩
  · rintro ⟨e, b⟩ one ⟨e', b'⟩ other ⟨k, c⟩ ⟨left, leftEnd⟩ ⟨right, rightEnd⟩
    cases occurs.edge_injective left right
    by_cases same : b = b'
    · rw [same]
    · have loop : ∀ c, k ∈ host.edgesAt h c := by
        have one := Graph.mem_edgeEnds.mp one
        have other := Graph.mem_edgeEnds.mp other
        cases b with
        | true =>
          cases b' with
          | true => exact absurd rfl same
          | false => exact occurs.image_loop lhs cons image one other left
        | false =>
          cases b' with
          | true => exact occurs.image_loop lhs cons image other one left
          | false => exact absurd rfl same
      have eq := leftEnd.resolve_right fun absent => absent (loop _)
      have eq' := rightEnd.resolve_right fun absent => absent (loop _)
      exact absurd (eq.symm.trans eq') same

theorem Occurs.hasRoom (occurs : n.Occurs pattern host) (lhs : pattern.graph.Consistent)
    (cons : host.Consistent) (image : n.vertex? v = some h) :
    Plan.hasRoom pattern host v h = true := by
  rw [Plan.hasRoom]
  cases mode : pattern.edgeMode with
  | directed =>
    have leaving := occurs.length_edgesAt_le lhs cons image mode true
    have entering := occurs.length_edgesAt_le lhs cons image mode false
    simpa using ⟨leaving, entering⟩
  | undirected => simpa using occurs.degree_le lhs cons image

end Embedding

/-! ### Candidates -/

namespace Search

variable {pattern : Pattern} {host : Graph} {v h image : VertexId}

theorem mem_candidates (cons : host.Consistent) :
    h ∈ Plan.candidates pattern host v ↔
      (∃ x, host.vertex? h = some x ∧ pattern.admits (.vertex v) x.attributes = true) ∧
        Plan.hasRoom pattern host v h = true := by
  simp only [Plan.candidates, List.mem_filter, List.mem_map, cons.mem_vertices]
  refine and_congr_left fun _ => ⟨?_, ?_⟩
  · rintro ⟨x, ⟨stored, admitted⟩, rfl⟩
    exact ⟨x, stored, admitted⟩
  · rintro ⟨x, stored, admitted⟩
    have same : x.id = h := cons.vertex_id stored
    exact ⟨x, ⟨same ▸ stored, admitted⟩, same⟩

theorem candidates_increasing (cons : host.Consistent) :
    SortedMap.Increasing (Plan.candidates pattern host v) := by
  have ids : SortedMap.Increasing (host.vertices.map (·.id)) :=
    cons.vertices_ids ▸ SortedMap.keys_increasing _
  exact SortedMap.Increasing.filter (List.Pairwise.sublist (List.filter_sublist.map _) ids) _

theorem mem_neighbours (cons : host.Consistent) {outgoing : Bool} :
    h ∈ neighbours pattern host image outgoing ↔ ∃ k x, host.edge? k = some x ∧
      if outgoing then x.Joins pattern.edgeMode image h else x.Joins pattern.edgeMode h image := by
  have after : h ∈ (host.outgoing image).filterMap (fun k => (host.edge? k).map (·.target)) ↔
      ∃ k x, host.edge? k = some x ∧ x.source = image ∧ x.target = h := by
    simp only [List.mem_filterMap, cons.mem_outgoing, Option.map_eq_some_iff]
    constructor
    · rintro ⟨k, ⟨x, stored, source⟩, y, stored', target⟩
      cases stored.symm.trans stored'
      exact ⟨k, x, stored, source, target⟩
    · rintro ⟨k, x, stored, source, target⟩
      exact ⟨k, ⟨x, stored, source⟩, x, stored, target⟩
  have before : h ∈ (host.incoming image).filterMap (fun k => (host.edge? k).map (·.source)) ↔
      ∃ k x, host.edge? k = some x ∧ x.source = h ∧ x.target = image := by
    simp only [List.mem_filterMap, cons.mem_incoming, Option.map_eq_some_iff]
    constructor
    · rintro ⟨k, ⟨x, stored, target⟩, y, stored', source⟩
      cases stored.symm.trans stored'
      exact ⟨k, x, stored, source, target⟩
    · rintro ⟨k, x, stored, source, target⟩
      exact ⟨k, ⟨x, stored, target⟩, x, stored, source⟩
  rw [neighbours, SortedMap.mem_distinct, List.mem_append]
  cases outgoing with
  | true =>
    cases mode : pattern.edgeMode with
    | directed => simp [Edge.Joins, after]
    | undirected => simp [Edge.Joins, before, after, and_or_left, exists_or]
  | false =>
    cases mode : pattern.edgeMode with
    | directed => simp [Edge.Joins, before]
    | undirected =>
      rw [or_comm]
      simp [Edge.Joins, before, after, and_or_left, exists_or]

end Search

end GraphTransformation
