import GraphTransformation.Proofs.Production.Effect

/-!
When an application fails.

At a match that verification accepts, an application of an accepted production
fails for one reason only: its policy is to reject, and the match deletes a vertex
but not all of its edges (`WellFormed.apply_fails_iff`). The failure names the first
such vertex and its edges (`WellFormed.apply_refuses`). An application that succeeds
leaves all that the match preserves (`WellFormed.apply_spares`).
-/

namespace GraphTransformation.Production

open GraphTransformation.Graph

variable {p : Production} {host result : Graph} {m : Embedding} {e : Error}

/-! ### Dangling edges -/

/-- The edge touches `v` and is not deleted by the match itself. -/
def Orphans (p : Production) (host : Graph) (m : Embedding) (v : VertexId) (k : EdgeId) : Prop :=
  (∃ x, host.edge? k = some x ∧ (x.source = v ∨ x.target = v)) ∧ ¬ p.DeletesEdge m k

/-- The match deletes `v` and leaves exactly these of its edges, in handle order, without
that end; it leaves none at a vertex that it deletes for an earlier pattern vertex. -/
structure FirstDangling (p : Production) (host : Graph) (m : Embedding) (v : VertexId)
    (ks : List EdgeId) : Prop where
  first : ∃ l, p.DeletesVertex m l v ∧ ∀ l' w, compare l' l = .lt → p.DeletesVertex m l' w →
    ∀ k, ¬ p.Orphans host m w k
  nonempty : ks ≠ []
  increasing : SortedMap.Increasing ks
  exact : ∀ k, k ∈ ks ↔ p.Orphans host m v k

theorem mem_danglingEdges (cons : host.Consistent) {v : VertexId} {k : EdgeId} :
    k ∈ p.danglingEdges host m v ↔ p.Orphans host m v k := by
  rw [danglingEdges, List.mem_filter, cons.mem_incidentEdges, Orphans, ← mem_deletedEdges]
  simp

theorem danglingEdges_eq_nil (cons : host.Consistent) {v : VertexId} :
    p.danglingEdges host m v = [] ↔ ∀ k, ¬ p.Orphans host m v k := by
  simp only [List.eq_nil_iff_forall_not_mem, mem_danglingEdges cons]

theorem danglingEdges_increasing {v : VertexId} :
    SortedMap.Increasing (p.danglingEdges host m v) :=
  (SortedMap.distinct_increasing _).filter _

/-- The check passes unless the policy is to reject and some edge is left dangling. -/
theorem checkDangling_eq_ok (cons : host.Consistent) : p.checkDangling host m = .ok () ↔
    (p.dangling = .reject → ∀ l v k, p.DeletesVertex m l v → ¬ p.Orphans host m v k) := by
  have clear : (p.deletedVertices m).find? (fun v => p.danglingEdges host m v ≠ []) = none ↔
      ∀ l v k, p.DeletesVertex m l v → ¬ p.Orphans host m v k := by
    simp only [List.find?_eq_none, mem_deletedVertices, decide_eq_true_eq, ne_eq, not_not,
      danglingEdges_eq_nil cons]
    constructor
    · intro none l v k deleted
      exact none v ⟨l, deleted⟩ k
    · rintro none v ⟨l, deleted⟩ k
      exact none l v k deleted
  rw [checkDangling]
  by_cases reject : p.dangling = .reject
  · rw [if_pos reject, ← clear]
    cases (p.deletedVertices m).find? (fun v => p.danglingEdges host m v ≠ []) with
    | none => simp
    | some v => simp [reject]
  · simp [reject]

/-- The first deleted vertex with a property is deleted for the first pattern vertex whose
image has it. -/
theorem find?_deletedVertices {P : VertexId → Bool} {v : VertexId}
    (found : (p.deletedVertices m).find? P = some v) : P v = true ∧
      ∃ l, p.DeletesVertex m l v ∧ ∀ l' w, compare l' l = .lt → p.DeletesVertex m l' w →
        ¬ P w = true := by
  rw [deletedVertices, List.find?_filterMap, Option.bind_eq_some_iff] at found
  obtain ⟨l, first, image⟩ := found
  have inc : SortedMap.Increasing (p.lhs.graph.vertexIds.filter fun v =>
      (p.correspondence.vertices.right? v).isNone) :=
    (SortedMap.keys_increasing _).filter _
  have deletes : ∀ l' w, p.DeletesVertex m l' w ↔
      (l' ∈ p.lhs.graph.vertexIds.filter fun v =>
        (p.correspondence.vertices.right? v).isNone) ∧ m.vertex? l' = some w := by
    intro l' w
    simp only [DeletesVertex, List.mem_filter, vertexIds, SortedMap.mem_keys,
      Option.isNone_iff_eq_none, and_assoc]
  obtain ⟨mem, holds, least⟩ := inc.find?_least first
  refine ⟨by simpa [image] using holds, l, (deletes l v).mpr ⟨mem, image⟩, ?_⟩
  intro l' w lt deleted
  obtain ⟨among, image'⟩ := (deletes l' w).mp deleted
  simpa [image'] using least l' among lt

/-- The check fails at the first deleted vertex with an edge that is left dangling. -/
theorem checkDangling_eq_error (cons : host.Consistent)
    (failed : p.checkDangling host m = .error e) :
    p.dangling = .reject ∧ ∃ v ks, e = .danglingEdges v ks ∧ p.FirstDangling host m v ks := by
  rw [checkDangling] at failed
  split at failed
  · rename_i reject
    split at failed
    · rename_i v found
      cases failed
      obtain ⟨dangling, l, deleted, least⟩ := find?_deletedVertices found
      refine ⟨reject, v, _, rfl, ⟨l, deleted, fun l' w lt deleted' => ?_⟩, by simpa using dangling,
        danglingEdges_increasing, fun k => mem_danglingEdges cons⟩
      rw [← danglingEdges_eq_nil cons]
      simpa using least l' w lt deleted'
    · cases failed
  · cases failed

/-! ### Applications that fail -/

/-- At a match that is verified nothing but the check for dangling edges can fail. -/
theorem WellFormed.apply_eq_failed {m : Match} (whole : p.WellFormed) (cons : host.Consistent)
    (verified : p.verify host m = .ok ()) :
    p.apply host m = .error (.failed e) ↔ p.checkDangling host m.embedding = .error e := by
  obtain ⟨-, occurs⟩ := (verify_eq_ok cons).mp verified
  rw [apply, liftM_bind_of_ok verified]
  constructor
  · intro failed
    cases checked : p.checkDangling host m.embedding with
    | ok _ => cases whole.replace_stopped cons occurs checked failed
    | error cause =>
      rw [replace, checked] at failed
      cases failed
      rfl
  · intro checked
    rw [replace, checked]
    rfl

/-- An application fails exactly when the policy is to reject and the match leaves an edge
dangling. -/
theorem WellFormed.apply_fails_iff {m : Match} (whole : p.WellFormed) (cons : host.Consistent)
    (verified : p.verify host m = .ok ()) :
    (∃ e, p.apply host m = .error (.failed e)) ↔ p.dangling = .reject ∧
      ∃ l v k, p.DeletesVertex m.embedding l v ∧ p.Orphans host m.embedding v k := by
  simp only [whole.apply_eq_failed cons verified]
  have passes := @checkDangling_eq_ok p host m.embedding cons
  cases checked : p.checkDangling host m.embedding with
  | error cause =>
    refine iff_of_true ⟨cause, rfl⟩ ?_
    have refused : ¬ _ := fun clear => by simpa [checked] using passes.mpr clear
    simpa only [Classical.not_imp, not_forall, not_not, exists_prop] using refused
  | ok _ =>
    have clear := passes.mp checked
    refine iff_of_false (by simp) ?_
    rintro ⟨reject, l, v, k, deleted, orphan⟩
    exact clear reject l v k deleted orphan

/-- Under the policy to cascade an application at a verified match succeeds, if there is room for
what it creates. -/
theorem WellFormed.apply_total {m : Match} (whole : p.WellFormed) (cons : host.Consistent)
    (room : p.HasRoom host) (cascade : p.dangling = .cascade)
    (verified : p.verify host m = .ok ()) : ∃ result, p.apply host m = .ok result := by
  cases applied : p.apply host m with
  | ok result => exact ⟨result, rfl⟩
  | error stop =>
    cases stop with
    | overflow => exact absurd room (apply_overflow cons applied)
    | failed e =>
      obtain ⟨reject, -⟩ := (whole.apply_fails_iff cons verified).mp ⟨e, applied⟩
      simp [cascade] at reject

/-- The production rejects dangling edges, and the cause names those that it would have left
at the match. -/
def Refuses (p : Production) (host : Graph) (m : Match) (cause : Error) : Prop :=
  p.dangling = .reject ∧ p.verify host m = .ok () ∧ p.apply host m = .error (.failed cause) ∧
    ∃ v ks, cause = .danglingEdges v ks ∧ p.FirstDangling host m.embedding v ks

theorem WellFormed.apply_refuses {m : Match} (whole : p.WellFormed) (cons : host.Consistent)
    (verified : p.verify host m = .ok ()) (failed : p.apply host m = .error (.failed e)) :
    p.Refuses host m e := by
  obtain ⟨reject, cause⟩ :=
    checkDangling_eq_error cons ((whole.apply_eq_failed cons verified).mp failed)
  exact ⟨reject, verified, failed, cause⟩

/-! ### Applications that succeed -/

/-- What an application leaves: the images of preserved elements, edges between the same ends,
and under the policy to reject all edges that the match does not delete. -/
structure Spares (p : Production) (host : Graph) (m : Embedding) (result : Graph) : Prop where
  vertex : ∀ {l r v}, p.correspondence.vertices.right? l = some r → m.vertex? l = some v →
    result.contains (.vertex v) = true
  edge : ∀ {l r k}, p.correspondence.edges.right? l = some r → m.edge? l = some k →
    ∃ x y, host.edge? k = some x ∧ result.edge? k = some y ∧ y.ends = x.ends
  unmatched : p.dangling = .reject → ∀ k, host.contains (.edge k) = true →
    ¬ p.DeletesEdge m k → result.contains (.edge k) = true

/-- The image of a preserved vertex is still there after an application. -/
theorem Effect.keeps_vertex {m : Embedding} (effect : p.Effect host m result)
    (cons : host.Consistent) (occurs : m.Occurs p.lhs host) {l r v : VertexId}
    (paired : p.correspondence.vertices.right? l = some r) (image : m.vertex? l = some v) :
    result.vertexMap.contains v = true := by
  obtain ⟨x, stored, -⟩ := occurs.vertex_admitted image
  have old := cons.vertex_below (SortedMap.contains_of_get? stored)
  have spared : x.id ∉ p.deletedVertices m :=
    (cons.vertex_id stored).symm ▸ Production.keeps_vertex occurs paired image
  have left : (result.vertex? v).isSome = true := by
    simp [effect.oldVertex v old, stored, keptVertex, spared]
  exact left

/-- The image of a preserved edge is still there after an application, between the same ends. -/
theorem Effect.keeps_edge {m : Embedding} (effect : p.Effect host m result)
    (whole : p.WellFormed) (cons : host.Consistent) (occurs : m.Occurs p.lhs host) {l r k : EdgeId}
    (paired : p.correspondence.edges.right? l = some r) (image : m.edge? l = some k) :
    ∃ x y, host.edge? k = some x ∧ result.edge? k = some y ∧ y.ends = x.ends := by
  obtain ⟨x, stored, spared, source, target⟩ := whole.keeps_edge occurs paired image
  have old := cons.edge_below (SortedMap.contains_of_get? stored)
  have sameId : x.id = k := cons.edge_id stored
  have stays : ¬ (x.id ∈ p.deletedEdges m ∨ x.source ∈ p.deletedVertices m ∨
      x.target ∈ p.deletedVertices m) := by
    simp [sameId, spared, source, target]
  obtain ⟨y, kept, ends⟩ : ∃ y, p.keptEdge ⟨host, m⟩ x = some y ∧ y.ends = x.ends :=
    ⟨_, if_neg stays, rfl⟩
  exact ⟨x, y, stored, by rw [effect.oldEdge k old, stored, Option.bind_some, kept], ends⟩

/-- An edge that is gone after an application was deleted by the match or touched a vertex
that the match deletes. -/
theorem Effect.lost_edge {m : Embedding} (effect : p.Effect host m result)
    (cons : host.Consistent) {k : EdgeId} {x : Edge} (stored : host.edge? k = some x)
    (gone : result.edge? k = none) :
    p.DeletesEdge m k ∨ ∃ l v, p.DeletesVertex m l v ∧ (x.source = v ∨ x.target = v) := by
  have old := cons.edge_below (SortedMap.contains_of_get? stored)
  have sameId : x.id = k := cons.edge_id stored
  rw [effect.oldEdge k old, stored, Option.bind_some, keptEdge, sameId] at gone
  split at gone
  · rename_i deleted
    rcases deleted with itself | source | target
    · exact .inl (mem_deletedEdges.mp itself)
    · obtain ⟨l, deleted⟩ := mem_deletedVertices.mp source
      exact .inr ⟨l, _, deleted, .inl rfl⟩
    · obtain ⟨l, deleted⟩ := mem_deletedVertices.mp target
      exact .inr ⟨l, _, deleted, .inr rfl⟩
  · cases gone

theorem WellFormed.apply_spares {m : Match} (whole : p.WellFormed) (cons : host.Consistent)
    (applied : p.apply host m = .ok result) :
    p.Spares host m.embedding result := by
  obtain ⟨verified, replaced⟩ := apply_eq_ok.mp applied
  obtain ⟨-, occurs⟩ := (verify_eq_ok cons).mp verified
  obtain ⟨allowed, -⟩ := replace_eq_ok.mp replaced
  have effect := whole.apply_effect cons applied
  constructor
  case vertex => exact effect.keeps_vertex cons occurs
  case edge => exact effect.keeps_edge whole cons occurs
  case unmatched =>
    intro reject k member spared
    obtain ⟨x, stored⟩ := SortedMap.contains_iff.mp member
    cases found : result.edge? k with
    | some y => exact SortedMap.contains_of_get? found
    | none =>
      obtain ⟨l, v, deleted, atEnd⟩ := (effect.lost_edge cons stored found).resolve_left spared
      exact absurd ⟨⟨x, stored, atEnd⟩, spared⟩
        ((checkDangling_eq_ok cons).mp allowed reject l v k deleted)

end GraphTransformation.Production
