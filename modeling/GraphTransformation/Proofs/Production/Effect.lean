import GraphTransformation.Proofs.Production.Preservation
import GraphTransformation.Proofs.Production.Structure
import GraphTransformation.Proofs.Search.Verification

/-!
The effect of an application, element by element.

`Production.Effect` says for every handle what stands under it afterwards: what is
left of the host's element under a handle that the host had given out, a created
element under one of those that follow, and nothing beyond (`apply_effect`). For
an accepted production at an occurrence creation never fails either, so once its check
for dangling edges passes, only a counter at its end stops a replacement
(`replace_stopped`).
-/

namespace GraphTransformation.Production

open GraphTransformation.Graph

variable {p : Production} {host g result : Graph} {m : Embedding} {ctx : RuleContext}

theorem verify_eq_ok {m : Match} (cons : host.Consistent) :
    p.verify host m = .ok () ↔ m.production = p.id ∧ m.embedding.Occurs p.lhs host := by
  rw [verify]
  by_cases own : m.production = p.id
  · rw [if_pos own, Embedding.verify_eq_ok cons, and_iff_right own]
  · simp [own]

/-! ### Creation succeeds -/

/-- Created vertices are members, and so is all that was there before. -/
theorem createVertices_members {created known : Created} {rs : List VertexId} {grown : Graph}
    (named : ∀ r v, created.get? r = some v → g.vertexMap.contains v = true)
    (done : p.createVertices ctx g created rs = .ok (grown, known)) :
    (∀ v, g.vertexMap.contains v = true → grown.vertexMap.contains v = true) ∧
      ∀ r v, known.get? r = some v → grown.vertexMap.contains v = true := by
  induction rs generalizing g created with
  | nil =>
    cases done
    exact ⟨fun _ mem => mem, named⟩
  | cons x rest ih =>
    by_cases paired : (p.correspondence.vertices.left? x).isSome = true
    · rw [createVertices_cons_paired paired] at done
      exact ih named done
    · obtain ⟨k, added, others⟩ := (createVertices_cons_new paired).mp done
      obtain ⟨-, own, rfl⟩ := addVertex_eq_ok.mp added
      have old : ∀ v, g.vertexMap.contains v = true → (g.vertexMap.insert ⟨g.nextVertex⟩
          ⟨⟨g.nextVertex⟩, p.assigned ctx (.vertex x) .empty⟩).contains v = true :=
        fun v mem => SortedMap.contains_insert.mpr (.inr mem)
      obtain ⟨kept, known⟩ := ih (fun r v found => by
        rw [SortedMap.get?_insert] at found
        split at found
        · cases found
          rw [own]
          exact SortedMap.contains_insert.mpr (.inl rfl)
        · exact old v (named r v found)) others
      exact ⟨fun v mem => kept v (old v mem), known⟩

/-- Only a counter at its end can stop the creation of vertices. -/
theorem createVertices_stopped {created : Created} {rs : List VertexId} {s : Stop}
    (stopped : p.createVertices ctx g created rs = .error s) : s = .overflow := by
  induction rs generalizing g created with
  | nil => cases stopped
  | cons x rest ih =>
    rw [createVertices] at stopped
    split at stopped
    · exact ih stopped
    · rcases bind_eq_error.mp stopped with here | ⟨_, -, later⟩
      · exact (addVertex_eq_error.mp here).1
      · exact ih later

/-- Nor can anything else stop the creation of edges whose ends stand for members. -/
theorem createEdges_stopped {created : Created} {es : List Edge} {s : Stop}
    (ends : ∀ e ∈ es, ∀ r, r = e.source ∨ r = e.target → ∃ v,
      p.resolve ctx.embedding created r = .ok v ∧ g.vertexMap.contains v = true)
    (stopped : p.createEdges ctx created g es = .error s) : s = .overflow := by
  induction es generalizing g with
  | nil => cases stopped
  | cons e rest ih =>
    obtain ⟨first, others⟩ := List.forall_mem_cons.mp ends
    rw [createEdges] at stopped
    split at stopped
    · exact ih others stopped
    · obtain ⟨source, atSource, sourceMember⟩ := first e.source (.inl rfl)
      obtain ⟨target, atTarget, targetMember⟩ := first e.target (.inr rfl)
      rw [liftM_bind_of_ok atSource, liftM_bind_of_ok atTarget] at stopped
      rcases bind_eq_error.mp stopped with here | ⟨⟨id, k⟩, added, later⟩
      · cases s with
        | overflow => rfl
        | failed cause => exact absurd here (addEdge_not_failed sourceMember targetMember)
      · obtain ⟨-, -, -, -, grown⟩ := addEdge_eq_ok.mp added
        have same : k.vertexMap = g.vertexMap := by
          rw [grown]
          rfl
        exact ih (same.symm ▸ others) later

theorem standIn_paired {l r : VertexId} (partner : p.correspondence.vertices.left? r = some l) :
    p.standIn host m r = m.vertex? l := by
  simp only [standIn, partner]

theorem standIn_new {r : VertexId} (unpaired : p.correspondence.vertices.left? r = none) :
    p.standIn host m r = (p.newVertices.idxOf? r).map host.freshVertex := by
  simp only [standIn, unpaired]

/-- A replacement vertex stands for a member of the result: the image of its partner is
preserved, and a vertex without partner has been created. -/
theorem WellFormed.standIn_member (whole : p.WellFormed) (cons : host.Consistent)
    (occurs : m.Occurs p.lhs host) {preserved grown : Graph} {created : Created}
    (vertices : ∀ v, preserved.vertex? v = (host.vertex? v).bind (p.keptVertex ⟨host, m⟩))
    (done : p.createVertices ctx preserved .empty p.rhs.vertexIds = .ok (grown, created))
    {r : VertexId} (inside : p.rhs.vertexMap.contains r = true) :
    ∃ v, p.standIn preserved m r = some v ∧ grown.vertexMap.contains v = true := by
  obtain ⟨old, named⟩ := createVertices_members (by simp) done
  cases partner : p.correspondence.vertices.left? r with
  | some l =>
    obtain ⟨v, x, image, stored, spared⟩ :=
      whole.spares_vertex occurs ((whole.vertices l r).mpr partner)
    rw [← cons.vertex_id stored] at spared
    have left : (preserved.vertex? v).isSome = true := by
      simp [vertices, stored, keptVertex, spared]
    exact ⟨v, (standIn_paired partner).trans image, old v left⟩
  | none =>
    have new : r ∈ p.newVertices :=
      List.mem_filter.mpr ⟨SortedMap.mem_keys.mpr inside, by simp [partner]⟩
    obtain ⟨i, here⟩ := Option.isSome_iff_exists.mp (List.isSome_idxOf?.mpr new)
    refine ⟨preserved.freshVertex i, by rw [standIn_new partner, here, Option.map_some], ?_⟩
    exact named r _ (by rw [known_created done, here, Option.map_some])

/-- Nothing but a counter at its end stops a replacement whose check for dangling edges
passes. -/
theorem WellFormed.replace_stopped (whole : p.WellFormed) (cons : host.Consistent)
    (occurs : m.Occurs p.lhs host) (allowed : p.checkDangling host m = .ok ()) {s : Stop}
    (stopped : p.replace host m = .error s) : s = .overflow := by
  obtain ⟨pruned, kept, relabelled, preserved, first, second, third, fourth, -, -, -, vertices, -⟩ :=
    whole.preserve_total cons occurs
  rw [replace, liftM_bind_of_ok allowed, liftM_bind_of_ok first, liftM_bind_of_ok second,
    liftM_bind_of_ok third, liftM_bind_of_ok fourth] at stopped
  rcases bind_eq_error.mp stopped with here | ⟨⟨grown, created⟩, fifth, later⟩
  · exact createVertices_stopped here
  · refine createEdges_stopped (fun e mem r ends => ?_) later
    have stored := whole.rhs.mem_edges.mp mem
    have inside : p.rhs.vertexMap.contains r = true := by
      rcases ends with rfl | rfl
      · exact whole.rhs.outgoing.member stored
      · exact whole.rhs.incoming.member stored
    obtain ⟨v, stands, member⟩ := whole.standIn_member cons occurs vertices fifth inside
    exact ⟨v, (resolve_eq_ok (known_created fifth)).mpr stands, member⟩

/-! ### What stands under each handle -/

/-- The vertex created for the `i`th new replacement vertex, under the next handles of `g`. -/
def createdVertex (p : Production) (ctx : RuleContext) (g : Graph) (i : Nat) : Option Vertex := do
  let r ← p.newVertices[i]?
  return ⟨g.freshVertex i, p.assigned ctx (.vertex r) .empty⟩

/-- The edge created for the `i`th new replacement edge, under the next handles of `g`. -/
def createdEdge (p : Production) (ctx : RuleContext) (g : Graph) (i : Nat) : Option Edge := do
  let e ← p.newEdges[i]?
  let source ← p.standIn g ctx.embedding e.source
  let target ← p.standIn g ctx.embedding e.target
  return ⟨g.freshEdge i, source, target, p.assigned ctx (.edge e.id) .empty⟩

/-- Creating vertices keeps those under earlier handles, and beyond the created ones every
handle is still free. -/
theorem createVertices_exact (cons : g.Consistent) {grown : Graph} {created : Created}
    (done : p.createVertices ctx g .empty p.rhs.vertexIds = .ok (grown, created)) :
    (∀ v, v.word < g.nextVertex → grown.vertex? v = g.vertex? v) ∧
      ∀ i, g.nextVertex.toNat + i < UInt64.size →
        grown.vertex? (g.freshVertex i) = p.createdVertex ctx g i := by
  obtain ⟨room, -⟩ := createVertices_counters done
  obtain ⟨new, kept⟩ := createVertices_vertices done
  constructor
  · intro v old
    have apart : ∀ i < p.newVertices.length, v ≠ g.freshVertex i := by
      intro i lt
      exact Handle.ne_issued (Nat.lt_trans (Nat.add_lt_add_left lt _) room) old
    exact kept v apart
  · intro i inRange
    rw [createdVertex]
    cases here : p.newVertices[i]? with
    | some r => exact new i r here
    | none =>
      have beyond := List.getElem?_eq_none_iff.mp here
      have apart : ∀ j < p.newVertices.length, g.freshVertex i ≠ g.freshVertex j := by
        intro j lt
        exact (Handle.issued_ne_of_lt inRange (by omega)).symm
      rw [kept _ apart, cons.freshVertex_absent inRange]
      rfl

/-- Creating the elements of a replacement keeps the edges under earlier handles, and beyond
the created ones every handle is still free. -/
theorem createEdges_exact (cons : g.Consistent) {grown : Graph} {created : Created}
    (vertices : p.createVertices ctx g .empty p.rhs.vertexIds = .ok (grown, created))
    (done : p.createEdges ctx created grown p.rhs.edges = .ok result) :
    (∀ k, k.word < g.nextEdge → result.edge? k = g.edge? k) ∧
      ∀ i, g.nextEdge.toNat + i < UInt64.size →
        result.edge? (g.freshEdge i) = p.createdEdge ctx g i := by
  obtain ⟨-, room⟩ := create_hasRoom vertices done
  obtain ⟨-, sameEdges, sameNextEdge, -⟩ := createVertices_counters vertices
  obtain ⟨new, kept⟩ := createEdges_edges done
  have grownEdge : ∀ k, grown.edge? k = g.edge? k := by
    intro k
    rw [edge?, sameEdges, edge?]
  rw [freshEdge_congr sameNextEdge] at new kept
  constructor
  · intro k old
    have apart : ∀ i < p.newEdges.length, k ≠ g.freshEdge i := by
      intro i lt
      exact Handle.ne_issued (Nat.lt_trans (Nat.add_lt_add_left lt _) room) old
    rw [kept k apart, grownEdge]
  · intro i inRange
    rw [createdEdge]
    cases here : p.newEdges[i]? with
    | some e =>
      obtain ⟨s, t, source, target, stored⟩ := new i e here
      rw [resolve_eq_ok (known_created vertices)] at source target
      simp [stored, source, target]
    | none =>
      have beyond := List.getElem?_eq_none_iff.mp here
      have apart : ∀ j < p.newEdges.length, g.freshEdge i ≠ g.freshEdge j := by
        intro j lt
        exact (Handle.issued_ne_of_lt inRange (by omega)).symm
      rw [kept _ apart, grownEdge, cons.freshEdge_absent inRange]
      rfl

/-- What an application makes of the host: under an earlier handle what is left of the
element there, under the handles that follow what is created, and nothing else. -/
structure Effect (p : Production) (host : Graph) (m : Embedding) (result : Graph) : Prop where
  nextVertex : result.nextVertex.toNat = host.nextVertex.toNat + p.newVertices.length
  nextEdge : result.nextEdge.toNat = host.nextEdge.toNat + p.newEdges.length
  oldVertex : ∀ v, v.word < host.nextVertex →
    result.vertex? v = (host.vertex? v).bind (p.keptVertex ⟨host, m⟩)
  oldEdge : ∀ k, k.word < host.nextEdge →
    result.edge? k = (host.edge? k).bind (p.keptEdge ⟨host, m⟩)
  newVertex : ∀ i, host.nextVertex.toNat + i < UInt64.size →
    result.vertex? (host.freshVertex i) = p.createdVertex ⟨host, m⟩ host i
  newEdge : ∀ i, host.nextEdge.toNat + i < UInt64.size →
    result.edge? (host.freshEdge i) = p.createdEdge ⟨host, m⟩ host i

/-- A replacement that succeeds has created its elements in what was left of the host. -/
theorem WellFormed.replace_created (whole : p.WellFormed) (cons : host.Consistent)
    (occurs : m.Occurs p.lhs host) (replaced : p.replace host m = .ok result) :
    ∃ preserved grown created, preserved.Consistent ∧ preserved.nextVertex = host.nextVertex ∧
      preserved.nextEdge = host.nextEdge ∧
      (∀ v, preserved.vertex? v = (host.vertex? v).bind (p.keptVertex ⟨host, m⟩)) ∧
      (∀ k, preserved.edge? k = (host.edge? k).bind (p.keptEdge ⟨host, m⟩)) ∧
      p.createVertices ⟨host, m⟩ preserved .empty p.rhs.vertexIds = .ok (grown, created) ∧
      p.createEdges ⟨host, m⟩ created grown p.rhs.edges = .ok result := by
  obtain ⟨pruned, kept, relabelled, preserved, first, second, third, fourth, after⟩ :=
    whole.preserve_total cons occurs
  obtain ⟨-, pruned', kept', relabelled', preserved', grown, created, first', second', third',
    fourth', fifth, done⟩ := replace_eq_ok.mp replaced
  cases first'.symm.trans first
  cases second'.symm.trans second
  cases third'.symm.trans third
  cases fourth'.symm.trans fourth
  obtain ⟨cons, nextVertex, nextEdge, vertices, edges⟩ := after
  exact ⟨_, grown, created, cons, nextVertex, nextEdge, vertices, edges, fifth, done⟩

/-- Created elements depend on a graph through its counters alone. -/
theorem createdVertex_congr {h : Graph} (nextVertex : g.nextVertex = h.nextVertex) :
    p.createdVertex ctx g = p.createdVertex ctx h := by
  funext i
  simp only [createdVertex, freshVertex_congr nextVertex]

theorem createdEdge_congr {h : Graph} (nextVertex : g.nextVertex = h.nextVertex)
    (nextEdge : g.nextEdge = h.nextEdge) : p.createdEdge ctx g = p.createdEdge ctx h := by
  funext i
  simp only [createdEdge, standIn, freshVertex_congr nextVertex, freshEdge_congr nextEdge]

theorem WellFormed.replace_effect (whole : p.WellFormed) (cons : host.Consistent)
    (occurs : m.Occurs p.lhs host) (replaced : p.replace host m = .ok result) :
    p.Effect host m result := by
  obtain ⟨preserved, grown, created, after, sameNextVertex, sameNextEdge, vertices, edges, fifth,
    done⟩ := whole.replace_created cons occurs replaced
  have room := create_hasRoom fifth done
  obtain ⟨oldVertex, newVertex⟩ := createVertices_exact after fifth
  obtain ⟨oldEdge, newEdge⟩ := createEdges_exact after fifth done
  rw [sameNextVertex, freshVertex_congr sameNextVertex, createdVertex_congr sameNextVertex] at newVertex
  rw [sameNextEdge, freshEdge_congr sameNextEdge,
    createdEdge_congr sameNextVertex sameNextEdge] at newEdge
  obtain ⟨nextVertex, nextEdge, -⟩ := create_frame fifth done
  obtain ⟨-, sameVertices, -⟩ := createEdges_counters done
  have resultVertex : ∀ v, result.vertex? v = grown.vertex? v := by
    intro v
    rw [vertex?, sameVertices, vertex?]
  constructor
  case nextVertex => rw [nextVertex, Handle.toNat_word_add room.1, sameNextVertex]
  case nextEdge => rw [nextEdge, Handle.toNat_word_add room.2, sameNextEdge]
  case oldVertex =>
    intro v old
    rw [resultVertex, oldVertex v (sameNextVertex.symm ▸ old), vertices]
  case oldEdge =>
    intro k old
    rw [oldEdge k (sameNextEdge.symm ▸ old), edges]
  case newVertex => exact fun i inRange => (resultVertex _).trans (newVertex i inRange)
  case newEdge => exact newEdge

theorem WellFormed.apply_effect {m : Match} (whole : p.WellFormed) (cons : host.Consistent)
    (applied : p.apply host m = .ok result) : p.Effect host m.embedding result := by
  obtain ⟨verified, replaced⟩ := apply_eq_ok.mp applied
  exact whole.replace_effect cons ((verify_eq_ok cons).mp verified).2 replaced

end GraphTransformation.Production
