import GraphTransformation.Proofs.Production.Validity
import GraphTransformation.Proofs.Search.Occurrence

/-!
What a replacement leaves of the host.

Of an accepted production at an occurrence of its pattern, deletion and the
setting of attributes always succeed: what is deleted and what is preserved are
apart, since the correspondence keeps the ends of preserved edges and the
embedding is injective (`keeps_vertex`, `WellFormed.keeps_edge`).
`keptVertex` and `keptEdge` say what becomes of each host element before anything
is created (`preserve_total`).
-/

namespace GraphTransformation

namespace Graph

variable {g h : Graph} {element image : Element}

/-! ### Attributes of elements of either kind -/

theorem attributes?_isSome : (g.attributes? element).isSome = g.contains element := by
  cases element with
  | vertex id => exact Option.isSome_map
  | edge id => exact Option.isSome_map

theorem contains_iff_attributes? :
    g.contains element = true ↔ ∃ current, g.attributes? element = some current := by
  rw [← attributes?_isSome, Option.isSome_iff_exists]

theorem attributes?_modifyAttributes {f : Attributes → Attributes} :
    (g.modifyAttributes f image).attributes? element =
      if element = image then (g.attributes? element).map f else g.attributes? element := by
  cases image with
  | vertex i =>
    cases element with
    | vertex id =>
      rw [attributes?, vertex?, modifyAttributes, SortedMap.get?_modify]
      by_cases here : id = i
      · simp only [here, if_true, Option.map_map, attributes?, vertex?]
        rfl
      · simp [here, attributes?, vertex?]
    | edge id => simp [attributes?, edge?, modifyAttributes]
  | edge i =>
    cases element with
    | vertex id => simp [attributes?, vertex?, modifyAttributes]
    | edge id =>
      rw [attributes?, edge?, modifyAttributes, SortedMap.get?_modify]
      by_cases here : id = i
      · simp only [here, if_true, Option.map_map, attributes?, edge?]
        rfl
      · simp [here, attributes?, edge?]

/-- A vertex is known by its handle and its attributes. -/
theorem Consistent.vertex?_eq (cons : g.Consistent) (v : VertexId) :
    g.vertex? v = (g.attributes? (.vertex v)).map fun current => ⟨v, current⟩ := by
  rw [attributes?, Option.map_map]
  cases stored : g.vertex? v with
  | none => rfl
  | some x =>
    have same : x.id = v := cons.vertex_id stored
    rw [← same]
    rfl

/-- An edge of one graph is the edge of another under the same handle, with other
attributes, if both have the same ends. -/
theorem Consistent.edge?_eq (before : g.Consistent) (after : h.Consistent) {k : EdgeId}
    {f : Attributes → Attributes} (ends : (h.edge? k).map Edge.ends = (g.edge? k).map Edge.ends)
    (attributes : h.attributes? (.edge k) = (g.attributes? (.edge k)).map f) :
    h.edge? k = (g.edge? k).map fun x => { x with attributes := f x.attributes } := by
  rw [attributes?, attributes?, Option.map_map] at attributes
  cases old : g.edge? k with
  | none =>
    rw [old] at ends
    exact Option.map_eq_none_iff.mp ends
  | some x =>
    rw [old] at ends attributes
    obtain ⟨y, new, sameEnds⟩ := Option.map_eq_some_iff.mp ends
    obtain ⟨source, target⟩ : y.source = x.source ∧ y.target = x.target := by
      simpa [Edge.ends] using sameEnds
    have sameId : y.id = x.id := (after.edge_id new).trans (before.edge_id old).symm
    rw [new] at attributes ⊢
    have sameAttributes : y.attributes = f x.attributes := Option.some.inj attributes
    cases y
    cases sameId
    cases source
    cases target
    cases sameAttributes
    rfl

theorem SameStructure.contains (same : SameStructure g h) : h.contains element = g.contains element := by
  cases element with
  | vertex id => exact same.vertices id
  | edge id =>
    have ends := congrArg Option.isSome (same.edges id)
    simpa [Graph.contains, SortedMap.contains, edge?] using ends

end Graph

namespace Embedding

variable {pattern : Pattern} {host : Graph} {m : Embedding}

theorem Occurs.image_injective (occurs : m.Occurs pattern host) {l l' i : Element}
    (one : m.image? l = some i) (other : m.image? l' = some i) : l = l' := by
  cases l with
  | vertex v =>
    obtain ⟨h, image, rfl⟩ := Option.map_eq_some_iff.mp one
    cases l' with
    | vertex v' =>
      obtain ⟨h', image', same⟩ := Option.map_eq_some_iff.mp other
      cases same
      exact congrArg _ (occurs.vertex_injective image image')
    | edge e' => simp [image?] at other
  | edge e =>
    obtain ⟨h, image, rfl⟩ := Option.map_eq_some_iff.mp one
    cases l' with
    | vertex v' => simp [image?] at other
    | edge e' =>
      obtain ⟨h', image', same⟩ := Option.map_eq_some_iff.mp other
      cases same
      exact congrArg _ (occurs.edge_injective image image')

/-- Images are members of the host. -/
theorem Occurs.image_member (occurs : m.Occurs pattern host) {l image : Element} (here : m.image? l = some image) :
    host.contains image = true := by
  cases l with
  | vertex v =>
    obtain ⟨h, image, rfl⟩ := Option.map_eq_some_iff.mp here
    obtain ⟨x, stored, -⟩ := occurs.vertex_admitted image
    exact SortedMap.contains_of_get? stored
  | edge e =>
    obtain ⟨k, image, rfl⟩ := Option.map_eq_some_iff.mp here
    obtain ⟨x, stored, -⟩ := occurs.edge_admitted image
    exact SortedMap.contains_of_get? stored

end Embedding

namespace Production

open GraphTransformation.Graph

variable {p : Production} {host g h : Graph} {m : Embedding} {ctx : RuleContext}

/-! ### What a match deletes -/

theorem deletedVertices_nodup (occurs : m.Occurs p.lhs host) : (p.deletedVertices m).Nodup :=
  List.Nodup.filterMap (fun _ _ _ left right => occurs.vertex_injective left right)
    ((vertexIds_nodup _).filter _)

theorem deletedEdges_nodup : (p.deletedEdges m).Nodup :=
  (SortedMap.distinct_increasing _).nodup

theorem deletedVertices_members (occurs : m.Occurs p.lhs host) :
    ∀ v ∈ p.deletedVertices m, host.vertexMap.contains v = true := by
  intro v mem
  obtain ⟨l, -, -, image⟩ := mem_deletedVertices.mp mem
  obtain ⟨x, stored, -⟩ := occurs.vertex_admitted image
  exact SortedMap.contains_of_get? stored

theorem deletedEdges_members (occurs : m.Occurs p.lhs host) :
    ∀ k ∈ p.deletedEdges m, host.edgeMap.contains k = true := by
  intro k mem
  obtain ⟨l, -, -, image⟩ := mem_deletedEdges.mp mem
  obtain ⟨x, stored, -⟩ := occurs.edge_admitted image
  exact SortedMap.contains_of_get? stored

/-! ### What a match preserves -/

/-- The preserved elements of both kinds, each with its replacement element. -/
def preservedPairs (p : Production) : List (Element × Element) :=
  p.correspondence.vertices.pairs.map (fun pair => (.vertex pair.1, .vertex pair.2)) ++
    p.correspondence.edges.pairs.map fun pair => (.edge pair.1, .edge pair.2)

theorem mem_preservedPairs {l r : Element} : (l, r) ∈ p.preservedPairs ↔
    (∃ v w, l = .vertex v ∧ r = .vertex w ∧ p.correspondence.vertices.right? v = some w) ∨
      ∃ d e, l = .edge d ∧ r = .edge e ∧ p.correspondence.edges.right? d = some e := by
  simp only [preservedPairs, List.mem_append, List.mem_map, Prod.exists, Pairing.mem_pairs,
    Prod.mk.injEq]
  constructor
  · rintro (⟨v, w, paired, rfl, rfl⟩ | ⟨d, e, paired, rfl, rfl⟩)
    · exact .inl ⟨v, w, rfl, rfl, paired⟩
    · exact .inr ⟨d, e, rfl, rfl, paired⟩
  · rintro (⟨v, w, rfl, rfl, paired⟩ | ⟨d, e, rfl, rfl, paired⟩)
    · exact .inl ⟨v, w, paired, rfl, rfl⟩
    · exact .inr ⟨d, e, paired, rfl, rfl⟩

theorem mem_preservedPairs_vertex {l : Element} {v : VertexId} :
    (l, .vertex v) ∈ p.preservedPairs ↔
    ∃ w, l = .vertex w ∧ p.correspondence.vertices.right? w = some v := by
  rw [mem_preservedPairs]
  constructor
  · rintro (⟨w, _, rfl, same, paired⟩ | ⟨_, _, -, same, -⟩)
    · cases same
      exact ⟨w, rfl, paired⟩
    · cases same
  · rintro ⟨w, rfl, paired⟩
    exact .inl ⟨w, v, rfl, rfl, paired⟩

theorem mem_preservedPairs_edge {l : Element} {e : EdgeId} :
    (l, .edge e) ∈ p.preservedPairs ↔
    ∃ d, l = .edge d ∧ p.correspondence.edges.right? d = some e := by
  rw [mem_preservedPairs]
  constructor
  · rintro (⟨_, _, -, same, -⟩ | ⟨d, _, rfl, same, paired⟩)
    · cases same
    · cases same
      exact ⟨d, rfl, paired⟩
  · rintro ⟨d, rfl, paired⟩
    exact .inr ⟨d, e, rfl, rfl, paired⟩

theorem preservedPairs_nodup : (p.preservedPairs.map (·.1)).Nodup := by
  have vertices : (p.correspondence.vertices.pairs.map (·.1)).Nodup := SortedMap.keys_nodup _
  have edges : (p.correspondence.edges.pairs.map (·.1)).Nodup := SortedMap.keys_nodup _
  rw [preservedPairs, List.map_append, List.map_map, List.map_map]
  refine List.nodup_append.mpr ⟨?_, ?_, ?_⟩
  · have injective : Function.Injective Element.vertex := fun _ _ => Element.vertex.inj
    simpa [List.map_map, Function.comp_def] using vertices.map injective
  · have injective : Function.Injective Element.edge := fun _ _ => Element.edge.inj
    simpa [List.map_map, Function.comp_def] using edges.map injective
  · intro x left y right
    obtain ⟨_, -, rfl⟩ := List.mem_map.mp left
    obtain ⟨_, -, rfl⟩ := List.mem_map.mp right
    simp

/-- The image of a preserved vertex is not deleted. -/
theorem keeps_vertex (occurs : m.Occurs p.lhs host) {l r v : VertexId}
    (paired : p.correspondence.vertices.right? l = some r) (image : m.vertex? l = some v) :
    v ∉ p.deletedVertices m := by
  intro mem
  obtain ⟨l', -, unpaired, image'⟩ := mem_deletedVertices.mp mem
  cases occurs.vertex_injective image image'
  simp [paired] at unpaired

/-- The image of a preserved edge is not deleted, nor is a vertex at either of its ends. -/
theorem WellFormed.keeps_edge (whole : p.WellFormed) (occurs : m.Occurs p.lhs host)
    {l r k : EdgeId} (paired : p.correspondence.edges.right? l = some r)
    (image : m.edge? l = some k) : ∃ x, host.edge? k = some x ∧ k ∉ p.deletedEdges m ∧
      x.source ∉ p.deletedVertices m ∧ x.target ∉ p.deletedVertices m := by
  obtain ⟨a, b, inPattern, -, source, target⟩ := whole.edgePair l r paired
  obtain ⟨x, s, t, stored, atSource, atTarget, joins⟩ := occurs.image_joins inPattern image
  have keptSource := keeps_vertex occurs source atSource
  have keptTarget := keeps_vertex occurs target atTarget
  refine ⟨x, stored, ?_, ?_⟩
  · intro mem
    obtain ⟨l', -, unpaired, image'⟩ := mem_deletedEdges.mp mem
    cases occurs.edge_injective image image'
    simp [paired] at unpaired
  · rcases joins with ⟨rfl, rfl⟩ | ⟨-, rfl, rfl⟩
    · exact ⟨keptSource, keptTarget⟩
    · exact ⟨keptTarget, keptSource⟩

/-- A preserved vertex has an image in the host, which is not deleted. -/
theorem WellFormed.spares_vertex (whole : p.WellFormed) (occurs : m.Occurs p.lhs host)
    {l r : VertexId} (paired : p.correspondence.vertices.right? l = some r) :
    ∃ v x, m.vertex? l = some v ∧ host.vertex? v = some x ∧ v ∉ p.deletedVertices m := by
  obtain ⟨inPattern, -⟩ := whole.vertexPair l r paired
  obtain ⟨v, image⟩ := occurs.vertex?_isSome (SortedMap.mem_keys.mpr inPattern)
  obtain ⟨x, stored, -⟩ := occurs.vertex_admitted image
  exact ⟨v, x, image, stored, keeps_vertex occurs paired image⟩

/-- A preserved edge has an image in the host, which is not deleted with an end of it. -/
theorem WellFormed.spares_edge (whole : p.WellFormed) (occurs : m.Occurs p.lhs host)
    {l r : EdgeId} (paired : p.correspondence.edges.right? l = some r) :
    ∃ k x, m.edge? l = some k ∧ host.edge? k = some x ∧ k ∉ p.deletedEdges m ∧
      x.source ∉ p.deletedVertices m ∧ x.target ∉ p.deletedVertices m := by
  obtain ⟨a, b, inPattern, -⟩ := whole.edgePair l r paired
  obtain ⟨k, image⟩ := occurs.edge?_isSome_of inPattern
  obtain ⟨x, kept⟩ := whole.keeps_edge occurs paired image
  exact ⟨k, x, image, kept⟩

/-! ### Deletion -/

/-- Distinct members can be removed one after another with the edges that touch them. -/
theorem removeVertices_total {vs : List VertexId} (cons : g.Consistent) (distinct : vs.Nodup)
    (members : ∀ v ∈ vs, g.vertexMap.contains v = true) : ∃ h, removeVertices g vs = .ok h := by
  induction vs generalizing g with
  | nil => exact ⟨g, rfl⟩
  | cons v rest ih =>
    obtain ⟨absent, distinct⟩ := List.nodup_cons.mp distinct
    obtain ⟨first, others⟩ := List.forall_mem_cons.mp members
    obtain ⟨cleared, done⟩ := cons.cascade_total v
    have removed : g.removeVertex v .cascade = .ok (g.incidentEdges v, cleared.dropVertex v) :=
      removeVertex_eq_ok.mpr ⟨first, by simp, rfl, cleared, done, rfl⟩
    obtain ⟨-, -, vertices, -⟩ := cons.removeVertex_frame removed
    obtain ⟨h, gone⟩ := ih (cons.removeVertex removed) distinct fun w mem => by
      obtain ⟨x, stored⟩ := SortedMap.contains_iff.mp (others w mem)
      have other : w ≠ v := fun eq => absent (eq ▸ mem)
      exact SortedMap.contains_of_get? ((vertices w x).mpr ⟨stored, other⟩)
    exact ⟨h, bind_eq_ok.mpr ⟨_, removed, gone⟩⟩

/-- Deletion succeeds, and leaves the elements that are not deleted as they are. -/
theorem delete_total (cons : host.Consistent) (occurs : m.Occurs p.lhs host) :
    ∃ pruned kept, removeEdges host (p.deletedEdges m) = .ok pruned ∧
      removeVertices pruned (p.deletedVertices m) = .ok kept ∧ kept.Consistent ∧
      kept.nextVertex = host.nextVertex ∧ kept.nextEdge = host.nextEdge ∧
      (∀ v x, kept.vertex? v = some x ↔ host.vertex? v = some x ∧ v ∉ p.deletedVertices m) ∧
      ∀ k x, kept.edge? k = some x ↔ (host.edge? k = some x ∧ k ∉ p.deletedEdges m) ∧
        x.source ∉ p.deletedVertices m ∧ x.target ∉ p.deletedVertices m := by
  obtain ⟨pruned, first⟩ := removeEdges_total deletedEdges_nodup (deletedEdges_members occurs)
  obtain ⟨sameVertices, prunedNextVertex, prunedNextEdge, prunedEdges⟩ := removeEdges_frame first
  obtain ⟨kept, second⟩ := removeVertices_total (cons.removeEdges first)
    (deletedVertices_nodup occurs) (sameVertices ▸ deletedVertices_members occurs)
  obtain ⟨after, keptNextVertex, keptNextEdge, keptVertices, keptEdges⟩ :=
    removeVertices_frame (cons.removeEdges first) second
  refine ⟨pruned, kept, first, second, after, keptNextVertex.trans prunedNextVertex,
    keptNextEdge.trans prunedNextEdge, fun v x => ?_, fun k x => ?_⟩
  · rw [keptVertices, vertex?, sameVertices, vertex?]
  · rw [keptEdges, prunedEdges]

/-! ### Attributes of preserved elements -/

/-- The fault of a preserved element that has no image. -/
def unmapped : Element → MatchFault
  | .vertex l => .unmappedVertex l
  | .edge l => .unmappedEdge l

/-- Sets the attributes of preserved elements of either kind. -/
def update (p : Production) (ctx : RuleContext) (g : Graph) :
    List (Element × Element) → Except Error Graph
  | [] => .ok g
  | (l, r) :: rest =>
    match ctx.embedding.image? l with
    | none => .error (.invalidMatch (unmapped l))
    | some image => do update p ctx (← p.setAttributes ctx g image r) rest

theorem updateVertices_eq_update {pairs : List (VertexId × VertexId)} :
    p.updateVertices ctx g pairs =
      p.update ctx g (pairs.map fun pair => (.vertex pair.1, .vertex pair.2)) := by
  induction pairs generalizing g with
  | nil => rfl
  | cons pair rest ih =>
    obtain ⟨l, r⟩ := pair
    rw [List.map_cons, updateVertices, update, Embedding.image?]
    cases ctx.embedding.vertex? l with
    | none => rfl
    | some image =>
      simp only [Option.map_some]
      exact congrArg _ (funext fun k => ih)

theorem updateEdges_eq_update {pairs : List (EdgeId × EdgeId)} :
    p.updateEdges ctx g pairs =
      p.update ctx g (pairs.map fun pair => (.edge pair.1, .edge pair.2)) := by
  induction pairs generalizing g with
  | nil => rfl
  | cons pair rest ih =>
    obtain ⟨l, r⟩ := pair
    rw [List.map_cons, updateEdges, update, Embedding.image?]
    cases ctx.embedding.edge? l with
    | none => rfl
    | some image =>
      simp only [Option.map_some]
      exact congrArg _ (funext fun k => ih)

theorem update_append {first second : List (Element × Element)} :
    p.update ctx g (first ++ second) =
      (p.update ctx g first >>= fun h => p.update ctx h second) := by
  induction first generalizing g with
  | nil => rfl
  | cons pair rest ih =>
    obtain ⟨l, r⟩ := pair
    rw [List.cons_append, update, update]
    cases ctx.embedding.image? l with
    | none => rfl
    | some image =>
      simp only [bind_assoc]
      exact congrArg _ (funext fun k => ih)

/-- The replacement element that the image of a preserved element becomes. -/
def heirIn (m : Embedding) (pairs : List (Element × Element)) (image : Element) :
    Option Element :=
  (pairs.find? fun pair => m.image? pair.1 == some image).map (·.2)

/-- The attributes that the image of a preserved element gets. -/
def revised (p : Production) (ctx : RuleContext) (heir : Option Element)
    (current : Attributes) : Attributes :=
  match heir with
  | none => current
  | some r => p.assigned ctx r current

/-- Setting the attributes of preserved elements with distinct images succeeds, and each
image gets its attributes from those it has, whatever was set before. -/
theorem update_total {pairs : List (Element × Element)} (distinct : (pairs.map (·.1)).Nodup)
    (injective : ∀ {l l' i}, ctx.embedding.image? l = some i → ctx.embedding.image? l' = some i →
      l = l')
    (mapped : ∀ pair ∈ pairs, ∃ i, ctx.embedding.image? pair.1 = some i ∧ g.contains i = true)
    (cons : g.Consistent) :
    ∃ h, p.update ctx g pairs = .ok h ∧ h.Consistent ∧ SameStructure g h ∧
      ∀ element, h.attributes? element =
        (g.attributes? element).map (p.revised ctx (heirIn ctx.embedding pairs element)) := by
  induction pairs generalizing g with
  | nil =>
    refine ⟨g, rfl, cons, .refl g, fun element => ?_⟩
    exact (Option.map_id' ..).symm
  | cons pair rest ih =>
    obtain ⟨l, r⟩ := pair
    obtain ⟨absent, distinct⟩ := List.nodup_cons.mp distinct
    obtain ⟨⟨image, found, member⟩, others⟩ := List.forall_mem_cons.mp mapped
    obtain ⟨current, stored⟩ := contains_iff_attributes?.mp member
    let next := g.modifyAttributes (fun _ => p.assigned ctx r current) image
    have first : p.setAttributes ctx g image r = .ok next :=
      setAttributes_eq_ok.mpr ⟨current, stored, rfl⟩
    have same : SameStructure g next := modifyAttributes_sameStructure g _ _
    obtain ⟨h, done, after, sameAfter, attributes⟩ :=
      @ih next distinct (fun pair mem => by
        obtain ⟨i, found, member⟩ := others pair mem
        exact ⟨i, found, same.contains.trans member⟩) (cons.modifyAttributes _ _)
    refine ⟨h, ?_, after, same.trans sameAfter, fun element => ?_⟩
    · simp only [update, found, first]
      exact done
    · rw [attributes, attributes?_modifyAttributes, heirIn, heirIn, List.find?_cons, found]
      by_cases here : element = image
      · -- no later pair has this image, so what is set here stays
        have later : rest.find? (fun pair => ctx.embedding.image? pair.1 == some image) = none := by
          refine List.find?_eq_none.mpr fun pair mem again => absent ?_
          have sameSource : l = pair.1 := injective found (by simpa using again)
          exact List.mem_map.mpr ⟨pair, mem, sameSource.symm⟩
        simp [here, later, stored, revised]
      · have apart : (some image == some element) = false := by simpa using Ne.symm here
        simp only [here, apart, if_false]

/-! ### What becomes of each element -/

/-- The replacement element that a host element becomes, if the match preserves it. -/
def heir? (p : Production) (m : Embedding) (image : Element) : Option Element :=
  heirIn m p.preservedPairs image

/-- What is left of a host vertex before anything is created. -/
def keptVertex (p : Production) (ctx : RuleContext) (x : Vertex) : Option Vertex :=
  if x.id ∈ p.deletedVertices ctx.embedding then none
  else some { x with
    attributes := p.revised ctx (p.heir? ctx.embedding (.vertex x.id)) x.attributes }

/-- What is left of a host edge before anything is created. -/
def keptEdge (p : Production) (ctx : RuleContext) (x : Edge) : Option Edge :=
  if x.id ∈ p.deletedEdges ctx.embedding ∨ x.source ∈ p.deletedVertices ctx.embedding ∨
      x.target ∈ p.deletedVertices ctx.embedding then none
  else some { x with
    attributes := p.revised ctx (p.heir? ctx.embedding (.edge x.id)) x.attributes }

/-- Every preserved element has an image, which deletion leaves. -/
theorem WellFormed.image_kept (whole : p.WellFormed) (occurs : m.Occurs p.lhs host) {kept : Graph}
    (vertices : ∀ v x, kept.vertex? v = some x ↔
      host.vertex? v = some x ∧ v ∉ p.deletedVertices m)
    (edges : ∀ k x, kept.edge? k = some x ↔ (host.edge? k = some x ∧ k ∉ p.deletedEdges m) ∧
      x.source ∉ p.deletedVertices m ∧ x.target ∉ p.deletedVertices m) :
    ∀ pair ∈ p.preservedPairs, ∃ i, m.image? pair.1 = some i ∧ kept.contains i = true := by
  rintro ⟨l, r⟩ mem
  rcases mem_preservedPairs.mp mem with ⟨v, w, rfl, rfl, paired⟩ | ⟨d, e, rfl, rfl, paired⟩
  · obtain ⟨h, x, image, stored, spared⟩ := whole.spares_vertex occurs paired
    have left := (vertices h x).mpr ⟨stored, spared⟩
    exact ⟨.vertex h, congrArg (Option.map _) image, SortedMap.contains_of_get? left⟩
  · obtain ⟨k, x, image, stored, spared, source, target⟩ := whole.spares_edge occurs paired
    have left := (edges k x).mpr ⟨⟨stored, spared⟩, source, target⟩
    exact ⟨.edge k, congrArg (Option.map _) image, SortedMap.contains_of_get? left⟩

/-- What is left of a host vertex once the deleted ones are gone and the attributes are set. -/
theorem kept_vertex (cons : host.Consistent) {kept preserved : Graph} (after : preserved.Consistent)
    {v : VertexId} (vertices : ∀ x, kept.vertex? v = some x ↔
      host.vertex? v = some x ∧ v ∉ p.deletedVertices m)
    (attributes : preserved.attributes? (.vertex v) = (kept.attributes? (.vertex v)).map
      (p.revised ⟨host, m⟩ (p.heir? m (.vertex v)))) :
    preserved.vertex? v = (host.vertex? v).bind (p.keptVertex ⟨host, m⟩) := by
  rw [after.vertex?_eq, attributes, cons.vertex?_eq]
  by_cases gone : v ∈ p.deletedVertices m
  · have absent : kept.vertex? v = none :=
      Option.eq_none_iff_forall_ne_some.mpr fun x left => ((vertices x).mp left).2 gone
    cases host.attributes? (.vertex v) with
    | none => simp [attributes?, absent]
    | some current => simp [attributes?, absent, keptVertex, gone]
  · have here : kept.vertex? v = host.vertex? v :=
      Option.ext fun x => (vertices x).trans (and_iff_left gone)
    rw [attributes?, here, ← attributes?]
    cases host.attributes? (.vertex v) with
    | none => rfl
    | some current => simp [keptVertex, gone]

/-- What is left of a host edge once deleted elements are gone and the attributes are set. -/
theorem kept_edge (cons : host.Consistent) {kept preserved : Graph} {k : EdgeId}
    (edges : ∀ x, kept.edge? k = some x ↔ (host.edge? k = some x ∧ k ∉ p.deletedEdges m) ∧
      x.source ∉ p.deletedVertices m ∧ x.target ∉ p.deletedVertices m)
    (relabelled : preserved.edge? k = (kept.edge? k).map fun x =>
      { x with attributes := p.revised ⟨host, m⟩ (p.heir? m (.edge k)) x.attributes }) :
    preserved.edge? k = (host.edge? k).bind (p.keptEdge ⟨host, m⟩) := by
  rw [relabelled]
  cases stored : host.edge? k with
  | none =>
    have absent : kept.edge? k = none := by
      refine Option.eq_none_iff_forall_ne_some.mpr fun x left => ?_
      have before := ((edges x).mp left).1.1
      simp [stored] at before
    simp [absent]
  | some x =>
    have sameId : x.id = k := cons.edge_id stored
    by_cases gone : k ∈ p.deletedEdges m ∨ x.source ∈ p.deletedVertices m ∨
        x.target ∈ p.deletedVertices m
    · have absent : kept.edge? k = none :=
        Option.eq_none_iff_forall_ne_some.mpr fun y left => by
          obtain ⟨⟨stored', spared⟩, source, target⟩ := (edges y).mp left
          cases stored.symm.trans stored'
          exact gone.elim spared fun ends => ends.elim source target
      simp [absent, keptEdge, sameId, gone]
    · obtain ⟨spared, source, target⟩ : k ∉ p.deletedEdges m ∧
          x.source ∉ p.deletedVertices m ∧ x.target ∉ p.deletedVertices m := by
        simpa [not_or] using gone
      have here : kept.edge? k = some x := (edges x).mpr ⟨⟨stored, spared⟩, source, target⟩
      simp [here, keptEdge, sameId, gone]

/-- Deletion and the setting of attributes succeed, and leave of each host element what
`keptVertex` and `keptEdge` say. -/
theorem WellFormed.preserve_total (whole : p.WellFormed) (cons : host.Consistent)
    (occurs : m.Occurs p.lhs host) :
    ∃ pruned kept relabelled preserved, removeEdges host (p.deletedEdges m) = .ok pruned ∧
      removeVertices pruned (p.deletedVertices m) = .ok kept ∧
      p.updateVertices ⟨host, m⟩ kept p.correspondence.vertices.pairs = .ok relabelled ∧
      p.updateEdges ⟨host, m⟩ relabelled p.correspondence.edges.pairs = .ok preserved ∧
      preserved.Consistent ∧ preserved.nextVertex = host.nextVertex ∧
      preserved.nextEdge = host.nextEdge ∧
      (∀ v, preserved.vertex? v = (host.vertex? v).bind (p.keptVertex ⟨host, m⟩)) ∧
      ∀ k, preserved.edge? k = (host.edge? k).bind (p.keptEdge ⟨host, m⟩) := by
  obtain ⟨pruned, kept, first, second, keptCons, nextVertex, nextEdge, vertices, edges⟩ :=
    delete_total cons occurs
  obtain ⟨preserved, updated, after, same, attributes⟩ :=
    @update_total p kept ⟨host, m⟩ p.preservedPairs preservedPairs_nodup
      (fun {_ _ _} => occurs.image_injective) (whole.image_kept occurs vertices edges) keptCons
  rw [preservedPairs, update_append, ← updateVertices_eq_update] at updated
  obtain ⟨relabelled, third, fourth⟩ := bind_eq_ok.mp updated
  rw [← updateEdges_eq_update] at fourth
  refine ⟨pruned, kept, relabelled, preserved, first, second, third, fourth, after,
    same.nextVertex.trans nextVertex, same.nextEdge.trans nextEdge, fun v => ?_, fun k => ?_⟩
  · exact kept_vertex cons after (vertices v) (attributes (.vertex v))
  · exact kept_edge cons (edges k)
      (keptCons.edge?_eq after (same.edges k) (attributes (.edge k)))

end Production

end GraphTransformation
