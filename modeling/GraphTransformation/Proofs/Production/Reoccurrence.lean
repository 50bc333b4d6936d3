import GraphTransformation.Proofs.Production.Attributes
import GraphTransformation.Proofs.Value

/-!
The replacement occurs where it was put.

Each replacement element stands for one element of the result, the image of its partner or the
one that was created for it (`Production.Stands`); `Production.site` is the map. If no rule
changes the attributes that the replacement gives, it is an occurrence of the replacement in the
result: it is injective since created elements are new, preserved edges still join the images of
their ends, and the replacement's attributes have been put over those of the host
(`WellFormed.site_occurs`). So verification accepts it and the search finds it (`apply_reoccurs`).
-/

namespace GraphTransformation

/-- In a list without repetitions an element has one place. -/
theorem idxOf?_of_nodup {α : Type} [DecidableEq α] {l : List α} (distinct : l.Nodup) {a : α}
    {i : Nat} : l.idxOf? a = some i ↔ l[i]? = some a := by
  rw [List.idxOf?_eq_some_iff, List.getElem?_eq_some_iff]
  constructor
  · rintro ⟨lt, here, -⟩
    exact ⟨lt, here⟩
  · rintro ⟨lt, here⟩
    refine ⟨lt, here, fun j before same => ?_⟩
    have twice := (distinct.getElem_inj_iff).mp (same.trans here.symm)
    omega

/-! ### Patterns made of a graph -/

/-- None of the graph's attributes is not a number. -/
def Graph.NoNaN (g : Graph) : Prop :=
  ∀ element attributes, g.attributes? element = some attributes →
    ∀ name value, attributes.get? name = some value → ¬ value.IsNaN

theorem Graph.noNaN_of_listed {g : Graph}
    (vertices : ∀ x ∈ g.vertices, ∀ pair ∈ x.attributes.toList, ¬ pair.2.IsNaN)
    (edges : ∀ x ∈ g.edges, ∀ pair ∈ x.attributes.toList, ¬ pair.2.IsNaN) : g.NoNaN := by
  intro element attributes stored name value bound
  cases element with
  | vertex v =>
    obtain ⟨x, here, rfl⟩ := Option.map_eq_some_iff.mp stored
    exact vertices x (SortedMap.mem_values.mpr ⟨v, here⟩) _ (SortedMap.mem_toList_of_get? bound)
  | edge k =>
    obtain ⟨x, here, rfl⟩ := Option.map_eq_some_iff.mp stored
    exact edges x (SortedMap.mem_values.mpr ⟨k, here⟩) _ (SortedMap.mem_toList_of_get? bound)

/-- A pattern without constraints admits attributes that include its own. -/
theorem Pattern.ofGraph_admits {g : Graph} {mode : EdgeMode} {element : Element}
    {required attributes : Attributes} (stored : g.attributes? element = some required)
    (included : ∀ name value, required.get? name = some value →
      ∃ v, attributes.get? name = some v ∧ v.sameAs value = true) :
    (ofGraph g mode).admits element attributes = true := by
  have free : (ofGraph g mode).constraint? element = none := rfl
  have graph : (ofGraph g mode).graph = g := rfl
  rw [admits, graph, stored, free]
  simp only [Option.all_none, Bool.and_true, List.all_eq_true, Prod.forall]
  intro name value bound
  obtain ⟨v, found, same⟩ := included name value (SortedMap.get?_of_mem_toList bound)
  rw [found]
  exact same

namespace Production

open GraphTransformation.Graph

variable {p : Production} {host result : Graph} {m : Embedding} {l r r' element : Element}

/-! ### Where replacement elements are -/

/-- The edge of the result that a replacement edge stands for: the image of its partner, or the
edge created for it. -/
def edgeStandIn (p : Production) (host : Graph) (m : Embedding) (e : EdgeId) : Option EdgeId :=
  match p.correspondence.edges.left? e with
  | some l => m.edge? l
  | none => ((p.newEdges.map (·.id)).idxOf? e).map host.freshEdge

/-- The map that sends each replacement element to the element of the result that it stands
for. -/
def site (p : Production) (host : Graph) (m : Embedding) : Embedding where
  vertexMap := .ofList (p.rhs.vertexIds.filterMap fun r => (p.standIn host m r).map (r, ·))
  edgeMap := .ofList (p.rhs.edgeIds.filterMap fun e => (p.edgeStandIn host m e).map (e, ·))

/-- The element of the result is the image of a partner of the replacement element, or has been
created for it. -/
def Stands (p : Production) (host : Graph) (m : Embedding) (r element : Element) : Prop :=
  (∃ l, (l, r) ∈ p.preservedPairs ∧ m.image? l = some element) ∨ p.Creates host r element

theorem newVertices_nodup : p.newVertices.Nodup := p.rhs.vertexIds_nodup.filter _

theorem WellFormed.newEdges_nodup (whole : p.WellFormed) : (p.newEdges.map (·.id)).Nodup := by
  have ids : (p.rhs.edges.map (·.id)).Nodup := whole.rhs.edges_ids ▸ SortedMap.keys_nodup _
  exact ids.sublist (List.filter_sublist.map _)

theorem WellFormed.standIn_eq_some (whole : p.WellFormed) {r v : VertexId} :
    p.standIn host m r = some v ↔ p.Stands host m (.vertex r) (.vertex v) := by
  simp only [Stands, mem_preservedPairs_vertex]
  cases partner : p.correspondence.vertices.left? r with
  | some l =>
    rw [standIn_paired partner]
    constructor
    · intro image
      exact .inl ⟨_, ⟨l, rfl, (whole.vertices l r).mpr partner⟩, congrArg (Option.map _) image⟩
    · rintro (⟨_, ⟨l', rfl, paired⟩, image⟩ | created)
      · cases ((whole.vertices l' r).mp paired).symm.trans partner
        simpa [Embedding.image?] using image
      · cases created with
        | vertex here =>
          have unpaired := (List.mem_filter.mp (List.mem_of_getElem? here)).2
          simp [partner] at unpaired
  | none =>
    rw [standIn_new partner, Option.map_eq_some_iff]
    simp only [idxOf?_of_nodup newVertices_nodup]
    constructor
    · rintro ⟨i, here, rfl⟩
      exact .inr (.vertex here)
    · rintro (⟨_, ⟨l, rfl, paired⟩, -⟩ | created)
      · simp [(whole.vertices l r).mp paired] at partner
      · cases created with
        | vertex here => exact ⟨_, here, rfl⟩

theorem WellFormed.edgeStandIn_eq_some (whole : p.WellFormed) {e k : EdgeId} :
    p.edgeStandIn host m e = some k ↔ p.Stands host m (.edge e) (.edge k) := by
  simp only [Stands, mem_preservedPairs_edge]
  cases partner : p.correspondence.edges.left? e with
  | some l =>
    simp only [edgeStandIn, partner]
    constructor
    · intro image
      exact .inl ⟨_, ⟨l, rfl, (whole.edges l e).mpr partner⟩, congrArg (Option.map _) image⟩
    · rintro (⟨_, ⟨l', rfl, paired⟩, image⟩ | created)
      · cases ((whole.edges l' e).mp paired).symm.trans partner
        simpa [Embedding.image?] using image
      · cases created with
        | edge here =>
          have unpaired := (List.mem_filter.mp (List.mem_of_getElem? here)).2
          simp [partner] at unpaired
  | none =>
    simp only [edgeStandIn, partner, Option.map_eq_some_iff,
      idxOf?_of_nodup whole.newEdges_nodup, List.getElem?_map]
    constructor
    · rintro ⟨i, ⟨a, here, rfl⟩, rfl⟩
      exact .inr (.edge here)
    · rintro (⟨_, ⟨l, rfl, paired⟩, -⟩ | created)
      · simp [(whole.edges l e).mp paired] at partner
      · cases created with
        | edge here => exact ⟨_, ⟨_, here, rfl⟩, rfl⟩

/-- Only elements of the replacement stand for something. -/
theorem Stands.member (stands : p.Stands host m r element) (whole : p.WellFormed) :
    p.rhs.contains r = true := by
  rcases stands with ⟨l, pair, -⟩ | created
  · rcases mem_preservedPairs.mp pair with ⟨v, w, -, rfl, paired⟩ | ⟨d, e, -, rfl, paired⟩
    · exact (whole.vertexPair v w paired).2
    · obtain ⟨a, b, -, inReplacement, -⟩ := whole.edgePair d e paired
      exact SortedMap.contains_of_get? inReplacement
  · cases created with
    | vertex here =>
      exact SortedMap.mem_keys.mp (List.mem_filter.mp (List.mem_of_getElem? here)).1
    | edge here =>
      exact SortedMap.contains_of_get?
        (whole.rhs.mem_edges.mp (List.mem_filter.mp (List.mem_of_getElem? here)).1)

theorem site_vertex? {r v : VertexId} :
    (p.site host m).vertex? r = some v ↔ r ∈ p.rhs.vertexIds ∧ p.standIn host m r = some v :=
  SortedMap.get?_ofList_filterMap p.rhs.vertexIds_nodup

theorem site_edge? {e k : EdgeId} :
    (p.site host m).edge? e = some k ↔ e ∈ p.rhs.edgeIds ∧ p.edgeStandIn host m e = some k :=
  SortedMap.get?_ofList_filterMap (SortedMap.keys_nodup _)

theorem WellFormed.site_vertex?_eq_some (whole : p.WellFormed) {r v : VertexId} :
    (p.site host m).vertex? r = some v ↔ p.Stands host m (.vertex r) (.vertex v) := by
  rw [site_vertex?, whole.standIn_eq_some, and_iff_right_iff_imp]
  exact fun stands => SortedMap.mem_keys.mpr (stands.member whole)

theorem WellFormed.site_edge?_eq_some (whole : p.WellFormed) {e k : EdgeId} :
    (p.site host m).edge? e = some k ↔ p.Stands host m (.edge e) (.edge k) := by
  rw [site_edge?, whole.edgeStandIn_eq_some, and_iff_right_iff_imp]
  exact fun stands => SortedMap.mem_keys.mpr (stands.member whole)

theorem WellFormed.standIn_total (whole : p.WellFormed) (occurs : m.Occurs p.lhs host)
    {r : VertexId} (inside : r ∈ p.rhs.vertexIds) : ∃ v, p.standIn host m r = some v := by
  cases partner : p.correspondence.vertices.left? r with
  | some l =>
    obtain ⟨inPattern, -⟩ := whole.vertexPair l r ((whole.vertices l r).mpr partner)
    rw [standIn_paired partner]
    exact occurs.vertex?_isSome (SortedMap.mem_keys.mpr inPattern)
  | none =>
    have new : r ∈ p.newVertices := List.mem_filter.mpr ⟨inside, by simp [partner]⟩
    obtain ⟨i, here⟩ := Option.isSome_iff_exists.mp (List.isSome_idxOf?.mpr new)
    exact ⟨host.freshVertex i, by rw [standIn_new partner, here, Option.map_some]⟩

theorem WellFormed.edgeStandIn_total (whole : p.WellFormed) (occurs : m.Occurs p.lhs host)
    {e : EdgeId} (inside : e ∈ p.rhs.edgeIds) : ∃ k, p.edgeStandIn host m e = some k := by
  cases partner : p.correspondence.edges.left? e with
  | some l =>
    obtain ⟨a, b, inPattern, -⟩ := whole.edgePair l e ((whole.edges l e).mpr partner)
    simp only [edgeStandIn, partner]
    exact occurs.edge?_isSome_of inPattern
  | none =>
    obtain ⟨a, stored⟩ := SortedMap.contains_iff.mp (SortedMap.mem_keys.mp inside)
    have sameId : a.id = e := whole.rhs.edge_id stored
    have new : a ∈ p.newEdges :=
      List.mem_filter.mpr ⟨whole.rhs.mem_edges.mpr (sameId ▸ stored), by simp [sameId, partner]⟩
    have listed : e ∈ p.newEdges.map (·.id) := List.mem_map.mpr ⟨a, new, sameId⟩
    obtain ⟨i, here⟩ := Option.isSome_iff_exists.mp (List.isSome_idxOf?.mpr listed)
    exact ⟨host.freshEdge i, by simp only [edgeStandIn, partner, here, Option.map_some]⟩

/-! ### An occurrence -/

/-- Created elements are different and none of them was in the host, so no two replacement
elements stand for one element. -/
theorem Stands.injective (one : p.Stands host m r element) (other : p.Stands host m r' element)
    (cons : host.Consistent) (occurs : m.Occurs p.lhs host)
    (room : p.HasRoom host) : r = r' := by
  rcases one with ⟨l, pair, image⟩ | created
  · rcases other with ⟨l', pair', image'⟩ | created'
    · cases occurs.image_injective image image'
      exact congrArg Prod.snd (List.inj_on_of_nodup_map preservedPairs_nodup pair pair' rfl)
    · exact absurd (occurs.image_member image) (room.creates_new cons created')
  · rcases other with ⟨l', pair', image'⟩ | created'
    · exact absurd (occurs.image_member image') (room.creates_new cons created)
    · exact created.injective created' room

/-- The element that a replacement element stands for may be its image: no rule has changed the
attributes that it gives. -/
theorem Settles.admits (settles : p.Settles host m result) (plain : p.rules = [])
    (literal : p.rhs.NoNaN) {required : Attributes} (stored : p.rhs.attributes? r = some required)
    (stands : p.Stands host m r element) : ∃ after, result.attributes? element = some after ∧
      (Pattern.ofGraph p.rhs p.lhs.edgeMode).admits r after = true := by
  have given : ∀ name value before, required.get? name = some value →
      p.settled host m r name before = some value := by
    intro name value before bound
    have none : p.decisive? r name = none := by simp [decisive?, rulesOn, plain]
    simp [settled, none, stored, bound]
  obtain ⟨after, there, values⟩ : ∃ after, result.attributes? element = some after ∧
      ∀ name, ∃ before, after.get? name = p.settled host m r name before := by
    rcases stands with ⟨l, pair, image⟩ | created
    · obtain ⟨element', before, after, image', -, there, values⟩ := settles.preserved l r pair
      cases image.symm.trans image'
      exact ⟨after, there, fun name => ⟨_, values name⟩⟩
    · obtain ⟨after, there, values⟩ := settles.created r element created
      exact ⟨after, there, fun name => ⟨_, values name⟩⟩
  refine ⟨after, there, Pattern.ofGraph_admits stored fun name value bound => ?_⟩
  obtain ⟨before, found⟩ := values name
  exact ⟨value, found.trans (given name value before bound),
    Value.sameAs_self.mpr (literal r required stored name value bound)⟩

/-- The edge that a replacement edge stands for joins what the ends of the replacement edge stand
for. -/
theorem WellFormed.site_joins (whole : p.WellFormed) (cons : host.Consistent)
    (occurs : m.Occurs p.lhs host) (room : p.HasRoom host) (effect : p.Effect host m result)
    {e k : EdgeId} (stands : p.Stands host m (.edge e) (.edge k)) :
    ∃ a x s t, p.rhs.edge? e = some a ∧ result.edge? k = some x ∧
      (p.site host m).vertex? a.source = some s ∧ (p.site host m).vertex? a.target = some t ∧
      x.Joins p.lhs.edgeMode s t := by
  rcases stands with ⟨l, pair, image⟩ | created
  · obtain ⟨d, rfl, paired⟩ := mem_preservedPairs_edge.mp pair
    replace image : m.edge? d = some k := by simpa [Embedding.image?] using image
    obtain ⟨a, b, inPattern, inReplacement, source, target⟩ := whole.edgePair d e paired
    obtain ⟨x, s, t, stored, atSource, atTarget, joins⟩ := occurs.image_joins inPattern image
    obtain ⟨x', stored', spared, keptSource, keptTarget⟩ := whole.keeps_edge occurs paired image
    cases stored.symm.trans stored'
    rw [← cons.edge_id stored] at spared
    have left : result.edge? k = p.keptEdge ⟨host, m⟩ x := by
      rw [effect.oldEdge k (cons.edge_below (SortedMap.contains_of_get? stored)), stored]
      rfl
    rw [keptEdge, if_neg (not_or.mpr ⟨spared, not_or.mpr ⟨keptSource, keptTarget⟩⟩)] at left
    have partner : ∀ {v w i}, p.correspondence.vertices.right? v = some w →
        m.vertex? v = some i → (p.site host m).vertex? w = some i := by
      intro v w i paired image
      exact whole.site_vertex?_eq_some.mpr
        (.inl ⟨_, mem_preservedPairs_vertex.mpr ⟨v, rfl, paired⟩, congrArg (Option.map _) image⟩)
    exact ⟨b, _, s, t, inReplacement, left, partner source atSource, partner target atTarget, joins⟩
  · generalize same : Element.edge k = element at created
    generalize same' : Element.edge e = r at created
    cases created with
    | vertex => cases same
    | @edge i a here =>
      cases same
      cases same'
      obtain ⟨inReplacement, -⟩ := List.mem_filter.mp (List.mem_of_getElem? here)
      have stored := whole.rhs.mem_edges.mp inReplacement
      have sourceInside := whole.rhs.source_mem stored
      have targetInside := whole.rhs.target_mem stored
      obtain ⟨s, atSource⟩ := whole.standIn_total occurs sourceInside
      obtain ⟨t, atTarget⟩ := whole.standIn_total occurs targetInside
      have lt := (List.getElem?_eq_some_iff.mp here).1
      have created : result.edge? (host.freshEdge i) =
          some ⟨host.freshEdge i, s, t, p.assigned ⟨host, m⟩ (.edge a.id) .empty⟩ := by
        have := room.2
        rw [effect.newEdge i (by omega), createdEdge]
        simp [here, atSource, atTarget]
      exact ⟨a, _, s, t, stored, created, site_vertex?.mpr ⟨sourceInside, atSource⟩,
        site_vertex?.mpr ⟨targetInside, atTarget⟩, .inl ⟨rfl, rfl⟩⟩

/-- The replacement occurs in the result, each of its elements where it stands. -/
theorem WellFormed.site_occurs (whole : p.WellFormed) (cons : host.Consistent)
    (occurs : m.Occurs p.lhs host) (plain : p.rules = []) (literal : p.rhs.NoNaN)
    (room : p.HasRoom host) (replaced : p.replace host m = .ok result) :
    (p.site host m).Occurs (.ofGraph p.rhs p.lhs.edgeMode) result := by
  have settles := whole.replace_settles cons occurs room replaced
  have effect := whole.replace_effect cons occurs replaced
  have admitted : ∀ {r element}, p.Stands host m r element → ∃ after,
      result.attributes? element = some after ∧
        (Pattern.ofGraph p.rhs p.lhs.edgeMode).admits r after = true := by
    intro r element stands
    obtain ⟨required, stored⟩ := contains_iff_attributes?.mp (stands.member whole)
    exact settles.admits plain literal stored stands
  constructor
  case vertices =>
    intro r
    rw [SortedMap.contains_iff]
    constructor
    · rintro ⟨v, here⟩
      exact (site_vertex?.mp here).1
    · intro inside
      obtain ⟨v, here⟩ := whole.standIn_total occurs inside
      exact ⟨v, site_vertex?.mpr ⟨inside, here⟩⟩
  case edges =>
    intro e
    rw [SortedMap.contains_iff]
    constructor
    · rintro ⟨k, here⟩
      exact (site_edge?.mp here).1
    · intro inside
      obtain ⟨k, here⟩ := whole.edgeStandIn_total occurs inside
      exact ⟨k, site_edge?.mpr ⟨inside, here⟩⟩
  case vertex_injective =>
    intro r r' v here here'
    exact Element.vertex.inj ((whole.site_vertex?_eq_some.mp here).injective
      (whole.site_vertex?_eq_some.mp here') cons occurs room)
  case edge_injective =>
    intro e e' k here here'
    exact Element.edge.inj ((whole.site_edge?_eq_some.mp here).injective
      (whole.site_edge?_eq_some.mp here') cons occurs room)
  case vertex_admitted =>
    intro r v here
    obtain ⟨after, there, admits⟩ := admitted (whole.site_vertex?_eq_some.mp here)
    obtain ⟨x, stored, rfl⟩ := Option.map_eq_some_iff.mp there
    exact ⟨x, stored, admits⟩
  case edge_admitted =>
    intro e k here
    obtain ⟨after, there, admits⟩ := admitted (whole.site_edge?_eq_some.mp here)
    obtain ⟨x, stored, rfl⟩ := Option.map_eq_some_iff.mp there
    exact ⟨x, stored, admits⟩
  case edge_joins =>
    intro e k here
    exact whole.site_joins cons occurs room effect (whole.site_edge?_eq_some.mp here)

/-- If a production without rules is applied, its replacement occurs in the result, each element
at the image of its partner or at the element created for it: verification accepts this
embedding, and the search finds it. -/
theorem apply_reoccurs {m : Match} (accepted : p.Accepted) (reach : host.Reachable)
    (plain : p.rules = []) (literal : p.rhs.NoNaN)
    (applied : p.apply host m = .ok result) :
    (p.site host m.embedding).verify (.ofGraph p.rhs p.lhs.edgeMode) result = .ok () ∧
      p.site host m.embedding ∈
        Matcher.backtracking.findAll (.ofGraph p.rhs p.lhs.edgeMode) result := by
  have whole := accepted.wellFormed
  have cons := reach.consistent
  obtain ⟨verified, replaced⟩ := apply_eq_ok.mp applied
  obtain ⟨-, occurs⟩ := (verify_eq_ok cons).mp verified
  have room := apply_hasRoom cons applied
  have after := apply_consistent cons applied
  have accepts := (Embedding.verify_eq_ok after).mpr
    (whole.site_occurs cons occurs plain literal room replaced)
  exact ⟨accepts, (Embedding.mem_findAll_iff_verify whole.rhs after).mpr accepts⟩

/-- Replaces one end of an arrow in either direction, with the edge, by a new one, and tags both
ends. -/
def regrowTagged : Production :=
  { regrow with lhs := .ofGraph .arrow .undirected, rhs := taggedArrow }

theorem regrowTagged_accepted : regrowTagged.Accepted := by
  have sides : (Pattern.ofGraph .arrow .undirected).graph.Reachable := arrow_reachable
  have built : regrow.correspondence.Built := .vertex (l := ⟨0⟩) (r := ⟨0⟩) .empty rfl
  exact .made sides taggedArrow_reachable built (make_eq_ok.mpr ⟨rfl, rfl⟩)

/-- At an arrow turned around the first vertex is the old target, and the second a new one. -/
theorem regrowTagged_reoccurs : ∃ m result, regrowTagged.apply .arrow m = .ok result ∧
    (⟨.ofList [(⟨0⟩, ⟨1⟩), (⟨1⟩, ⟨2⟩)], .ofList [(⟨0⟩, ⟨1⟩)]⟩ : Embedding) ∈
      Matcher.backtracking.findAll (.ofGraph taggedArrow .undirected) result := by
  let m : Match := ⟨⟨0⟩, .ofList [(⟨0⟩, ⟨1⟩), (⟨1⟩, ⟨0⟩)], .ofList [(⟨0⟩, ⟨0⟩)]⟩
  obtain ⟨result, applied⟩ : ∃ result, regrowTagged.apply .arrow m = .ok result := ⟨_, rfl⟩
  have literal : taggedArrow.NoNaN := by
    have vertices : taggedArrow.vertices = [⟨⟨0⟩, tag 1⟩, ⟨⟨1⟩, tag 2⟩] := rfl
    have edges : taggedArrow.edges = [⟨⟨0⟩, ⟨0⟩, ⟨1⟩, .empty⟩] := rfl
    have tags : ∀ n, (tag n).toList = [("tag", .int n)] := fun _ => rfl
    refine noNaN_of_listed ?_ ?_
    · simp [vertices, tags, Value.IsNaN]
    · simp [edges, SortedMap.empty]
  obtain ⟨-, found⟩ := apply_reoccurs regrowTagged_accepted arrow_reachable rfl literal applied
  exact ⟨m, result, applied, found⟩

end Production

end GraphTransformation
