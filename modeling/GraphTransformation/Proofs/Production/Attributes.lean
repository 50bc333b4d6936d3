import GraphTransformation.Proofs.Production.Effect
import Mathlib.Data.List.Induction

/-!
The attributes of a rewritten graph.

Of the rules that a replacement element has for a name the last one decides, without a rule its
literal, and else what the element had before (`Production.settled`). All of this is read off the
host as it was, however many elements are set one after another on the graph that is being
changed (`assigned_get?`). `Production.Settles` says so of all elements of a result, and
`apply_attributes` that every application leaves such a graph: the created elements are new, so
none of them takes the place of a preserved one.
-/

namespace GraphTransformation

/-! ### Rules one after another -/

theorem Attributes.get?_override {attributes literals : Attributes} {name : String} :
    (attributes.override literals).get? name =
      (literals.get? name).or (attributes.get? name) := by
  refine Option.ext fun value => ?_
  have unbound : (∀ pair ∈ literals.toList, pair.1 ≠ name) ↔ literals.get? name = none := by
    simp only [Option.eq_none_iff_forall_ne_some, ne_eq, SortedMap.get?_eq_some_iff, Prod.forall]
    constructor
    · intro apart value bound
      exact apart name value bound rfl
    · rintro free other value bound rfl
      exact free value bound
  rw [override, SortedMap.get?_insertAll (SortedMap.keys_nodup literals),
    ← SortedMap.get?_eq_some_iff, unbound, Option.or_eq_some_iff, and_comm (a := _ = none)]

namespace Rule

variable {ctx : RuleContext} {attributes : Attributes} {name : String}

theorem get?_apply {rule : Rule} {target : String} :
    (rule.apply ctx target attributes).get? name =
      if name = target then rule.evaluate ctx else attributes.get? name := by
  rw [apply]
  cases rule.evaluate ctx with
  | some value => exact SortedMap.get?_insert
  | none => exact SortedMap.get?_erase

/-- Of rules that are applied one after another the last one for a name decides. -/
theorem get?_foldl_apply {rules : List (String × Rule)} :
    (rules.foldl (fun as (target, rule) => rule.apply ctx target as) attributes).get? name =
      match (rules.filter (·.1 == name)).getLast? with
      | some (_, rule) => rule.evaluate ctx
      | none => attributes.get? name := by
  induction rules using List.reverseRecOn with
  | nil => rfl
  | append_singleton rules last ih =>
    obtain ⟨target, rule⟩ := last
    rw [List.foldl_append, List.filter_append]
    by_cases here : target = name
    · simp [here, get?_apply]
    · simp [here, Ne.symm here, get?_apply, ih]

end Rule

namespace Production

open GraphTransformation.Graph

variable {p : Production} {host g h result : Graph} {m : Embedding} {ctx : RuleContext}
  {l r r' element image : Element}

/-- The last of the rules that a replacement element has for a name. -/
def decisive? (p : Production) (r : Element) (name : String) : Option Rule :=
  ((p.rulesOn r).filter (·.1 == name)).getLast?.map (·.2)

/-- The value that a name gets on an element with a replacement element, over the value that it
had there before. -/
def settled (p : Production) (host : Graph) (m : Embedding) (r : Element) (name : String)
    (before : Option Value) : Option Value :=
  match p.decisive? r name with
  | some (.set value) => some value
  | some (.copy source other) => ((m.image? source).bind host.attributes?).bind (·.get? other)
  | some .remove => none
  | some (.compute _ value) => value ⟨host, m⟩
  | none => ((p.rhs.attributes? r).bind (·.get? name)).or before

theorem assigned_get? {before : Attributes} {name : String} :
    (p.assigned ⟨host, m⟩ r before).get? name = p.settled host m r name (before.get? name) := by
  have literal : ((p.rhs.attributes? r).getD .empty).get? name =
      (p.rhs.attributes? r).bind (·.get? name) := by
    cases p.rhs.attributes? r with
    | none => rfl
    | some literals => rfl
  rw [assigned, Rule.get?_foldl_apply, Attributes.get?_override, literal, settled, decisive?]
  cases ((p.rulesOn r).filter (·.1 == name)).getLast? with
  | none => rfl
  | some last =>
    obtain ⟨_, rule⟩ := last
    cases rule with
    | set value => rfl
    | copy source other => rfl
    | remove => rfl
    | compute label value => rfl

/-! ### Created elements -/

/-- An application to the host creates the element of the result for the replacement element. -/
inductive Creates (p : Production) (host : Graph) : Element → Element → Prop where
  | vertex {i : Nat} {r : VertexId} : p.newVertices[i]? = some r →
    Creates p host (.vertex r) (.vertex (host.freshVertex i))
  | edge {i : Nat} {e : Edge} : p.newEdges[i]? = some e →
    Creates p host (.edge e.id) (.edge (host.freshEdge i))

theorem creates_congr (nextVertex : g.nextVertex = h.nextVertex)
    (nextEdge : g.nextEdge = h.nextEdge) : p.Creates g = p.Creates h := by
  have forth : ∀ {g h : Graph}, g.nextVertex = h.nextVertex → g.nextEdge = h.nextEdge →
      ∀ r element, p.Creates g r element → p.Creates h r element := by
    intro g h nextVertex nextEdge r element created
    cases created with
    | vertex here => exact freshVertex_congr nextVertex ▸ .vertex here
    | edge here => exact freshEdge_congr nextEdge ▸ .edge here
  funext r element
  exact propext ⟨forth nextVertex nextEdge r element, forth nextVertex.symm nextEdge.symm r element⟩

/-- With room for the created elements each of them is created for one replacement element. -/
theorem Creates.injective (one : p.Creates host r element) (other : p.Creates host r' element)
    (room : p.HasRoom host) : r = r' := by
  obtain ⟨vertexRoom, edgeRoom⟩ := room
  cases one with
  | @vertex i x here =>
    generalize same : Element.vertex (host.freshVertex i) = element at other
    cases other with
    | @vertex j y here' =>
      have := (List.getElem?_eq_some_iff.mp here).1
      have := (List.getElem?_eq_some_iff.mp here').1
      cases Handle.issued_injective (by omega) (by omega) (Element.vertex.inj same)
      cases here.symm.trans here'
      rfl
    | edge => cases same
  | @edge i x here =>
    generalize same : Element.edge (host.freshEdge i) = element at other
    cases other with
    | vertex => cases same
    | @edge j y here' =>
      have := (List.getElem?_eq_some_iff.mp here).1
      have := (List.getElem?_eq_some_iff.mp here').1
      cases Handle.issued_injective (by omega) (by omega) (Element.edge.inj same)
      cases here.symm.trans here'
      rfl

/-- With room for them the created elements are new. -/
theorem HasRoom.creates_new (room : p.HasRoom host) (cons : host.Consistent)
    (created : p.Creates host r element) : ¬ host.contains element = true := by
  cases created with
  | @vertex i r here =>
    have lt := (List.getElem?_eq_some_iff.mp here).1
    have := room.1
    intro member
    obtain ⟨x, stored⟩ := SortedMap.contains_iff.mp member
    have absent := cons.freshVertex_absent (i := i) (by omega)
    rw [vertex?, stored] at absent
    cases absent
  | @edge i e here =>
    have lt := (List.getElem?_eq_some_iff.mp here).1
    have := room.2
    intro member
    obtain ⟨x, stored⟩ := SortedMap.contains_iff.mp member
    have absent := cons.freshEdge_absent (i := i) (by omega)
    rw [edge?, stored] at absent
    cases absent

/-- Creation puts the new elements under their handles, with the attributes that they are
assigned, and leaves those of all other elements. -/
theorem create_attributes {grown : Graph} {known : Created}
    (vertices : p.createVertices ctx g .empty p.rhs.vertexIds = .ok (grown, known))
    (done : p.createEdges ctx known grown p.rhs.edges = .ok result) :
    (∀ r element, p.Creates g r element →
        result.attributes? element = some (p.assigned ctx r .empty)) ∧
      ∀ element, (∀ r, ¬ p.Creates g r element) →
        result.attributes? element = g.attributes? element := by
  obtain ⟨newVertex, oldVertex⟩ := createVertices_vertices vertices
  obtain ⟨-, grownEdges, grownNextEdge, -⟩ := createVertices_counters vertices
  obtain ⟨-, sameVertices, -⟩ := createEdges_counters done
  obtain ⟨newEdge, oldEdge⟩ := createEdges_edges done
  rw [freshEdge_congr grownNextEdge] at newEdge oldEdge
  constructor
  · intro r element created
    cases created with
    | vertex here =>
      rw [attributes?, vertex?, sameVertices, ← vertex?, newVertex _ _ here]
      rfl
    | edge here =>
      obtain ⟨s, t, -, -, stored⟩ := newEdge _ _ here
      rw [attributes?, stored]
      rfl
  · intro element old
    cases element with
    | vertex v =>
      have apart : ∀ i < p.newVertices.length, v ≠ g.freshVertex i := by
        rintro i lt rfl
        exact old _ (.vertex (List.getElem?_eq_getElem lt))
      rw [attributes?, attributes?, vertex?, sameVertices, ← vertex?, oldVertex v apart]
    | edge k =>
      have apart : ∀ i < p.newEdges.length, k ≠ g.freshEdge i := by
        rintro i lt rfl
        exact old _ (.edge (List.getElem?_eq_getElem lt))
      rw [attributes?, attributes?, oldEdge k apart, edge?, grownEdges, ← edge?]

/-! ### Preserved elements -/

/-- The image of a preserved element becomes its partner, and no other element becomes
anything. -/
theorem heir?_eq_some (occurs : m.Occurs p.lhs host) :
    p.heir? m image = some r ↔ ∃ l, (l, r) ∈ p.preservedPairs ∧ m.image? l = some image := by
  rw [heir?, heirIn, Option.map_eq_some_iff]
  constructor
  · rintro ⟨⟨l, r⟩, found, rfl⟩
    have here := List.find?_some found
    exact ⟨l, List.mem_of_find?_eq_some found, by simpa using here⟩
  · rintro ⟨l, paired, here⟩
    obtain ⟨⟨l', r'⟩, found⟩ : ∃ pair,
        p.preservedPairs.find? (fun pair => m.image? pair.1 == some image) = some pair :=
      Option.isSome_iff_exists.mp (List.find?_isSome.mpr ⟨(l, r), paired, by simp [here]⟩)
    have here' : m.image? l' = some image := by simpa using List.find?_some found
    cases occurs.image_injective here here'
    have same := List.inj_on_of_nodup_map preservedPairs_nodup
      (List.mem_of_find?_eq_some found) paired rfl
    cases same
    exact ⟨_, found, rfl⟩

/-- What is left of the host before anything is created. -/
structure Left (p : Production) (host : Graph) (m : Embedding) (preserved : Graph) : Prop where
  vertices : ∀ v, preserved.vertex? v = (host.vertex? v).bind (p.keptVertex ⟨host, m⟩)
  edges : ∀ k, preserved.edge? k = (host.edge? k).bind (p.keptEdge ⟨host, m⟩)

/-- What is left was there before, and only preserved elements get other attributes. -/
theorem Left.attributes (left : p.Left host m g) (cons : host.Consistent) {after : Attributes}
    (stored : g.attributes? element = some after) :
    ∃ before, host.attributes? element = some before ∧
      after = p.revised ⟨host, m⟩ (p.heir? m element) before := by
  cases element with
  | vertex v =>
    rw [attributes?, left.vertices, Option.map_eq_some_iff] at stored
    obtain ⟨y, kept, rfl⟩ := stored
    obtain ⟨x, there, kept⟩ := Option.bind_eq_some_iff.mp kept
    rw [keptVertex] at kept
    split at kept
    · cases kept
    · cases kept
      exact ⟨x.attributes, by rw [attributes?, there]; rfl, by rw [cons.vertex_id there]⟩
  | edge k =>
    rw [attributes?, left.edges, Option.map_eq_some_iff] at stored
    obtain ⟨y, kept, rfl⟩ := stored
    obtain ⟨x, there, kept⟩ := Option.bind_eq_some_iff.mp kept
    rw [keptEdge] at kept
    split at kept
    · cases kept
    · cases kept
      exact ⟨x.attributes, by rw [attributes?, there]; rfl, by rw [cons.edge_id there]⟩

/-- Preserved elements are left. -/
theorem Left.preserves (left : p.Left host m g) (whole : p.WellFormed) (cons : host.Consistent)
    (occurs : m.Occurs p.lhs host) (pair : (l, r) ∈ p.preservedPairs) :
    ∃ image after, m.image? l = some image ∧ g.attributes? image = some after := by
  rcases mem_preservedPairs.mp pair with ⟨v, w, rfl, rfl, paired⟩ | ⟨d, e, rfl, rfl, paired⟩
  · obtain ⟨h, x, image, stored, spared⟩ := whole.spares_vertex occurs paired
    rw [← cons.vertex_id stored] at spared
    obtain ⟨y, kept⟩ : ∃ y, p.keptVertex ⟨host, m⟩ x = some y := ⟨_, if_neg spared⟩
    refine ⟨.vertex h, y.attributes, congrArg (Option.map _) image, ?_⟩
    rw [attributes?, left.vertices, stored, Option.bind_some, kept]
    rfl
  · obtain ⟨k, x, image, stored, spared, source, target⟩ := whole.spares_edge occurs paired
    rw [← cons.edge_id stored] at spared
    obtain ⟨y, kept⟩ : ∃ y, p.keptEdge ⟨host, m⟩ x = some y :=
      ⟨_, if_neg (not_or.mpr ⟨spared, not_or.mpr ⟨source, target⟩⟩)⟩
    refine ⟨.edge k, y.attributes, congrArg (Option.map _) image, ?_⟩
    rw [attributes?, left.edges, stored, Option.bind_some, kept]
    rfl

/-! ### The result -/

/-- Where the attributes of the result come from: a created element has what is settled for it
alone, a preserved one what is settled over its attributes in the host, and any other element
was in the host with the same attributes. -/
structure Settles (p : Production) (host : Graph) (m : Embedding) (result : Graph) : Prop where
  created : ∀ r element, p.Creates host r element → ∃ after,
    result.attributes? element = some after ∧
      ∀ name, after.get? name = p.settled host m r name none
  preserved : ∀ l r, (l, r) ∈ p.preservedPairs → ∃ image before after,
    m.image? l = some image ∧ host.attributes? image = some before ∧
      result.attributes? image = some after ∧
        ∀ name, after.get? name = p.settled host m r name (before.get? name)
  kept : ∀ element after, result.attributes? element = some after →
    (∀ r, ¬ p.Creates host r element) →
    (∀ l r, (l, r) ∈ p.preservedPairs → m.image? l ≠ some element) →
    host.attributes? element = some after

theorem WellFormed.replace_settles (whole : p.WellFormed) (cons : host.Consistent)
    (occurs : m.Occurs p.lhs host) (room : p.HasRoom host)
    (replaced : p.replace host m = .ok result) : p.Settles host m result := by
  obtain ⟨preserved, grown, known, -, nextVertex, nextEdge, vertices, edges, fifth, done⟩ :=
    whole.replace_created cons occurs replaced
  have left : p.Left host m preserved := ⟨vertices, edges⟩
  obtain ⟨new, old⟩ := create_attributes fifth done
  rw [creates_congr nextVertex nextEdge] at new old
  constructor
  case created =>
    intro r element created
    exact ⟨_, new r element created, fun name => assigned_get?⟩
  case preserved =>
    intro l r paired
    obtain ⟨image, after, here, stored⟩ := left.preserves whole cons occurs paired
    obtain ⟨before, there, rfl⟩ := left.attributes cons stored
    have apart : ∀ r', ¬ p.Creates host r' image := fun r' created =>
      room.creates_new cons created (occurs.image_member here)
    refine ⟨image, before, _, here, there, (old image apart).trans stored, fun name => ?_⟩
    rw [(heir?_eq_some occurs).mpr ⟨l, paired, here⟩]
    exact assigned_get?
  case kept =>
    intro element after stored apart off
    rw [old element apart] at stored
    obtain ⟨before, there, rfl⟩ := left.attributes cons stored
    have noHeir : p.heir? m element = none := by
      refine Option.eq_none_iff_forall_ne_some.mpr fun r heir => ?_
      obtain ⟨l, paired, here⟩ := (heir?_eq_some occurs).mp heir
      exact off l r paired here
    rw [there, noHeir]
    rfl

/-- An application that succeeds settles all attributes of its result, and the elements that it
creates were not in the host. -/
theorem apply_attributes {m : Match} (accepted : p.Accepted) (reach : host.Reachable)
    (applied : p.apply host m = .ok result) :
    p.Settles host m.embedding result ∧
      ∀ r element, p.Creates host r element → ¬ host.contains element = true := by
  have cons := reach.consistent
  have room := apply_hasRoom cons applied
  obtain ⟨verified, replaced⟩ := apply_eq_ok.mp applied
  obtain ⟨-, occurs⟩ := (verify_eq_ok cons).mp verified
  exact ⟨accepted.wellFormed.replace_settles cons occurs room replaced,
    fun r element => room.creates_new cons⟩

/-- Exchanges the tags of the ends of an arrow. -/
def exchange : Production :=
  { id := ⟨0⟩, name := "exchange", lhs := .ofGraph .arrow .directed, rhs := .arrow
    correspondence :=
      ⟨⟨.ofList [(⟨0⟩, ⟨0⟩), (⟨1⟩, ⟨1⟩)], .ofList [(⟨0⟩, ⟨0⟩), (⟨1⟩, ⟨1⟩)]⟩,
        ⟨.ofList [(⟨0⟩, ⟨0⟩)], .ofList [(⟨0⟩, ⟨0⟩)]⟩⟩
    rules := [(.vertex ⟨0⟩, "tag", .copy (.vertex ⟨1⟩) "tag"),
      (.vertex ⟨1⟩, "tag", .copy (.vertex ⟨0⟩) "tag")]
    dangling := .reject }

theorem exchange_accepted : exchange.Accepted := by
  let draft : ProductionDraft :=
    { name := "exchange", lhs := .arrow, rhs := .arrow, edgeMode := .directed, dangling := .reject
      vertexPairs := [(⟨0⟩, ⟨0⟩), (⟨1⟩, ⟨1⟩)], edgePairs := [(⟨0⟩, ⟨0⟩)], constraints := []
      rules := exchange.rules }
  have built : draft.build ⟨0⟩ = .ok exchange := rfl
  exact .built arrow_reachable arrow_reachable built

def tag (n : Int64) : Attributes := .ofList [("tag", .int n)]

/-- An arrow with different tags at its ends. -/
def taggedArrow : Graph :=
  [.edit (fun _ => tag 1) (.vertex ⟨0⟩), .edit (fun _ => tag 2) (.vertex ⟨1⟩)].foldl
    (fun g op => (g.perform op).1) .arrow

theorem taggedArrow_reachable : taggedArrow.Reachable := .step _ (.step _ arrow_reachable)

theorem tag_get? (n : Int64) : (tag n).get? "tag" = some (.int n) :=
  SortedMap.get?_insert.trans (if_pos rfl)

/-- The tag of either end is copied from the other, although that one is set as well. -/
theorem exchange_tags : ∃ m result, taggedArrow.Reachable ∧
    exchange.apply taggedArrow m = .ok result ∧
    taggedArrow.attributes? (.vertex ⟨0⟩) = some (tag 1) ∧
    taggedArrow.attributes? (.vertex ⟨1⟩) = some (tag 2) ∧
    (result.attributes? (.vertex ⟨0⟩)).bind (·.get? "tag") = some (.int 2) ∧
    (result.attributes? (.vertex ⟨1⟩)).bind (·.get? "tag") = some (.int 1) := by
  let m : Match := ⟨⟨0⟩, .ofList [(⟨0⟩, ⟨0⟩), (⟨1⟩, ⟨1⟩)], .ofList [(⟨0⟩, ⟨0⟩)]⟩
  obtain ⟨result, applied⟩ : ∃ result, exchange.apply taggedArrow m = .ok result := ⟨_, rfl⟩
  obtain ⟨settles, -⟩ := apply_attributes exchange_accepted taggedArrow_reachable applied
  have copied : ∀ (v w : VertexId) (k : Int64),
      (.vertex v, .vertex v) ∈ exchange.preservedPairs → m.embedding.vertex? v = some v →
      exchange.decisive? (.vertex v) "tag" = some (.copy (.vertex w) "tag") →
      m.embedding.vertex? w = some w → taggedArrow.attributes? (.vertex w) = some (tag k) →
      (result.attributes? (.vertex v)).bind (·.get? "tag") = some (.int k) := by
    intro v w k pair here rule source there
    obtain ⟨image, before, after, imaged, -, stored, values⟩ := settles.preserved _ _ pair
    cases imaged.symm.trans (congrArg (Option.map Element.vertex) here)
    rw [stored, Option.bind_some, values, settled, rule]
    simp [Embedding.image?, source, there, tag_get?]
  exact ⟨m, result, taggedArrow_reachable, applied, rfl, rfl,
    copied ⟨0⟩ ⟨1⟩ 2 (by decide) rfl rfl rfl rfl,
    copied ⟨1⟩ ⟨0⟩ 1 (by decide) rfl rfl rfl rfl⟩

end Production

end GraphTransformation
