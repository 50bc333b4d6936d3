import GraphTransformation.Proofs.Graph.Restriction
import GraphTransformation.Proofs.Production.Reoccurrence
import GraphTransformation.Proofs.Production.Revalidation
import GraphTransformation.Proofs.Search.Verification

/-!
The part of a host that a match covers.

The images of an occurrence are closed: each edge among them ends at images of vertices. So they
can be taken out of the host, and there are as many as the pattern has elements. What occurs in
some part of a host is what occurs in the host with all its images in the part
(`Part.occurs_iff`), so a match is one of the part that it covers, and the part has no matches that
the host has not. Nothing is said about how the search goes about it: it has other candidates and
degrees in the part, and finds what occurs there all the same.
-/

namespace GraphTransformation

/-! ### The images of an occurrence -/

namespace Embedding

variable {pattern : Pattern} {host : Graph} {m : Embedding}

theorem Occurs.closed (occurs : m.Occurs pattern host) :
    host.Closed m.hostVertices m.hostEdges := by
  constructor
  · intro v listed
    obtain ⟨p, image⟩ := mem_hostVertices.mp listed
    obtain ⟨x, stored, -⟩ := occurs.vertex_admitted image
    exact ⟨x, stored⟩
  · intro id listed
    obtain ⟨p, image⟩ := mem_hostEdges.mp listed
    obtain ⟨a, x, s, t, -, stored, source, target, joins⟩ := occurs.edge_joins image
    have sourceListed : s ∈ m.hostVertices := mem_hostVertices.mpr ⟨_, source⟩
    have targetListed : t ∈ m.hostVertices := mem_hostVertices.mpr ⟨_, target⟩
    rcases joins with ⟨rfl, rfl⟩ | ⟨-, rfl, rfl⟩
    · exact ⟨x, stored, sourceListed, targetListed⟩
    · exact ⟨x, stored, targetListed, sourceListed⟩

theorem Occurs.length_hostVertices (occurs : m.Occurs pattern host) :
    m.hostVertices.length = pattern.graph.vertexCount := by
  have size : m.vertexMap.size = pattern.graph.vertexIds.length :=
    SortedMap.size_eq_length (SortedMap.keys_nodup _) occurs.vertices
  rw [hostVertices, SortedMap.values, List.length_map]
  exact size.trans Graph.length_vertexIds

theorem Occurs.length_hostEdges (occurs : m.Occurs pattern host) :
    m.hostEdges.length = pattern.graph.edgeCount := by
  have size : m.edgeMap.size = pattern.graph.edgeIds.length :=
    SortedMap.size_eq_length (SortedMap.keys_nodup _) occurs.edges
  rw [hostEdges, SortedMap.values, List.length_map]
  exact size.trans (List.length_map _)

end Embedding

/-! ### Occurrences in a part -/

namespace Graph

variable {host part : Graph} {pattern : Pattern} {m : Embedding} {vertices : List VertexId}
  {edges : List EdgeId}

theorem Part.vertex_listed (covered : host.Part vertices edges part) {v : VertexId} {x : Vertex}
    (member : part.vertex? v = some x) : v ∈ vertices := by
  by_contra unlisted
  rw [covered.vertex, if_neg unlisted] at member
  cases member

theorem Part.edge_listed (covered : host.Part vertices edges part) {id : EdgeId} {e : Edge}
    (member : part.edge? id = some e) : id ∈ edges := by
  by_contra unlisted
  rw [covered.edge, if_neg unlisted] at member
  cases member

theorem Part.agree (covered : host.Part vertices edges part)
    (inVertices : m.hostVertices ⊆ vertices) (inEdges : m.hostEdges ⊆ edges) :
    m.Agree host part where
  vertex v image := by rw [covered.vertex, if_pos (inVertices image)]
  edge id image := by rw [covered.edge, if_pos (inEdges image)]

/-- What occurs in a part is what occurs in the host with all its images in the part. -/
theorem Part.occurs_iff (covered : host.Part vertices edges part) :
    m.Occurs pattern part ↔
      m.Occurs pattern host ∧ m.hostVertices ⊆ vertices ∧ m.hostEdges ⊆ edges := by
  constructor
  · intro occurs
    have inVertices : m.hostVertices ⊆ vertices := by
      intro v image
      obtain ⟨x, stored⟩ := occurs.closed.vertex v image
      exact covered.vertex_listed stored
    have inEdges : m.hostEdges ⊆ edges := by
      intro id image
      obtain ⟨e, stored, -⟩ := occurs.closed.edge id image
      exact covered.edge_listed stored
    exact ⟨occurs.transfer (covered.agree inVertices inEdges).symm, inVertices, inEdges⟩
  · rintro ⟨occurs, inVertices, inEdges⟩
    exact occurs.transfer (covered.agree inVertices inEdges)

/-! ### The part that an occurrence covers -/

variable (occurs : m.Occurs pattern host) (covered : host.Part m.hostVertices m.hostEdges part)

include occurs covered

theorem Part.covered_vertex {v : VertexId} :
    part.vertexMap.contains v = true ↔ v ∈ m.hostVertices := by
  rw [SortedMap.contains_iff, ← vertex?]
  constructor
  · rintro ⟨x, stored⟩
    exact covered.vertex_listed stored
  · intro image
    rw [covered.vertex, if_pos image]
    exact occurs.closed.vertex v image

theorem Part.covered_edge {id : EdgeId} :
    part.edgeMap.contains id = true ↔ id ∈ m.hostEdges := by
  rw [SortedMap.contains_iff, ← edge?]
  constructor
  · rintro ⟨e, stored⟩
    exact covered.edge_listed stored
  · intro image
    obtain ⟨e, stored, -⟩ := occurs.closed.edge id image
    rw [covered.edge, if_pos image]
    exact ⟨e, stored⟩

theorem Part.covered_image {element : Element} :
    part.contains element = true ↔ ∃ own, m.image? own = some element := by
  cases element with
  | vertex v =>
    rw [contains, covered.covered_vertex occurs, Embedding.mem_hostVertices]
    constructor
    · rintro ⟨p, image⟩
      exact ⟨.vertex p, by rw [Embedding.image?, image, Option.map_some]⟩
    · rintro ⟨p | p, image⟩
      · exact ⟨p, by simpa [Embedding.image?] using image⟩
      · simp [Embedding.image?] at image
  | edge id =>
    rw [contains, covered.covered_edge occurs, Embedding.mem_hostEdges]
    constructor
    · rintro ⟨p, image⟩
      exact ⟨.edge p, by rw [Embedding.image?, image, Option.map_some]⟩
    · rintro ⟨p | p, image⟩
      · simp [Embedding.image?] at image
      · exact ⟨p, by simpa [Embedding.image?] using image⟩

/-- As no two pattern elements share an image, the part has as many elements as the pattern. -/
theorem Part.covered_counts : part.vertexCount = pattern.graph.vertexCount ∧
    part.edgeCount = pattern.graph.edgeCount := by
  have distinctVertices : m.hostVertices.Nodup :=
    SortedMap.values_nodup_iff.mpr occurs.vertex_injective
  have distinctEdges : m.hostEdges.Nodup := SortedMap.values_nodup_iff.mpr occurs.edge_injective
  constructor
  · rw [← occurs.length_hostVertices]
    exact SortedMap.size_eq_length distinctVertices fun _ => covered.covered_vertex occurs
  · rw [← occurs.length_hostEdges]
    exact SortedMap.size_eq_length distinctEdges fun _ => covered.covered_edge occurs

end Graph

/-! ### Matches in what they cover -/

namespace Production

variable {p : Production} {host : Graph} {m : Match}

/-- What a match covers can be taken out of the host, and is the images of the pattern elements
and as many as there are of these. The match is accepted and found there again, and whatever is
found there is accepted and found in the host. -/
theorem covered_refound (accepted : p.Accepted) (reach : host.Reachable) (found : p.Finds host m) :
    ∃ part, m.subgraph host = .ok part ∧
      host.Part m.embedding.hostVertices m.embedding.hostEdges part ∧
      (∀ element, part.contains element = true ↔ ∃ own, m.embedding.image? own = some element) ∧
      part.vertexCount = p.lhs.graph.vertexCount ∧ part.edgeCount = p.lhs.graph.edgeCount ∧
      p.verify part m = .ok () ∧
      (∀ matcher : Matcher, matcher.Lawful → m ∈ p.findMatches part matcher) ∧
      ∀ other, p.Finds part other → p.verify host other = .ok () ∧
        ∀ matcher : Matcher, matcher.Lawful → other ∈ p.findMatches host matcher := by
  have lhs := accepted.wellFormed.lhs
  have cons := reach.consistent
  obtain ⟨own, occurs⟩ := found.occurs lhs cons
  obtain ⟨part, taken⟩ := cons.subgraph_isOk.mpr occurs.closed
  have covered := cons.subgraph_part taken
  have kept := cons.subgraph taken
  obtain ⟨vertexCount, edgeCount⟩ := covered.covered_counts occurs
  have inside : m.embedding.Occurs p.lhs part :=
    covered.occurs_iff.mpr ⟨occurs, List.Subset.refl _, List.Subset.refl _⟩
  refine ⟨part, taken, covered, fun _ => covered.covered_image occurs, vertexCount, edgeCount,
    (verify_eq_ok kept).mpr ⟨own, inside⟩,
    fun matcher lawful => (lawful.mem_findMatches lhs kept).mpr ⟨own, inside⟩,
    fun other again => ?_⟩
  obtain ⟨ownOther, insideOther⟩ := again.occurs lhs kept
  obtain ⟨outside, -⟩ := covered.occurs_iff.mp insideOther
  exact ⟨(verify_eq_ok cons).mpr ⟨ownOther, outside⟩,
    fun matcher lawful => (lawful.mem_findMatches lhs cons).mpr ⟨ownOther, outside⟩⟩

/-- The edge back of the knot, taken for an arrow turned around, is covered without the loop and
the other edge between its ends; the arrow the other way round is found there as well. -/
theorem knot_covered : ∃ m turned part,
    regrowTagged.Finds .knot m ∧ m.subgraph .knot = .ok part ∧ part.edgeIds = [⟨2⟩] ∧
      part.degree ⟨0⟩ = 1 ∧ Graph.knot.degree ⟨0⟩ = 4 ∧
      m ∈ regrowTagged.findMatches part .parallel ∧
      regrowTagged.Finds part turned ∧ turned ≠ m ∧
      turned ∈ regrowTagged.findMatches .knot .backtracking := by
  let m : Match := ⟨⟨0⟩, .ofList [(⟨0⟩, ⟨0⟩), (⟨1⟩, ⟨1⟩)], .ofList [(⟨0⟩, ⟨2⟩)]⟩
  let turned : Match := ⟨⟨0⟩, .ofList [(⟨0⟩, ⟨1⟩), (⟨1⟩, ⟨0⟩)], .ofList [(⟨0⟩, ⟨2⟩)]⟩
  obtain ⟨part, taken⟩ : ∃ part, m.subgraph .knot = .ok part := ⟨_, rfl⟩
  have edges : part.edgeIds = [⟨2⟩] ∧ part.degree ⟨0⟩ = 1 := by
    cases taken
    exact ⟨rfl, rfl⟩
  have inside : turned ∈ regrowTagged.findMatches part .backtracking := by
    cases taken
    decide
  have sequential := Strategy.lawful .backtracking
  have found : regrowTagged.Finds .knot m := .all sequential (by decide)
  have foundInside : regrowTagged.Finds part turned := .all sequential inside
  obtain ⟨_, taken', -, -, -, -, -, again, others⟩ :=
    covered_refound regrowTagged_accepted Graph.knot_reachable found
  cases taken.symm.trans taken'
  exact ⟨m, turned, part, found, taken, edges.1, edges.2, rfl, again _ (Strategy.lawful .parallel),
    foundInside, by decide, (others _ foundInside).2 _ sequential⟩

end Production

end GraphTransformation
