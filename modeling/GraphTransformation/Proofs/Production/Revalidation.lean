import GraphTransformation.Proofs.Descent
import GraphTransformation.Proofs.Production.Effect
import GraphTransformation.Proofs.Search.Lawful

/-!
Matches that are verified again later.

A match may be kept while the graph it was found in goes on. Its images are then the same
elements as before or are gone, so it fits the later graph as soon as they are there and admitted
(`verify_descends`), and nothing else can be wrong with it.
-/

namespace GraphTransformation

/-- Whether an edge joins two vertices depends on its ends alone. -/
theorem Edge.Joins.congr {mode : EdgeMode} {x y : Edge} {s t : VertexId} (same : y.ends = x.ends)
    (joins : x.Joins mode s t) : y.Joins mode s t := by
  obtain ⟨source, target⟩ := Prod.mk.inj same
  rw [Edge.Joins, source, target]
  exact joins

namespace Embedding

variable {pattern : Pattern} {host next : Graph} {m : Embedding} {fault : MatchFault}

/-- All images are members of the host with attributes that their pattern elements admit. -/
structure Upheld (m : Embedding) (pattern : Pattern) (host : Graph) : Prop where
  vertex : ∀ p v, m.vertex? p = some v →
    ∃ x, host.vertex? v = some x ∧ pattern.admits (.vertex p) x.attributes = true
  edge : ∀ p e, m.edge? p = some e →
    ∃ x, host.edge? e = some x ∧ pattern.admits (.edge p) x.attributes = true

/-- The fault is that an image is gone, or that its attributes are not admitted. -/
def Lapsed (m : Embedding) (pattern : Pattern) (host : Graph) : MatchFault → Prop
  | .missingVertex v => v ∈ m.hostVertices ∧ host.vertex? v = none
  | .refusedVertex v p => m.vertex? p = some v ∧
      ∃ x, host.vertex? v = some x ∧ pattern.admits (.vertex p) x.attributes = false
  | .missingEdge e => e ∈ m.hostEdges ∧ host.edge? e = none
  | .refusedEdge e p => m.edge? p = some e ∧
      ∃ x, host.edge? e = some x ∧ pattern.admits (.edge p) x.attributes = false
  | _ => False

/-- Each image of an edge that is still there joins the images of its ends. -/
def Joined (m : Embedding) (pattern : Pattern) (host : Graph) : Prop :=
  ∀ p e x, m.edge? p = some e → host.edge? e = some x → ∃ a s t,
    pattern.graph.edge? p = some a ∧ m.vertex? a.source = some s ∧ m.vertex? a.target = some t ∧
      x.Joins pattern.edgeMode s t

/-- The images of edges that are left of an occurrence join what they joined. -/
theorem Occurs.joined (occurs : m.Occurs pattern host) (follows : host.Follows next) :
    m.Joined pattern next := by
  intro p e y image after
  obtain ⟨a, x, s, t, inPattern, before, source, target, joins⟩ := occurs.edge_joins image
  exact ⟨a, s, t, inPattern, source, target, joins.congr (follows.ends before after)⟩

theorem Occurs.upheld (occurs : m.Occurs pattern host) : m.Upheld pattern host :=
  ⟨fun _ _ => occurs.vertex_admitted, fun _ _ => occurs.edge_admitted⟩

/-- An occurrence is one again as soon as all of its images are there. -/
theorem Occurs.follow (occurs : m.Occurs pattern host) (follows : host.Follows next)
    (upheld : m.Upheld pattern next) : m.Occurs pattern next where
  vertices := occurs.vertices
  edges := occurs.edges
  vertex_injective := occurs.vertex_injective
  edge_injective := occurs.edge_injective
  vertex_admitted := upheld.vertex _ _
  edge_admitted := upheld.edge _ _
  edge_joins {p e} image := by
    obtain ⟨x, stored, -⟩ := upheld.edge p e image
    obtain ⟨a, s, t, inPattern, source, target, joins⟩ :=
      occurs.joined follows p e x image stored
    exact ⟨a, x, s, t, inPattern, stored, source, target, joins⟩

theorem vertexFault?_lapsed {p v : VertexId} (image : m.vertex? p = some v)
    (found : vertexFault? pattern host p v = some fault) : m.Lapsed pattern host fault := by
  rw [vertexFault?] at found
  split at found
  · rename_i missing
    cases found
    exact ⟨mem_hostVertices.mpr ⟨p, image⟩, missing⟩
  · rename_i x stored
    split at found
    · cases found
    · rename_i refused
      cases found
      exact ⟨image, x, stored, Bool.eq_false_iff.mpr refused⟩

theorem edgeFault?_lapsed (cons : host.Consistent) (joined : m.Joined pattern host) {p e : EdgeId}
    (image : m.edge? p = some e) (found : m.edgeFault? pattern host p e = some fault) :
    m.Lapsed pattern host fault := by
  rw [edgeFault?] at found
  split at found
  · rename_i missing
    cases found
    exact ⟨mem_hostEdges.mpr ⟨p, image⟩, missing⟩
  · rename_i x stored
    split at found
    · obtain ⟨a, s, t, inPattern, source, target, joins⟩ := joined p e x image stored
      have between : e ∈ host.edgesBetween s t pattern.edgeMode :=
        cons.mem_edgesBetween.mpr ⟨x, stored, joins⟩
      simp [inPattern, source, target, between] at found
    · rename_i refused
      cases found
      exact ⟨image, x, stored, Bool.eq_false_iff.mpr refused⟩

/-- What is left of an occurrence has no other faults than images that have lapsed. -/
theorem Occurs.fault_lapsed (occurs : m.Occurs pattern host) (cons : next.Consistent)
    (follows : host.Follows next) (found : m.fault? pattern next = some fault) :
    m.Lapsed pattern next fault := by
  have covers : m.covers pattern = true := covers_iff.mpr ⟨occurs.vertices, occurs.edges⟩
  have injective : m.injective = true :=
    injective_iff.mpr ⟨occurs.vertex_injective, occurs.edge_injective⟩
  rw [fault?, covers, injective, Bool.not_true, if_neg Bool.false_ne_true,
    if_neg Bool.false_ne_true, Option.or_eq_some_iff] at found
  rcases found with inVertices | ⟨-, inEdges⟩
  · obtain ⟨⟨p, v⟩, pair, faulty⟩ := List.exists_of_findSome?_eq_some inVertices
    exact vertexFault?_lapsed (SortedMap.get?_of_mem_toList pair) faulty
  · obtain ⟨⟨p, e⟩, pair, faulty⟩ := List.exists_of_findSome?_eq_some inEdges
    exact edgeFault?_lapsed cons (occurs.joined follows) (SortedMap.get?_of_mem_toList pair) faulty

end Embedding

namespace Production

variable {p : Production} {g h : Graph} {m : Match}

/-- The production finds the match in the graph, by any lawful matcher and before any
deadline. -/
inductive Finds (p : Production) (g : Graph) (m : Match) : Prop where
  | all {matcher : Matcher} : matcher.Lawful → m ∈ p.findMatches g matcher → Finds p g m
  | within {matcher : Matcher} {deadline : Nat → Deadline} {found : List Match} :
    matcher.Lawful → p.findMatchesWithin g matcher deadline = some found → m ∈ found → Finds p g m

theorem Finds.occurs (found : p.Finds g m) (lhs : p.lhs.graph.Consistent) (cons : g.Consistent) :
    m.production = p.id ∧ m.embedding.Occurs p.lhs g := by
  cases found with
  | all lawful mem => exact (lawful.mem_findMatches lhs cons).mp mem
  | within lawful outcome mem => exact lawful.findMatchesWithin_occurs lhs cons outcome mem

/-- A match that was found in a graph is accepted in what the graph has become exactly if all its
images are still there and admitted. Otherwise the failure names an image that is not, as each
edge that is still there joins the images of its ends. -/
theorem verify_descends (accepted : p.Accepted) (reach : g.Reachable) (found : p.Finds g m)
    (line : g.Descends h) :
    (p.verify h m = .ok () ↔ m.embedding.Upheld p.lhs h) ∧
      (∀ cause, p.verify h m = .error cause →
        ∃ fault, cause = .invalidMatch fault ∧ m.embedding.Lapsed p.lhs h fault) ∧
      m.embedding.Joined p.lhs h := by
  have cons := (line.reachable reach).consistent
  have follows := line.follows reach
  obtain ⟨own, occurs⟩ := found.occurs accepted.wellFormed.lhs reach.consistent
  refine ⟨?_, ?_, occurs.joined follows⟩
  · rw [verify_eq_ok cons, and_iff_right own]
    exact ⟨Embedding.Occurs.upheld, occurs.follow follows⟩
  · intro cause failed
    rw [verify, if_pos own, Embedding.verify] at failed
    split at failed
    · cases failed
    · rename_i fault faulty
      cases failed
      exact ⟨fault, rfl, occurs.fault_lapsed cons follows faulty⟩

/-- The arrow's match outlives an edge beside it, and lapses with the edge it covers. -/
theorem regrow_match_lapses : ∃ m beside without,
    regrow.Finds .arrow m ∧ Graph.arrow.Descends beside ∧ Graph.arrow.Descends without ∧
      m.embedding.Upheld regrow.lhs beside ∧
      regrow.verify without m = .error (.invalidMatch (.missingEdge ⟨0⟩)) ∧
      m.embedding.Lapsed regrow.lhs without (.missingEdge ⟨0⟩) := by
  let m : Match := ⟨⟨0⟩, .ofList [(⟨0⟩, ⟨0⟩), (⟨1⟩, ⟨1⟩)], .ofList [(⟨0⟩, ⟨0⟩)]⟩
  have listed : m ∈ regrow.findMatches .arrow .backtracking := by decide
  have found : regrow.Finds .arrow m := .all (Strategy.lawful .backtracking) listed
  have accepted : regrow.Accepted := regrow_accepted .reject
  have beside : Graph.arrow.Descends (Graph.arrow.perform (.addEdge ⟨1⟩ ⟨0⟩ .empty)).1 :=
    .step _ .refl
  have without : Graph.arrow.Descends (Graph.arrow.perform (.removeEdge ⟨0⟩)).1 :=
    .step _ .refl
  obtain ⟨accepts, -, -⟩ := verify_descends accepted Graph.arrow_reachable found beside
  obtain ⟨-, refuses, -⟩ := verify_descends accepted Graph.arrow_reachable found without
  obtain ⟨fault, same, lapsed⟩ := refuses (.invalidMatch (.missingEdge ⟨0⟩)) rfl
  cases same
  exact ⟨m, _, _, found, beside, without, accepts.mp rfl, rfl, lapsed⟩

end Production

end GraphTransformation
