import GraphTransformation.Production.Builder
import GraphTransformation.Proofs.History
import GraphTransformation.Proofs.Production.Structure

/-!
Productions that pass their checks.

A correspondence is put together pair by pair, and each insertion keeps its two
directions mutually inverse (`Correspondence.Built.oneToOne`). A production is
accepted when it is made from such a correspondence or built from parts; then
paired elements exist on both sides and a preserved edge runs between partners
(`Production.Accepted.wellFormed`).
-/

namespace GraphTransformation

/-! ### Pairings -/

namespace Pairing

variable {κ : Type} [Ord κ] {p q : Pairing κ} {l r : κ}

/-- The two directions of the pairing are inverse to each other. -/
def OneToOne (p : Pairing κ) : Prop := ∀ l r, p.right? l = some r ↔ p.left? r = some l

theorem empty_oneToOne : (empty : Pairing κ).OneToOne := fun _ _ => ⟨nofun, nofun⟩

variable [Std.TransOrd κ]

/-- What pairing two keys does when neither has a partner. -/
theorem insert?_eq_some : p.insert? l r = some q ↔
    p.right? l = none ∧ p.left? r = none ∧
      q = ⟨p.forward.insert l r, p.backward.insert r l⟩ := by
  rw [insert?, right?, left?, SortedMap.contains, SortedMap.contains]
  cases p.forward.get? l with
  | some _ => simp
  | none =>
    cases p.backward.get? r with
    | some _ => simp
    | none => simp [eq_comm]

variable [Std.LawfulEqOrd κ]

theorem mem_pairs : (l, r) ∈ p.pairs ↔ p.right? l = some r := SortedMap.get?_eq_some_iff.symm

theorem right?_insert? [DecidableEq κ] (inserted : p.insert? l r = some q) {i j : κ} :
    q.right? i = some j ↔ p.right? i = some j ∨ (i = l ∧ j = r) := by
  obtain ⟨free, -, rfl⟩ := insert?_eq_some.mp inserted
  rw [right?, SortedMap.get?_insert]
  by_cases here : i = l
  · subst here
    simp [free, eq_comm]
  · simp [here, right?]

theorem OneToOne.insert? [DecidableEq κ] (inverse : p.OneToOne)
    (inserted : p.insert? l r = some q) : q.OneToOne := by
  obtain ⟨freeLeft, freeRight, rfl⟩ := insert?_eq_some.mp inserted
  intro i j
  rw [right?, left?, SortedMap.get?_insert, SortedMap.get?_insert]
  by_cases atLeft : i = l
  · by_cases atRight : j = r
    · simp [atLeft, atRight]
    · -- `l` had no partner before, so `j` is not its partner now
      have unpaired : p.backward.get? j ≠ some l := fun back => by
        simp [(inverse l j).mpr back] at freeLeft
      simp [atLeft, atRight, Ne.symm atRight, unpaired]
  · by_cases atRight : j = r
    · have unpaired : p.forward.get? i ≠ some r := fun forth => by
        simp [(inverse i r).mp forth] at freeRight
      simp [atLeft, atRight, Ne.symm atLeft, unpaired]
    · simp only [atLeft, atRight, if_false]
      exact inverse i j

end Pairing

/-! ### Correspondences -/

namespace Correspondence

variable {c d : Correspondence} {lhs rhs : Graph}

/-- The correspondences that insertions lead to from the empty one. -/
inductive Built : Correspondence → Prop where
  | empty : Built .empty
  | vertex {c d : Correspondence} {l r : VertexId} :
    Built c → c.insertVertex l r = .ok d → Built d
  | edge {c d : Correspondence} {l r : EdgeId} : Built c → c.insertEdge l r = .ok d → Built d

theorem insertVertex_eq_ok {l r : VertexId} : c.insertVertex l r = .ok d ↔
    ∃ vertices, c.vertices.insert? l r = some vertices ∧ d = { c with vertices } := by
  rw [insertVertex]
  cases c.vertices.insert? l r with
  | none => simp
  | some vertices => simp [eq_comm]

theorem insertEdge_eq_ok {l r : EdgeId} : c.insertEdge l r = .ok d ↔
    ∃ edges, c.edges.insert? l r = some edges ∧ d = { c with edges } := by
  rw [insertEdge]
  cases c.edges.insert? l r with
  | none => simp
  | some edges => simp [eq_comm]

theorem insertVertex_eq_error {l r : VertexId} {cause : Error} :
    c.insertVertex l r = .error cause ↔
      c.vertices.insert? l r = none ∧ cause = .illFormedProduction (.vertexPairClash l r) := by
  rw [insertVertex]
  cases c.vertices.insert? l r with
  | none => simp [eq_comm]
  | some vertices => simp

theorem insertEdge_eq_error {l r : EdgeId} {cause : Error} :
    c.insertEdge l r = .error cause ↔
      c.edges.insert? l r = none ∧ cause = .illFormedProduction (.edgePairClash l r) := by
  rw [insertEdge]
  cases c.edges.insert? l r with
  | none => simp [eq_comm]
  | some edges => simp

theorem Built.oneToOne (built : c.Built) : c.vertices.OneToOne ∧ c.edges.OneToOne := by
  induction built with
  | empty => exact ⟨Pairing.empty_oneToOne, Pairing.empty_oneToOne⟩
  | vertex _ inserted ih =>
    obtain ⟨vertices, paired, rfl⟩ := insertVertex_eq_ok.mp inserted
    exact ⟨ih.1.insert? paired, ih.2⟩
  | edge _ inserted ih =>
    obtain ⟨edges, paired, rfl⟩ := insertEdge_eq_ok.mp inserted
    exact ⟨ih.1, ih.2.insert? paired⟩

theorem Built.insertVertices (built : c.Built) {pairs : List (VertexId × VertexId)}
    (inserted : c.insertVertices pairs = .ok d) : d.Built := by
  induction pairs generalizing c with
  | nil =>
    cases inserted
    exact built
  | cons pair rest ih =>
    obtain ⟨first, one, others⟩ := bind_eq_ok.mp inserted
    exact ih (.vertex built one) others

theorem Built.insertEdges (built : c.Built) {pairs : List (EdgeId × EdgeId)}
    (inserted : c.insertEdges pairs = .ok d) : d.Built := by
  induction pairs generalizing c with
  | nil =>
    cases inserted
    exact built
  | cons pair rest ih =>
    obtain ⟨first, one, others⟩ := bind_eq_ok.mp inserted
    exact ih (.edge built one) others

theorem ofPairs_built {vertices : List (VertexId × VertexId)} {edges : List (EdgeId × EdgeId)}
    (paired : ofPairs vertices edges = .ok c) : c.Built := by
  obtain ⟨withVertices, first, second⟩ := bind_eq_ok.mp paired
  exact (Built.empty.insertVertices first).insertEdges second

theorem vertexFault?_eq_none {l r : VertexId} : vertexFault? lhs rhs l r = none ↔
    lhs.vertexMap.contains l = true ∧ rhs.vertexMap.contains r = true := by
  rw [vertexFault?, SortedMap.contains, SortedMap.contains, ← Graph.vertex?, ← Graph.vertex?]
  cases lhs.vertex? l with
  | none => simp
  | some _ =>
    cases rhs.vertex? r with
    | none => simp
    | some _ => simp

theorem edgeFault?_eq_none {l r : EdgeId} : c.edgeFault? lhs rhs l r = none ↔
    ∃ a b, lhs.edge? l = some a ∧ rhs.edge? r = some b ∧
      c.vertices.right? a.source = some b.source ∧
      c.vertices.right? a.target = some b.target := by
  rw [edgeFault?]
  cases lhs.edge? l with
  | none => simp
  | some a =>
    cases rhs.edge? r with
    | none => simp
    | some b => simp

/-- What the check of a correspondence establishes. -/
theorem validate_eq_ok : c.validate lhs rhs = .ok () ↔
    (∀ l r, c.vertices.right? l = some r →
      lhs.vertexMap.contains l = true ∧ rhs.vertexMap.contains r = true) ∧
    ∀ l r, c.edges.right? l = some r → ∃ a b, lhs.edge? l = some a ∧ rhs.edge? r = some b ∧
      c.vertices.right? a.source = some b.source ∧
      c.vertices.right? a.target = some b.target := by
  have faultless : c.validate lhs rhs = .ok () ↔ c.fault? lhs rhs = none := by
    rw [validate]
    cases c.fault? lhs rhs with
    | none => simp
    | some fault => simp
  rw [faultless, fault?, Option.or_eq_none_iff, List.findSome?_eq_none_iff,
    List.findSome?_eq_none_iff]
  simp only [Prod.forall, Pairing.mem_pairs, vertexFault?_eq_none, edgeFault?_eq_none]

end Correspondence

/-! ### Productions -/

namespace Production

/-- The productions that the checks let through. -/
inductive Accepted : Production → Prop where
  | made {id : ProductionId} {name : String} {lhs : Pattern} {rhs : Graph}
    {c : Correspondence} {dangling : DanglingPolicy} {p : Production} :
    lhs.graph.Reachable → rhs.Reachable → c.Built →
    make id name lhs rhs c dangling = .ok p → Accepted p
  | built {d : ProductionDraft} {id : ProductionId} {p : Production} :
    d.lhs.Reachable → d.rhs.Reachable → d.build id = .ok p → Accepted p

/-- Both sides are consistent, and the correspondence pairs their elements one to one,
the preserved edges along with their ends. -/
structure WellFormed (p : Production) : Prop where
  lhs : p.lhs.graph.Consistent
  rhs : p.rhs.Consistent
  vertices : p.correspondence.vertices.OneToOne
  edges : p.correspondence.edges.OneToOne
  vertexPair : ∀ l r, p.correspondence.vertices.right? l = some r →
    p.lhs.graph.vertexMap.contains l = true ∧ p.rhs.vertexMap.contains r = true
  edgePair : ∀ l r, p.correspondence.edges.right? l = some r →
    ∃ a b, p.lhs.graph.edge? l = some a ∧ p.rhs.edge? r = some b ∧
      p.correspondence.vertices.right? a.source = some b.source ∧
      p.correspondence.vertices.right? a.target = some b.target

variable {p : Production}

theorem make_eq_ok {id : ProductionId} {name : String} {lhs : Pattern} {rhs : Graph}
    {c : Correspondence} {dangling : DanglingPolicy} :
    make id name lhs rhs c dangling = .ok p ↔ c.validate lhs.graph rhs = .ok () ∧
      p = { id, name, lhs, rhs, correspondence := c, rules := [], dangling } := by
  rw [make, bind_eq_ok]
  constructor
  · rintro ⟨_, valid, done⟩
    cases done
    exact ⟨valid, rfl⟩
  · rintro ⟨valid, rfl⟩
    exact ⟨(), valid, rfl⟩

theorem make_wellFormed {id : ProductionId} {name : String} {lhs : Pattern} {rhs : Graph}
    {c : Correspondence} {dangling : DanglingPolicy} (left : lhs.graph.Reachable)
    (right : rhs.Reachable) (built : c.Built) (made : make id name lhs rhs c dangling = .ok p) :
    p.WellFormed := by
  obtain ⟨valid, rfl⟩ := make_eq_ok.mp made
  obtain ⟨vertexPair, edgePair⟩ := Correspondence.validate_eq_ok.mp valid
  obtain ⟨vertices, edges⟩ := built.oneToOne
  exact ⟨left.consistent, right.consistent, vertices, edges, vertexPair, edgePair⟩

/-- Attaching constraints leaves the pattern's graph. -/
theorem attach_graph {entries : List (Element × String × Predicate)} {pattern result : Pattern}
    (attached : ProductionDraft.attach pattern entries = .ok result) :
    result.graph = pattern.graph := by
  induction entries generalizing pattern with
  | nil =>
    cases attached
    rfl
  | cons entry rest ih =>
    obtain ⟨first, one, others⟩ := bind_eq_ok.mp attached
    rw [ih others]
    rw [Pattern.constrain] at one
    split at one
    · cases one
      rfl
    · cases one

theorem Accepted.wellFormed (accepted : p.Accepted) : p.WellFormed := by
  cases accepted with
  | made left right built made => exact make_wellFormed left right built made
  | built left right built =>
    obtain ⟨c, paired, rest⟩ := bind_eq_ok.mp built
    obtain ⟨blank, made, rest⟩ := bind_eq_ok.mp rest
    obtain ⟨lhs, attached, rest⟩ := bind_eq_ok.mp rest
    have whole := make_wellFormed left right (Correspondence.ofPairs_built paired) made
    split at rest
    · cases rest
    · cases rest
      have sameGraph : lhs.graph = blank.lhs.graph := attach_graph attached
      constructor
      case lhs => exact sameGraph ▸ whole.lhs
      case rhs => exact whole.rhs
      case vertices => exact whole.vertices
      case edges => exact whole.edges
      case vertexPair => exact sameGraph ▸ whole.vertexPair
      case edgePair => exact sameGraph ▸ whole.edgePair

theorem regrow_accepted (dangling : DanglingPolicy) : Accepted { regrow with dangling } := by
  have sides : (Pattern.ofGraph .arrow .directed).graph.Reachable := Graph.arrow_reachable
  have built : regrow.correspondence.Built := .vertex (l := ⟨0⟩) (r := ⟨0⟩) .empty rfl
  exact .made sides Graph.arrow_reachable built (make_eq_ok.mpr ⟨rfl, rfl⟩)

end Production

end GraphTransformation
