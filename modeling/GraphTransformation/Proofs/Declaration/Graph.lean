import GraphTransformation.Proofs.Declaration.Names

/-!
The elements of a declared graph.

Vertices and edges are given handles in the order of their declaration, edges without a name as
well, so a position is a handle: what has been counted, words can count. `Listed` says that a graph
has just the declared elements in this way; each declaration keeps it, and it holds of what is
built (`build_listed`).
-/

namespace GraphTransformation

/-! ### Positions in a list and in a word -/

theorem getElem?_concat_of_ne {α : Type} {l : List α} {a : α} {i : Nat} (other : i ≠ l.length) :
    (l ++ [a])[i]? = l[i]? := by
  grind

/-- As long as a word can count it, a position is the word's number. -/
theorem word_eq_ofNat_iff {w : UInt64} {i : Nat} (small : i < UInt64.size) :
    w = .ofNat i ↔ w.toNat = i := by
  have number : (UInt64.ofNat i).toNat = i := by
    rw [UInt64.toNat_ofNat', Nat.mod_eq_of_lt small]
  rw [← UInt64.toNat_inj, number]

theorem ofNat_inj {i j : Nat} (left : i < UInt64.size) (right : j < UInt64.size)
    (same : UInt64.ofNat i = .ofNat j) : i = j :=
  ((word_eq_ofNat_iff left).mp rfl).symm.trans ((word_eq_ofNat_iff right).mp same)

namespace GraphDeclaration

variable {d : GraphDeclaration} {n m : NamedGraph}

/-! ### Elements in the order of their declaration -/

theorem Fits.vertex_lt (fits : d.Fits) {i : Nat} {v : VertexDeclaration}
    (declared : d.vertices[i]? = some v) : i < UInt64.size :=
  Nat.lt_trans (List.getElem?_eq_some_iff.mp declared).1 fits.vertices

theorem Fits.edge_lt (fits : d.Fits) {i : Nat} {e : EdgeDeclaration}
    (declared : d.edges[i]? = some e) : i < UInt64.size :=
  Nat.lt_trans (List.getElem?_eq_some_iff.mp declared).1 fits.edges

/-- The edge has the attributes of its declaration, and the vertices named there as its ends. -/
structure Outlines (d : GraphDeclaration) (e : EdgeDeclaration) (x : Edge) : Prop where
  source : d.Declares e.source (.vertex x.source)
  target : d.Declares e.target (.vertex x.target)
  attributes : x.attributes = e.attributes

theorem outlines_extend_edge {e e' : EdgeDeclaration} {x : Edge} :
    (d.extend [] [e']).Outlines e x ↔ d.Outlines e x := by
  constructor
  · rintro ⟨source, target, attributes⟩
    rw [declares_extend_edge] at source target
    exact ⟨source.resolve_right (by simp), target.resolve_right (by simp), attributes⟩
  · rintro ⟨source, target, attributes⟩
    exact ⟨declares_extend_edge.mpr (.inl source), declares_extend_edge.mpr (.inl target),
      attributes⟩

/-- A declaration outlines one edge under a handle, as no name stands for two vertices. -/
theorem Outlines.unique {e : EdgeDeclaration} {x y : Edge} (one : d.Outlines e x)
    (tabled : Tabled d n) (two : d.Outlines e y) (same : x.id = y.id) : x = y := by
  have meet : ∀ {name : String} {a b : VertexId}, d.Declares name (.vertex a) →
      d.Declares name (.vertex b) → a = b := by
    intro name a b first second
    have found := tabled.vertex_eq_ok.mpr first
    rw [tabled.vertex_eq_ok.mpr second] at found
    exact (Except.ok.inj found).symm
  obtain ⟨id, source, target, attributes⟩ := x
  obtain ⟨id', source', target', attributes'⟩ := y
  cases same
  cases meet one.source two.source
  cases meet one.target two.target
  cases one.attributes.trans two.attributes.symm
  rfl

/-- The elements of the graph are those that are declared, each with its position as its
handle. -/
structure Listed (d : GraphDeclaration) (g : Graph) : Prop where
  vertex : ∀ w, g.vertex? ⟨w⟩ = d.vertices[w.toNat]?.map fun v => ⟨⟨w⟩, v.attributes⟩
  edge : ∀ {w x}, g.edge? ⟨w⟩ = some x ↔
    x.id = ⟨w⟩ ∧ ∃ e, d.edges[w.toNat]? = some e ∧ d.Outlines e x

namespace Listed

theorem empty : Listed .empty .empty where
  vertex w := by simp [Graph.empty, Graph.vertex?, GraphDeclaration.empty]
  edge := by simp [Graph.empty, Graph.edge?, GraphDeclaration.empty]

theorem addVertex (listed : Listed d n.graph) (tabled : Tabled d n) (edgeless : d.edges = [])
    {v : VertexDeclaration} (added : n.addVertex v = .ok m) :
    Listed (d.extend [v] []) m.graph := by
  obtain ⟨graph, inner, -, rfl⟩ := NamedGraph.addVertex_eq_ok.mp added
  obtain ⟨-, -, rfl⟩ := Graph.addVertex_eq_ok.mp inner
  refine ⟨fun w => ?_, fun {w x} => ?_⟩
  · have last : w = n.graph.nextVertex ↔ w.toNat = d.vertices.length := by
      rw [← tabled.nextVertex, UInt64.toNat_inj]
    rw [Graph.vertex?, Graph.insertVertex, SortedMap.get?_insert]
    by_cases here : w.toNat = d.vertices.length
    · rw [last.mpr here, if_pos rfl]
      simp [extend, ← last.mpr here, here]
    · rw [if_neg fun same => here (last.mp (congrArg Handle.word same))]
      rw [extend, getElem?_concat_of_ne here]
      exact listed.vertex w
  · -- all vertices are declared before the first edge, so no edge is stored yet
    have none : n.graph.edge? ⟨w⟩ ≠ some x := by
      intro stored
      obtain ⟨-, e, declared, -⟩ := listed.edge.mp stored
      simp [edgeless] at declared
    change n.graph.edge? ⟨w⟩ = some x ↔ _
    simp [none, extend, edgeless]

theorem addEdge (listed : Listed d n.graph) (tabled : Tabled d n)
    {e : EdgeDeclaration} (added : n.addEdge e = .ok m) : Listed (d.extend [] [e]) m.graph := by
  obtain ⟨source, target, graph, start, finish, inner, -, rfl⟩ :=
    NamedGraph.addEdge_eq_ok.mp added
  obtain ⟨-, -, -, -, rfl⟩ := Graph.addEdge_eq_ok.mp inner
  refine ⟨fun w => ?_, fun {w x} => ?_⟩
  · rw [extend, List.append_nil]
    exact listed.vertex w
  · have last : w = n.graph.nextEdge ↔ w.toNat = d.edges.length := by
      rw [← tabled.nextEdge, UInt64.toNat_inj]
    simp only [outlines_extend_edge]
    rw [Graph.edge?, Graph.insertEdge, SortedMap.get?_insert]
    by_cases here : w.toNat = d.edges.length
    · have declared : (d.extend [] [e]).edges[w.toNat]? = some e :=
        getElem?_concat_eq_some.mpr (.inr ⟨here, rfl⟩)
      have ends : d.Outlines e ⟨⟨w⟩, source, target, e.attributes⟩ :=
        ⟨tabled.vertex_eq_ok.mp start, tabled.vertex_eq_ok.mp finish, rfl⟩
      rw [last.mpr here, if_pos rfl, ← last.mpr here, declared, Option.some.injEq]
      constructor
      · rintro rfl
        exact ⟨rfl, e, rfl, ends⟩
      · rintro ⟨own, other, same, outlined⟩
        cases same
        exact ends.unique tabled outlined own.symm
    · rw [if_neg fun same => here (last.mp (congrArg Handle.word same)), extend,
        getElem?_concat_of_ne here]
      exact listed.edge

theorem addVertices (listed : Listed d n.graph) (tabled : Tabled d n) (edgeless : d.edges = [])
    {vs : List VertexDeclaration} (added : n.addVertices vs = .ok m) :
    Listed (d.extend vs []) m.graph := by
  induction vs generalizing d n with
  | nil =>
    cases added
    exact extend_nil.symm ▸ listed
  | cons v rest ih =>
    obtain ⟨k, first, others⟩ := bind_eq_ok.mp added
    have done := ih (listed.addVertex tabled edgeless first) (tabled.addVertex first)
      (by simp [extend, edgeless]) others
    rwa [extend_extend] at done

theorem addEdges (listed : Listed d n.graph) (tabled : Tabled d n) {es : List EdgeDeclaration}
    (added : n.addEdges es = .ok m) : Listed (d.extend [] es) m.graph := by
  induction es generalizing d n with
  | nil =>
    cases added
    exact extend_nil.symm ▸ listed
  | cons e rest ih =>
    obtain ⟨k, first, others⟩ := bind_eq_ok.mp added
    have done := ih (listed.addEdge tabled first) (tabled.addEdge first) others
    rwa [extend_extend] at done

end Listed

theorem build_listed (built : d.build = .ok n) : Listed d n.graph := by
  obtain ⟨k, vertices, edges⟩ := bind_eq_ok.mp built
  have half := Listed.empty.addVertices .empty rfl vertices
  have done := half.addEdges (Tabled.empty.addVertices vertices) edges
  rwa [empty_extend] at done

/-! ### Named elements -/

/-- Where words can count the elements, no two names stand for one element. -/
theorem Declares.unique (fits : d.Fits) {name other : String} {x : Element}
    (one : d.Declares name x) (two : d.Declares other x) : name = other := by
  generalize same : x = y at two
  rcases one with ⟨declared, named⟩ | ⟨declared, named⟩
  · rcases two with ⟨declared', named'⟩ | _
    · have words := congrArg Handle.word (Element.vertex.inj same)
      cases ofNat_inj (fits.vertex_lt declared) (fits.vertex_lt declared') words
      cases declared.symm.trans declared'
      exact named.symm.trans named'
    · cases same
  · rcases two with _ | ⟨declared', named'⟩
    · cases same
    · have words := congrArg Handle.word (Element.edge.inj same)
      cases ofNat_inj (fits.edge_lt declared) (fits.edge_lt declared') words
      cases declared.symm.trans declared'
      exact Option.some.inj (named.symm.trans named')

/-- No two names stand for one element of what is built. -/
theorem build_single (built : d.build = .ok n) {name other : String} {x : Element}
    (one : n.names.get? name = some x) (two : n.names.get? other = some x) : name = other := by
  have tabled := build_tabled built
  rw [tabled.table] at one two
  exact one.unique tabled.fits two

/-- An edge that has a name is in the graph under the handle that the name stands for. -/
theorem build_edge (built : d.build = .ok n) {e : EdgeDeclaration}
    (mem : e ∈ d.edges) {name : String} (named : e.name = some name) :
    ∃ x, n.names.get? name = some (.edge x.id) ∧ n.graph.edge? x.id = some x ∧
      d.Outlines e x := by
  have tabled := build_tabled built
  obtain ⟨i, declared⟩ := List.mem_iff_getElem?.mp mem
  obtain ⟨source, target⟩ := tabled.wellFormed.resolved e mem
  obtain ⟨a, source⟩ := mem_vertexNames.mp source
  obtain ⟨b, target⟩ := mem_vertexNames.mp target
  have position : (UInt64.ofNat i).toNat = i :=
    (word_eq_ofNat_iff (tabled.fits.edge_lt declared)).mp rfl
  refine ⟨⟨⟨.ofNat i⟩, a, b, e.attributes⟩, tabled.table.mpr (.edge declared named), ?_,
    source, target, rfl⟩
  exact (build_listed built).edge.mpr ⟨rfl, e, position.symm ▸ declared, source, target, rfl⟩

/-- The declaration of the edge that a name stands for. -/
theorem build_named_edge (built : d.build = .ok n) {name : String} {id : EdgeId}
    (found : n.names.get? name = some (.edge id)) :
    ∃ e ∈ d.edges, e.name = some name ∧ ∃ x, n.graph.edge? id = some x ∧ d.Outlines e x := by
  obtain ⟨e, mem, named⟩ := mem_edge_of_declares ((build_tabled built).table.mp found)
  obtain ⟨x, stands, stored, outlines⟩ := build_edge built mem named
  rw [found] at stands
  cases stands
  exact ⟨e, mem, named, x, stored, outlines⟩

/-- What a name stands for is in the graph. -/
theorem build_contains (built : d.build = .ok n) {name : String} {x : Element}
    (found : n.names.get? name = some x) : n.graph.contains x = true := by
  cases x with
  | vertex id =>
    have tabled := build_tabled built
    exact tabled.members (tabled.table.mp found)
  | edge id =>
    obtain ⟨e, -, -, x, stored, -⟩ := build_named_edge built found
    exact SortedMap.contains_of_get? stored

/-! ### What is built -/

/-- A declaration that words can count is built exactly if its names are distinct and its edges
have their ends among its vertices, and if it fails, a name is why; one that words cannot count is
never built, and only then does building end for want of a handle. What is built has the declared
names and no others, each for the element declared with it, and the declared elements and no
others, each under its position. -/
theorem build_exact (d : GraphDeclaration) :
    ((∃ n, d.build = .ok n) ↔ d.WellFormed ∧ d.Fits) ∧
      (∀ cause, d.build = .error (.failed cause) → cause.Naming) ∧
      (d.build = .error .overflow → ¬ d.Fits) ∧
      ∀ n, d.build = .ok n →
        (∀ name x, n.element name = .ok x ↔ d.Declares name x) ∧
        (∀ name id, n.vertex name = .ok id ↔ d.Declares name (.vertex id)) ∧
        (∀ name id, n.edge name = .ok id ↔ d.Declares name (.edge id)) ∧
        d.Listed n.graph ∧ n.graph.nextVertex.toNat = d.vertices.length ∧
          n.graph.nextEdge.toNat = d.edges.length := by
  refine ⟨exists_build_iff, fun cause failed => ?_, fun stopped => ?_, fun n built => ?_⟩
  · cases build_stopped failed with
    | name naming => exact naming
  · cases build_stopped stopped with
    | full unfit => exact unfit
  have tabled := build_tabled built
  exact ⟨fun name x => NamedGraph.element_eq_ok.trans tabled.table,
    fun name id => tabled.vertex_eq_ok,
    fun name id => NamedGraph.edge_eq_ok.trans tabled.table,
    build_listed built, tabled.nextVertex, tabled.nextEdge⟩

/-- An edge with a name, a loop without one, and an edge back with a name. -/
def loopedPair : GraphDeclaration where
  vertices := [⟨"a", .empty⟩, ⟨"b", .empty⟩]
  edges := [⟨some "ab", "a", "b", .empty⟩, ⟨none, "b", "b", .empty⟩, ⟨some "ba", "b", "a", .empty⟩]

/-- The edge back is the third, though the second has no name; were it called as a vertex is,
nothing would be built. -/
theorem loopedPair_build :
    (∃ n, loopedPair.build = .ok n ∧ n.edge "ba" = .ok ⟨2⟩ ∧
        n.graph.edge? ⟨2⟩ = some ⟨⟨2⟩, ⟨1⟩, ⟨0⟩, .empty⟩ ∧ n.graph.edge? ⟨3⟩ = none ∧
        n.graph.nextEdge.toNat = 3) ∧
      ¬ ∃ n, (loopedPair.extend [] [⟨some "a", "a", "b", .empty⟩]).build = .ok n := by
  obtain ⟨builds, -, -, facts⟩ := build_exact loopedPair
  obtain ⟨n, built⟩ := builds.mpr (by decide)
  obtain ⟨-, -, edge, listed, -, count⟩ := facts n built
  refine ⟨⟨n, built, (edge "ba" ⟨2⟩).mpr (.edge (i := 2) rfl rfl), ?_, ?_, count⟩, ?_⟩
  · have source : loopedPair.Declares "b" (.vertex ⟨1⟩) := .vertex (i := 1) rfl rfl
    have target : loopedPair.Declares "a" (.vertex ⟨0⟩) := .vertex (i := 0) rfl rfl
    exact listed.edge.mpr ⟨rfl, _, rfl, source, target, rfl⟩
  · refine Option.eq_none_iff_forall_ne_some.mpr fun x stored => ?_
    obtain ⟨-, e, declared, -⟩ := listed.edge.mp stored
    cases declared
  · rw [(build_exact _).1]
    decide

end GraphDeclaration

end GraphTransformation
