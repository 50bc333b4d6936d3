import GraphTransformation.Declaration.Graph
import GraphTransformation.Proofs.Graph.Consistency

/-!
Which declared graphs are built, and what their names stand for.

A declaration is well formed when its vertices and edges have different names and the ends of its
edges are named vertices. One table of names is filled while edges already resolve against it;
`Tabled` says what the table and the counters hold after any number of declarations, and one
declaration more keeps it. So exactly the well-formed declarations that words can count are built
(`exists_build_iff`), and all others end over a name or for want of a handle (`build_stopped`).
-/

namespace GraphTransformation

/-- A name cannot be declared, or does not resolve. -/
inductive Error.Naming : Error → Prop where
  | duplicate (name : String) : Error.Naming (.duplicateName name)
  | unknown (fault : NameFault) : Error.Naming (.unknownName fault)

/-! ### Positions in a list -/

theorem getElem?_concat_eq_some {α : Type} {l : List α} {a b : α} {i : Nat} :
    (l ++ [a])[i]? = some b ↔ l[i]? = some b ∨ (i = l.length ∧ b = a) := by
  grind

namespace GraphDeclaration

/-! ### Names -/

variable (d : GraphDeclaration)

def vertexNames : List String := d.vertices.map (·.name)

/-- The names of the edges that have one. -/
def edgeNames : List String := d.edges.filterMap (·.name)

def names : List String := d.vertexNames ++ d.edgeNames

/-- No name is declared twice, and each edge has its ends among the declared vertices. -/
structure WellFormed : Prop where
  distinct : d.names.Nodup
  resolved : ∀ e ∈ d.edges, e.source ∈ d.vertexNames ∧ e.target ∈ d.vertexNames

instance : Decidable d.WellFormed :=
  decidable_of_iff
    (d.names.Nodup ∧ ∀ e ∈ d.edges, e.source ∈ d.vertexNames ∧ e.target ∈ d.vertexNames)
    ⟨fun h => ⟨h.1, h.2⟩, fun h => ⟨h.distinct, h.resolved⟩⟩

/-- A word can count the vertices and the edges, as it can in every list that a memory holds. -/
structure Fits : Prop where
  vertices : d.vertices.length < UInt64.size
  edges : d.edges.length < UInt64.size

instance : Decidable d.Fits :=
  decidable_of_iff (d.vertices.length < UInt64.size ∧ d.edges.length < UInt64.size)
    ⟨fun h => ⟨h.1, h.2⟩, fun h => ⟨h.vertices, h.edges⟩⟩

/-- Why building ends without a graph: over a name, or as words cannot count the elements. -/
inductive StopsWith : Stop → Prop where
  | name {cause : Error} (naming : cause.Naming) : StopsWith (.failed cause)
  | full (unfit : ¬ d.Fits) : StopsWith .overflow

/-- The name is declared for the element whose handle is its position. -/
inductive Declares (name : String) : Element → Prop where
  | vertex {i : Nat} {v : VertexDeclaration} (declared : d.vertices[i]? = some v)
      (named : v.name = name) : Declares name (.vertex ⟨.ofNat i⟩)
  | edge {i : Nat} {e : EdgeDeclaration} (declared : d.edges[i]? = some e)
      (named : e.name = some name) : Declares name (.edge ⟨.ofNat i⟩)

/-- The declaration with more vertices and edges at its end. -/
def extend (vertices : List VertexDeclaration) (edges : List EdgeDeclaration) :
    GraphDeclaration := ⟨d.vertices ++ vertices, d.edges ++ edges⟩

variable {d} {name : String}

theorem mem_vertexNames : name ∈ d.vertexNames ↔ ∃ id, d.Declares name (.vertex id) := by
  rw [vertexNames, List.mem_map]
  constructor
  · rintro ⟨v, mem, named⟩
    obtain ⟨i, declared⟩ := List.mem_iff_getElem?.mp mem
    exact ⟨_, .vertex declared named⟩
  · rintro ⟨_, declared, named⟩
    exact ⟨_, List.mem_of_getElem? declared, named⟩

/-- The declaration of the edge that a name is declared for. -/
theorem mem_edge_of_declares {id : EdgeId} (declares : d.Declares name (.edge id)) :
    ∃ e ∈ d.edges, e.name = some name := by
  rcases declares with _ | ⟨declared, named⟩
  exact ⟨_, List.mem_of_getElem? declared, named⟩

theorem mem_edgeNames : name ∈ d.edgeNames ↔ ∃ id, d.Declares name (.edge id) := by
  rw [edgeNames, List.mem_filterMap]
  constructor
  · rintro ⟨e, mem, named⟩
    obtain ⟨i, declared⟩ := List.mem_iff_getElem?.mp mem
    exact ⟨_, .edge declared named⟩
  · rintro ⟨id, declares⟩
    exact mem_edge_of_declares declares

theorem mem_names : name ∈ d.names ↔ ∃ x, d.Declares name x := by
  rw [names, List.mem_append, mem_vertexNames, mem_edgeNames]
  constructor
  · rintro (⟨id, declares⟩ | ⟨id, declares⟩)
    · exact ⟨_, declares⟩
    · exact ⟨_, declares⟩
  · rintro ⟨id | id, declares⟩
    · exact .inl ⟨id, declares⟩
    · exact .inr ⟨id, declares⟩

/-! ### Longer declarations -/

theorem extend_extend {vs vs' : List VertexDeclaration} {es es' : List EdgeDeclaration} :
    (d.extend vs es).extend vs' es' = d.extend (vs ++ vs') (es ++ es') := by
  simp [extend]

theorem extend_nil : d.extend [] [] = d := by
  simp [extend]

theorem empty_extend : (empty.extend d.vertices []).extend [] d.edges = d := by
  simp [extend, empty]

theorem Fits.of_extend {vs : List VertexDeclaration} {es : List EdgeDeclaration}
    (fits : (d.extend vs es).Fits) : d.Fits := by
  obtain ⟨vertices, edges⟩ := fits
  simp only [extend, List.length_append] at vertices edges
  exact ⟨by omega, by omega⟩

/-- More elements are not easier to count. -/
theorem StopsWith.extend {s : Stop} (stops : d.StopsWith s) {vs : List VertexDeclaration}
    {es : List EdgeDeclaration} : (d.extend vs es).StopsWith s := by
  cases stops with
  | name naming => exact .name naming
  | full unfit => exact .full fun fits => unfit fits.of_extend

theorem names_extend {vs : List VertexDeclaration} {es : List EdgeDeclaration} :
    (d.extend vs es).names.Perm (vs.map (·.name) ++ es.filterMap (·.name) ++ d.names) := by
  simp only [names, vertexNames, edgeNames, extend, List.map_append, List.filterMap_append]
  grind

theorem names_extend_edge {e : EdgeDeclaration} :
    (d.extend [] [e]).names.Perm (e.name.toList ++ d.names) := by
  have perm : (d.extend [] [e]).names.Perm _ := names_extend
  cases named : e.name with
  | none => simpa [named] using perm
  | some name => simpa [named] using perm

theorem declares_extend_vertex {v : VertexDeclaration} {x : Element} :
    (d.extend [v] []).Declares name x ↔
      d.Declares name x ∨ (name = v.name ∧ x = .vertex ⟨.ofNat d.vertices.length⟩) := by
  constructor
  · rintro (⟨declared, named⟩ | ⟨declared, named⟩)
    · rcases getElem?_concat_eq_some.mp declared with old | ⟨rfl, rfl⟩
      · exact .inl (.vertex old named)
      · exact .inr ⟨named.symm, rfl⟩
    · exact .inl (.edge (by simpa [extend] using declared) named)
  · rintro ((⟨declared, named⟩ | ⟨declared, named⟩) | ⟨rfl, rfl⟩)
    · exact .vertex (getElem?_concat_eq_some.mpr (.inl declared)) named
    · exact .edge (by simpa [extend] using declared) named
    · exact .vertex (getElem?_concat_eq_some.mpr (.inr ⟨rfl, rfl⟩)) rfl

theorem declares_extend_edge {e : EdgeDeclaration} {x : Element} :
    (d.extend [] [e]).Declares name x ↔
      d.Declares name x ∨ (e.name = some name ∧ x = .edge ⟨.ofNat d.edges.length⟩) := by
  constructor
  · rintro (⟨declared, named⟩ | ⟨declared, named⟩)
    · exact .inl (.vertex (by simpa [extend] using declared) named)
    · rcases getElem?_concat_eq_some.mp declared with old | ⟨rfl, rfl⟩
      · exact .inl (.edge old named)
      · exact .inr ⟨named, rfl⟩
  · rintro ((⟨declared, named⟩ | ⟨declared, named⟩) | ⟨named, rfl⟩)
    · exact .vertex (by simpa [extend] using declared) named
    · exact .edge (getElem?_concat_eq_some.mpr (.inl declared)) named
    · exact .edge (getElem?_concat_eq_some.mpr (.inr ⟨rfl, rfl⟩)) named

end GraphDeclaration

namespace NamedGraph

variable {n m : NamedGraph} {name : String} {x : Element} {cause : Error} {s : Stop}

/-! ### Lookups -/

theorem element_eq_ok : n.element name = .ok x ↔ n.names.get? name = some x := by
  rw [element]
  cases n.names.get? name with
  | none => simp
  | some y => simp

theorem element_error (failed : n.element name = .error cause) : cause.Naming := by
  rw [element] at failed
  split at failed
  · cases failed
  · cases failed
    exact .unknown _

theorem vertex_eq_ok {id : VertexId} :
    n.vertex name = .ok id ↔ n.names.get? name = some (.vertex id) := by
  rw [← element_eq_ok, vertex]
  split <;> simp [*]

theorem vertex_error (failed : n.vertex name = .error cause) : cause.Naming := by
  rw [vertex] at failed
  split at failed
  · cases failed
  · cases failed
    exact .unknown _
  · rename_i unresolved
    cases failed
    exact element_error unresolved

theorem edge_eq_ok {id : EdgeId} :
    n.edge name = .ok id ↔ n.names.get? name = some (.edge id) := by
  rw [← element_eq_ok, edge]
  split <;> simp [*]

/-! ### One declaration -/

theorem declare_eq_ok :
    n.declare name x = .ok m ↔
      n.names.get? name = none ∧ m = { n with names := n.names.insert name x } := by
  rw [declare]
  split
  · rename_i taken
    obtain ⟨y, found⟩ := SortedMap.contains_iff.mp taken
    simp [found]
  · rename_i free
    simp [SortedMap.get?_eq_none_of_not_contains free, eq_comm]

theorem declare_error (failed : n.declare name x = .error cause) : cause.Naming := by
  rw [declare] at failed
  split at failed
  · cases failed
    exact .duplicate name
  · cases failed

theorem addVertex_eq_ok {v : VertexDeclaration} :
    n.addVertex v = .ok m ↔
      ∃ graph, n.graph.addVertex v.attributes = .ok (⟨n.graph.nextVertex⟩, graph) ∧
        n.names.get? v.name = none ∧
        m = ⟨graph, n.names.insert v.name (.vertex ⟨n.graph.nextVertex⟩)⟩ := by
  rw [addVertex, bind_eq_ok]
  constructor
  · rintro ⟨⟨id, graph⟩, added, named⟩
    obtain ⟨-, rfl, -⟩ := Graph.addVertex_eq_ok.mp added
    exact ⟨graph, added, declare_eq_ok.mp (liftM_eq_ok.mp named)⟩
  · rintro ⟨graph, added, named⟩
    exact ⟨_, added, liftM_eq_ok.mpr (declare_eq_ok.mpr named)⟩

/-- Declaring a vertex ends over its name or for want of a handle. -/
theorem addVertex_stopped {v : VertexDeclaration} (stopped : n.addVertex v = .error s) :
    (∃ cause, s = .failed cause ∧ cause.Naming) ∨
      s = .overflow ∧ ¬ n.graph.nextVertex.toNat + 1 < UInt64.size := by
  obtain full | ⟨⟨id, graph⟩, -, stopped⟩ := bind_eq_error.mp stopped
  · exact .inr (Graph.addVertex_eq_error.mp full)
  · obtain ⟨cause, taken, rfl⟩ := liftM_eq_error.mp stopped
    exact .inl ⟨cause, rfl, declare_error taken⟩

/-- The names when an edge is declared after them. -/
def namesWith (n : NamedGraph) (e : EdgeDeclaration) : SortedMap String Element :=
  match e.name with
  | some name => n.names.insert name (.edge ⟨n.graph.nextEdge⟩)
  | none => n.names

theorem get?_namesWith {e : EdgeDeclaration} :
    (n.namesWith e).get? name =
      if e.name = some name then some (.edge ⟨n.graph.nextEdge⟩) else n.names.get? name := by
  rw [namesWith]
  split
  · rename_i own named
    rw [SortedMap.get?_insert, named]
    simp [eq_comm]
  · rename_i unnamed
    simp [unnamed]

/-- What declaring an edge does once the edge has been added. -/
theorem nameEdge_eq_ok {e : EdgeDeclaration} {graph : Graph} :
    (match e.name with
      | some name => NamedGraph.declare { n with graph } name (.edge ⟨n.graph.nextEdge⟩)
      | none => return { n with graph } : Except Stop NamedGraph) = .ok m ↔
      (∀ name, e.name = some name → n.names.get? name = none) ∧ m = ⟨graph, n.namesWith e⟩ := by
  rw [namesWith]
  split
  · rename_i name named
    simp [liftM_eq_ok, declare_eq_ok, named]
  · rename_i unnamed
    simp [unnamed, pure, Except.pure, eq_comm]

theorem addEdge_eq_ok {e : EdgeDeclaration} :
    n.addEdge e = .ok m ↔
      ∃ source target graph, n.vertex e.source = .ok source ∧ n.vertex e.target = .ok target ∧
        n.graph.addEdge source target e.attributes = .ok (⟨n.graph.nextEdge⟩, graph) ∧
        (∀ name, e.name = some name → n.names.get? name = none) ∧
        m = ⟨graph, n.namesWith e⟩ := by
  constructor
  · intro done
    obtain ⟨source, start, done⟩ := bind_eq_ok.mp done
    obtain ⟨target, finish, done⟩ := bind_eq_ok.mp done
    obtain ⟨⟨id, graph⟩, added, done⟩ := bind_eq_ok.mp done
    obtain ⟨-, -, -, rfl, -⟩ := Graph.addEdge_eq_ok.mp added
    exact ⟨source, target, graph, liftM_eq_ok.mp start, liftM_eq_ok.mp finish, added,
      nameEdge_eq_ok.mp done⟩
  · rintro ⟨source, target, graph, start, finish, added, named⟩
    refine bind_eq_ok.mpr ⟨source, liftM_eq_ok.mpr start, ?_⟩
    refine bind_eq_ok.mpr ⟨target, liftM_eq_ok.mpr finish, ?_⟩
    exact bind_eq_ok.mpr ⟨_, added, nameEdge_eq_ok.mpr named⟩

/-- A name for an end that does not stand for a vertex. -/
theorem liftM_vertex_stopped
    (stopped : (liftM (n.vertex name) : Except Stop VertexId) = .error s) :
    ∃ cause, s = .failed cause ∧ cause.Naming := by
  obtain ⟨cause, unresolved, rfl⟩ := liftM_eq_error.mp stopped
  exact ⟨cause, rfl, vertex_error unresolved⟩

/-- Declaring an edge ends over a name or for want of a handle, unless a named end is not in the
graph. -/
theorem addEdge_stopped {e : EdgeDeclaration} (stopped : n.addEdge e = .error s)
    (members : ∀ {name id}, n.vertex name = .ok id → n.graph.vertexMap.contains id = true) :
    (∃ cause, s = .failed cause ∧ cause.Naming) ∨
      s = .overflow ∧ ¬ n.graph.nextEdge.toNat + 1 < UInt64.size := by
  obtain unresolved | ⟨source, start, stopped⟩ := bind_eq_error.mp stopped
  · exact .inl (liftM_vertex_stopped unresolved)
  obtain unresolved | ⟨target, finish, stopped⟩ := bind_eq_error.mp stopped
  · exact .inl (liftM_vertex_stopped unresolved)
  have sourceMem := members (liftM_eq_ok.mp start)
  have targetMem := members (liftM_eq_ok.mp finish)
  obtain early | ⟨⟨id, graph⟩, -, stopped⟩ := bind_eq_error.mp stopped
  · -- both ends are members, so the addition itself has only the counter to stop for
    cases s with
    | failed cause => exact absurd early (Graph.addEdge_not_failed sourceMem targetMem)
    | overflow => exact .inr ⟨rfl, (Graph.addEdge_overflow.mp early).2.2⟩
  · revert stopped
    dsimp only
    split
    · intro stopped
      obtain ⟨cause, taken, rfl⟩ := liftM_eq_error.mp stopped
      exact .inl ⟨cause, rfl, declare_error taken⟩
    · exact fun impossible => nomatch impossible

end NamedGraph

/-! ### The table of names -/

/-- What the names and the counters hold when the elements of `d` have been declared. -/
structure Tabled (d : GraphDeclaration) (n : NamedGraph) : Prop where
  wellFormed : d.WellFormed
  table : ∀ {name x}, n.names.get? name = some x ↔ d.Declares name x
  members : ∀ {name id}, d.Declares name (.vertex id) → n.graph.vertexMap.contains id = true
  nextVertex : n.graph.nextVertex.toNat = d.vertices.length
  nextEdge : n.graph.nextEdge.toNat = d.edges.length

namespace Tabled

variable {d : GraphDeclaration} {n m : NamedGraph} {name : String} {s : Stop}

theorem empty : Tabled .empty .empty where
  wellFormed := by decide
  table := by
    intro name x
    refine ⟨fun found => by simp [NamedGraph.empty] at found, ?_⟩
    rintro (⟨declared, -⟩ | ⟨declared, -⟩)
    · simp [GraphDeclaration.empty] at declared
    · simp [GraphDeclaration.empty] at declared
  members := by
    rintro name id ⟨declared, -⟩
    simp [GraphDeclaration.empty] at declared
  nextVertex := rfl
  nextEdge := rfl

/-- What the counters have counted, words can count. -/
theorem fits (h : Tabled d n) : d.Fits :=
  ⟨h.nextVertex ▸ UInt64.toNat_lt_size _, h.nextEdge ▸ UInt64.toNat_lt_size _⟩

/-- The next vertex has its position as its handle. -/
theorem word_vertex (h : Tabled d n) : UInt64.ofNat d.vertices.length = n.graph.nextVertex := by
  rw [← h.nextVertex, UInt64.ofNat_toNat]

theorem word_edge (h : Tabled d n) : UInt64.ofNat d.edges.length = n.graph.nextEdge := by
  rw [← h.nextEdge, UInt64.ofNat_toNat]

theorem mem_vertexNames (h : Tabled d n) :
    name ∈ d.vertexNames ↔ ∃ id, n.names.get? name = some (.vertex id) := by
  simp only [GraphDeclaration.mem_vertexNames, h.table]

theorem mem_edgeNames (h : Tabled d n) :
    name ∈ d.edgeNames ↔ ∃ id, n.names.get? name = some (.edge id) := by
  simp only [GraphDeclaration.mem_edgeNames, h.table]

theorem mem_names (h : Tabled d n) : name ∈ d.names ↔ ∃ x, n.names.get? name = some x := by
  simp only [GraphDeclaration.mem_names, h.table]

theorem free_iff (h : Tabled d n) : n.names.get? name = none ↔ name ∉ d.names := by
  rw [h.mem_names, Option.eq_none_iff_forall_ne_some]
  simp only [ne_eq, not_exists]

theorem vertex_eq_ok (h : Tabled d n) {id : VertexId} :
    n.vertex name = .ok id ↔ d.Declares name (.vertex id) :=
  NamedGraph.vertex_eq_ok.trans h.table

theorem addVertex (h : Tabled d n) {v : VertexDeclaration} (added : n.addVertex v = .ok m) :
    Tabled (d.extend [v] []) m := by
  obtain ⟨graph, inner, free, rfl⟩ := NamedGraph.addVertex_eq_ok.mp added
  obtain ⟨room, -, rfl⟩ := Graph.addVertex_eq_ok.mp inner
  have new : v.name ∉ d.names := h.free_iff.mp free
  have distinct : (v.name :: d.names).Nodup := List.nodup_cons.mpr ⟨new, h.wellFormed.distinct⟩
  refine ⟨⟨GraphDeclaration.names_extend.nodup_iff.mpr distinct, fun e mem => ?_⟩, ?_, ?_, ?_, ?_⟩
  · have declared : e ∈ d.edges := by simpa [GraphDeclaration.extend] using mem
    obtain ⟨source, target⟩ := h.wellFormed.resolved e declared
    simp only [GraphDeclaration.mem_vertexNames, GraphDeclaration.declares_extend_vertex] at *
    exact ⟨source.imp fun _ => .inl, target.imp fun _ => .inl⟩
  · intro name x
    rw [SortedMap.get?_insert, GraphDeclaration.declares_extend_vertex, ← h.table, h.word_vertex]
    by_cases here : name = v.name
    · rw [if_pos here, here, free]
      simp [eq_comm]
    · simp [here]
  · intro name id declares
    refine SortedMap.contains_insert.mpr ?_
    rcases GraphDeclaration.declares_extend_vertex.mp declares with old | ⟨-, same⟩
    · exact .inr (h.members old)
    · cases same
      exact .inl (by rw [h.word_vertex])
  · simp [Graph.toNat_succ room, h.nextVertex, GraphDeclaration.extend]
  · simpa [Graph.insertVertex, GraphDeclaration.extend] using h.nextEdge

theorem addEdge (h : Tabled d n) {e : EdgeDeclaration} (added : n.addEdge e = .ok m) :
    Tabled (d.extend [] [e]) m := by
  obtain ⟨source, target, graph, start, finish, inner, free, rfl⟩ :=
    NamedGraph.addEdge_eq_ok.mp added
  obtain ⟨-, -, room, -, rfl⟩ := Graph.addEdge_eq_ok.mp inner
  have distinct : (e.name.toList ++ d.names).Nodup := by
    cases named : e.name with
    | none => exact h.wellFormed.distinct
    | some name =>
      exact List.nodup_cons.mpr ⟨h.free_iff.mp (free name named), h.wellFormed.distinct⟩
  refine ⟨⟨GraphDeclaration.names_extend_edge.nodup_iff.mpr distinct, ?_⟩, ?_, ?_, ?_, ?_⟩
  · -- the ends of earlier edges are still named, and those of the new one have just resolved
    intro other mem
    simp only [GraphDeclaration.mem_vertexNames, GraphDeclaration.declares_extend_edge]
    rcases List.mem_append.mp mem with old | last
    · obtain ⟨source, target⟩ := h.wellFormed.resolved other old
      simp only [GraphDeclaration.mem_vertexNames] at source target
      exact ⟨source.imp fun _ => .inl, target.imp fun _ => .inl⟩
    · cases List.mem_singleton.mp last
      exact ⟨⟨source, .inl (h.vertex_eq_ok.mp start)⟩, ⟨target, .inl (h.vertex_eq_ok.mp finish)⟩⟩
  · intro name x
    rw [NamedGraph.get?_namesWith, GraphDeclaration.declares_extend_edge, ← h.table, h.word_edge]
    by_cases own : e.name = some name
    · rw [if_pos own, free name own]
      simp [own, eq_comm]
    · simp [own]
  · intro name id declares
    rcases GraphDeclaration.declares_extend_edge.mp declares with old | ⟨-, impossible⟩
    · exact h.members old
    · cases impossible
  · simpa [Graph.insertEdge, GraphDeclaration.extend] using h.nextVertex
  · simp [Graph.toNat_succ room, h.nextEdge, GraphDeclaration.extend]

/-- A vertex is declared unless its name is taken or no handle is left. -/
theorem addVertex_total (h : Tabled d n) {v : VertexDeclaration} (new : v.name ∉ d.names)
    (fits : (d.extend [v] []).Fits) : ∃ m, n.addVertex v = .ok m := by
  have room : n.graph.nextVertex.toNat + 1 < UInt64.size := by
    rw [h.nextVertex]
    simpa [GraphDeclaration.extend] using fits.vertices
  exact ⟨_, NamedGraph.addVertex_eq_ok.mpr
    ⟨_, Graph.addVertex_eq_ok.mpr ⟨room, rfl, rfl⟩, h.free_iff.mpr new, rfl⟩⟩

/-- An edge is declared unless its name is taken, an end of it is not a vertex or no handle is
left. -/
theorem addEdge_total (h : Tabled d n) {e : EdgeDeclaration}
    (new : ∀ name, e.name = some name → name ∉ d.names) (source : e.source ∈ d.vertexNames)
    (target : e.target ∈ d.vertexNames) (fits : (d.extend [] [e]).Fits) :
    ∃ m, n.addEdge e = .ok m := by
  obtain ⟨a, start⟩ := GraphDeclaration.mem_vertexNames.mp source
  obtain ⟨b, finish⟩ := GraphDeclaration.mem_vertexNames.mp target
  have room : n.graph.nextEdge.toNat + 1 < UInt64.size := by
    rw [h.nextEdge]
    simpa [GraphDeclaration.extend] using fits.edges
  have added : n.graph.addEdge a b e.attributes = .ok _ :=
    Graph.addEdge_eq_ok.mpr ⟨h.members start, h.members finish, room, rfl, rfl⟩
  exact ⟨_, NamedGraph.addEdge_eq_ok.mpr ⟨a, b, _, h.vertex_eq_ok.mpr start,
    h.vertex_eq_ok.mpr finish, added, fun name own => h.free_iff.mpr (new name own), rfl⟩⟩

theorem addVertex_stopped (h : Tabled d n) {v : VertexDeclaration}
    (stopped : n.addVertex v = .error s) : (d.extend [v] []).StopsWith s := by
  obtain ⟨cause, rfl, naming⟩ | ⟨rfl, full⟩ := NamedGraph.addVertex_stopped stopped
  · exact .name naming
  · refine .full fun fits => full ?_
    rw [h.nextVertex]
    simpa [GraphDeclaration.extend] using fits.vertices

theorem addEdge_stopped (h : Tabled d n) {e : EdgeDeclaration}
    (stopped : n.addEdge e = .error s) : (d.extend [] [e]).StopsWith s := by
  obtain ⟨cause, rfl, naming⟩ | ⟨rfl, full⟩ :=
    NamedGraph.addEdge_stopped stopped fun resolved => h.members (h.vertex_eq_ok.mp resolved)
  · exact .name naming
  · refine .full fun fits => full ?_
    rw [h.nextEdge]
    simpa [GraphDeclaration.extend] using fits.edges

/-! ### All declarations -/

theorem addVertices (h : Tabled d n) {vs : List VertexDeclaration}
    (added : n.addVertices vs = .ok m) : Tabled (d.extend vs []) m := by
  induction vs generalizing d n with
  | nil =>
    cases added
    exact GraphDeclaration.extend_nil.symm ▸ h
  | cons v rest ih =>
    obtain ⟨k, first, others⟩ := bind_eq_ok.mp added
    have done := ih (h.addVertex first) others
    rwa [GraphDeclaration.extend_extend] at done

theorem addEdges (h : Tabled d n) {es : List EdgeDeclaration}
    (added : n.addEdges es = .ok m) : Tabled (d.extend [] es) m := by
  induction es generalizing d n with
  | nil =>
    cases added
    exact GraphDeclaration.extend_nil.symm ▸ h
  | cons e rest ih =>
    obtain ⟨k, first, others⟩ := bind_eq_ok.mp added
    have done := ih (h.addEdge first) others
    rwa [GraphDeclaration.extend_extend] at done

theorem addVertices_total (h : Tabled d n) {vs : List VertexDeclaration}
    (distinct : (d.extend vs []).names.Nodup) (fits : (d.extend vs []).Fits) :
    ∃ m, n.addVertices vs = .ok m := by
  induction vs generalizing d n with
  | nil => exact ⟨n, rfl⟩
  | cons v rest ih =>
    have apart := List.nodup_cons.mp (GraphDeclaration.names_extend.nodup_iff.mp distinct)
    have split : (d.extend [v] []).extend rest [] = d.extend (v :: rest) [] :=
      GraphDeclaration.extend_extend
    rw [← split] at distinct fits
    obtain ⟨k, first⟩ := h.addVertex_total (fun taken => apart.1 (List.mem_append_right _ taken))
      fits.of_extend
    obtain ⟨m, others⟩ := ih (h.addVertex first) distinct fits
    exact ⟨m, bind_eq_ok.mpr ⟨k, first, others⟩⟩

theorem addEdges_total (h : Tabled d n) {es : List EdgeDeclaration}
    (wellFormed : (d.extend [] es).WellFormed) (fits : (d.extend [] es).Fits) :
    ∃ m, n.addEdges es = .ok m := by
  induction es generalizing d n with
  | nil => exact ⟨n, rfl⟩
  | cons e rest ih =>
    have new : ∀ name, e.name = some name → name ∉ d.names := by
      intro name own taken
      have apart := GraphDeclaration.names_extend.nodup_iff.mp wellFormed.distinct
      simp [own, taken] at apart
    obtain ⟨source, target⟩ := wellFormed.resolved e (by simp [GraphDeclaration.extend])
    have same : (d.extend [] (e :: rest)).vertexNames = d.vertexNames := by
      simp [GraphDeclaration.extend, GraphDeclaration.vertexNames]
    have split : (d.extend [] [e]).extend [] rest = d.extend [] (e :: rest) :=
      GraphDeclaration.extend_extend
    rw [← split] at wellFormed fits
    obtain ⟨k, first⟩ := h.addEdge_total new (same ▸ source) (same ▸ target) fits.of_extend
    obtain ⟨m, others⟩ := ih (h.addEdge first) wellFormed fits
    exact ⟨m, bind_eq_ok.mpr ⟨k, first, others⟩⟩

theorem addVertices_stopped (h : Tabled d n) {vs : List VertexDeclaration}
    (stopped : n.addVertices vs = .error s) : (d.extend vs []).StopsWith s := by
  induction vs generalizing d n with
  | nil => cases stopped
  | cons v rest ih =>
    have split : (d.extend [v] []).extend rest [] = d.extend (v :: rest) [] :=
      GraphDeclaration.extend_extend
    obtain early | ⟨k, first, later⟩ := bind_eq_error.mp stopped
    · exact split ▸ (h.addVertex_stopped early).extend
    · exact split ▸ ih (h.addVertex first) later

theorem addEdges_stopped (h : Tabled d n) {es : List EdgeDeclaration}
    (stopped : n.addEdges es = .error s) : (d.extend [] es).StopsWith s := by
  induction es generalizing d n with
  | nil => cases stopped
  | cons e rest ih =>
    have split : (d.extend [] [e]).extend [] rest = d.extend [] (e :: rest) :=
      GraphDeclaration.extend_extend
    obtain early | ⟨k, first, later⟩ := bind_eq_error.mp stopped
    · exact split ▸ (h.addEdge_stopped early).extend
    · exact split ▸ ih (h.addEdge first) later

end Tabled

namespace GraphDeclaration

variable {d : GraphDeclaration} {n m : NamedGraph}

theorem build_tabled (built : d.build = .ok n) : Tabled d n := by
  obtain ⟨k, vertices, edges⟩ := bind_eq_ok.mp built
  have done := (Tabled.empty.addVertices vertices).addEdges edges
  rwa [empty_extend] at done

theorem WellFormed.build (wellFormed : d.WellFormed) (fits : d.Fits) :
    ∃ n, d.build = .ok n := by
  have distinct : (empty.extend d.vertices []).names.Nodup := by
    have early := (List.nodup_append.mp wellFormed.distinct).1
    simpa [extend, empty, names, vertexNames, edgeNames] using early
  have whole : (empty.extend d.vertices []).extend [] d.edges = d := empty_extend
  rw [← whole] at wellFormed fits
  obtain ⟨k, vertices⟩ := Tabled.empty.addVertices_total distinct fits.of_extend
  obtain ⟨n, edges⟩ := (Tabled.empty.addVertices vertices).addEdges_total wellFormed fits
  exact ⟨n, bind_eq_ok.mpr ⟨k, vertices, edges⟩⟩

/-- Exactly the well-formed declarations that words can count are built. -/
theorem exists_build_iff : (∃ n, d.build = .ok n) ↔ d.WellFormed ∧ d.Fits :=
  ⟨fun ⟨_, built⟩ => ⟨(build_tabled built).wellFormed, (build_tabled built).fits⟩,
    fun ⟨wellFormed, fits⟩ => wellFormed.build fits⟩

/-- Building ends over a name, or as words cannot count the elements. -/
theorem build_stopped {s : Stop} (stopped : d.build = .error s) : d.StopsWith s := by
  have whole : (empty.extend d.vertices []).extend [] d.edges = d := empty_extend
  obtain early | ⟨k, vertices, late⟩ := bind_eq_error.mp stopped
  · exact whole ▸ (Tabled.empty.addVertices_stopped early).extend
  · exact whole ▸ (Tabled.empty.addVertices vertices).addEdges_stopped late

end GraphDeclaration

end GraphTransformation
