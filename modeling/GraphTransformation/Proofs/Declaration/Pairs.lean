import GraphTransformation.Declaration.Grammar
import GraphTransformation.Proofs.Declaration.Names

/-!
Preserved elements by name and by handle.

The pairs of names that a declaration preserves come apart into pairs of vertices and pairs of
edges, if each pair names two elements of one kind (`Splits`). A pair of handles is listed exactly
if its names are, and as a name stands for one element and an element has one name, a name is
paired twice exactly if an element is.
-/

namespace GraphTransformation

namespace ProductionDeclaration

/-! ### Pairs of names -/

/-- The pairs of names stand for these pairs of vertices and pairs of edges, each in their order. -/
inductive Splits (lhs rhs : NamedGraph) :
    List (String × String) → List (VertexId × VertexId) → List (EdgeId × EdgeId) → Prop where
  | nil : Splits lhs rhs [] [] []
  | vertex {l r : String} {a b : VertexId} {names : List (String × String)}
    {vertices : List (VertexId × VertexId)} {edges : List (EdgeId × EdgeId)}
    (left : lhs.names.get? l = some (.vertex a)) (right : rhs.names.get? r = some (.vertex b))
    (rest : Splits lhs rhs names vertices edges) :
    Splits lhs rhs ((l, r) :: names) ((a, b) :: vertices) edges
  | edge {l r : String} {a b : EdgeId} {names : List (String × String)}
    {vertices : List (VertexId × VertexId)} {edges : List (EdgeId × EdgeId)}
    (left : lhs.names.get? l = some (.edge a)) (right : rhs.names.get? r = some (.edge b))
    (rest : Splits lhs rhs names vertices edges) :
    Splits lhs rhs ((l, r) :: names) vertices ((a, b) :: edges)

/-- The names of the pair stand for elements of one kind. -/
def Alike (lhs rhs : NamedGraph) (pair : String × String) : Prop :=
  (∃ a b, lhs.names.get? pair.1 = some (.vertex a) ∧ rhs.names.get? pair.2 = some (.vertex b)) ∨
    ∃ a b, lhs.names.get? pair.1 = some (.edge a) ∧ rhs.names.get? pair.2 = some (.edge b)

variable {lhs rhs : NamedGraph} {names : List (String × String)}
  {vertices : List (VertexId × VertexId)} {edges : List (EdgeId × EdgeId)} {cause : Error}

theorem resolvePairs_eq_ok :
    resolvePairs lhs rhs names = .ok (vertices, edges) ↔ Splits lhs rhs names vertices edges := by
  constructor
  · intro resolved
    induction names generalizing vertices edges with
    | nil =>
      cases resolved
      exact .nil
    | cons pair rest ih =>
      obtain ⟨x, left, resolved⟩ := bind_eq_ok.mp resolved
      obtain ⟨y, right, resolved⟩ := bind_eq_ok.mp resolved
      rw [NamedGraph.element_eq_ok] at left right
      cases x with
      | vertex a =>
        cases y with
        | vertex b =>
          obtain ⟨⟨vs, es⟩, others, done⟩ := bind_eq_ok.mp resolved
          cases done
          exact .vertex left right (ih others)
        | edge b => cases resolved
      | edge a =>
        cases y with
        | vertex b => cases resolved
        | edge b =>
          obtain ⟨⟨vs, es⟩, others, done⟩ := bind_eq_ok.mp resolved
          cases done
          exact .edge left right (ih others)
  · intro splits
    induction splits with
    | nil => rfl
    | vertex left right _ ih =>
      rw [resolvePairs, NamedGraph.element_eq_ok.mpr left, NamedGraph.element_eq_ok.mpr right, ih]
      rfl
    | edge left right _ ih =>
      rw [resolvePairs, NamedGraph.element_eq_ok.mpr left, NamedGraph.element_eq_ok.mpr right, ih]
      rfl

theorem resolvePairs_error (failed : resolvePairs lhs rhs names = .error cause) :
    cause.Naming ∨ ∃ fault, cause = .illFormedProduction fault := by
  induction names with
  | nil => cases failed
  | cons pair rest ih =>
    obtain unresolved | ⟨x, -, failed⟩ := bind_eq_error.mp failed
    · exact .inl (NamedGraph.element_error unresolved)
    obtain unresolved | ⟨y, -, failed⟩ := bind_eq_error.mp failed
    · exact .inl (NamedGraph.element_error unresolved)
    revert failed
    dsimp only
    split
    · intro failed
      obtain early | ⟨_, -, impossible⟩ := bind_eq_error.mp failed
      · exact ih early
      · cases impossible
    · intro failed
      obtain early | ⟨_, -, impossible⟩ := bind_eq_error.mp failed
      · exact ih early
      · cases impossible
    · intro failed
      cases failed
      exact .inr ⟨_, rfl⟩

namespace Splits

theorem alike (splits : Splits lhs rhs names vertices edges) :
    ∀ pair ∈ names, Alike lhs rhs pair := by
  induction splits with
  | nil => simp
  | vertex left right _ ih => exact List.forall_mem_cons.mpr ⟨.inl ⟨_, _, left, right⟩, ih⟩
  | edge left right _ ih => exact List.forall_mem_cons.mpr ⟨.inr ⟨_, _, left, right⟩, ih⟩

theorem of_alike (alike : ∀ pair ∈ names, Alike lhs rhs pair) :
    ∃ vertices edges, Splits lhs rhs names vertices edges := by
  induction names with
  | nil => exact ⟨[], [], .nil⟩
  | cons pair rest ih =>
    obtain ⟨first, others⟩ := List.forall_mem_cons.mp alike
    obtain ⟨vertices, edges, splits⟩ := ih others
    rcases first with ⟨a, b, left, right⟩ | ⟨a, b, left, right⟩
    · exact ⟨_, _, .vertex left right splits⟩
    · exact ⟨_, _, .edge left right splits⟩

theorem mem_vertices (splits : Splits lhs rhs names vertices edges) {a b : VertexId} :
    (a, b) ∈ vertices ↔ ∃ pair ∈ names, lhs.names.get? pair.1 = some (.vertex a) ∧
      rhs.names.get? pair.2 = some (.vertex b) := by
  induction splits with
  | nil => simp
  | vertex left right _ ih => simp [ih, left, right, eq_comm]
  | edge left right _ ih => simp [ih, left]

theorem mem_edges (splits : Splits lhs rhs names vertices edges) {a b : EdgeId} :
    (a, b) ∈ edges ↔ ∃ pair ∈ names, lhs.names.get? pair.1 = some (.edge a) ∧
      rhs.names.get? pair.2 = some (.edge b) := by
  induction splits with
  | nil => simp
  | vertex left right _ ih => simp [ih, left]
  | edge left right _ ih => simp [ih, left, right, eq_comm]

/-- Two vertices are paired when their names are. -/
theorem mem_vertices_named (splits : Splits lhs rhs names vertices edges) {l r : String}
    {a b : VertexId} (left : lhs.names.get? l = some (.vertex a))
    (right : rhs.names.get? r = some (.vertex b))
    (singleLeft : ∀ other, lhs.names.get? other = some (.vertex a) → other = l)
    (singleRight : ∀ other, rhs.names.get? other = some (.vertex b) → other = r) :
    (a, b) ∈ vertices ↔ (l, r) ∈ names := by
  rw [splits.mem_vertices]
  constructor
  · rintro ⟨⟨l', r'⟩, listed, left', right'⟩
    cases singleLeft l' left'
    cases singleRight r' right'
    exact listed
  · intro listed
    exact ⟨_, listed, left, right⟩

/-- Pairs in another order come apart into the same pairs. -/
theorem perm {names' : List (String × String)} (order : names'.Perm names)
    (splits : Splits lhs rhs names vertices edges) :
    ∃ vertices' edges', Splits lhs rhs names' vertices' edges' ∧
      vertices'.Perm vertices ∧ edges'.Perm edges := by
  replace order := order.symm
  induction order generalizing vertices edges with
  | nil =>
    cases splits
    exact ⟨[], [], .nil, .nil, .nil⟩
  | cons pair _ ih =>
    cases splits with
    | vertex left right rest =>
      obtain ⟨vs, es, splits, vertexPerm, edgePerm⟩ := ih rest
      exact ⟨_, _, .vertex left right splits, vertexPerm.cons _, edgePerm⟩
    | edge left right rest =>
      obtain ⟨vs, es, splits, vertexPerm, edgePerm⟩ := ih rest
      exact ⟨_, _, .edge left right splits, vertexPerm, edgePerm.cons _⟩
  | swap =>
    cases splits with
    | vertex left right rest =>
      cases rest with
      | vertex left' right' rest =>
        exact ⟨_, _, .vertex left' right' (.vertex left right rest), .swap .., .refl _⟩
      | edge left' right' rest =>
        exact ⟨_, _, .edge left' right' (.vertex left right rest), .refl _, .refl _⟩
    | edge left right rest =>
      cases rest with
      | vertex left' right' rest =>
        exact ⟨_, _, .vertex left' right' (.edge left right rest), .refl _, .refl _⟩
      | edge left' right' rest =>
        exact ⟨_, _, .edge left' right' (.edge left right rest), .refl _, .swap ..⟩
  | trans _ _ first second =>
    obtain ⟨vs, es, splits, vertexPerm, edgePerm⟩ := first splits
    obtain ⟨vs', es', splits, vertexPerm', edgePerm'⟩ := second splits
    exact ⟨vs', es', splits, vertexPerm'.trans vertexPerm, edgePerm'.trans edgePerm⟩

theorem swap (splits : Splits lhs rhs names vertices edges) :
    Splits rhs lhs (names.map Prod.swap) (vertices.map Prod.swap) (edges.map Prod.swap) := by
  induction splits with
  | nil => exact .nil
  | vertex left right _ ih => exact .vertex right left ih
  | edge left right _ ih => exact .edge right left ih

/-- A vertex is paired when its name is. -/
theorem mem_left_vertices (splits : Splits lhs rhs names vertices edges) {name : String}
    {a : VertexId} (found : lhs.names.get? name = some (.vertex a))
    (single : ∀ other, lhs.names.get? other = some (.vertex a) → other = name) :
    a ∈ vertices.map (·.1) ↔ name ∈ names.map (·.1) := by
  simp only [List.mem_map, Prod.exists, exists_and_right, exists_eq_right]
  constructor
  · rintro ⟨b, mem⟩
    obtain ⟨pair, listed, left, -⟩ := splits.mem_vertices.mp mem
    exact ⟨pair.2, single _ left ▸ listed⟩
  · -- the listed pair names a vertex on the left, so it is one of the pairs of vertices
    rintro ⟨r, listed⟩
    rcases splits.alike _ listed with ⟨a', b, left, right⟩ | ⟨a', b, left, -⟩
    · rw [found] at left
      cases left
      exact ⟨b, splits.mem_vertices.mpr ⟨_, listed, found, right⟩⟩
    · rw [found] at left
      cases left

/-- An edge is paired when its name is. -/
theorem mem_left_edges (splits : Splits lhs rhs names vertices edges) {name : String}
    {a : EdgeId} (found : lhs.names.get? name = some (.edge a))
    (single : ∀ other, lhs.names.get? other = some (.edge a) → other = name) :
    a ∈ edges.map (·.1) ↔ name ∈ names.map (·.1) := by
  simp only [List.mem_map, Prod.exists, exists_and_right, exists_eq_right]
  constructor
  · rintro ⟨b, mem⟩
    obtain ⟨pair, listed, left, -⟩ := splits.mem_edges.mp mem
    exact ⟨pair.2, single _ left ▸ listed⟩
  · rintro ⟨r, listed⟩
    rcases splits.alike _ listed with ⟨a', b, left, -⟩ | ⟨a', b, left, right⟩
    · rw [found] at left
      cases left
    · rw [found] at left
      cases left
      exact ⟨b, splits.mem_edges.mpr ⟨_, listed, found, right⟩⟩

/-- Where each element has one name, a name is paired twice exactly if an element is. -/
theorem nodup_left_iff (splits : Splits lhs rhs names vertices edges)
    (single : ∀ {name other x}, lhs.names.get? name = some x → lhs.names.get? other = some x →
      name = other) :
    (names.map (·.1)).Nodup ↔ (vertices.map (·.1)).Nodup ∧ (edges.map (·.1)).Nodup := by
  induction splits with
  | nil => simp
  | vertex left _ rest ih =>
    rw [List.map_cons, List.map_cons, List.nodup_cons, List.nodup_cons, ih, and_assoc,
      rest.mem_left_vertices left fun other found => single found left]
  | edge left _ rest ih =>
    rw [List.map_cons, List.map_cons, List.nodup_cons, List.nodup_cons, ih, and_left_comm,
      rest.mem_left_edges left fun other found => single found left]

theorem nodup_right_iff (splits : Splits lhs rhs names vertices edges)
    (single : ∀ {name other x}, rhs.names.get? name = some x → rhs.names.get? other = some x →
      name = other) :
    (names.map (·.2)).Nodup ↔ (vertices.map (·.2)).Nodup ∧ (edges.map (·.2)).Nodup := by
  simpa [List.map_map, Function.comp_def] using splits.swap.nodup_left_iff single

end Splits

end ProductionDeclaration

end GraphTransformation
