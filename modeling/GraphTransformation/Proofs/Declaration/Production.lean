import GraphTransformation.Declaration.Document
import GraphTransformation.Proofs.Declaration.Graph
import GraphTransformation.Proofs.Declaration.Pairs
import GraphTransformation.Proofs.Production.Drafts
import Mathlib.Data.List.Forall2

/-!
What a declared production is.

A declaration resolves to a draft when its graphs are built and all its names stand for elements
of the right side and kind (`Resolved`); the draft is built if no name is preserved twice and each
preserved edge keeps its ends (`Resolved.exists_build_iff`). So a declaration is built exactly if
it is well formed, and the production is what it says (`Describes`). What can be stored of a
declaration is the declaration itself, if all its predicates are conditions (`stored_eq_ok`).
-/

namespace GraphTransformation

/-! ### Lists resolved member by member -/

theorem mapM_eq_ok {ε α β : Type} {f : α → Except ε β} {xs : List α} {ys : List β} :
    xs.mapM f = .ok ys ↔ List.Forall₂ (fun x y => f x = .ok y) xs ys := by
  induction xs generalizing ys with
  | nil => simp [pure, Except.pure, eq_comm]
  | cons x rest ih =>
    rw [List.mapM_cons, bind_eq_ok]
    constructor
    · rintro ⟨y, first, mapped⟩
      obtain ⟨zs, others, done⟩ := bind_eq_ok.mp mapped
      cases done
      exact .cons first (ih.mp others)
    · rintro (_ | ⟨first, others⟩)
      exact ⟨_, first, bind_eq_ok.mpr ⟨_, ih.mpr others, rfl⟩⟩

theorem mapM_error {ε α β : Type} {f : α → Except ε β} {xs : List α} {cause : ε}
    (failed : xs.mapM f = .error cause) : ∃ x ∈ xs, f x = .error cause := by
  induction xs with
  | nil => cases failed
  | cons x rest ih =>
    rw [List.mapM_cons] at failed
    obtain first | ⟨y, -, failed⟩ := bind_eq_error.mp failed
    · exact ⟨x, List.mem_cons_self, first⟩
    obtain later | ⟨ys, -, impossible⟩ := bind_eq_error.mp failed
    · obtain ⟨x', mem, found⟩ := ih later
      exact ⟨x', List.mem_cons_of_mem _ mem, found⟩
    · cases impossible

/-- Where each member can come from one source only, so can the list. -/
theorem mapM_eq_ok_iff_map {ε α β : Type} {f : α → Except ε β} {back : β → α}
    (exactly : ∀ x y, f x = .ok y ↔ x = back y) {xs : List α} {ys : List β} :
    xs.mapM f = .ok ys ↔ xs = ys.map back := by
  simp only [mapM_eq_ok, exactly]
  rw [← List.forall₂_eq_eq_eq, List.forall₂_map_right_iff]

theorem exists_forall₂_iff {α β : Type} {related : α → β → Prop} {xs : List α} :
    (∃ ys, List.Forall₂ related xs ys) ↔ ∀ x ∈ xs, ∃ y, related x y := by
  induction xs with
  | nil => simp
  | cons x rest ih =>
    rw [List.forall_mem_cons, ← ih]
    constructor
    · rintro ⟨_, _ | ⟨first, others⟩⟩
      exact ⟨⟨_, first⟩, _, others⟩
    · rintro ⟨⟨y, first⟩, ys, others⟩
      exact ⟨y :: ys, .cons first others⟩

theorem exists_of_forall₂ {α β : Type} {related : α → β → Prop} {xs : List α} {ys : List β}
    (all : List.Forall₂ related xs ys) {y : β} (mem : y ∈ ys) : ∃ x ∈ xs, related x y := by
  induction all with
  | nil => cases mem
  | cons first _ ih =>
    rcases List.mem_cons.mp mem with rfl | later
    · exact ⟨_, List.mem_cons_self, first⟩
    · obtain ⟨x, listed, found⟩ := ih later
      exact ⟨x, List.mem_cons_of_mem _ listed, found⟩

namespace ProductionDeclaration

/-! ### Names that stand for elements -/

/-- The rule, with the pattern element that its name stands for. -/
inductive Denotes (lhs : NamedGraph) : RuleDeclaration → Rule → Prop where
  | set {value : Value} : Denotes lhs (.set value) (.set value)
  | remove : Denotes lhs .remove .remove
  | copy {source key : String} {x : Element} (found : lhs.names.get? source = some x) :
    Denotes lhs (.copy source key) (.copy x key)

theorem Denotes.source {lhs : NamedGraph} {declared : RuleDeclaration} {rule : Rule}
    (denotes : Denotes lhs declared rule) {x : Element} (reads : rule.source? = some x) :
    ∃ name, lhs.names.get? name = some x := by
  cases denotes with
  | set => cases reads
  | remove => cases reads
  | copy found =>
    cases reads
    exact ⟨_, found⟩

theorem exists_denotes_iff {lhs : NamedGraph} {declared : RuleDeclaration} :
    (∃ rule, Denotes lhs declared rule) ↔
      ∀ source key, declared = .copy source key → ∃ x, lhs.names.get? source = some x := by
  constructor
  · rintro ⟨_, _ | _ | found⟩ source key reads
    · cases reads
    · cases reads
    · cases reads
      exact ⟨_, found⟩
  · intro named
    cases declared with
    | set value => exact ⟨_, .set⟩
    | remove => exact ⟨_, .remove⟩
    | copy source key =>
      obtain ⟨x, found⟩ := named source key rfl
      exact ⟨_, .copy found⟩

/-- The clause of a constraint, with its pattern element. -/
def Constrains (lhs : NamedGraph) (c : ConstraintDeclaration Predicate)
    (entry : Element × String × Predicate) : Prop :=
  lhs.names.get? c.element = some entry.1 ∧ entry.2 = (c.key, c.predicate)

/-- The rule of an assignment, with its replacement element. -/
def Assigns (lhs rhs : NamedGraph) (a : AssignmentDeclaration)
    (entry : Element × String × Rule) : Prop :=
  rhs.names.get? a.element = some entry.1 ∧ entry.2.1 = a.key ∧ Denotes lhs a.rule entry.2.2

variable {lhs rhs : NamedGraph} {cause : Error}

theorem resolveRule_eq_ok {rule : RuleDeclaration} {resolved : Rule} :
    resolveRule lhs rule = .ok resolved ↔ Denotes lhs rule resolved := by
  constructor
  · intro done
    cases rule with
    | set value =>
      cases done
      exact .set
    | remove =>
      cases done
      exact .remove
    | copy source key =>
      obtain ⟨x, found, done⟩ := bind_eq_ok.mp done
      cases done
      exact .copy (NamedGraph.element_eq_ok.mp found)
  · rintro (_ | _ | found)
    · rfl
    · rfl
    · exact bind_eq_ok.mpr ⟨_, NamedGraph.element_eq_ok.mpr found, rfl⟩

theorem resolveConstraint_eq_ok {c : ConstraintDeclaration Predicate}
    {entry : Element × String × Predicate} :
    resolveConstraint lhs c = .ok entry ↔ Constrains lhs c entry := by
  rw [resolveConstraint, bind_eq_ok]
  simp only [NamedGraph.element_eq_ok, pure, Except.pure, Except.ok.injEq]
  constructor
  · rintro ⟨x, found, rfl⟩
    exact ⟨found, rfl⟩
  · rintro ⟨found, clause⟩
    exact ⟨entry.1, found, Prod.ext rfl clause.symm⟩

theorem resolveAssignment_eq_ok {a : AssignmentDeclaration} {entry : Element × String × Rule} :
    resolveAssignment lhs rhs a = .ok entry ↔ Assigns lhs rhs a entry := by
  constructor
  · intro done
    obtain ⟨rule, resolved, done⟩ := bind_eq_ok.mp done
    obtain ⟨x, found, done⟩ := bind_eq_ok.mp done
    cases done
    exact ⟨NamedGraph.element_eq_ok.mp found, rfl, resolveRule_eq_ok.mp resolved⟩
  · obtain ⟨x, key, rule⟩ := entry
    rintro ⟨found, rfl, denotes⟩
    refine bind_eq_ok.mpr ⟨rule, resolveRule_eq_ok.mpr denotes, ?_⟩
    exact bind_eq_ok.mpr ⟨x, NamedGraph.element_eq_ok.mpr found, rfl⟩

theorem resolveRule_error {rule : RuleDeclaration} (failed : resolveRule lhs rule = .error cause) :
    cause.Naming := by
  cases rule with
  | set value => cases failed
  | remove => cases failed
  | copy source key =>
    obtain unresolved | ⟨x, -, impossible⟩ := bind_eq_error.mp failed
    · exact NamedGraph.element_error unresolved
    · cases impossible

theorem resolveConstraint_error {c : ConstraintDeclaration Predicate}
    (failed : resolveConstraint lhs c = .error cause) : cause.Naming := by
  obtain unresolved | ⟨x, -, impossible⟩ := bind_eq_error.mp failed
  · exact NamedGraph.element_error unresolved
  · cases impossible

theorem resolveAssignment_error {a : AssignmentDeclaration}
    (failed : resolveAssignment lhs rhs a = .error cause) : cause.Naming := by
  obtain unresolved | ⟨rule, -, failed⟩ := bind_eq_error.mp failed
  · exact resolveRule_error unresolved
  obtain unresolved | ⟨x, -, impossible⟩ := bind_eq_error.mp failed
  · exact NamedGraph.element_error unresolved
  · cases impossible

/-! ### Resolved declarations -/

/-- The draft has the parts of the declaration, with elements in the place of names. -/
structure Resolved (d : ProductionDeclaration Predicate) (l r : NamedGraph)
    (draft : ProductionDraft) : Prop where
  left : d.lhs.build = .ok l
  right : d.rhs.build = .ok r
  pairs : Splits l r d.preserve draft.vertexPairs draft.edgePairs
  constraints : List.Forall₂ (Constrains l) d.constraints draft.constraints
  rules : List.Forall₂ (Assigns l r) d.assignments draft.rules
  name : draft.name = d.name
  lhs : draft.lhs = l.graph
  rhs : draft.rhs = r.graph
  edgeMode : draft.edgeMode = d.edgeMode
  dangling : draft.dangling = d.dangling

variable {d : ProductionDeclaration Predicate} {l r : NamedGraph} {draft : ProductionDraft}
  {id : ProductionId} {p : Production}

theorem build_eq_ok :
    d.build id = .ok p ↔ ∃ l r draft, d.Resolved l r draft ∧ draft.build id = .ok p := by
  constructor
  · intro built
    obtain ⟨l, left, built⟩ := bind_eq_ok.mp built
    obtain ⟨r, right, built⟩ := bind_eq_ok.mp built
    obtain ⟨⟨vs, es⟩, pairs, built⟩ := bind_eq_ok.mp (liftM_eq_ok.mp built)
    obtain ⟨cs, constraints, built⟩ := bind_eq_ok.mp built
    obtain ⟨rules, assignments, built⟩ := bind_eq_ok.mp built
    rw [mapM_eq_ok] at constraints assignments
    simp only [resolveConstraint_eq_ok] at constraints
    simp only [resolveAssignment_eq_ok] at assignments
    exact ⟨l, r, _, ⟨left, right, resolvePairs_eq_ok.mp pairs, constraints, assignments, rfl, rfl,
      rfl, rfl, rfl⟩, built⟩
  · rintro ⟨l, r, ⟨name, lhs, rhs, mode, dangling, vs, es, cs, rules⟩, resolved, built⟩
    obtain ⟨left, right, pairs, constraints, assignments, rfl, rfl, rfl, rfl, rfl⟩ := resolved
    refine bind_eq_ok.mpr ⟨l, left, bind_eq_ok.mpr ⟨r, right, liftM_eq_ok.mpr ?_⟩⟩
    refine bind_eq_ok.mpr ⟨_, resolvePairs_eq_ok.mpr pairs, bind_eq_ok.mpr ⟨cs, ?_, ?_⟩⟩
    · simpa only [mapM_eq_ok, resolveConstraint_eq_ok] using constraints
    · refine bind_eq_ok.mpr ⟨rules, ?_, built⟩
      simpa only [mapM_eq_ok, resolveAssignment_eq_ok] using assignments

/-- Two graphs that have been built are put together, or a name is why not, or that the parts do
not fit. -/
theorem assemble_error (failed : d.assemble l r id = .error cause) :
    cause.Naming ∨ ∃ fault, cause = .illFormedProduction fault := by
  obtain unpaired | ⟨_, -, failed⟩ := bind_eq_error.mp failed
  · exact resolvePairs_error unpaired
  obtain unresolved | ⟨cs, -, failed⟩ := bind_eq_error.mp failed
  · obtain ⟨c, -, unresolved⟩ := mapM_error unresolved
    exact .inl (resolveConstraint_error unresolved)
  obtain unresolved | ⟨rules, -, failed⟩ := bind_eq_error.mp failed
  · obtain ⟨a, -, unresolved⟩ := mapM_error unresolved
    exact .inl (resolveAssignment_error unresolved)
  exact .inr (ProductionDraft.build_error failed)

/-- Why building ends without a production: over a name, as the parts do not fit together, or as
words cannot count the elements of a graph. -/
inductive StopsWith (d : ProductionDeclaration Predicate) : Stop → Prop where
  | name {cause : Error} (naming : cause.Naming) : StopsWith d (.failed cause)
  | illFormed (fault : ProductionFault) : StopsWith d (.failed (.illFormedProduction fault))
  | full (unfit : ¬ (d.lhs.Fits ∧ d.rhs.Fits)) : StopsWith d .overflow

theorem build_stopped {s : Stop} (stopped : d.build id = .error s) : d.StopsWith s := by
  obtain unbuilt | ⟨l, -, stopped⟩ := bind_eq_error.mp stopped
  · cases GraphDeclaration.build_stopped unbuilt with
    | name naming => exact .name naming
    | full unfit => exact .full fun fits => unfit fits.1
  obtain unbuilt | ⟨r, -, stopped⟩ := bind_eq_error.mp stopped
  · cases GraphDeclaration.build_stopped unbuilt with
    | name naming => exact .name naming
    | full unfit => exact .full fun fits => unfit fits.2
  obtain ⟨cause, failed, rfl⟩ := liftM_eq_error.mp stopped
  obtain naming | ⟨fault, rfl⟩ := assemble_error failed
  · exact .name naming
  · exact .illFormed fault

/-! ### Well-formed declarations -/

/-- Each preserved edge has both ends preserved, as the ends of its replacement edge. -/
def KeepsEnds (d : ProductionDeclaration Predicate) : Prop :=
  ∀ pair ∈ d.preserve, ∀ a ∈ d.lhs.edges, a.name = some pair.1 →
    ∀ b ∈ d.rhs.edges, b.name = some pair.2 →
      (a.source, b.source) ∈ d.preserve ∧ (a.target, b.target) ∈ d.preserve

instance (d : ProductionDeclaration Predicate) : Decidable d.KeepsEnds :=
  inferInstanceAs (Decidable (∀ pair ∈ d.preserve, ∀ a ∈ d.lhs.edges, a.name = some pair.1 →
    ∀ b ∈ d.rhs.edges, b.name = some pair.2 →
      (a.source, b.source) ∈ d.preserve ∧ (a.target, b.target) ∈ d.preserve))

/-- The graphs are built, the names stand for elements of the side and kind they are used for, no
element is preserved twice on either side, and preserved edges keep their ends. -/
structure WellFormed (d : ProductionDeclaration Predicate) : Prop where
  lhs : ∃ l, d.lhs.build = .ok l
  rhs : ∃ r, d.rhs.build = .ok r
  alike : ∀ pair ∈ d.preserve,
    (pair.1 ∈ d.lhs.vertexNames ∧ pair.2 ∈ d.rhs.vertexNames) ∨
      (pair.1 ∈ d.lhs.edgeNames ∧ pair.2 ∈ d.rhs.edgeNames)
  left : (d.preserve.map (·.1)).Nodup
  right : (d.preserve.map (·.2)).Nodup
  ends : d.KeepsEnds
  constraints : ∀ c ∈ d.constraints, c.element ∈ d.lhs.names
  assignments : ∀ a ∈ d.assignments, a.element ∈ d.rhs.names
  sources : ∀ a ∈ d.assignments, ∀ source key, a.rule = .copy source key → source ∈ d.lhs.names

namespace Resolved

variable {c : Correspondence}

theorem left_nodup_iff (resolved : d.Resolved l r draft) :
    (d.preserve.map (·.1)).Nodup ↔
      (draft.vertexPairs.map (·.1)).Nodup ∧ (draft.edgePairs.map (·.1)).Nodup :=
  resolved.pairs.nodup_left_iff (GraphDeclaration.build_single resolved.left)

theorem right_nodup_iff (resolved : d.Resolved l r draft) :
    (d.preserve.map (·.2)).Nodup ↔
      (draft.vertexPairs.map (·.2)).Nodup ∧ (draft.edgePairs.map (·.2)).Nodup :=
  resolved.pairs.nodup_right_iff (GraphDeclaration.build_single resolved.right)

/-- The pairs make a correspondence if no name is paired twice. -/
theorem ofPairs_isOk (resolved : d.Resolved l r draft) :
    (∃ c, Correspondence.ofPairs draft.vertexPairs draft.edgePairs = .ok c) ↔
      (d.preserve.map (·.1)).Nodup ∧ (d.preserve.map (·.2)).Nodup := by
  rw [Correspondence.ofPairs_isOk, resolved.left_nodup_iff, resolved.right_nodup_iff]
  tauto

/-- The ends of two edges are paired when their names are. -/
theorem ends_paired_iff (resolved : d.Resolved l r draft) {name name' : String} {u v : VertexId}
    (first : d.lhs.Declares name (.vertex u)) (second : d.rhs.Declares name' (.vertex v)) :
    (u, v) ∈ draft.vertexPairs ↔ (name, name') ∈ d.preserve := by
  have first := (GraphDeclaration.build_tabled resolved.left).table.mpr first
  have second := (GraphDeclaration.build_tabled resolved.right).table.mpr second
  exact resolved.pairs.mem_vertices_named first second
    (fun other found => GraphDeclaration.build_single resolved.left found first)
    (fun other found => GraphDeclaration.build_single resolved.right found second)

/-- The correspondence fits both graphs if preserved edges keep their ends. -/
theorem validate_iff (resolved : d.Resolved l r draft)
    (paired : Correspondence.ofPairs draft.vertexPairs draft.edgePairs = .ok c) :
    c.validate l.graph r.graph = .ok () ↔ d.KeepsEnds := by
  obtain ⟨vertices, edges⟩ := Correspondence.ofPairs_right? paired
  rw [Correspondence.validate_eq_ok]
  simp only [vertices, edges]
  constructor
  · -- a named edge is the one under its handle, so the check of handles is one of declarations
    rintro ⟨-, valid⟩ pair listed a memA nameA b memB nameB
    obtain ⟨x, namedX, storedX, outlineX⟩ :=
      GraphDeclaration.build_edge resolved.left memA nameA
    obtain ⟨y, namedY, storedY, outlineY⟩ :=
      GraphDeclaration.build_edge resolved.right memB nameB
    obtain ⟨x', y', storedX', storedY', source, target⟩ :=
      valid _ _ (resolved.pairs.mem_edges.mpr ⟨pair, listed, namedX, namedY⟩)
    cases storedX.symm.trans storedX'
    cases storedY.symm.trans storedY'
    exact ⟨(resolved.ends_paired_iff outlineX.source outlineY.source).mp source,
      (resolved.ends_paired_iff outlineX.target outlineY.target).mp target⟩
  · intro keeps
    refine ⟨fun u v mem => ?_, fun i j mem => ?_⟩
    · obtain ⟨pair, -, first, second⟩ := resolved.pairs.mem_vertices.mp mem
      exact ⟨GraphDeclaration.build_contains resolved.left first,
        GraphDeclaration.build_contains resolved.right second⟩
    · obtain ⟨pair, listed, first, second⟩ := resolved.pairs.mem_edges.mp mem
      obtain ⟨a, memA, nameA, x, storedX, outlineX⟩ :=
        GraphDeclaration.build_named_edge resolved.left first
      obtain ⟨b, memB, nameB, y, storedY, outlineY⟩ :=
        GraphDeclaration.build_named_edge resolved.right second
      obtain ⟨source, target⟩ := keeps pair listed a memA nameA b memB nameB
      exact ⟨x, y, storedX, storedY,
        (resolved.ends_paired_iff outlineX.source outlineY.source).mpr source,
        (resolved.ends_paired_iff outlineX.target outlineY.target).mpr target⟩

/-- The constraints are on pattern elements. -/
theorem constraints_fit (resolved : d.Resolved l r draft) :
    ∀ entry ∈ draft.constraints, l.graph.contains entry.1 = true := by
  intro entry mem
  obtain ⟨c, -, found, -⟩ := exists_of_forall₂ resolved.constraints mem
  exact GraphDeclaration.build_contains resolved.left found

/-- The rules are on replacement elements and read pattern elements. -/
theorem rules_fit (resolved : d.Resolved l r draft) :
    ∀ entry ∈ draft.rules, r.graph.contains entry.1 = true ∧
      ∀ source, entry.2.2.source? = some source → l.graph.contains source = true := by
  intro entry mem
  obtain ⟨a, -, found, -, denotes⟩ := exists_of_forall₂ resolved.rules mem
  refine ⟨GraphDeclaration.build_contains resolved.right found, fun source reads => ?_⟩
  obtain ⟨name, found⟩ := denotes.source reads
  exact GraphDeclaration.build_contains resolved.left found

theorem exists_build_iff (resolved : d.Resolved l r draft) (id : ProductionId) :
    (∃ p, draft.build id = .ok p) ↔
      ((d.preserve.map (·.1)).Nodup ∧ (d.preserve.map (·.2)).Nodup) ∧ d.KeepsEnds := by
  rw [← resolved.ofPairs_isOk]
  simp only [ProductionDraft.build_eq_ok, resolved.lhs, resolved.rhs]
  constructor
  · rintro ⟨p, c, paired, valid, -⟩
    exact ⟨⟨c, paired⟩, (resolved.validate_iff paired).mp valid⟩
  · rintro ⟨⟨c, paired⟩, keeps⟩
    exact ⟨_, c, paired, (resolved.validate_iff paired).mpr keeps,
      resolved.constraints_fit, resolved.rules_fit, rfl⟩

end Resolved

theorem alike_iff (left : d.lhs.build = .ok l) (right : d.rhs.build = .ok r)
    {pair : String × String} : Alike l r pair ↔
      (pair.1 ∈ d.lhs.vertexNames ∧ pair.2 ∈ d.rhs.vertexNames) ∨
        (pair.1 ∈ d.lhs.edgeNames ∧ pair.2 ∈ d.rhs.edgeNames) := by
  have tabledLeft := GraphDeclaration.build_tabled left
  have tabledRight := GraphDeclaration.build_tabled right
  simp only [Alike, tabledLeft.mem_vertexNames, tabledLeft.mem_edgeNames,
    tabledRight.mem_vertexNames, tabledRight.mem_edgeNames, exists_and_left, exists_and_right]

theorem exists_constrains_iff (left : d.lhs.build = .ok l) {c : ConstraintDeclaration Predicate} :
    (∃ entry, Constrains l c entry) ↔ c.element ∈ d.lhs.names := by
  rw [(GraphDeclaration.build_tabled left).mem_names]
  constructor
  · rintro ⟨entry, found, -⟩
    exact ⟨_, found⟩
  · rintro ⟨x, found⟩
    exact ⟨(x, _), found, rfl⟩

theorem exists_assigns_iff (left : d.lhs.build = .ok l) (right : d.rhs.build = .ok r)
    {a : AssignmentDeclaration} : (∃ entry, Assigns l r a entry) ↔
      a.element ∈ d.rhs.names ∧
        ∀ source key, a.rule = .copy source key → source ∈ d.lhs.names := by
  simp only [(GraphDeclaration.build_tabled left).mem_names,
    (GraphDeclaration.build_tabled right).mem_names, ← exists_denotes_iff]
  constructor
  · rintro ⟨entry, found, -, denotes⟩
    exact ⟨⟨_, found⟩, _, denotes⟩
  · rintro ⟨⟨x, found⟩, rule, denotes⟩
    exact ⟨(x, _, rule), found, rfl, denotes⟩

/-- Once the graphs are built, a declaration resolves to a draft if its names stand for elements
of the side and kind they are used for. -/
theorem exists_resolved_iff (left : d.lhs.build = .ok l) (right : d.rhs.build = .ok r) :
    (∃ draft, d.Resolved l r draft) ↔
      (∀ pair ∈ d.preserve,
        (pair.1 ∈ d.lhs.vertexNames ∧ pair.2 ∈ d.rhs.vertexNames) ∨
          (pair.1 ∈ d.lhs.edgeNames ∧ pair.2 ∈ d.rhs.edgeNames)) ∧
      (∀ c ∈ d.constraints, c.element ∈ d.lhs.names) ∧
      ∀ a ∈ d.assignments, a.element ∈ d.rhs.names ∧
        ∀ source key, a.rule = .copy source key → source ∈ d.lhs.names := by
  simp only [← alike_iff left right, ← exists_constrains_iff left,
    ← exists_assigns_iff left right, ← exists_forall₂_iff]
  constructor
  · rintro ⟨draft, resolved⟩
    exact ⟨resolved.pairs.alike, ⟨_, resolved.constraints⟩, _, resolved.rules⟩
  · rintro ⟨alike, ⟨cs, constraints⟩, rules, assignments⟩
    obtain ⟨vs, es, pairs⟩ := Splits.of_alike alike
    exact ⟨⟨d.name, l.graph, r.graph, d.edgeMode, d.dangling, vs, es, cs, rules⟩, left, right,
      pairs, constraints, assignments, rfl, rfl, rfl, rfl, rfl⟩

/-- Exactly the well-formed declarations are built. -/
theorem exists_build_iff (id : ProductionId) :
    (∃ p, d.build id = .ok p) ↔ d.WellFormed := by
  simp only [build_eq_ok]
  constructor
  · rintro ⟨p, l, r, draft, resolved, built⟩
    obtain ⟨alike, constraints, assignments⟩ :=
      (exists_resolved_iff resolved.left resolved.right).mp ⟨draft, resolved⟩
    obtain ⟨⟨first, second⟩, keeps⟩ := (resolved.exists_build_iff id).mp ⟨p, built⟩
    exact ⟨⟨l, resolved.left⟩, ⟨r, resolved.right⟩, alike, first, second, keeps, constraints,
      fun a mem => (assignments a mem).1, fun a mem => (assignments a mem).2⟩
  · rintro ⟨⟨l, builtLeft⟩, ⟨r, builtRight⟩, alike, first, second, keeps, constraints, assignments,
      sources⟩
    obtain ⟨draft, resolved⟩ := (exists_resolved_iff builtLeft builtRight).mpr
      ⟨alike, constraints, fun a mem => ⟨assignments a mem, sources a mem⟩⟩
    obtain ⟨p, built⟩ := (resolved.exists_build_iff id).mpr ⟨⟨first, second⟩, keeps⟩
    exact ⟨p, l, r, draft, resolved, built⟩

/-! ### What is built -/

/-- The production is what the declaration says, its names read in the two graphs. -/
structure Describes (d : ProductionDeclaration Predicate) (l r : NamedGraph) (p : Production) : Prop where
  name : p.name = d.name
  lhs : p.lhs.graph = l.graph
  rhs : p.rhs = r.graph
  edgeMode : p.lhs.edgeMode = d.edgeMode
  dangling : p.dangling = d.dangling
  /-- Just the named pairs are preserved. -/
  vertices : ∀ {a b}, p.correspondence.vertices.right? a = some b ↔
    ∃ pair ∈ d.preserve, l.names.get? pair.1 = some (.vertex a) ∧
      r.names.get? pair.2 = some (.vertex b)
  edges : ∀ {a b}, p.correspondence.edges.right? a = some b ↔
    ∃ pair ∈ d.preserve, l.names.get? pair.1 = some (.edge a) ∧
      r.names.get? pair.2 = some (.edge b)
  inverse : p.correspondence.vertices.OneToOne ∧ p.correspondence.edges.OneToOne
  /-- A pattern element carries just its clauses, in their order. -/
  clauses : ∀ x, p.lhs.clausesOn x =
    (d.constraints.filter fun c => l.names.get? c.element = some x).map fun c =>
      (c.key, c.predicate)
  /-- A replacement element carries just its rules, in their order. -/
  rules : ∀ x, List.Forall₂ (fun a rule => rule.1 = a.key ∧ Denotes l a.rule rule.2)
    (d.assignments.filter fun a => r.names.get? a.element = some x) (p.rulesOn x)

theorem clauses_of_constrains {cs : List (ConstraintDeclaration Predicate)}
    {entries : List (Element × String × Predicate)}
    (all : List.Forall₂ (Constrains lhs) cs entries) (x : Element) :
    (entries.filter (·.1 == x)).map (·.2) =
      (cs.filter fun c => lhs.names.get? c.element = some x).map fun c =>
        (c.key, c.predicate) := by
  induction all with
  | nil => rfl
  | @cons c entry _ _ first _ ih =>
    obtain ⟨found, clause⟩ := first
    rw [List.filter_cons, List.filter_cons, found]
    by_cases here : entry.1 = x
    · simp [here, ih, clause]
    · simp [here, ih]

theorem rules_of_assigns {assignments : List AssignmentDeclaration}
    {entries : List (Element × String × Rule)}
    (all : List.Forall₂ (Assigns lhs rhs) assignments entries) (x : Element) :
    List.Forall₂ (fun a rule => rule.1 = a.key ∧ Denotes lhs a.rule rule.2)
      (assignments.filter fun a => rhs.names.get? a.element = some x)
      ((entries.filter (·.1 == x)).map (·.2)) := by
  rw [List.forall₂_map_right_iff]
  refine (List.rel_filter (fun a entry assigns => ?_) all).imp fun a entry assigns => assigns.2
  simp [assigns.1]

theorem Resolved.describes (resolved : d.Resolved l r draft) (built : draft.build id = .ok p) :
    p.id = id ∧ d.Describes l r p := by
  obtain ⟨c, paired, -, -, -, rfl⟩ := ProductionDraft.build_eq_ok.mp built
  obtain ⟨vertices, edges⟩ := Correspondence.ofPairs_right? paired
  refine ⟨rfl, resolved.name, resolved.lhs, resolved.rhs, resolved.edgeMode, resolved.dangling,
    ?_, ?_, (Correspondence.ofPairs_built paired).oneToOne, ?_, ?_⟩
  · exact vertices.trans resolved.pairs.mem_vertices
  · exact edges.trans resolved.pairs.mem_edges
  · intro x
    rw [ProductionDraft.clausesOn_single]
    exact clauses_of_constrains resolved.constraints x
  · exact rules_of_assigns resolved.rules

/-- The order of the preserved pairs does not matter. -/
theorem build_perm {order : List (String × String)} (perm : order.Perm d.preserve)
    (built : d.build id = .ok p) : { d with preserve := order }.build id = .ok p := by
  obtain ⟨l, r, draft, resolved, built⟩ := build_eq_ok.mp built
  obtain ⟨c, paired, fitting⟩ := ProductionDraft.build_eq_ok.mp built
  obtain ⟨vs, es, pairs, vertexPerm, edgePerm⟩ := resolved.pairs.perm perm
  refine build_eq_ok.mpr ⟨l, r, { draft with vertexPairs := vs, edgePairs := es }, ?_, ?_⟩
  · exact { resolved with pairs }
  · exact ProductionDraft.build_eq_ok.mpr
      ⟨c, Correspondence.ofPairs_perm vertexPerm edgePerm paired, fitting⟩

/-- A declaration is built exactly if it is well formed. If it fails, a name is why or that the
parts do not fit together; building ends for want of a handle only where words cannot count the
elements of a graph. The production is what the declaration says, and the order of the preserved
pairs does not matter to it. -/
theorem build_describes (d : ProductionDeclaration Predicate) (id : ProductionId) :
    ((∃ p, d.build id = .ok p) ↔ d.WellFormed) ∧
      (∀ cause, d.build id = .error (.failed cause) →
        cause.Naming ∨ ∃ fault, cause = .illFormedProduction fault) ∧
      (d.build id = .error .overflow → ¬ (d.lhs.Fits ∧ d.rhs.Fits)) ∧
      ∀ p, d.build id = .ok p → p.id = id ∧
        (∃ l r, d.lhs.build = .ok l ∧ d.rhs.build = .ok r ∧ d.Describes l r p) ∧
        ∀ order, order.Perm d.preserve → { d with preserve := order }.build id = .ok p := by
  refine ⟨exists_build_iff id, fun cause failed => ?_, fun stopped => ?_, fun p built => ?_⟩
  · cases build_stopped failed with
    | name naming => exact .inl naming
    | illFormed fault => exact .inr ⟨fault, rfl⟩
  · cases build_stopped stopped with
    | full unfit => exact unfit
  obtain ⟨l, r, draft, resolved, drafted⟩ := build_eq_ok.mp built
  obtain ⟨own, describes⟩ := resolved.describes drafted
  exact ⟨own, ⟨l, r, resolved.left, resolved.right, describes⟩, fun _ perm => build_perm perm built⟩

/-- An arrow is prolonged by an edge to a new vertex, which is declared before the ends of the
arrow. The target has to pass a test, which no stored declaration can hold. -/
def prolong : ProductionDeclaration Predicate where
  name := "prolong"
  lhs := ⟨[⟨"a", .empty⟩, ⟨"b", .empty⟩], [⟨some "ab", "a", "b", .empty⟩]⟩
  rhs := ⟨[⟨"c", .empty⟩, ⟨"a", .empty⟩, ⟨"b", .empty⟩],
    [⟨none, "b", "c", .empty⟩, ⟨some "ab", "a", "b", .empty⟩]⟩
  preserve := [("ab", "ab"), ("a", "a"), ("b", "b")]
  constraints := [⟨"a", "size", .condition .present⟩, ⟨"b", "size", .custom "sized" Option.isSome⟩]
  assignments := [⟨"c", "size", .copy "a" "size"⟩]
  edgeMode := .directed
  dangling := .reject

theorem prolong_wellFormed : prolong.WellFormed where
  lhs := GraphDeclaration.exists_build_iff.mpr (by decide)
  rhs := GraphDeclaration.exists_build_iff.mpr (by decide)
  alike := by decide
  left := by decide
  right := by decide
  ends := by decide
  constraints := by
    rintro c mem
    simp only [prolong, List.mem_cons, List.not_mem_nil, or_false] at mem
    obtain rfl | rfl := mem
    · decide
    · decide
  assignments := by decide
  sources := by
    intro a mem source key reads
    cases List.mem_singleton.mp mem
    cases reads
    decide

/-- The same, but for the ends of the arrow, which change places. -/
def crosswise : ProductionDeclaration Predicate :=
  { prolong with preserve := [("ab", "ab"), ("a", "b"), ("b", "a")] }

/-- The arrow is preserved with its ends, in whatever order they are listed, and its target keeps
the test; crosswise, the ends are refused. -/
theorem prolong_build :
    (∃ p, prolong.build ⟨0⟩ = .ok p ∧ p.correspondence.vertices.right? ⟨0⟩ = some ⟨1⟩ ∧
        p.lhs.clausesOn (.vertex ⟨1⟩) = [("size", .custom "sized" Option.isSome)] ∧
        { prolong with preserve := prolong.preserve.reverse }.build ⟨0⟩ = .ok p) ∧
      ¬ ∃ p, crosswise.build ⟨0⟩ = .ok p := by
  obtain ⟨builds, -, -, facts⟩ := build_describes prolong ⟨0⟩
  obtain ⟨p, built⟩ := builds.mpr prolong_wellFormed
  obtain ⟨-, ⟨l, r, builtLeft, builtRight, describes⟩, reordered⟩ := facts p built
  have first : l.names.get? "a" = some (.vertex ⟨0⟩) :=
    (GraphDeclaration.build_tabled builtLeft).table.mpr (.vertex (i := 0) rfl rfl)
  have second : r.names.get? "a" = some (.vertex ⟨1⟩) :=
    (GraphDeclaration.build_tabled builtRight).table.mpr (.vertex (i := 1) rfl rfl)
  have third : l.names.get? "b" = some (.vertex ⟨1⟩) :=
    (GraphDeclaration.build_tabled builtLeft).table.mpr (.vertex (i := 1) rfl rfl)
  refine ⟨⟨p, built, ?_, ?_, reordered _ (List.reverse_perm _)⟩, ?_⟩
  · exact describes.vertices.mpr ⟨("a", "a"), by decide, first, second⟩
  · rw [describes.clauses]
    simp [prolong, first, third]
  · rw [(build_describes crosswise ⟨0⟩).1]
    exact fun wellFormed => absurd wellFormed.ends (by decide)

end ProductionDeclaration

/-! ### Stored declarations -/

theorem Predicate.stored_eq_ok {predicate : Predicate} {c : Condition} :
    predicate.stored = .ok c ↔ predicate = .condition c := by
  cases predicate <;> simp [stored]

theorem ConstraintDeclaration.stored_eq_ok {d : ConstraintDeclaration Predicate}
    {c : ConstraintDeclaration Condition} : d.stored = .ok c ↔ d = c.map .condition := by
  obtain ⟨element, key, predicate⟩ := d
  obtain ⟨element', key', condition⟩ := c
  rw [stored, bind_eq_ok]
  simp only [Predicate.stored_eq_ok, pure, Except.pure, Except.ok.injEq, map, mk.injEq]
  constructor
  · rintro ⟨_, rfl, rfl, rfl, rfl⟩
    exact ⟨rfl, rfl, rfl⟩
  · rintro ⟨rfl, rfl, rfl⟩
    exact ⟨condition, rfl, rfl, rfl, rfl⟩

theorem ProductionDeclaration.stored_eq_ok {d : ProductionDeclaration Predicate}
    {c : ProductionDeclaration Condition} : d.stored = .ok c ↔ d = c.map .condition := by
  rw [stored, bind_eq_ok]
  simp only [mapM_eq_ok_iff_map fun _ _ => ConstraintDeclaration.stored_eq_ok]
  constructor
  · rintro ⟨constraints, same, done⟩
    cases done
    rw [map, ← same]
  · rintro rfl
    exact ⟨c.constraints, rfl, rfl⟩

/-- A grammar that can be stored is declared with conditions only, and stored as it is. -/
theorem GrammarDeclaration.stored_eq_ok {d : GrammarDeclaration Predicate}
    {c : GrammarDeclaration Condition} : d.stored = .ok c ↔ d = c.map .condition := by
  rw [stored, bind_eq_ok]
  simp only [mapM_eq_ok_iff_map fun _ _ => ProductionDeclaration.stored_eq_ok]
  constructor
  · rintro ⟨productions, same, done⟩
    cases done
    rw [map, ← same]
  · rintro rfl
    exact ⟨c.productions, rfl, rfl⟩

end GraphTransformation
