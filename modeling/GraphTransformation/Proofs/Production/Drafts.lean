import GraphTransformation.Proofs.Production.Validity

/-!
Productions put together from drafts.

A pairing is filled from a list exactly if no key occurs twice on its side (`insertEach?_isSome`),
and then it pairs what the list pairs, in whatever order (`right?_insertEach?`). Building a draft
succeeds exactly if its pairs make a correspondence between the two graphs, its constraints are on
pattern elements, and its rules are on replacement elements and read pattern elements; the
production is then the draft with this correspondence (`build_eq_ok`). The only failures are of
ill-formed productions (`build_error`).
-/

namespace GraphTransformation

/-! ### Pairings filled from a list -/

namespace Pairing

variable {κ : Type} [Ord κ] [Std.TransOrd κ] {p q : Pairing κ} {pairs : List (κ × κ)}

/-- Pairs keys one after another, unless one of them has a partner by then. -/
def insertEach? (p : Pairing κ) : List (κ × κ) → Option (Pairing κ)
  | [] => some p
  | (l, r) :: rest => (p.insert? l r).bind (insertEach? · rest)

variable [Std.LawfulEqOrd κ]

/-- One-to-one pairings that look up the same partners are the same. -/
theorem OneToOne.ext (inverse : p.OneToOne) (inverse' : q.OneToOne)
    (same : ∀ l r, p.right? l = some r ↔ q.right? l = some r) : p = q := by
  have forward : p.forward = q.forward :=
    SortedMap.ext_get? fun l => Option.ext fun r => same l r
  have backward : p.backward = q.backward :=
    SortedMap.ext_get? fun r => Option.ext fun l =>
      (inverse l r).symm.trans ((same l r).trans (inverse' l r))
  cases p
  cases q
  cases forward
  cases backward
  rfl

variable [DecidableEq κ]

theorem right?_insertEach? (filled : p.insertEach? pairs = some q) {l r : κ} :
    q.right? l = some r ↔ p.right? l = some r ∨ (l, r) ∈ pairs := by
  induction pairs generalizing p with
  | nil =>
    cases filled
    simp
  | cons pair rest ih =>
    obtain ⟨first, one, others⟩ := Option.bind_eq_some_iff.mp filled
    rw [ih others, right?_insert? one, List.mem_cons, Prod.ext_iff, or_assoc]

theorem OneToOne.insertEach? (inverse : p.OneToOne)
    (filled : p.insertEach? pairs = some q) : q.OneToOne := by
  induction pairs generalizing p with
  | nil =>
    cases filled
    exact inverse
  | cons pair rest ih =>
    obtain ⟨first, one, others⟩ := Option.bind_eq_some_iff.mp filled
    exact ih (inverse.insert? one) others

/-- A list fills a pairing exactly if its keys are distinct on either side and have no partners. -/
theorem insertEach?_isSome_of_free :
    (∃ q, p.insertEach? pairs = some q) ↔
      (pairs.map (·.1)).Nodup ∧ (pairs.map (·.2)).Nodup ∧
        ∀ pair ∈ pairs, p.right? pair.1 = none ∧ p.left? pair.2 = none := by
  induction pairs generalizing p with
  | nil => simp [Pairing.insertEach?]
  | cons pair rest ih =>
    obtain ⟨l, r⟩ := pair
    have step : (∃ q, p.insertEach? ((l, r) :: rest) = some q) ↔
        (p.right? l = none ∧ p.left? r = none) ∧
          ∃ q, Pairing.insertEach? ⟨p.forward.insert l r, p.backward.insert r l⟩ rest = some q := by
      simp only [Pairing.insertEach?, Option.bind_eq_some_iff, insert?_eq_some]
      constructor
      · rintro ⟨q, _, ⟨left, right, rfl⟩, filled⟩
        exact ⟨⟨left, right⟩, q, filled⟩
      · rintro ⟨⟨left, right⟩, q, filled⟩
        exact ⟨q, _, ⟨left, right, rfl⟩, filled⟩
    rw [step, ih]
    simp only [right?, left?, SortedMap.get?_insert, List.map_cons, List.nodup_cons, List.mem_map,
      List.forall_mem_cons]
    grind

theorem insertEach?_isSome : (∃ q, (empty : Pairing κ).insertEach? pairs = some q) ↔
    (pairs.map (·.1)).Nodup ∧ (pairs.map (·.2)).Nodup := by
  rw [insertEach?_isSome_of_free]
  simp [empty, right?, left?]

/-- The order of the pairs does not matter. -/
theorem insertEach?_perm {pairs' : List (κ × κ)} (perm : pairs'.Perm pairs)
    (filled : empty.insertEach? pairs = some q) : empty.insertEach? pairs' = some q := by
  obtain ⟨left, right⟩ := insertEach?_isSome.mp ⟨q, filled⟩
  obtain ⟨q', filled'⟩ := insertEach?_isSome.mpr
    ⟨(perm.map _).nodup_iff.mpr left, (perm.map _).nodup_iff.mpr right⟩
  have same : q' = q := by
    refine (empty_oneToOne.insertEach? filled').ext (empty_oneToOne.insertEach? filled) ?_
    intro l r
    rw [right?_insertEach? filled', right?_insertEach? filled, perm.mem_iff]
  rw [filled', same]

end Pairing

/-! ### Correspondences of pairs -/

namespace Correspondence

variable {c d : Correspondence} {vertices : List (VertexId × VertexId)}
  {edges : List (EdgeId × EdgeId)} {cause : Error}

theorem insertVertices_eq_ok : c.insertVertices vertices = .ok d ↔
    ∃ filled, c.vertices.insertEach? vertices = some filled ∧
      d = { c with vertices := filled } := by
  induction vertices generalizing c with
  | nil => simp [insertVertices, Pairing.insertEach?, eq_comm]
  | cons pair rest ih =>
    rw [insertVertices, bind_eq_ok, Pairing.insertEach?]
    simp only [insertVertex_eq_ok, ih, Option.bind_eq_some_iff]
    constructor
    · rintro ⟨_, ⟨first, one, rfl⟩, filled, others, rfl⟩
      exact ⟨filled, ⟨first, one, others⟩, rfl⟩
    · rintro ⟨filled, ⟨first, one, others⟩, rfl⟩
      exact ⟨_, ⟨first, one, rfl⟩, filled, others, rfl⟩

theorem insertEdges_eq_ok : c.insertEdges edges = .ok d ↔
    ∃ filled, c.edges.insertEach? edges = some filled ∧ d = { c with edges := filled } := by
  induction edges generalizing c with
  | nil => simp [insertEdges, Pairing.insertEach?, eq_comm]
  | cons pair rest ih =>
    rw [insertEdges, bind_eq_ok, Pairing.insertEach?]
    simp only [insertEdge_eq_ok, ih, Option.bind_eq_some_iff]
    constructor
    · rintro ⟨_, ⟨first, one, rfl⟩, filled, others, rfl⟩
      exact ⟨filled, ⟨first, one, others⟩, rfl⟩
    · rintro ⟨filled, ⟨first, one, others⟩, rfl⟩
      exact ⟨_, ⟨first, one, rfl⟩, filled, others, rfl⟩

/-- The pairs of a correspondence fill its two pairings. -/
theorem ofPairs_eq_ok : ofPairs vertices edges = .ok c ↔
    Pairing.empty.insertEach? vertices = some c.vertices ∧
      Pairing.empty.insertEach? edges = some c.edges := by
  rw [ofPairs, bind_eq_ok]
  simp only [insertVertices_eq_ok, insertEdges_eq_ok]
  constructor
  · rintro ⟨_, ⟨filled, first, rfl⟩, filled', second, rfl⟩
    exact ⟨first, second⟩
  · rintro ⟨first, second⟩
    exact ⟨_, ⟨c.vertices, first, rfl⟩, c.edges, second, rfl⟩

theorem ofPairs_isOk : (∃ c, ofPairs vertices edges = .ok c) ↔
    ((vertices.map (·.1)).Nodup ∧ (vertices.map (·.2)).Nodup) ∧
      (edges.map (·.1)).Nodup ∧ (edges.map (·.2)).Nodup := by
  rw [← Pairing.insertEach?_isSome, ← Pairing.insertEach?_isSome]
  simp only [ofPairs_eq_ok]
  constructor
  · rintro ⟨c, first, second⟩
    exact ⟨⟨_, first⟩, _, second⟩
  · rintro ⟨⟨filled, first⟩, filled', second⟩
    exact ⟨⟨filled, filled'⟩, first, second⟩

theorem ofPairs_right? (paired : ofPairs vertices edges = .ok c) :
    (∀ {a b}, c.vertices.right? a = some b ↔ (a, b) ∈ vertices) ∧
      ∀ {a b}, c.edges.right? a = some b ↔ (a, b) ∈ edges := by
  obtain ⟨first, second⟩ := ofPairs_eq_ok.mp paired
  refine ⟨fun {a b} => ?_, fun {a b} => ?_⟩
  · rw [Pairing.right?_insertEach? first]
    simp [Pairing.empty, Pairing.right?]
  · rw [Pairing.right?_insertEach? second]
    simp [Pairing.empty, Pairing.right?]

theorem ofPairs_perm {vertices' : List (VertexId × VertexId)} {edges' : List (EdgeId × EdgeId)}
    (vertexPerm : vertices'.Perm vertices) (edgePerm : edges'.Perm edges)
    (paired : ofPairs vertices edges = .ok c) : ofPairs vertices' edges' = .ok c := by
  obtain ⟨first, second⟩ := ofPairs_eq_ok.mp paired
  exact ofPairs_eq_ok.mpr
    ⟨Pairing.insertEach?_perm vertexPerm first, Pairing.insertEach?_perm edgePerm second⟩

theorem insertVertices_error (failed : c.insertVertices vertices = .error cause) :
    ∃ fault, cause = .illFormedProduction fault := by
  induction vertices generalizing c with
  | nil => cases failed
  | cons pair rest ih =>
    obtain clash | ⟨first, -, later⟩ := bind_eq_error.mp failed
    · exact ⟨_, (insertVertex_eq_error.mp clash).2⟩
    · exact ih later

theorem insertEdges_error (failed : c.insertEdges edges = .error cause) :
    ∃ fault, cause = .illFormedProduction fault := by
  induction edges generalizing c with
  | nil => cases failed
  | cons pair rest ih =>
    obtain clash | ⟨first, -, later⟩ := bind_eq_error.mp failed
    · exact ⟨_, (insertEdge_eq_error.mp clash).2⟩
    · exact ih later

theorem ofPairs_error (failed : ofPairs vertices edges = .error cause) :
    ∃ fault, cause = .illFormedProduction fault := by
  obtain early | ⟨c, -, late⟩ := bind_eq_error.mp failed
  · exact insertVertices_error early
  · exact insertEdges_error late

end Correspondence

/-! ### Attached constraints -/

theorem Constraint.clauses_foldl {cs : List Constraint} {c : Constraint} :
    (cs.foldl (· ++ ·) c).clauses = c.clauses ++ cs.flatMap (·.clauses) := by
  induction cs generalizing c with
  | nil => simp
  | cons d rest ih =>
    have both : (c ++ d).clauses = c.clauses ++ d.clauses := rfl
    rw [List.foldl_cons, ih, both, List.flatMap_cons, List.append_assoc]

/-- The clauses that a pattern element carries. -/
def Pattern.clausesOn (p : Pattern) (element : Element) : List (String × Predicate) :=
  match p.constraint? element with
  | some c => c.clauses
  | none => []

theorem Pattern.clausesOn_eq {p : Pattern} {element : Element} :
    p.clausesOn element = (p.constraintsOn element).flatMap (·.clauses) := by
  rw [clausesOn, constraint?]
  cases p.constraintsOn element with
  | nil => rfl
  | cons c rest =>
    change ((c :: rest).foldl (· ++ ·) Constraint.empty).clauses = _
    rw [Constraint.clauses_foldl]
    rfl

theorem Pattern.constrain_eq_ok {p q : Pattern} {element : Element} {c : Constraint} :
    p.constrain element c = .ok q ↔
      p.graph.contains element = true ∧
        q = { p with attached := p.attached ++ [(element, c)] } := by
  rw [constrain]
  split
  · rename_i member
    simp [member, eq_comm]
  · rename_i missing
    simp [missing]

/-! ### Drafts -/

namespace ProductionDraft

variable {d : ProductionDraft} {id : ProductionId} {p : Production} {cause : Error}
  {pattern result : Pattern} {entries : List (Element × String × Predicate)}

/-- The constraints of one clause each. -/
def single (entries : List (Element × String × Predicate)) : List (Element × Constraint) :=
  entries.map fun (element, name, predicate) => (element, Constraint.empty.push name predicate)

/-- An element carries the clauses that are attached to it, in their order. -/
theorem clausesOn_single {graph : Graph} {mode : EdgeMode} {element : Element} :
    Pattern.clausesOn ⟨graph, mode, single entries⟩ element =
      (entries.filter (·.1 == element)).map (·.2) := by
  rw [Pattern.clausesOn_eq, Pattern.constraintsOn]
  induction entries with
  | nil => rfl
  | cons entry rest ih =>
    obtain ⟨x, name, predicate⟩ := entry
    have front : single ((x, name, predicate) :: rest) =
      (x, Constraint.empty.push name predicate) :: single rest := rfl
    rw [front, List.filter_cons, List.filter_cons]
    by_cases here : x = element
    · rw [if_pos (beq_iff_eq.mpr here), if_pos (beq_iff_eq.mpr here), List.map_cons,
        List.flatMap_cons, List.map_cons]
      exact congrArg ((name, predicate) :: ·) ih
    · rw [if_neg (mt beq_iff_eq.mp here), if_neg (mt beq_iff_eq.mp here)]
      exact ih

theorem attach_eq_ok : attach pattern entries = .ok result ↔
    (∀ entry ∈ entries, pattern.graph.contains entry.1 = true) ∧
      result = { pattern with attached := pattern.attached ++ single entries } := by
  induction entries generalizing pattern with
  | nil =>
    constructor
    · intro done
      cases done
      simp [single]
    · rintro ⟨-, rfl⟩
      simp [attach, single]
  | cons entry rest ih =>
    obtain ⟨element, name, predicate⟩ := entry
    rw [attach, bind_eq_ok]
    simp only [Pattern.constrain_eq_ok, ih, List.forall_mem_cons, single, List.map_cons]
    constructor
    · rintro ⟨_, ⟨member, rfl⟩, members, rfl⟩
      exact ⟨⟨member, members⟩, by simp⟩
    · rintro ⟨⟨member, members⟩, rfl⟩
      exact ⟨_, ⟨member, rfl⟩, members, by simp⟩

theorem attach_error (failed : attach pattern entries = .error cause) :
    ∃ fault, cause = .illFormedProduction fault := by
  induction entries generalizing pattern with
  | nil => cases failed
  | cons entry rest ih =>
    obtain refused | ⟨first, -, later⟩ := bind_eq_error.mp failed
    · rw [Pattern.constrain] at refused
      split at refused
      · cases refused
      · cases refused
        exact ⟨_, rfl⟩
    · exact ih later

theorem ruleFault?_eq_none {lhs rhs : Graph} {element : Element} {name : String} {rule : Rule} :
    ruleFault? lhs rhs element name rule = none ↔
      rhs.contains element = true ∧ ∀ source, rule.source? = some source →
        lhs.contains source = true := by
  rw [ruleFault?]
  split
  · rename_i member
    cases rule.source? with
    | none => simp [member]
    | some source => simp [member]
  · rename_i missing
    simp [missing]

/-- The check of the rules, as the last step of building. -/
theorem rules_fit_iff : (d.rules.findSome? fun (element, name, rule) =>
      ruleFault? d.lhs d.rhs element name rule) = none ↔
    ∀ entry ∈ d.rules, d.rhs.contains entry.1 = true ∧
      ∀ source, entry.2.2.source? = some source → d.lhs.contains source = true := by
  rw [List.findSome?_eq_none_iff]
  simp only [ruleFault?_eq_none]

/-- A draft is built if its parts fit together, and then as it stands. -/
theorem build_eq_ok : d.build id = .ok p ↔
    ∃ c, Correspondence.ofPairs d.vertexPairs d.edgePairs = .ok c ∧
      c.validate d.lhs d.rhs = .ok () ∧
      (∀ entry ∈ d.constraints, d.lhs.contains entry.1 = true) ∧
      (∀ entry ∈ d.rules, d.rhs.contains entry.1 = true ∧
        ∀ source, entry.2.2.source? = some source → d.lhs.contains source = true) ∧
      p = ⟨id, d.name, ⟨d.lhs, d.edgeMode, single d.constraints⟩, d.rhs, c, d.rules,
        d.dangling⟩ := by
  constructor
  · intro built
    obtain ⟨c, paired, built⟩ := bind_eq_ok.mp built
    obtain ⟨blank, made, built⟩ := bind_eq_ok.mp built
    obtain ⟨lhs, attached, built⟩ := bind_eq_ok.mp built
    obtain ⟨valid, rfl⟩ := Production.make_eq_ok.mp made
    obtain ⟨members, rfl⟩ := attach_eq_ok.mp attached
    split at built
    · cases built
    · rename_i faultless
      cases built
      exact ⟨c, paired, valid, members, rules_fit_iff.mp faultless, rfl⟩
  · rintro ⟨c, paired, valid, members, fitting, rfl⟩
    refine bind_eq_ok.mpr ⟨c, paired, ?_⟩
    refine bind_eq_ok.mpr ⟨_, Production.make_eq_ok.mpr ⟨valid, rfl⟩, ?_⟩
    refine bind_eq_ok.mpr ⟨_, attach_eq_ok.mpr ⟨members, rfl⟩, ?_⟩
    rw [rules_fit_iff.mpr fitting]
    rfl

theorem build_error (failed : d.build id = .error cause) :
    ∃ fault, cause = .illFormedProduction fault := by
  obtain clash | ⟨c, -, failed⟩ := bind_eq_error.mp failed
  · exact Correspondence.ofPairs_error clash
  obtain refused | ⟨blank, -, failed⟩ := bind_eq_error.mp failed
  · obtain invalid | ⟨_, -, impossible⟩ := bind_eq_error.mp refused
    · rw [Correspondence.validate] at invalid
      split at invalid
      · cases invalid
      · cases invalid
        exact ⟨_, rfl⟩
    · cases impossible
  obtain outside | ⟨lhs, -, failed⟩ := bind_eq_error.mp failed
  · exact attach_error outside
  split at failed
  · cases failed
    exact ⟨_, rfl⟩
  · cases failed

end ProductionDraft

end GraphTransformation
