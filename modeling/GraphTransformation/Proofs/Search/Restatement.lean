import GraphTransformation.Proofs.Production.Drafts
import GraphTransformation.Proofs.Production.Preservation
import GraphTransformation.Proofs.Search.Agreement
import Mathlib.Logic.Relation

/-!
Requirements on attributes, implicit and explicit.

The attributes of a pattern element require what a constraint made of them
requires (`admits_eq`), and of the constraints on an element only the clauses
matter. So a pattern can be restated: the attributes of an element as a
constraint on it, or the clauses attached to the elements by other calls
(`Pattern.Restates`). A search depends on a pattern only through the shape of its
graph, its edge mode and what its elements admit (`find_alike`), and restating
keeps all three. So every restatement of a pattern, in any number of steps, is
searched with the same outcome by either strategy under any deadline
(`restatement_agrees`).
-/

namespace GraphTransformation

/-! ### Shape -/

namespace Graph

/-- The graphs have the same structure and the same incidence lists; only the
attributes may differ. -/
structure SameShape (g h : Graph) : Prop extends SameStructure g h where
  outgoing : h.outgoing = g.outgoing
  incoming : h.incoming = g.incoming

theorem SameShape.refl (g : Graph) : SameShape g g := ⟨.refl g, rfl, rfl⟩

theorem modifyAttributes_sameShape (g : Graph) (f : Attributes → Attributes)
    (element : Element) : SameShape g (g.modifyAttributes f element) := by
  refine ⟨modifyAttributes_sameStructure g f element, ?_, ?_⟩
  · cases element <;> rfl
  · cases element <;> rfl

variable {g h : Graph}

theorem SameStructure.vertexIds (same : SameStructure g h) : h.vertexIds = g.vertexIds := by
  refine SortedMap.eq_of_increasing (SortedMap.keys_increasing _) (SortedMap.keys_increasing _)
    fun v => ?_
  rw [Graph.vertexIds, Graph.vertexIds, SortedMap.mem_keys, SortedMap.mem_keys, same.vertices]

theorem SameStructure.vertexCount (same : SameStructure g h) : h.vertexCount = g.vertexCount := by
  have lengths := congrArg List.length same.vertexIds
  simpa [Graph.vertexIds, SortedMap.keys, Graph.vertexCount, SortedMap.size] using lengths

/-- What is known of an edge by its ends is the same of both graphs. -/
theorem SameStructure.bind_edge? {α : Type} (same : SameStructure g h) (k : EdgeId)
    (f : VertexId × VertexId → Option α) :
    (h.edge? k).bind (fun e => f e.ends) = (g.edge? k).bind fun e => f e.ends := by
  have ends := congrArg (·.bind f) (same.edges k)
  simpa [Option.bind_map, Function.comp_def] using ends

theorem SameStructure.ends_filterMap (same : SameStructure g h) (ks : List EdgeId) :
    (ks.filterMap h.edge?).map Edge.ends = (ks.filterMap g.edge?).map Edge.ends := by
  rw [List.map_filterMap, List.map_filterMap]
  exact List.filterMap_congr fun k _ => same.edges k

theorem SameShape.incidentEdges (same : SameShape g h) : h.incidentEdges = g.incidentEdges := by
  funext v
  rw [Graph.incidentEdges, Graph.incidentEdges, same.outgoing, same.incoming]

theorem SameShape.outDegree (same : SameShape g h) : h.outDegree = g.outDegree := by
  funext v
  rw [Graph.outDegree, Graph.outDegree, same.outgoing]

theorem SameShape.inDegree (same : SameShape g h) : h.inDegree = g.inDegree := by
  funext v
  rw [Graph.inDegree, Graph.inDegree, same.incoming]

theorem SameShape.degree (same : SameShape g h) : h.degree = g.degree := by
  funext v
  rw [Graph.degree, Graph.degree, same.outDegree, same.inDegree]

end Graph

/-! ### The order of a search -/

namespace Plan

open GraphTransformation.Graph (SameShape)

variable {g h : Graph} {placed : List VertexId} {v : VertexId}

theorem joinsPlaced_sameShape (same : SameShape g h) :
    joinsPlaced h placed v = joinsPlaced g placed v := by
  funext k
  have opposite := same.bind_edge? k fun ends =>
    if v = ends.1 then some ends.2 else if v = ends.2 then some ends.1 else none
  exact congrArg (·.any placed.contains) opposite

theorem links_sameShape (same : SameShape g h) : links h placed v = links g placed v := by
  rw [links, links, joinsPlaced_sameShape same, same.incidentEdges]

theorem outranks_sameShape (same : SameShape g h) : outranks h placed = outranks g placed := by
  funext v w
  simp only [outranks, links_sameShape same, same.degree]

theorem nextVertex_sameShape (same : SameShape g h) :
    nextVertex h placed = nextVertex g placed := by
  funext remaining
  cases remaining with
  | nil => rfl
  | cons v rest => rw [nextVertex, nextVertex, outranks_sameShape same]

theorem coveredEdges_sameShape (same : SameShape g h) :
    coveredEdges h placed v = coveredEdges g placed v := by
  rw [coveredEdges, coveredEdges, joinsPlaced_sameShape same, same.incidentEdges]

/-- The anchor depends on the ends of the covered edges alone. -/
theorem anchor?_eq {covered : List EdgeId} : anchor? g v covered =
    (((covered.filterMap g.edge?).map Edge.ends).find? fun ends => !(ends.1 == ends.2)).bind
      fun ends => (if v = ends.1 then some ends.2 else if v = ends.2 then some ends.1
        else none).map fun other => ⟨other, ends.1 == other⟩ := by
  rw [List.find?_map, Option.bind_map]
  rfl

theorem anchor?_sameShape (same : SameShape g h) : anchor? h v = anchor? g v := by
  funext covered
  rw [anchor?_eq, anchor?_eq, same.ends_filterMap]

end Plan

/-! ### Alike patterns -/

namespace Pattern

/-- The patterns have graphs of one shape, the same edge mode, and elements that
admit the same attributes. -/
structure Alike (p q : Pattern) : Prop where
  shape : Graph.SameShape p.graph q.graph
  edgeMode : q.edgeMode = p.edgeMode
  admits : q.admits = p.admits

variable {p q : Pattern} {host : Graph}

theorem Alike.step (alike : p.Alike q) (placed : List VertexId) (v : VertexId) :
    Plan.step q host placed v = Plan.step p host placed v := by
  have room : Plan.hasRoom q host v = Plan.hasRoom p host v := by
    funext image
    rw [Plan.hasRoom, Plan.hasRoom, alike.edgeMode, alike.shape.outDegree, alike.shape.inDegree,
      alike.shape.degree]
  rw [Plan.step, Plan.step, Plan.candidates, Plan.candidates, room, alike.admits,
    Plan.coveredEdges_sameShape alike.shape, Plan.anchor?_sameShape alike.shape]

theorem Alike.searchPlan (alike : p.Alike q) : searchPlan q host = searchPlan p host := by
  have steps : ∀ count placed remaining,
      Plan.steps q host count placed remaining = Plan.steps p host count placed remaining := by
    intro count
    induction count with
    | zero => exact fun _ _ => rfl
    | succ count ih =>
      intro placed remaining
      simp only [Plan.steps, Plan.nextVertex_sameShape alike.shape, alike.step, ih]
  rw [GraphTransformation.searchPlan, GraphTransformation.searchPlan, steps,
    alike.shape.vertexIds, alike.shape.vertexCount]

theorem Alike.edgeCandidates (alike : p.Alike q) :
    Search.edgeCandidates q host = Search.edgeCandidates p host := by
  funext k m
  have admitted : Search.admitsEdge q host = Search.admitsEdge p host := by
    funext i j
    rw [Search.admitsEdge, Search.admitsEdge, alike.admits]
  have ends := alike.shape.edges k
  rw [Search.edgeCandidates, Search.edgeCandidates, admitted, alike.edgeMode]
  cases before : p.graph.edge? k with
  | none =>
    rw [before] at ends
    rw [Option.map_eq_none_iff.mp ends]
  | some e =>
    rw [before] at ends
    obtain ⟨e', after, sameEnds⟩ := Option.map_eq_some_iff.mp ends
    obtain ⟨source, target⟩ := Prod.mk.inj sameEnds
    simp only [after, source, target]

theorem Alike.stepCandidates (alike : p.Alike q) :
    Search.stepCandidates q host = Search.stepCandidates p host := by
  funext step m
  have neighbours : Search.neighbours q host = Search.neighbours p host := by
    funext image outgoing
    rw [Search.neighbours, Search.neighbours, alike.edgeMode]
  rw [Search.stepCandidates, Search.stepCandidates, neighbours]

theorem Alike.tryVertex (alike : p.Alike q) (next : Embedding → List SearchEvent) :
    Search.tryVertex q host next = Search.tryVertex p host next := by
  have assigned : ∀ ks m,
      Search.assignEdges q host next ks m = Search.assignEdges p host next ks m := by
    intro ks
    induction ks with
    | nil => exact fun _ => rfl
    | cons k rest ih =>
      intro m
      simp only [Search.assignEdges, alike.edgeCandidates, ih]
  funext step m candidate
  rw [Search.tryVertex, Search.tryVertex, assigned]

theorem Alike.extend (alike : p.Alike q) (plan : List PlanStep) :
    Search.extend q host plan = Search.extend p host plan := by
  induction plan with
  | nil => rfl
  | cons step rest ih =>
    funext m
    rw [Search.extend, Search.extend, alike.stepCandidates, alike.tryVertex, ih]

/-- Alike patterns are searched with the same outcome, event by event. -/
theorem find_alike (alike : p.Alike q) (strategy : Strategy) (deadline : Nat → Deadline) :
    strategy.find deadline q host = strategy.find deadline p host := by
  cases strategy with
  | backtracking =>
    rw [Strategy.find, Strategy.find, Search.trace, Search.trace, alike.extend, alike.searchPlan]
  | parallel =>
    simp only [Strategy.find, Search.branches, alike.searchPlan, alike.extend, alike.tryVertex]

/-! ### Requirements -/

/-- The clauses that an element requires: those of its own attributes, then those
of the constraints attached to it. -/
def requirements (p : Pattern) (element : Element) : Option (List (String × Predicate)) :=
  (p.graph.attributes? element).map fun own =>
    (Constraint.ofAttributes own).clauses ++ p.clausesOn element

/-- What the attributes of an element ask for is what the constraint made of them asks for. -/
theorem admits_eq {element : Element} {attributes : Attributes} :
    p.admits element attributes =
      (p.requirements element).any fun clauses => Constraint.holds ⟨clauses⟩ attributes := by
  have attached : (p.constraint? element).all (·.holds attributes) =
      Constraint.holds ⟨p.clausesOn element⟩ attributes := by
    rw [clausesOn]
    cases p.constraint? element with
    | none => rfl
    | some c => rfl
  rw [admits, requirements, attached]
  cases p.graph.attributes? element with
  | none => rfl
  | some own =>
    simp only [Option.map_some, Option.any_some, Constraint.holds, Constraint.ofAttributes,
      List.all_append, List.all_map]
    rfl

/-- The order of the requirements does not matter. -/
theorem Alike.of_requirements (shape : Graph.SameShape p.graph q.graph)
    (edgeMode : q.edgeMode = p.edgeMode)
    (same : ∀ element, Option.Rel List.Perm (p.requirements element) (q.requirements element)) :
    p.Alike q := by
  refine ⟨shape, edgeMode, ?_⟩
  funext element attributes
  rw [admits_eq, admits_eq]
  have perm := same element
  generalize p.requirements element = before at perm ⊢
  generalize q.requirements element = after at perm ⊢
  cases perm with
  | none => rfl
  | some perm => exact perm.symm.all_eq

/-! ### Restatements -/

/-- Attaches constraints one after another. -/
def constrainEach (p : Pattern) : List (Element × Constraint) → Except Error Pattern
  | [] => .ok p
  | (element, c) :: rest => (p.constrain element c).bind (constrainEach · rest)

/-- The clauses for an element among a list of constraints, in their order. -/
def clausesFor (calls : List (Element × Constraint)) (element : Element) :
    List (String × Predicate) :=
  (calls.filter (·.1 == element)).flatMap (·.2.clauses)

/-- The pattern with the attributes of one element dropped. -/
def drop (p : Pattern) (element : Element) : Pattern :=
  { p with graph := p.graph.modifyAttributes (fun _ => .empty) element }

/-- One step of saying in another way what a pattern requires. -/
inductive Restates (p q : Pattern) : Prop where
  /-- The attributes of an element are dropped and required by a constraint instead. -/
  | spell {element : Element} {own : Attributes}
      (held : p.graph.attributes? element = some own)
      (attached : (p.drop element).constrain element (.ofAttributes own) = .ok q)
  /-- The same clauses are attached to each element by other constraints, in
  another order and on other occasions. -/
  | regroup {blank : Pattern} {calls calls' : List (Element × Constraint)}
      (first : blank.constrainEach calls = .ok p) (second : blank.constrainEach calls' = .ok q)
      (same : ∀ element, (clausesFor calls element).Perm (clausesFor calls' element))

theorem constrainEach_eq_ok {calls : List (Element × Constraint)} :
    p.constrainEach calls = .ok q ↔
      (∀ call ∈ calls, p.graph.contains call.1 = true) ∧
        q = { p with attached := p.attached ++ calls } := by
  induction calls generalizing p with
  | nil =>
    constructor
    · intro done
      cases done
      simp
    · rintro ⟨-, rfl⟩
      simp [constrainEach]
  | cons call rest ih =>
    obtain ⟨element, c⟩ := call
    have step : p.constrainEach ((element, c) :: rest) = .ok q ↔
        ∃ next, p.constrain element c = .ok next ∧ next.constrainEach rest = .ok q := bind_eq_ok
    simp only [step, constrain_eq_ok, ih, List.forall_mem_cons]
    constructor
    · rintro ⟨_, ⟨member, rfl⟩, members, rfl⟩
      exact ⟨⟨member, members⟩, by simp⟩
    · rintro ⟨⟨member, members⟩, rfl⟩
      exact ⟨_, ⟨member, rfl⟩, members, by simp⟩

theorem clausesOn_eq_clausesFor {element : Element} :
    p.clausesOn element = clausesFor p.attached element := by
  rw [clausesOn_eq, constraintsOn, List.flatMap_map, clausesFor]

theorem clausesFor_append {before after : List (Element × Constraint)} {element : Element} :
    clausesFor (before ++ after) element =
      clausesFor before element ++ clausesFor after element := by
  rw [clausesFor, List.filter_append, List.flatMap_append]
  rfl

/-- A constraint says something of its own element only. -/
theorem clausesFor_single {element target : Element} {c : Constraint} :
    clausesFor [(target, c)] element = if target = element then c.clauses else [] := by
  by_cases here : target = element <;> simp [clausesFor, here]

theorem drop_sameShape (p : Pattern) (element : Element) :
    Graph.SameShape p.graph (p.drop element).graph :=
  Graph.modifyAttributes_sameShape p.graph (fun _ => .empty) element

theorem attributes?_drop {element other : Element} : (p.drop element).graph.attributes? other =
    if other = element then (p.graph.attributes? other).map fun _ => .empty
    else p.graph.attributes? other :=
  Graph.attributes?_modifyAttributes

/-- The attributes of a member can always be required by a constraint instead. They are
empty then, and those of the other elements are what they were. -/
theorem spell_total {element : Element} {own : Attributes}
    (held : p.graph.attributes? element = some own) :
    ∃ q, (p.drop element).constrain element (.ofAttributes own) = .ok q ∧
      q.graph.attributes? element = some .empty ∧
      ∀ other, other ≠ element → q.graph.attributes? other = p.graph.attributes? other := by
  have dropped : (p.drop element).graph.attributes? element = some .empty := by
    rw [attributes?_drop, if_pos rfl, held, Option.map_some]
  have member := Graph.contains_iff_attributes?.mpr ⟨_, dropped⟩
  refine ⟨_, constrain_eq_ok.mpr ⟨member, rfl⟩, dropped, fun other apart => ?_⟩
  rw [attributes?_drop, if_neg apart]

/-- Restating a pattern changes neither where it searches nor what it requires. -/
theorem Restates.alike (restates : p.Restates q) : p.Alike q := by
  cases restates with
  | @spell target own held attached =>
    obtain ⟨-, rfl⟩ := constrain_eq_ok.mp attached
    refine .of_requirements (drop_sameShape p target) rfl fun element => ?_
    simp only [requirements, attributes?_drop, clausesOn_eq_clausesFor, clausesFor_append,
      clausesFor_single]
    by_cases here : element = target
    · subst here
      simp only [held, if_true, Option.map_some]
      exact .some List.perm_append_comm
    · simp only [if_neg here, if_neg (Ne.symm here), List.append_nil]
      cases p.graph.attributes? element with
      | none => exact .none
      | some other => exact .some (.refl _)
  | @regroup blank calls calls' first second same =>
    obtain ⟨-, rfl⟩ := constrainEach_eq_ok.mp first
    obtain ⟨-, rfl⟩ := constrainEach_eq_ok.mp second
    refine .of_requirements (.refl _) rfl fun element => ?_
    simp only [requirements, clausesOn_eq_clausesFor, clausesFor_append]
    cases blank.graph.attributes? element with
    | none => exact .none
    | some own => exact .some (((same element).append_left _).append_left _)

/-- Implicit and explicit requirements agree: an element's attributes can be required by a
constraint instead, and patterns that restate each other, in any number of steps, have the
same embeddings in the same order in every host, however it is searched and whenever the search
has to stop. -/
theorem restatement_agrees :
    (∀ (p : Pattern) element own, p.graph.attributes? element = some own →
      ∃ q, (p.drop element).constrain element (.ofAttributes own) = .ok q ∧ p.Restates q ∧
        q.graph.attributes? element = some .empty ∧
        ∀ other, other ≠ element → q.graph.attributes? other = p.graph.attributes? other) ∧
    ∀ p q, Relation.EqvGen Restates p q → ∀ (host : Graph) (strategy : Strategy),
      strategy.matcher.findAll q host = strategy.matcher.findAll p host ∧
      ∀ deadline, strategy.find deadline q host = strategy.find deadline p host := by
  refine ⟨fun p element own held => ?_, fun p q restated host strategy => ?_⟩
  · obtain ⟨q, attached, dropped, kept⟩ := spell_total held
    exact ⟨q, attached, .spell held attached, dropped, kept⟩
  · have outcomes : ∀ deadline, strategy.find deadline q host = strategy.find deadline p host := by
      intro deadline
      induction restated with
      | rel p q step => exact find_alike step.alike strategy deadline
      | refl p => rfl
      | symm p q _ ih => exact ih.symm
      | trans p q r _ _ first second => exact second.trans first
    exact ⟨congrArg SearchOutcome.embeddings (outcomes fun _ => .never), outcomes⟩

/-- An arrow from a vertex whose tag is 1, and which has to have the attribute `size`. -/
def tagged : Pattern :=
  { graph := Graph.arrow.modifyAttributes (fun _ => .ofList [("tag", .int 1)]) (.vertex ⟨0⟩)
    edgeMode := .directed
    attached := [(.vertex ⟨0⟩, Constraint.empty.push "size" Condition.present)] }

/-- An arrow without attributes, one constraint on whose source says the same in another order. -/
def spelled : Pattern :=
  { graph := .arrow
    edgeMode := .directed
    attached := [(.vertex ⟨0⟩,
      (Constraint.empty.push "tag" (Condition.equals (.int 1))).push "size" Condition.present)] }

/-- An arrow whose source has the tag 1 and a size. -/
def sized : Graph :=
  Graph.arrow.modifyAttributes (fun _ => .ofList [("size", .int 3), ("tag", .int 1)]) (.vertex ⟨0⟩)

theorem spelled_agrees : ∀ strategy : Strategy,
    strategy.matcher.findAll spelled sized = strategy.matcher.findAll tagged sized ∧
      strategy.matcher.findAll tagged sized =
        [⟨.ofList [(⟨0⟩, ⟨0⟩), (⟨1⟩, ⟨1⟩)], .ofList [(⟨0⟩, ⟨0⟩)]⟩] := by
  let source : Element := .vertex ⟨0⟩
  let size : Constraint := Constraint.empty.push "size" Condition.present
  let required : Constraint := .ofAttributes (.ofList [("tag", .int 1)])
  let step : Pattern := { tagged.drop source with attached := [(source, size), (source, required)] }
  have held : tagged.graph.attributes? source = some (.ofList [("tag", .int 1)]) := rfl
  have first : tagged.Restates step := .spell held rfl
  have apart : (ofGraph .arrow .directed).constrainEach [(source, size), (source, required)] =
    .ok step := rfl
  have together : (ofGraph .arrow .directed).constrainEach spelled.attached = .ok spelled := rfl
  have second : step.Restates spelled := by
    refine .regroup apart together fun element => ?_
    by_cases here : source = element
    · subst here
      exact .swap ..
    · rw [spelled, clausesFor_single, if_neg here, clausesFor, List.filter_eq_nil_iff.mpr]
      · exact .refl _
      · simp [here]
  intro strategy
  have found : strategy.matcher.findAll tagged sized =
      [⟨.ofList [(⟨0⟩, ⟨0⟩), (⟨1⟩, ⟨1⟩)], .ofList [(⟨0⟩, ⟨0⟩)]⟩] := by
    rw [Strategy.findAll_eq]
    decide
  have restated : Relation.EqvGen Restates tagged spelled :=
    .trans _ _ _ (.rel _ _ first) (.rel _ _ second)
  exact ⟨(restatement_agrees.2 _ _ restated sized strategy).1, found⟩

end Pattern

end GraphTransformation
