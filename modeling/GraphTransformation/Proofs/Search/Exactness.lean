import GraphTransformation.Proofs.History
import GraphTransformation.Proofs.Search.Pruning

/-!
The search finds exactly the occurrences.

`Search.Finds` says that a sequence of events finds the embeddings of a kind, each
once. A search that goes on from a part of an occurrence finds the occurrences
that extend the part (`Exact`), given that its plan fits what is placed
(`PlanFits`): for the edges of a step by induction on the edges, for the steps by
induction on the plan. The plan that is made fits from the start (`steps_fit`).
-/

namespace GraphTransformation.Search

variable {pattern : Pattern} {host : Graph} {placed : List VertexId} {assigned : List EdgeId}
  {m n : Embedding}

/-! ### What a sequence of events finds -/

/-- The events find the embeddings that satisfy `S`, each of them once. -/
structure Finds (events : List SearchEvent) (S : Embedding → Prop) : Prop where
  nodup : (events.filterMap (·.embedding?)).Nodup
  mem : ∀ n, n ∈ events.filterMap (·.embedding?) ↔ S n

theorem Finds.nothing {S : Embedding → Prop} (none : ∀ n, ¬ S n) : Finds [] S where
  nodup := List.nodup_nil
  mem n := iff_of_false List.not_mem_nil (none n)

theorem Finds.found (m : Embedding) : Finds [.check, .found m] (· = m) where
  nodup := by simp [SearchEvent.embedding?]
  mem n := by simp [SearchEvent.embedding?]

theorem Finds.check {events : List SearchEvent} {S : Embedding → Prop} (finds : Finds events S) :
    Finds (.check :: events) S := ⟨finds.nodup, finds.mem⟩

theorem Finds.congr {events : List SearchEvent} {S T : Embedding → Prop} (finds : Finds events S)
    (same : ∀ n, S n ↔ T n) : Finds events T := ⟨finds.nodup, fun n => (finds.mem n).trans (same n)⟩

/-- Searches one after another that find different embeddings. -/
theorem Finds.flatMap {α : Type} {choices : List α} {search : α → List SearchEvent}
    {S : α → Embedding → Prop} (distinct : choices.Nodup)
    (each : ∀ a ∈ choices, Finds (search a) (S a)) (apart : ∀ {a b n}, S a n → S b n → a = b) :
    Finds (choices.flatMap search) fun n => ∃ a ∈ choices, S a n := by
  have events : (choices.flatMap search).filterMap (·.embedding?) =
      choices.flatMap fun a => (search a).filterMap (·.embedding?) := List.filterMap_flatMap
  constructor
  · rw [events]
    refine List.pairwise_flatMap.mpr ⟨fun a mem => (each a mem).nodup, ?_⟩
    refine List.Pairwise.imp_of_mem (fun {a b} memA memB ne n inA k inB eq => ?_) distinct
    exact ne (apart (((each a memA).mem n).mp inA) (((each b memB).mem n).mp (eq ▸ inB)))
  · intro n
    rw [events, List.mem_flatMap]
    exact exists_congr fun a => and_congr_right fun mem => (each a mem).mem n

/-! ### One step -/

/-- From every part of an occurrence on these elements the search finds the occurrences
that extend it. -/
def Exact (pattern : Pattern) (host : Graph) (placed : List VertexId) (assigned : List EdgeId)
    (search : Embedding → List SearchEvent) : Prop :=
  ∀ m, m.EmbedsPart pattern host placed assigned →
    Finds (search m) fun n => n.Occurs pattern host ∧ n.Extends m

/-- The pattern edge is still to be assigned, and both its ends are placed. -/
def Assignable (pattern : Pattern) (placed : List VertexId) (assigned : List EdgeId)
    (e : EdgeId) : Prop :=
  e ∉ assigned ∧ ∃ a, pattern.graph.edge? e = some a ∧ a.source ∈ placed ∧ a.target ∈ placed

theorem edgeCandidates_increasing {e : EdgeId} :
    SortedMap.Increasing (edgeCandidates pattern host e m) := by
  rw [edgeCandidates]
  split
  · exact .nil
  · split
    · exact (host.edgesBetween_increasing _ _ _).filter _
    · exact .nil

/-- Edges are assigned one after another, so the induction moves each from the list to
the assigned ones; what is searched after them sees all of them assigned. -/
theorem assignEdges_exact (cons : host.Consistent) {next : Embedding → List SearchEvent}
    {es : List EdgeId} (distinct : es.Nodup)
    (assignable : ∀ e ∈ es, Assignable pattern placed assigned e)
    (exact : Exact pattern host placed (es ++ assigned) next) :
    Exact pattern host placed assigned (assignEdges pattern host next es) := by
  induction es generalizing assigned with
  | nil => exact exact
  | cons e rest ih =>
    obtain ⟨absent, distinct⟩ := List.nodup_cons.mp distinct
    have later :
        Exact pattern host placed (e :: assigned) (assignEdges pattern host next rest) := by
      refine ih distinct (fun e' mem => ?_) fun m part => ?_
      · obtain ⟨new, ends⟩ := assignable e' (List.mem_cons_of_mem _ mem)
        have other : e' ≠ e := fun eq => absent (eq ▸ mem)
        exact ⟨by simp [other, new], ends⟩
      · refine exact m (part.congr (fun _ => .rfl) fun k => ?_)
        simp [or_left_comm]
    intro m part
    obtain ⟨new, a, inPattern, source, target⟩ := assignable e List.mem_cons_self
    have each : ∀ h ∈ edgeCandidates pattern host e m,
        Finds (assignEdges pattern host next rest (mapEdge m e h)) fun n =>
          (n.Occurs pattern host ∧ n.Extends m) ∧ n.edge? e = some h := by
      intro h candidate
      refine (later _ (part.mapEdge cons candidate)).congr fun n => ?_
      rw [Embedding.extends_mapEdge (part.edge?_eq_none new), and_assoc]
    refine (Finds.flatMap edgeCandidates_increasing.nodup each ?_).congr fun n => ?_
    · rintro h k n ⟨-, left⟩ ⟨-, right⟩
      exact Option.some.inj (left.symm.trans right)
    · constructor
      · rintro ⟨h, -, occurs, -⟩
        exact occurs
      · rintro ⟨occurs, more⟩
        obtain ⟨h, candidate, image⟩ :=
          occurs.mem_edgeCandidates cons part more new inPattern source target
        exact ⟨h, candidate, ⟨occurs, more⟩, image⟩

/-- The step places a new pattern vertex and covers edges that can then be assigned; its
anchor is joined to the vertex. -/
structure StepFits (pattern : Pattern) (host : Graph) (placed : List VertexId)
    (assigned : List EdgeId) (step : PlanStep) : Prop where
  new : step.vertex ∉ placed
  member : step.vertex ∈ pattern.graph.vertexIds
  candidates : step.candidates = Plan.candidates pattern host step.vertex
  anchored : ∀ {a}, step.anchor = some a → ∃ e x, pattern.graph.edge? e = some x ∧
    if a.outgoing then x.source = a.vertex ∧ x.target = step.vertex
    else x.source = step.vertex ∧ x.target = a.vertex
  distinct : step.covered.Nodup
  assignable : ∀ e ∈ step.covered, Assignable pattern (step.vertex :: placed) assigned e

variable {step : PlanStep} {h : VertexId}

theorem mem_candidates_of_mem_stepCandidates (mem : h ∈ stepCandidates pattern host step m) :
    h ∈ step.candidates := by
  rw [stepCandidates] at mem
  split at mem
  · exact mem
  · split at mem
    · exact mem
    · simpa using (List.mem_filter.mp mem).2

theorem stepCandidates_increasing (inc : SortedMap.Increasing step.candidates) :
    SortedMap.Increasing (stepCandidates pattern host step m) := by
  rw [stepCandidates]
  split
  · exact inc
  · split
    · exact inc
    · exact (SortedMap.distinct_increasing _).filter _

theorem StepFits.mem_stepCandidates (fits : StepFits pattern host placed assigned step)
    (lhs : pattern.graph.Consistent) (cons : host.Consistent) (occurs : n.Occurs pattern host)
    (more : n.Extends m) (image : n.vertex? step.vertex = some h) :
    h ∈ stepCandidates pattern host step m := by
  have candidate : h ∈ step.candidates := by
    rw [fits.candidates]
    exact (mem_candidates cons).mpr
      ⟨occurs.vertex_admitted image, occurs.hasRoom lhs cons image⟩
  rw [stepCandidates]
  split
  · exact candidate
  · rename_i a anchor
    split
    · exact candidate
    · rename_i near placedNear
      refine List.mem_filter.mpr ⟨(mem_neighbours cons).mpr ?_, by simpa using candidate⟩
      obtain ⟨e, x, inPattern, ends⟩ := fits.anchored anchor
      obtain ⟨k, found⟩ := occurs.edge?_isSome_of inPattern
      obtain ⟨y, s, t, stored, source, target, joins⟩ := occurs.image_joins inPattern found
      refine ⟨k, y, stored, ?_⟩
      split at ends
      · rename_i outgoing
        rw [ends.1, more.vertices placedNear] at source
        rw [ends.2, image] at target
        cases source
        cases target
        rw [if_pos outgoing]
        exact joins
      · rename_i incoming
        rw [ends.1, image] at source
        rw [ends.2, more.vertices placedNear] at target
        cases source
        cases target
        rw [if_neg incoming]
        exact joins

/-- A candidate that is an image already is the image of this vertex in no occurrence. -/
theorem tryVertex_finds (cons : host.Consistent)
    (fits : StepFits pattern host placed assigned step)
    {next : Embedding → List SearchEvent}
    (exact : Exact pattern host (step.vertex :: placed) (step.covered ++ assigned) next)
    (part : m.EmbedsPart pattern host placed assigned)
    (candidate : h ∈ stepCandidates pattern host step m) :
    Finds (tryVertex pattern host next step m h) fun n =>
      (n.Occurs pattern host ∧ n.Extends m) ∧ n.vertex? step.vertex = some h := by
  have unplaced := part.vertex?_eq_none fits.new
  rw [tryVertex]
  split
  · rename_i taken
    refine .nothing ?_
    rintro n ⟨⟨occurs, more⟩, image⟩
    obtain ⟨q, earlier⟩ := Embedding.mem_hostVertices.mp (List.contains_iff_mem.mp taken)
    have same : q = step.vertex := occurs.vertex_injective (more.vertices earlier) image
    rw [same, unplaced] at earlier
    cases earlier
  · rename_i free
    have allowed := mem_candidates_of_mem_stepCandidates candidate
    rw [fits.candidates] at allowed
    obtain ⟨⟨x, stored, admitted⟩, -⟩ := (mem_candidates cons).mp allowed
    have grown := part.mapVertex fits.new (fun mem => free (List.contains_iff_mem.mpr mem))
      stored admitted
    refine (assignEdges_exact cons fits.distinct fits.assignable exact _ grown).congr fun n => ?_
    rw [Embedding.extends_mapVertex unplaced, and_assoc]

/-- A step keeps the search exact. -/
theorem StepFits.exact (fits : StepFits pattern host placed assigned step)
    (lhs : pattern.graph.Consistent) (cons : host.Consistent)
    {next : Embedding → List SearchEvent}
    (exact : Exact pattern host (step.vertex :: placed) (step.covered ++ assigned) next) :
    Exact pattern host placed assigned fun m => .check ::
      (stepCandidates pattern host step m).flatMap (tryVertex pattern host next step m) := by
  intro m part
  have distinct : (stepCandidates pattern host step m).Nodup :=
    (stepCandidates_increasing (fits.candidates ▸ candidates_increasing cons)).nodup
  refine ((Finds.flatMap distinct (fun h candidate =>
    tryVertex_finds cons fits exact part candidate) ?_).congr fun n => ?_).check
  · rintro h k n ⟨-, left⟩ ⟨-, right⟩
    exact Option.some.inj (left.symm.trans right)
  · constructor
    · rintro ⟨h, -, occurs, -⟩
      exact occurs
    · rintro ⟨occurs, more⟩
      obtain ⟨h, image⟩ := occurs.vertex?_isSome fits.member
      exact ⟨h, fits.mem_stepCandidates lhs cons occurs more image, ⟨occurs, more⟩, image⟩

/-! ### Whole plans -/

/-- The steps place what is left of the pattern's vertices, and cover what is left of
its edges. -/
inductive PlanFits (pattern : Pattern) (host : Graph) :
    List PlanStep → List VertexId → List EdgeId → Prop where
  | done {placed : List VertexId} {assigned : List EdgeId} :
    (∀ v, v ∈ placed ↔ v ∈ pattern.graph.vertexIds) →
    (∀ e, e ∈ assigned ↔ e ∈ pattern.graph.edgeIds) → PlanFits pattern host [] placed assigned
  | step {step : PlanStep} {rest : List PlanStep} {placed : List VertexId}
    {assigned : List EdgeId} : StepFits pattern host placed assigned step →
    PlanFits pattern host rest (step.vertex :: placed) (step.covered ++ assigned) →
    PlanFits pattern host (step :: rest) placed assigned

/-- A search by a plan that fits is exact. -/
theorem PlanFits.exact {steps : List PlanStep} (fits : PlanFits pattern host steps placed assigned)
    (lhs : pattern.graph.Consistent) (cons : host.Consistent) :
    Exact pattern host placed assigned (extend pattern host steps) := by
  induction fits with
  | done vertices edges =>
    intro m part
    have whole : m.Occurs pattern host := part.congr vertices edges
    refine (Finds.found m).congr fun n => ⟨?_, ?_⟩
    · rintro rfl
      exact ⟨whole, id, id⟩
    · rintro ⟨occurs, more⟩
      exact occurs.eq_of_extends whole more
  | step fits _ ih => exact fits.exact lhs cons ih

/-! ### The plan that is made -/

theorem opposite_eq_some {x : Edge} {v w : VertexId} : x.opposite v = some w ↔
    (x.source = v ∧ x.target = w) ∨ (x.source ≠ v ∧ x.target = v ∧ x.source = w) := by
  rw [Edge.opposite]
  by_cases source : v = x.source
  · simp [source]
  · by_cases target : v = x.target
    · rw [if_neg source, if_pos target]
      simp [Ne.symm source, ← target]
    · simp [source, target, Ne.symm source, Ne.symm target]

theorem joinsPlaced_iff {g : Graph} {v : VertexId} {e : EdgeId} :
    Plan.joinsPlaced g placed v e = true ↔
      ∃ x w, g.edge? e = some x ∧ x.opposite v = some w ∧ w ∈ placed := by
  simp only [Plan.joinsPlaced, Option.any_eq_true, Option.bind_eq_some_iff, List.contains_iff_mem]
  constructor
  · rintro ⟨w, ⟨x, stored, opposite⟩, mem⟩
    exact ⟨x, w, stored, opposite, mem⟩
  · rintro ⟨x, w, stored, opposite, mem⟩
    exact ⟨w, ⟨x, stored, opposite⟩, mem⟩

theorem mem_coveredEdges {g : Graph} (cons : g.Consistent) {v : VertexId} {e : EdgeId} :
    e ∈ Plan.coveredEdges g placed v ↔
      ∃ x w, g.edge? e = some x ∧ x.opposite v = some w ∧ w ∈ placed := by
  rw [Plan.coveredEdges, List.mem_filter, joinsPlaced_iff]
  refine and_iff_right_of_imp ?_
  rintro ⟨x, w, stored, opposite, -⟩
  refine cons.mem_incidentEdges.mpr ⟨x, stored, ?_⟩
  rcases opposite_eq_some.mp opposite with ⟨source, -⟩ | ⟨-, target, -⟩
  · exact .inl source
  · exact .inr target

theorem coveredEdges_nodup {g : Graph} {v : VertexId} : (Plan.coveredEdges g placed v).Nodup :=
  (SortedMap.distinct_increasing _).nodup.filter _

/-- An edge is covered as soon as both its ends are placed. -/
theorem mem_coveredEdges_of_placed {g : Graph} (cons : g.Consistent) {v : VertexId} {e : EdgeId}
    {x : Edge} (stored : g.edge? e = some x) (source : x.source ∈ v :: placed)
    (target : x.target ∈ v :: placed) (still : ¬ (x.source ∈ placed ∧ x.target ∈ placed)) :
    e ∈ Plan.coveredEdges g (v :: placed) v := by
  rw [mem_coveredEdges cons]
  by_cases atSource : x.source = v
  · exact ⟨x, _, stored, opposite_eq_some.mpr (.inl ⟨atSource, rfl⟩), target⟩
  · have early := (List.mem_cons.mp source).resolve_left atSource
    have atTarget : x.target = v :=
      (List.mem_cons.mp target).resolve_right fun inside => still ⟨early, inside⟩
    exact ⟨x, _, stored, opposite_eq_some.mpr (.inr ⟨atSource, atTarget, rfl⟩), source⟩

theorem anchor_joined {g : Graph} {v : VertexId} {es : List EdgeId} {a : Anchor}
    (anchor : Plan.anchor? g v es = some a) : ∃ e ∈ es, ∃ x, g.edge? e = some x ∧
      x.isLoop = false ∧ if a.outgoing then x.source = a.vertex ∧ x.target = v
        else x.source = v ∧ x.target = a.vertex := by
  obtain ⟨x, found, along⟩ := Option.bind_eq_some_iff.mp anchor
  obtain ⟨w, opposite, rfl⟩ := Option.map_eq_some_iff.mp along
  obtain ⟨e, covered, stored⟩ := List.mem_filterMap.mp (List.mem_of_find?_eq_some found)
  have noLoop : x.isLoop = false := by simpa using List.find?_some found
  have straight : x.source ≠ x.target := by simpa [Edge.isLoop] using noLoop
  refine ⟨e, covered, x, stored, noLoop, ?_⟩
  rcases opposite_eq_some.mp opposite with ⟨rfl, rfl⟩ | ⟨-, rfl, rfl⟩
  · simp [straight]
  · simp

theorem nextVertex_mem {g : Graph} {remaining : List VertexId} {v : VertexId}
    (next : Plan.nextVertex g placed remaining = some v) : v ∈ remaining := by
  cases remaining with
  | nil => cases next
  | cons first rest =>
    have best : ∀ (l : List VertexId) (b : VertexId), (l.foldl (fun best w =>
        if Plan.outranks g placed w best then w else best) b) ∈ b :: l := by
      intro l
      induction l with
      | nil => simp
      | cons w l ih =>
        intro b
        rw [List.foldl_cons]
        split
        · exact List.mem_cons_of_mem _ (ih w)
        · rcases List.mem_cons.mp (ih b) with here | there
          · rw [here]
            exact List.mem_cons_self
          · exact List.mem_cons_of_mem _ (List.mem_cons_of_mem _ there)
    cases next
    exact best rest first

/-- Once a vertex is placed it is none of the remaining. -/
theorem apart_of_erase {v : VertexId} {remaining : List VertexId} (distinct : remaining.Nodup)
    (apart : ∀ w ∈ remaining, w ∉ placed) : ∀ w ∈ remaining.erase v, w ∉ v :: placed := by
  intro w left
  obtain ⟨other, mem⟩ := distinct.mem_erase_iff.mp left
  simp [other, apart w mem]

/-- The step made for an unplaced vertex fits what is placed, if what is assigned is what
lies between placed vertices. -/
theorem step_fits (lhs : pattern.graph.Consistent) {v : VertexId} (new : v ∉ placed)
    (member : v ∈ pattern.graph.vertexIds)
    (inside : ∀ e, e ∈ assigned ↔
      ∃ x, pattern.graph.edge? e = some x ∧ x.source ∈ placed ∧ x.target ∈ placed) :
    StepFits pattern host placed assigned (Plan.step pattern host (v :: placed) v) where
  new := new
  member := member
  candidates := rfl
  anchored anchor := by
    obtain ⟨e, -, x, stored, -, ends⟩ := anchor_joined anchor
    exact ⟨e, x, stored, ends⟩
  distinct := coveredEdges_nodup
  assignable e mem := by
    obtain ⟨x, w, stored, opposite, placedW⟩ := (mem_coveredEdges lhs).mp mem
    have ends := opposite_eq_some.mp opposite
    refine ⟨fun earlier => ?_, x, stored, ?_⟩
    · obtain ⟨y, stored', source, target⟩ := (inside e).mp earlier
      cases stored.symm.trans stored'
      rcases ends with ⟨atV, -⟩ | ⟨-, atV, -⟩
      · exact new (atV ▸ source)
      · exact new (atV ▸ target)
    · rcases ends with ⟨rfl, rfl⟩ | ⟨-, rfl, rfl⟩
      · exact ⟨List.mem_cons_self, placedW⟩
      · exact ⟨placedW, List.mem_cons_self⟩

/-- With the covered edges of the next vertex, what is assigned is again what lies between
placed vertices. -/
theorem inside_step (lhs : pattern.graph.Consistent) {v : VertexId} (new : v ∉ placed)
    (inside : ∀ e, e ∈ assigned ↔
      ∃ x, pattern.graph.edge? e = some x ∧ x.source ∈ placed ∧ x.target ∈ placed) (e : EdgeId) :
    e ∈ Plan.coveredEdges pattern.graph (v :: placed) v ++ assigned ↔
      ∃ x, pattern.graph.edge? e = some x ∧ x.source ∈ v :: placed ∧ x.target ∈ v :: placed := by
  rw [List.mem_append, inside]
  constructor
  · rintro (covered | ⟨x, stored, source, target⟩)
    · obtain ⟨x, w, stored, opposite, placedW⟩ := (mem_coveredEdges lhs).mp covered
      rcases opposite_eq_some.mp opposite with ⟨rfl, rfl⟩ | ⟨-, rfl, rfl⟩
      · exact ⟨x, stored, List.mem_cons_self, placedW⟩
      · exact ⟨x, stored, placedW, List.mem_cons_self⟩
    · exact ⟨x, stored, List.mem_cons_of_mem _ source, List.mem_cons_of_mem _ target⟩
  · rintro ⟨x, stored, source, target⟩
    by_cases both : x.source ∈ placed ∧ x.target ∈ placed
    · exact .inr ⟨x, stored, both⟩
    · exact .inl (mem_coveredEdges_of_placed lhs stored source target both)

/-- The steps made for the remaining vertices fit what is placed. -/
theorem steps_fit (lhs : pattern.graph.Consistent) {count : Nat} {remaining : List VertexId}
    (partition : ∀ v, v ∈ pattern.graph.vertexIds ↔ v ∈ placed ∨ v ∈ remaining)
    (apart : ∀ v ∈ remaining, v ∉ placed) (distinct : remaining.Nodup)
    (size : remaining.length = count)
    (inside : ∀ e, e ∈ assigned ↔
      ∃ x, pattern.graph.edge? e = some x ∧ x.source ∈ placed ∧ x.target ∈ placed) :
    PlanFits pattern host (Plan.steps pattern host count placed remaining) placed assigned := by
  induction count generalizing placed remaining assigned with
  | zero =>
    cases List.eq_nil_of_length_eq_zero size
    have all : ∀ v, v ∈ placed ↔ v ∈ pattern.graph.vertexIds := by simp [partition]
    refine .done all fun e => ?_
    rw [inside, Graph.edgeIds, SortedMap.mem_keys, SortedMap.contains_iff]
    refine exists_congr fun x => and_iff_left_of_imp fun stored => ?_
    rw [all, all]
    exact ⟨lhs.source_mem stored, lhs.target_mem stored⟩
  | succ count ih =>
    rw [Plan.steps]
    split
    · rename_i none
      cases remaining with
      | nil => cases size
      | cons v rest => cases none
    · rename_i v next
      have mem := nextVertex_mem next
      have new := apart v mem
      refine .step (step_fits lhs new ((partition v).mpr (.inr mem)) inside) ?_
      refine ih (fun w => ?_) (apart_of_erase distinct apart) (distinct.erase v) ?_
        (inside_step lhs new inside)
      · rw [partition, List.mem_cons, distinct.mem_erase_iff]
        by_cases here : w = v
        · simp [here, mem]
        · simp [here]
      · rw [List.length_erase_of_mem mem, size]
        rfl

/-! ### All occurrences -/

theorem searchPlan_fits (lhs : pattern.graph.Consistent) :
    PlanFits pattern host (searchPlan pattern host) [] [] := by
  exact steps_fit lhs (by simp) (by simp) pattern.graph.vertexIds_nodup Graph.length_vertexIds
    (by simp)

/-- The whole search finds the occurrences of the pattern, each once. -/
theorem trace_finds (lhs : pattern.graph.Consistent) (cons : host.Consistent) :
    Finds (trace pattern host) (·.Occurs pattern host) := by
  have exact := (searchPlan_fits lhs).exact lhs cons
  refine (exact _ Embedding.empty_embedsPart).congr fun n => ?_
  exact and_iff_left n.extends_empty

end GraphTransformation.Search

namespace GraphTransformation.Matcher

/-- Without a deadline the sequential matcher gives exactly the occurrences of the pattern,
each once; a pattern without vertices occurs as the empty embedding and in no other way. -/
theorem findAll_exact {pattern : Pattern} {host : Graph} (lhs : pattern.graph.Reachable)
    (reach : host.Reachable) :
    (backtracking.findAll pattern host).Nodup ∧
      (∀ m, m ∈ backtracking.findAll pattern host ↔ m.Occurs pattern host) ∧
      (pattern.graph.isEmpty = true → backtracking.findAll pattern host = [.empty]) := by
  have finds := Search.trace_finds lhs.consistent reach.consistent
  refine ⟨finds.nodup, finds.mem, fun isEmpty => ?_⟩
  have blank : pattern.graph.vertexMap.toList = [] := List.isEmpty_iff.mp isEmpty
  have plan : searchPlan pattern host = [] := by
    simp [searchPlan, Graph.vertexCount, SortedMap.size, blank, Plan.steps]
  simp [findAll, backtracking, Strategy.matcher, Strategy.find, Deadline.outcome, Search.trace, plan, Search.extend,
    SearchEvent.embedding?]

theorem findAll_arrow_undirected :
    let pattern : Pattern := .ofGraph .arrow .undirected
    pattern.graph.Reachable ∧ Graph.arrow.Reachable ∧
      (backtracking.findAll pattern .arrow).length = 2 ∧
      ∀ m ∈ backtracking.findAll pattern .arrow, m.Occurs pattern .arrow := by
  intro pattern
  obtain ⟨-, mem, -⟩ := @findAll_exact pattern _ Graph.arrow_reachable Graph.arrow_reachable
  exact ⟨Graph.arrow_reachable, Graph.arrow_reachable, by decide, fun m => (mem m).mp⟩

end GraphTransformation.Matcher
