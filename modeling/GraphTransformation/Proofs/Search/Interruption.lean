import GraphTransformation.Proofs.Search.Agreement
import GraphTransformation.Proofs.Search.Exactness
import GraphTransformation.Search.Progress

/-!
Searches that are cut short by their deadline.

A search in progress holds one assignment, to which it adds pairs and from which it takes them
back, and heeds a flag that the first late look at its deadline raises. The host elements that it
marks as used are the images of what is assigned (`Assignment.Within`), and it leaves the
assignment as it was, so it does what its trace says up to that look (`PlanFits.explore_replays`),
and a strategy that is carried out in this way has the outcome of its traces
(`Strategy.search_eq_find`). What it finds in time is the beginning of what it finds without a
deadline, and all of it unless the flag was raised (`Strategy.search_cut_short`).
-/

namespace GraphTransformation

namespace Search

variable {pattern : Pattern} {host : Graph} {placed : List VertexId} {assigned : List EdgeId}
  {s : Progress} {a : Assignment} {m : Embedding}

/-! ### Replays of a trace -/

namespace Progress

/-- Goes through events, up to the first look at the deadline that is too late. -/
def replay (s : Progress) : List SearchEvent → Progress
  | [] => s
  | .check :: rest => if s.look.expired then s.look else s.look.replay rest
  | .found m :: rest => replay { s with found := s.found ++ [m] } rest

theorem look_held : s.look.held = s.held := by
  rw [look]
  split
  · rfl
  · split <;> rfl

/-- The deadline does not depend on what is assigned. -/
theorem look_reassign {change : Assignment → Assignment} :
    (s.reassign change).look = s.look.reassign change := by
  obtain ⟨held, deadline, expired, found⟩ := s
  cases expired with
  | true => rfl
  | false =>
    match deadline with
    | .never => rfl
    | .after 0 => rfl
    | .after (_ + 1) => rfl

theorem replay_held {events : List SearchEvent} : (s.replay events).held = s.held := by
  induction events generalizing s with
  | nil => rfl
  | cons event rest ih =>
    cases event with
    | check =>
      rw [replay]
      split
      · exact look_held
      · exact ih.trans look_held
    | found m => exact ih

/-- What is assigned does not change what the events do. -/
theorem replay_reassign {events : List SearchEvent} {change : Assignment → Assignment} :
    (s.reassign change).replay events = (s.replay events).reassign change := by
  induction events generalizing s with
  | nil => rfl
  | cons event rest ih =>
    cases event with
    | check =>
      rw [replay, replay, look_reassign]
      by_cases late : s.look.expired = true
      · rw [if_pos late]
        exact if_pos late
      · rw [if_neg late, ← ih]
        exact if_neg late
    | found n => exact @ih { s with found := s.found ++ [n] }

theorem replay_append {first second : List SearchEvent} (going : s.expired = false) :
    s.replay (first ++ second) =
      if (s.replay first).expired then s.replay first else (s.replay first).replay second := by
  induction first generalizing s with
  | nil => simp [replay, going]
  | cons event rest ih =>
    cases event with
    | check =>
      rw [List.cons_append, replay, replay]
      by_cases late : s.look.expired = true
      · simp [late]
      · rw [if_neg late, if_neg late]
        exact ih (by simpa using late)
    | found n => exact ih going

/-- The outcome of a replay is what is found in time, after what was found before. -/
theorem replay_outcome {events : List SearchEvent} (going : s.expired = false) :
    (s.replay events).outcome =
      ⟨s.found ++ (s.deadline.outcome events).embeddings,
        (s.deadline.outcome events).complete⟩ := by
  induction events generalizing s with
  | nil =>
    cases left : s.deadline with
    | never => simp [replay, outcome, Deadline.outcome, going]
    | after checks =>
      simp [replay, outcome, Deadline.outcome, outcomeAfter, SearchOutcome.nothing, going]
  | cons event rest ih =>
    cases event with
    | found n =>
      have after := @ih { s with found := s.found ++ [n] } going
      rw [replay, after]
      cases s.deadline with
      | never => simp [Deadline.outcome, SearchEvent.embedding?]
      | after checks => simp [Deadline.outcome, outcomeAfter, SearchOutcome.cons]
    | check =>
      rw [replay]
      cases left : s.deadline with
      | never =>
        have same : s.look = s := by simp [look, left]
        rw [same, going, if_neg Bool.false_ne_true, ih going, left]
        simp [Deadline.outcome, SearchEvent.embedding?]
      | after checks =>
        cases checks with
        | zero => simp [look, going, left, outcome, Deadline.outcome, outcomeAfter]
        | succ checks =>
          have next : s.look = { s with deadline := .after checks } := by simp [look, going, left]
          rw [next, if_neg (by simp [going])]
          exact @ih { s with deadline := .after checks } going

end Progress

/-! ### What is held -/

namespace Assignment

/-- The pairs are of these elements at most, and the host elements in use are their images. -/
structure Within (placed : List VertexId) (assigned : List EdgeId) (a : Assignment) : Prop where
  vertices : ∀ v, v ∉ placed → a.part.vertex? v = none
  edges : ∀ e, e ∉ assigned → a.part.edge? e = none
  usedVertices : ∀ h, a.usedVertices.contains h = true ↔ h ∈ a.part.hostVertices
  usedEdges : ∀ h, a.usedEdges.contains h = true ↔ h ∈ a.part.hostEdges

theorem empty_within : Within [] [] empty where
  vertices _ _ := rfl
  edges _ _ := rfl
  usedVertices h := by simp [empty, Embedding.mem_hostVertices, Embedding.vertex?, Embedding.empty]
  usedEdges h := by simp [empty, Embedding.mem_hostEdges, Embedding.edge?, Embedding.empty]

theorem Within.takeVertex (within : Within placed assigned a) {v : VertexId} (new : v ∉ placed)
    (h : VertexId) : Within (v :: placed) assigned (a.takeVertex v h) where
  vertices w unplaced := by
    obtain ⟨other, unplaced⟩ := not_or.mp (mt List.mem_cons.mpr unplaced)
    rw [Assignment.takeVertex, Embedding.vertex?_mapVertex, if_neg other]
    exact within.vertices w unplaced
  edges := within.edges
  usedVertices k := by
    rw [Assignment.takeVertex, SortedMap.contains_insert, within.usedVertices,
      Embedding.mem_hostVertices_mapVertex (within.vertices v new)]
  usedEdges := within.usedEdges

theorem Within.takeEdge (within : Within placed assigned a) {e : EdgeId} (new : e ∉ assigned)
    (h : EdgeId) : Within placed (e :: assigned) (a.takeEdge e h) where
  vertices := within.vertices
  edges k unassigned := by
    obtain ⟨other, unassigned⟩ := not_or.mp (mt List.mem_cons.mpr unassigned)
    rw [Assignment.takeEdge, Embedding.edge?_mapEdge, if_neg other]
    exact within.edges k unassigned
  usedVertices := within.usedVertices
  usedEdges k := by
    rw [Assignment.takeEdge, SortedMap.contains_insert, within.usedEdges,
      Embedding.mem_hostEdges_mapEdge (within.edges e new)]

/-- A pair of a vertex that had no image and a host vertex that was not in use is taken back
without a trace. -/
theorem releaseVertex_takeVertex {p h : VertexId} (new : a.part.vertex? p = none)
    (unused : ¬ a.usedVertices.contains h = true) : (a.takeVertex p h).releaseVertex p h = a := by
  have pairs : (a.part.vertexMap.insert p h).erase p = a.part.vertexMap :=
    SortedMap.erase_insert new
  have used : (a.usedVertices.insert h ()).erase h = a.usedVertices :=
    SortedMap.erase_insert (SortedMap.get?_eq_none_of_not_contains unused)
  simp only [takeVertex, releaseVertex, mapVertex, pairs, used]

theorem releaseEdge_takeEdge {p h : EdgeId} (new : a.part.edge? p = none)
    (unused : ¬ a.usedEdges.contains h = true) : (a.takeEdge p h).releaseEdge p h = a := by
  have pairs : (a.part.edgeMap.insert p h).erase p = a.part.edgeMap := SortedMap.erase_insert new
  have used : (a.usedEdges.insert h ()).erase h = a.usedEdges :=
    SortedMap.erase_insert (SortedMap.get?_eq_none_of_not_contains unused)
  simp only [takeEdge, releaseEdge, mapEdge, pairs, used]

end Assignment

/-! ### Stages of a search -/

/-- As long as the deadline is not known to have passed, and the assignment is of these elements
at most, the stage does what the events say. -/
def Replays (placed : List VertexId) (assigned : List EdgeId) (stage : Progress → Progress)
    (events : Embedding → List SearchEvent) : Prop :=
  ∀ s : Progress, s.expired = false → s.held.Within placed assigned →
    stage s = s.replay (events s.held.part)

/-- Visits that leave the assignment as they find it do what their events say one after
another. -/
theorem visitEach_replays {α : Type} {visit : α → Progress → Progress} {choices : List α}
    {events : α → List SearchEvent} (going : s.expired = false)
    (each : ∀ c t, t.expired = false → t.held = s.held → visit c t = t.replay (events c)) :
    visitEach visit choices s = s.replay (choices.flatMap events) := by
  induction choices generalizing s with
  | nil => rfl
  | cons c rest ih =>
    rw [visitEach, each c s going rfl, List.flatMap_cons, Progress.replay_append going]
    by_cases late : (s.replay (events c)).expired = true
    · rw [if_pos late, if_pos late]
    · rw [if_neg late, if_neg late]
      refine ih (by simpa using late) fun b t going' same => ?_
      exact each b t going' (same.trans Progress.replay_held)

/-- What is gone through between two changes to the assignment that cancel out is gone through
as without them. -/
theorem Progress.replay_between {events : List SearchEvent}
    {change back : Assignment → Assignment} (cancel : back (change s.held) = s.held) :
    ((s.reassign change).replay events).reassign back = s.replay events := by
  rw [← @replay_held s events] at cancel
  rw [replay_reassign, reassign, reassign, cancel]

/-- The edges to try are those of the joining edges that are not passed over. -/
theorem edgeCandidates_eq {p : EdgeId} : edgeCandidates pattern host p m =
    (joiningEdges pattern host p m).filter fun h =>
      !m.hostEdges.contains h && admitsEdge pattern host p h := by
  rw [edgeCandidates, joiningEdges]
  cases pattern.graph.edge? p with
  | none => rfl
  | some edge =>
    cases source : m.vertex? edge.source <;> cases target : m.vertex? edge.target <;>
      simp [source, target]

theorem flatMap_filter {α β : Type} {l : List α} {test : α → Bool} {f : α → List β} :
    (l.filter test).flatMap f = l.flatMap fun c => if test c then f c else [] := by
  induction l with
  | nil => rfl
  | cons c rest ih =>
    rw [List.flatMap_cons, ← ih, List.filter_cons]
    split <;> rfl

/-- As in the trace, the induction moves each edge from the list to the assigned ones. -/
theorem exploreEdges_replays {next : Progress → Progress}
    {nextEvents : Embedding → List SearchEvent} {es : List EdgeId} (distinct : es.Nodup)
    (new : ∀ e ∈ es, e ∉ assigned) (replays : Replays placed (es ++ assigned) next nextEvents) :
    Replays placed assigned (exploreEdges pattern host next es)
      (assignEdges pattern host nextEvents es) := by
  induction es generalizing assigned with
  | nil => exact replays
  | cons e rest ih =>
    obtain ⟨absent, distinct⟩ := List.nodup_cons.mp distinct
    have later : Replays placed (e :: assigned) (exploreEdges pattern host next rest)
        (assignEdges pattern host nextEvents rest) := by
      refine ih distinct (fun e' mem => ?_) fun s going within => replays s going ?_
      · have other : e' ≠ e := fun eq => absent (eq ▸ mem)
        simp [other, new e' (List.mem_cons_of_mem _ mem)]
      · exact { within with
          edges := fun k unassigned => within.edges k fun mem =>
            unassigned (by simpa [or_left_comm] using mem) }
    intro s going within
    rw [exploreEdges, assignEdges, edgeCandidates_eq, flatMap_filter]
    refine visitEach_replays going fun h t going' same => ?_
    rw [← same] at within ⊢
    have free : t.held.part.edge? e = none := within.edges e (new e List.mem_cons_self)
    by_cases used : t.held.usedEdges.contains h = true
    · have image : h ∈ t.held.part.hostEdges := (within.usedEdges h).mp used
      simp [used, image, Progress.replay]
    · have unused : h ∉ t.held.part.hostEdges := mt (within.usedEdges h).mpr used
      rw [if_neg used]
      by_cases admitted : admitsEdge pattern host e h = true
      · simp only [admitted, if_true]
        rw [later (t.reassign (·.takeEdge e h)) going'
          (within.takeEdge (new e List.mem_cons_self) h)]
        rw [if_pos (by simp [unused])]
        exact Progress.replay_between (Assignment.releaseEdge_takeEdge free used)
      · simp [admitted, Progress.replay]

theorem StepFits.exploreVertex_replays {step : PlanStep}
    (fits : StepFits pattern host placed assigned step) {next : Progress → Progress}
    {nextEvents : Embedding → List SearchEvent}
    (replays : Replays (step.vertex :: placed) (step.covered ++ assigned) next nextEvents)
    (candidate : VertexId) :
    Replays placed assigned (exploreVertex pattern host next step candidate) fun m =>
      tryVertex pattern host nextEvents step m candidate := by
  intro s going within
  simp only [exploreVertex, tryVertex]
  by_cases used : s.held.usedVertices.contains candidate = true
  · have image := List.contains_iff_mem.mpr ((within.usedVertices candidate).mp used)
    rw [if_pos used, if_pos image, Progress.replay]
  · have unused := mt List.contains_iff_mem.mp (mt (within.usedVertices candidate).mpr used)
    rw [if_neg used, if_neg unused]
    have covered : Replays (step.vertex :: placed) assigned
        (exploreEdges pattern host next step.covered)
        (assignEdges pattern host nextEvents step.covered) :=
      exploreEdges_replays fits.distinct (fun e mem => (fits.assignable e mem).1) replays
    rw [covered (s.reassign (·.takeVertex step.vertex candidate)) going
      (within.takeVertex fits.new candidate)]
    exact Progress.replay_between
      (Assignment.releaseVertex_takeVertex (within.vertices _ fits.new) used)

/-- A search by a plan that fits does what its trace says. -/
theorem PlanFits.explore_replays {steps : List PlanStep}
    (fits : PlanFits pattern host steps placed assigned) :
    Replays placed assigned (explore pattern host steps) (extend pattern host steps) := by
  induction fits with
  | done =>
    intro s _ _
    rw [explore, extend, Progress.replay]
    split
    · rfl
    · rw [← Progress.look_held (s := s)]
      rfl
  | step fits _ ih =>
    intro s _ within
    rw [explore, extend, Progress.replay]
    split
    · rfl
    · rename_i inTime
      rw [Progress.look_held]
      refine visitEach_replays (by simpa using inTime) fun candidate t going same => ?_
      rw [Progress.look_held] at same
      rw [← same] at within ⊢
      exact fits.exploreVertex_replays ih candidate t going within

/-- A search from one candidate of the first step does what its branch says. -/
theorem PlanFits.exploreFrom_replays {root : PlanStep} {rest : List PlanStep}
    (fits : PlanFits pattern host (root :: rest) placed assigned) (candidate : VertexId) :
    Replays placed assigned (exploreFrom pattern host root rest candidate) fun m =>
      .check :: tryVertex pattern host (extend pattern host rest) root m candidate := by
  intro s _ within
  rw [exploreFrom, Progress.replay]
  split
  · rfl
  · rename_i inTime
    cases fits with
    | step fits later =>
      rw [← Progress.look_held (s := s)] at within ⊢
      have going : s.look.expired = false := by simpa using inTime
      exact fits.exploreVertex_replays later.explore_replays candidate s.look going within

/-- A search that does what its events say has their outcome. -/
theorem Replays.outcome {stage : Progress → Progress} {events : Embedding → List SearchEvent}
    (replays : Replays [] [] stage events) (d : Deadline) :
    (stage (.start d)).outcome = d.outcome (events .empty) := by
  rw [replays (.start d) rfl Assignment.empty_within, Progress.replay_outcome rfl]
  rfl

end Search

namespace Strategy

variable {pattern : Pattern} {host : Graph} {strategy : Strategy} {deadline : Nat → Deadline}

/-- Carried out step by step, a strategy has the outcome of its traces. -/
theorem search_eq_find (lhs : pattern.graph.Consistent) :
    strategy.search deadline pattern host = strategy.find deadline pattern host := by
  have fits := @Search.searchPlan_fits pattern host lhs
  cases strategy with
  | backtracking => exact fits.explore_replays.outcome (deadline 0)
  | parallel =>
    rw [search, find, Search.branches]
    cases plan : searchPlan pattern host with
    | nil =>
      rw [plan] at fits
      simp only [List.mapIdx_singleton, SearchOutcome.merge_eq]
      rw [fits.explore_replays.outcome (deadline 0)]
      simp
    | cons root rest =>
      rw [plan] at fits
      refine congrArg SearchOutcome.merge (List.ext_getElem (by simp) fun i _ _ => ?_)
      simp only [List.getElem_mapIdx, List.getElem_map]
      exact (fits.exploreFrom_replays _).outcome (deadline i)

/-- Whatever the deadlines, those of the branches of a parallel search apart from one another, a
search that goes on step by step until it sees that its deadline has passed ends with the outcome
of the matcher. The outcome is part of what is found without a deadline, in the same order and,
in a sequential search, from its beginning, and it is all of that if it is complete. So a
production has all its matches in time, or none. -/
theorem search_cut_short (lhs : pattern.graph.Reachable) (host : Graph) (strategy : Strategy)
    (deadline : Nat → Deadline) :
    let all := strategy.matcher.findAll pattern host
    let outcome := strategy.matcher.find deadline pattern host
    strategy.search deadline pattern host = outcome ∧
      (outcome.complete = true → outcome.embeddings = all) ∧
      outcome.embeddings.Sublist all ∧
      (strategy = .backtracking → outcome.embeddings <+: all) ∧
      ∀ p : Production, p.lhs = pattern → p.findMatchesWithin host strategy.matcher deadline =
        if outcome.complete then some (p.findMatches host strategy.matcher) else none := by
  intro all outcome
  have found : all = Search.found (Search.trace pattern host) := findAll_eq
  have whole : outcome.complete = true → outcome.embeddings = all := by
    intro complete
    rw [found]
    exact find_complete complete
  refine ⟨search_eq_find lhs.consistent, whole, found ▸ find_sublist, ?_, ?_⟩
  · rintro rfl
    rw [found]
    exact (deadline 0).outcome_prefix_found _
  · rintro p rfl
    by_cases complete : outcome.complete = true
    · rw [Production.findMatchesWithin, if_pos complete, if_pos complete, whole complete]
      rfl
    · rw [Production.findMatchesWithin, if_neg complete, if_neg complete]

/-- An undirected arrow is looked for in an arrow, where it occurs in both directions. A sequential
search whose deadline lasts for three looks finds one of them, and a parallel one whose first
branch has no time and whose second has enough finds the other. -/
theorem search_arrow_cut_short :
    let pattern : Pattern := .ofGraph .arrow .undirected
    let late : Nat → Deadline := fun _ => .after 3
    let uneven : Nat → Deadline := fun i => if i = 0 then .past else .never
    pattern.graph.Reachable ∧
      (backtracking.search late pattern .arrow).complete = false ∧
      (backtracking.search late pattern .arrow).embeddings.length = 1 ∧
      (backtracking.search late pattern .arrow).embeddings <+:
        Matcher.backtracking.findAll pattern .arrow ∧
      (parallel.search uneven pattern .arrow).complete = false ∧
      (parallel.search uneven pattern .arrow).embeddings =
        (Matcher.parallel.findAll pattern .arrow).drop 1 ∧
      (parallel.search uneven pattern .arrow).embeddings.Sublist
        (Matcher.parallel.findAll pattern .arrow) := by
  intro pattern late uneven
  have reach : pattern.graph.Reachable := Graph.arrow_reachable
  obtain ⟨stepwise, -, -, initial, -⟩ := search_cut_short reach .arrow backtracking late
  obtain ⟨branchwise, -, part, -, -⟩ := search_cut_short reach .arrow parallel uneven
  rw [stepwise, branchwise]
  exact ⟨reach, by decide, by decide, initial rfl, by decide, by decide, part⟩

end Strategy

end GraphTransformation
