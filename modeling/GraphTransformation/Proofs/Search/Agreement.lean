import GraphTransformation.Search.Matcher

/-!
The strategies agree.

Whatever its deadline, a search that is complete has gone through its whole trace
(`Deadline.outcome_complete`), and one that is not has found the beginning of what the
trace finds (`Deadline.outcome_prefix_found`). The branches of a parallel search, one after
another, are the trace of the sequential one apart from its first look at the deadline
(`branches_found`), so both strategies give the same embeddings in the same order
whenever they are complete (`find_complete`), and without a deadline they are
(`find_never`).
-/

namespace GraphTransformation

/-! ### Whole searches -/

namespace Search

/-- The embeddings that a sequence of events finds, in order. -/
def found (events : List SearchEvent) : List Embedding := events.filterMap (·.embedding?)

variable {pattern : Pattern} {host : Graph}

theorem found_flatMap {α : Type} {choices : List α} {search : α → List SearchEvent} :
    found (choices.flatMap search) = choices.flatMap fun a => found (search a) :=
  List.filterMap_flatMap

/-- The first step has no placed neighbour to search from. -/
theorem stepCandidates_empty {step : PlanStep} :
    stepCandidates pattern host step .empty = step.candidates := by
  rw [stepCandidates]
  cases step.anchor with
  | none => rfl
  | some anchor => rfl

/-- The branches together find what the whole search finds, in the same order. -/
theorem branches_found : (branches pattern host).flatMap found = found (trace pattern host) := by
  rw [branches, trace]
  cases searchPlan pattern host with
  | nil => exact List.flatMap_singleton ..
  | cons root rest =>
    calc (root.candidates.map fun candidate =>
            .check :: tryVertex pattern host (extend pattern host rest) root .empty candidate).flatMap
          found
        = root.candidates.flatMap fun candidate =>
            found (tryVertex pattern host (extend pattern host rest) root .empty candidate) :=
          List.flatMap_map ..
      _ = found (root.candidates.flatMap
            (tryVertex pattern host (extend pattern host rest) root .empty)) := found_flatMap.symm
      _ = found (extend pattern host (root :: rest) .empty) := by
          rw [extend, stepCandidates_empty]
          rfl

end Search

/-! ### Outcomes -/

theorem SearchOutcome.merge_eq {outcomes : List SearchOutcome} :
    merge outcomes = ⟨outcomes.flatMap (·.embeddings), outcomes.all (·.complete)⟩ := by
  have onward : ∀ o, outcomes.foldl append o =
      o.append ⟨outcomes.flatMap (·.embeddings), outcomes.all (·.complete)⟩ := by
    induction outcomes with
    | nil => simp [append]
    | cons first rest ih =>
      intro o
      rw [List.foldl_cons, ih]
      simp [append, Bool.and_assoc]
  rw [merge, onward, append, nothing, List.nil_append, Bool.true_and]

theorem outcomeAfter_complete {checks : Nat} {events : List SearchEvent}
    (complete : (outcomeAfter checks events).complete = true) :
    (outcomeAfter checks events).embeddings = Search.found events := by
  induction checks, events using outcomeAfter.induct with
  | case1 => simp [outcomeAfter, SearchOutcome.nothing, Search.found]
  | case2 checks m rest ih =>
    rw [outcomeAfter] at complete ⊢
    exact congrArg (m :: ·) (ih complete)
  | case3 rest => simp [outcomeAfter] at complete
  | case4 checks rest ih =>
    rw [outcomeAfter] at complete ⊢
    exact ih complete

/-- A search that was not stopped has found all that there is to find. -/
theorem Deadline.outcome_complete {d : Deadline} {events : List SearchEvent}
    (complete : (d.outcome events).complete = true) :
    (d.outcome events).embeddings = Search.found events := by
  cases d with
  | never => rfl
  | after checks => exact outcomeAfter_complete complete

theorem outcomeAfter_prefix_found {checks : Nat} {events : List SearchEvent} :
    (outcomeAfter checks events).embeddings <+: Search.found events := by
  induction checks, events using outcomeAfter.induct with
  | case1 => exact List.prefix_refl _
  | case2 checks m rest ih =>
    rw [outcomeAfter]
    exact (List.prefix_cons_inj m).mpr ih
  | case3 rest => exact List.nil_prefix
  | case4 checks rest ih =>
    rw [outcomeAfter]
    exact ih

/-- What is found in time is the beginning of what is found without a deadline. -/
theorem Deadline.outcome_prefix_found (d : Deadline) (events : List SearchEvent) :
    (d.outcome events).embeddings <+: Search.found events := by
  cases d with
  | never => exact List.prefix_refl _
  | after checks => exact outcomeAfter_prefix_found

namespace Strategy

variable {pattern : Pattern} {host : Graph} {strategy : Strategy} {deadline : Nat → Deadline}

/-- However a search is carried out, and under whatever deadlines: if it is complete, its
embeddings are those of the whole trace in the order of the trace. -/
theorem find_complete (complete : (strategy.find deadline pattern host).complete = true) :
    (strategy.find deadline pattern host).embeddings =
      Search.found (Search.trace pattern host) := by
  cases strategy with
  | backtracking => exact Deadline.outcome_complete complete
  | parallel =>
    rw [find, SearchOutcome.merge_eq] at complete ⊢
    have each := List.all_eq_true.mp complete
    have branchwise : ((Search.branches pattern host).mapIdx fun i events =>
        (deadline i).outcome events).map (·.embeddings) =
          (Search.branches pattern host).map Search.found := by
      refine List.ext_getElem (by simp) fun i lt lt' => ?_
      simp only [List.getElem_map, List.getElem_mapIdx]
      refine Deadline.outcome_complete (each _ ?_)
      exact List.mem_mapIdx.mpr ⟨i, by simpa using lt', rfl⟩
    rw [← Search.branches_found, List.flatMap_def, List.flatMap_def, branchwise]

theorem find_never (strategy : Strategy) (pattern : Pattern) (host : Graph) :
    strategy.find (fun _ => .never) pattern host =
      ⟨Search.found (Search.trace pattern host), true⟩ := by
  have complete : (strategy.find (fun _ => .never) pattern host).complete = true := by
    cases strategy with
    | backtracking => rfl
    | parallel =>
      rw [find, SearchOutcome.merge_eq, List.all_eq_true]
      intro outcome mem
      obtain ⟨i, lt, rfl⟩ := List.mem_mapIdx.mp mem
      rfl
  rw [← find_complete complete, ← complete]

theorem findAll_eq :
    strategy.matcher.findAll pattern host = Search.found (Search.trace pattern host) :=
  congrArg SearchOutcome.embeddings (strategy.find_never pattern host)

/-- Branch by branch, what is found in time is found in the same order without a deadline. -/
theorem branches_sublist {branches : List (List SearchEvent)} :
    ((branches.mapIdx fun i events => (deadline i).outcome events).flatMap
      (·.embeddings)).Sublist (branches.flatMap Search.found) := by
  induction branches generalizing deadline with
  | nil => exact .slnil
  | cons events rest ih =>
    rw [List.mapIdx_cons, List.flatMap_cons, List.flatMap_cons]
    have first := (deadline 0).outcome_prefix_found events
    exact first.sublist.append (@ih fun i => deadline (i + 1))

theorem find_sublist : (strategy.find deadline pattern host).embeddings.Sublist
    (Search.found (Search.trace pattern host)) := by
  cases strategy with
  | backtracking => exact (Deadline.outcome_prefix_found _ _).sublist
  | parallel =>
    rw [find, SearchOutcome.merge_eq, ← Search.branches_found]
    exact branches_sublist

end Strategy

end GraphTransformation
