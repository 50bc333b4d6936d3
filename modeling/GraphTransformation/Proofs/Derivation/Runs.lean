import GraphTransformation.Derivation.Basic
import GraphTransformation.Proofs.Production.Structure
import GraphTransformation.Proofs.Random.Choice

/-!
What a derivation has recorded.

`Grammar.Takes` says that a record tells of a step between two graphs: which
production it applied, at which of how many matches. A step that is applied is
one of these (`step_applied`), and a step finds no match only if there is none
(`step_noMatch`). By induction on a run, its records lead from graph to graph
(`Trail`), and its state and length tell why it has stopped.
-/

namespace GraphTransformation.Grammar

variable {g : Grammar} {host next : Graph} {record : StepRecord}
  {deadline : Option ((production branch : Nat) → Deadline)}

/-- The record tells of an application of one of the productions between the graphs. -/
structure Takes (ps : List Production) (matcher : Matcher) (prev : Graph) (record : StepRecord)
    (next : Graph) (p : Production) : Prop where
  member : p ∈ ps
  name : p.name = record.production
  count : (p.findMatches prev matcher).length = record.candidates
  some : 1 ≤ record.candidates
  matched : record.matched ∈ p.findMatches prev matcher
  applied : p.apply prev record.matched = .ok next

/-! ### One step -/

theorem firstMatching_eq_some {matcher : Matcher} {ps : List (Nat × Production)} {p : Production}
    {found : List Match} (first : firstMatching matcher deadline host ps = some (p, found)) :
    ∃ i, (i, p) ∈ ps ∧ found = matchesOf matcher (deadline.map (· i)) host p ∧ found ≠ [] := by
  induction ps with
  | nil => cases first
  | cons entry rest ih =>
    rw [firstMatching] at first
    split at first
    · obtain ⟨i, mem, facts⟩ := ih first
      exact ⟨i, List.mem_cons_of_mem _ mem, facts⟩
    · rename_i nonempty
      cases first
      exact ⟨_, List.mem_cons_self, rfl, nonempty⟩

theorem firstMatching_eq_none {matcher : Matcher} {ps : List (Nat × Production)} :
    firstMatching matcher deadline host ps = none ↔
      ∀ entry ∈ ps, matchesOf matcher (deadline.map (· entry.1)) host entry.2 = [] := by
  induction ps with
  | nil => simp [firstMatching]
  | cons entry rest ih =>
    rw [firstMatching, List.forall_mem_cons]
    split
    · rename_i none
      simp [none, ih]
    · rename_i nonempty
      exact iff_of_false (by simp) fun none => nonempty none.1

/-- The productions are all visited with their positions, in whatever order. -/
theorem mem_visited {order : List Nat} (perm : order.Perm (List.range g.productions.length))
    {i : Nat} {p : Production} : (i, p) ∈ g.visited order ↔ g.productions[i]? = some p := by
  simp only [visited, List.mem_filterMap, Option.map_eq_some_iff, Prod.mk.injEq, perm.mem_iff,
    List.mem_range]
  constructor
  · rintro ⟨i, -, p, here, rfl, rfl⟩
    exact here
  · intro here
    exact ⟨i, (List.getElem?_eq_some_iff.mp here).1, p, here, rfl, rfl⟩

/-- What a step does that applies a production to this effect. -/
def Step.ofResult (name : String) (m : Match) (count : Nat) : Except Stop Graph → Step
  | .error (.failed cause) => .failed name cause
  | .error .overflow => .overflow
  | .ok next => .applied next ⟨name, m, count⟩

section ofResult

variable {name production : String} {m : Match} {count : Nat} {result : Except Stop Graph}
  {cause : Error}

theorem Step.ofResult_ne_noMatch : ofResult name m count result ≠ .noMatch := by
  rcases result with (_ | _) | _ <;> simp [ofResult]

theorem Step.ofResult_eq_applied : ofResult name m count result = .applied next record ↔
    result = .ok next ∧ record = ⟨name, m, count⟩ := by
  rcases result with (_ | _) | _ <;> simp [ofResult, eq_comm]

theorem Step.ofResult_eq_failed : ofResult name m count result = .failed production cause ↔
    name = production ∧ result = .error (.failed cause) := by
  rcases result with (_ | _) | _ <;> simp [ofResult]

theorem Step.ofResult_eq_overflow : ofResult name m count result = .overflow ↔
    result = .error .overflow := by
  rcases result with (_ | _) | _ <;> simp [ofResult]

end ofResult

/-- What a step does, without the generator it leaves. -/
theorem step_cases (g : Grammar) (deadline : Option ((production branch : Nat) → Deadline))
    (host : Graph) :
    ((g.step deadline host).1 = .noMatch ∧
      ∀ i p, g.productions[i]? = some p → matchesOf g.matcher (deadline.map (· i)) host p = []) ∨
    ∃ i p, g.productions[i]? = some p ∧ ∃ m ∈ matchesOf g.matcher (deadline.map (· i)) host p,
      (g.step deadline host).1 = .ofResult p.name m
        (matchesOf g.matcher (deadline.map (· i)) host p).length (p.apply host m) := by
  have perm : (g.generator.order g.productions.length).1.Perm
      (List.range g.productions.length) := Random.Generator.order_perm
  rw [step]
  split
  rename_i order afterOrder drawn
  rw [drawn] at perm
  split
  · rename_i none
    refine .inl ⟨rfl, fun i p here => ?_⟩
    exact firstMatching_eq_none.mp none (i, p) ((mem_visited perm).mpr here)
  · rename_i p found first
    obtain ⟨i, mem, rfl, nonempty⟩ := firstMatching_eq_some first
    obtain ⟨j, lt, chosen⟩ := afterOrder.select_lt (List.length_pos_iff.mpr nonempty)
    have here := List.getElem?_eq_getElem lt
    refine .inr ⟨i, p, (mem_visited perm).mp mem, _, List.getElem_mem lt, ?_⟩
    simp only [chosen, Option.bind_some, here]
    split
    · rename_i failed
      rw [failed, Step.ofResult]
    · rename_i stopped
      rw [stopped, Step.ofResult]
    · rename_i applied
      rw [applied, Step.ofResult]

/-- A step that does something has tried to apply a production at one of its matches. -/
theorem step_tried {did : Step} (outcome : (g.step deadline host).1 = did)
    (tried : did ≠ .noMatch) :
    ∃ i p, g.productions[i]? = some p ∧ ∃ m ∈ matchesOf g.matcher (deadline.map (· i)) host p,
      .ofResult p.name m (matchesOf g.matcher (deadline.map (· i)) host p).length
        (p.apply host m) = did := by
  rw [← outcome] at tried ⊢
  obtain ⟨i, p, here, m, matched, done⟩ :=
    (step_cases g deadline host).resolve_left fun halted => tried halted.1
  exact ⟨i, p, here, m, matched, done.symm⟩

/-- A step that is applied has applied a production at one of its matches. -/
theorem step_eq_applied (applied : (g.step deadline host).1 = .applied next record) :
    ∃ i p, g.productions[i]? = some p ∧ ∃ m ∈ matchesOf g.matcher (deadline.map (· i)) host p,
      p.apply host m = .ok next ∧
        record = ⟨p.name, m, (matchesOf g.matcher (deadline.map (· i)) host p).length⟩ := by
  obtain ⟨i, p, here, m, matched, done⟩ := step_tried applied (by simp)
  exact ⟨i, p, here, m, matched, Step.ofResult_eq_applied.mp done⟩

/-- A step that fails has failed to apply a production at one of its matches. -/
theorem step_eq_failed {production : String} {cause : Error}
    (failed : (g.step deadline host).1 = .failed production cause) :
    ∃ i p, g.productions[i]? = some p ∧ ∃ m ∈ matchesOf g.matcher (deadline.map (· i)) host p,
      p.name = production ∧ p.apply host m = .error (.failed cause) := by
  obtain ⟨i, p, here, m, matched, done⟩ := step_tried failed (by simp)
  exact ⟨i, p, here, m, matched, Step.ofResult_eq_failed.mp done⟩

/-- A step that stops has found no handle for an application at one of the matches. -/
theorem step_eq_overflow (stopped : (g.step deadline host).1 = .overflow) :
    ∃ i p, g.productions[i]? = some p ∧ ∃ m ∈ matchesOf g.matcher (deadline.map (· i)) host p,
      p.apply host m = .error .overflow := by
  obtain ⟨i, p, here, m, matched, done⟩ := step_tried stopped (by simp)
  exact ⟨i, p, here, m, matched, Step.ofResult_eq_overflow.mp done⟩

/-- An applied step is recorded as it was taken. -/
theorem step_applied (applied : (g.step none host).1 = .applied next record) :
    ∃ p, Takes g.productions g.matcher host record next p := by
  obtain ⟨i, p, here, m, matched, result, rfl⟩ := step_eq_applied applied
  exact ⟨p, List.mem_of_getElem? here, rfl, rfl, List.length_pos_of_mem matched, matched, result⟩

/-- A step that finds no match has missed none. -/
theorem step_noMatch (halted : (g.step none host).1 = .noMatch) :
    ∀ p ∈ g.productions, p.findMatches host g.matcher = [] := by
  rcases step_cases g none host with ⟨-, missed⟩ | ⟨i, p, -, m, -, done⟩
  · intro p mem
    obtain ⟨i, here⟩ := List.mem_iff_getElem?.mp mem
    exact missed i p here
  · exact absurd (done.symm.trans halted) Step.ofResult_ne_noMatch

/-! ### Runs -/

variable {ps : List Production} {matcher : Matcher}

/-- The records lead from the graph through the listed ones. -/
inductive Trail (ps : List Production) (matcher : Matcher) :
    Graph → List Graph → List StepRecord → Prop where
  | done (host : Graph) : Trail ps matcher host [] []
  | step {prev next : Graph} {record : StepRecord} {p : Production} {graphs : List Graph}
    {steps : List StepRecord} : Takes ps matcher prev record next p →
    Trail ps matcher next graphs steps → Trail ps matcher prev (next :: graphs) (record :: steps)

theorem Trail.length_eq {graphs : List Graph} {steps : List StepRecord}
    (trail : Trail ps matcher host graphs steps) : steps.length = graphs.length := by
  induction trail with
  | done => rfl
  | step _ _ ih => exact congrArg (· + 1) ih

theorem Trail.takes {graphs : List Graph} {steps : List StepRecord}
    (trail : Trail ps matcher host graphs steps) {i : Nat} (here : steps[i]? = some record) :
    ∃ p prev next, (host :: graphs)[i]? = some prev ∧ graphs[i]? = some next ∧
      Takes ps matcher prev record next p := by
  induction trail generalizing i with
  | done => cases here
  | @step prev next taken p graphs steps takes rest ih =>
    cases i with
    | zero =>
      cases here
      exact ⟨p, prev, next, rfl, rfl, takes⟩
    | succ i => exact ih here

/-- The steps of a run, and the reason for its end when `taken` steps came before. -/
structure Accounts (ps : List Production) (matcher : Matcher) (maxSteps taken : Nat)
    (host : Graph) (d : Derivation) : Prop where
  trail : Trail ps matcher host d.graphs d.steps
  ended : d.state ≠ .running
  limit : d.state = .haltedStepLimit ↔ 0 < maxSteps ∧ taken + d.graphs.length = maxSteps
  bounded : 0 < maxSteps → taken + d.graphs.length ≤ maxSteps
  exhausted : d.state = .haltedNoMatch →
    ∀ p ∈ ps, p.findMatches (d.graphs.getLastD host) matcher = []

theorem Accounts.full {maxSteps taken : Nat} (positive : 0 < maxSteps) (full : taken = maxSteps) :
    Accounts ps matcher maxSteps taken host ⟨[], [], .haltedStepLimit⟩ where
  trail := .done host
  ended := by simp
  limit := iff_of_true rfl ⟨positive, full⟩
  bounded _ := Nat.le_of_eq full
  exhausted halted := by cases halted

theorem Accounts.cons {maxSteps taken : Nat} {d : Derivation} {p : Production}
    (takes : Takes ps matcher host record next p)
    (rest : Accounts ps matcher maxSteps (taken + 1) next d) :
    Accounts ps matcher maxSteps taken host
      { d with graphs := next :: d.graphs, steps := record :: d.steps } where
  trail := .step takes rest.trail
  ended := rest.ended
  limit := by
    rw [rest.limit, List.length_cons]
    omega
  bounded positive := by
    have := rest.bounded positive
    rw [List.length_cons]
    omega
  exhausted halted := by
    rw [List.getLastD_cons]
    exact rest.exhausted halted

theorem run_accounts {config : DerivationConfig} {fuel taken : Nat} {d : Derivation}
    {last : Grammar} (unlimited : config.deadline = none)
    (below : 0 < config.maxSteps → taken < config.maxSteps)
    (ran : run config fuel taken g host = (.finished d, last)) :
    Accounts g.productions g.matcher config.maxSteps taken host d := by
  induction fuel generalizing taken g host d with
  | zero => simp [run] at ran
  | succ fuel ih =>
    rw [run, unlimited, Option.map_none] at ran
    split at ran
    rename_i did generator stepped
    have outcome : (g.step none host).1 = did := congrArg Prod.fst stepped
    cases did with
    | noMatch =>
      cases ran
      constructor
      case trail => exact .done host
      case ended => simp
      case limit =>
        refine iff_of_false (by simp) ?_
        rintro ⟨positive, full⟩
        exact Nat.ne_of_lt (below positive) full
      case bounded => exact fun positive => Nat.le_of_lt (below positive)
      case exhausted => exact fun _ => step_noMatch outcome
    | failed production cause => cases ran
    | overflow => cases ran
    | applied next record =>
      obtain ⟨p, takes⟩ := step_applied outcome
      simp only at ran
      split at ran
      · rename_i full
        cases ran
        obtain ⟨positive, reached⟩ : 0 < config.maxSteps ∧ config.maxSteps ≤ taken + 1 := by
          simpa [atLimit] using full
        have exactly : taken + 1 = config.maxSteps := Nat.le_antisymm (below positive) reached
        exact .cons takes (.full positive exactly)
      · rename_i short
        have below' : 0 < config.maxSteps → taken + 1 < config.maxSteps := by
          intro positive
          simpa [atLimit, positive] using short
        cases rest : run config fuel (taken + 1) { g with generator } next with
        | mk result final =>
          rw [rest] at ran
          cases result with
          | finished d' =>
            cases ran
            exact .cons takes (@ih { g with generator } next (taken + 1) d' below' rest)
          | failed f => cases ran
          | overflow => cases ran
          | endless => cases ran

/-- A derivation of at most one step that is applied. -/
theorem derive_one {generator : Random.Generator}
    (stepped : g.step none host = (.applied next record, generator)) :
    g.derive host ⟨1, none⟩ =
      (.finished ⟨[next], [record], .haltedStepLimit⟩, { g with generator }) := by
  simp [derive, run, stepped, atLimit]

/-- A derivation that returns accounts for itself: its steps lead from the seed through its
graphs, each by a production of the grammar at one of all the matches that it has there,
and the derivation has stopped at its bound or where nothing matches. -/
theorem derive_accounts {config : DerivationConfig} {d : Derivation} {last : Grammar}
    (unlimited : config.deadline = none) (derived : g.derive host config = (.finished d, last)) :
    d.steps.length = d.graphs.length ∧
      (∀ (i : Nat) record, d.steps[i]? = some record → ∃ p prev next,
        (host :: d.graphs)[i]? = some prev ∧ d.graphs[i]? = some next ∧
          Takes g.productions g.matcher prev record next p) ∧
      d.state ≠ .running ∧
      (d.state = .haltedStepLimit ↔
        0 < config.maxSteps ∧ d.graphs.length = config.maxSteps) ∧
      (0 < config.maxSteps → d.graphs.length ≤ config.maxSteps) ∧
      (d.state = .haltedNoMatch →
        ∀ p ∈ g.productions, p.findMatches (d.graphs.getLastD host) g.matcher = []) := by
  have accounts := run_accounts unlimited id derived
  refine ⟨accounts.trail.length_eq, fun i record here => accounts.trail.takes here,
    accounts.ended, ?_, ?_, accounts.exhausted⟩
  · simpa using accounts.limit
  · simpa using accounts.bounded

theorem derive_regrow_once :
    let g := make [.regrow] default
    ∃ d last, g.derive .arrow ⟨1, none⟩ = (.finished d, last) ∧ d.graphs.length = 1 ∧
      d.state = .haltedStepLimit ∧ d.steps.length = 1 := by
  intro g
  have found : Production.regrow.findMatches .arrow .backtracking =
      [⟨⟨0⟩, .ofList [(⟨0⟩, ⟨0⟩), (⟨1⟩, ⟨1⟩)], .ofList [(⟨0⟩, ⟨0⟩)]⟩] := by decide
  obtain ⟨next, record, outcome⟩ :
      ∃ next record, (g.step none .arrow).1 = .applied next record := by
    rcases g.step_cases none .arrow with ⟨-, none⟩ | ⟨i, p, here, m, matched, done⟩
    · cases found.symm.trans (none 0 .regrow rfl)
    · cases List.mem_singleton.mp (List.mem_of_getElem? here)
      have matched : m ∈ Production.regrow.findMatches .arrow .backtracking := matched
      rw [found] at matched
      cases List.mem_singleton.mp matched
      exact ⟨_, _, done⟩
  obtain ⟨generator, stepped⟩ :
      ∃ generator, g.step none .arrow = (.applied next record, generator) :=
    ⟨_, Prod.ext outcome rfl⟩
  have derived := derive_one stepped
  obtain ⟨same, -, -, limit, -, -⟩ := derive_accounts rfl derived
  exact ⟨_, _, derived, rfl, limit.mpr ⟨Nat.one_pos, rfl⟩, same⟩

end GraphTransformation.Grammar
