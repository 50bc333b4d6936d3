import GraphTransformation.Proofs.Derivation.Lineage

/-!
Derivations in two parts.

A derivation with a bound is a step and then, from the graph and the grammar that the step
leaves, a derivation with the bound less one (`derive_succ`). So a derivation that has stopped
at its bound can go on from where it stopped, and both parts together are what one derivation
with both bounds is (`derive_add`): without a deadline, nothing but the last graph and the
generator is carried from step to step.
-/

namespace GraphTransformation

namespace DerivationResult

/-- The result when this many steps came before its own. -/
def delay (before : Nat) : DerivationResult → DerivationResult
  | .failed f => .failed { f with step := before + f.step }
  | other => other

/-- The result when the listed graphs and their records come before its own. -/
def after (graphs : List Graph) (steps : List StepRecord) : DerivationResult → DerivationResult
  | .finished d => .finished { d with graphs := graphs ++ d.graphs, steps := steps ++ d.steps }
  | other => other.delay graphs.length

theorem after_finished {graphs : List Graph} {steps : List StepRecord} {d : Derivation} :
    (finished d).after graphs steps =
      .finished ⟨graphs ++ d.graphs, steps ++ d.steps, d.state⟩ := rfl

theorem cons_delay {next : Graph} {record : StepRecord} (r : DerivationResult) :
    (r.delay 1).cons next record = r.after [next] [record] := by
  cases r with
  | finished d => rfl
  | failed f => rfl
  | overflow => rfl
  | endless => rfl

@[simp] theorem after_eq_endless {graphs : List Graph} {steps : List StepRecord}
    {r : DerivationResult} : r.after graphs steps = .endless ↔ r = .endless := by
  cases r with
  | finished d => simp [after]
  | failed f => simp [after, delay]
  | overflow => simp [after, delay]
  | endless => simp [after, delay]

theorem after_after {next : Graph} {record : StepRecord} {graphs : List Graph}
    {steps : List StepRecord} (r : DerivationResult) :
    (r.after graphs steps).after [next] [record] = r.after (next :: graphs) (record :: steps) := by
  cases r with
  | finished d => rfl
  | failed f =>
    have count : 1 + (graphs.length + f.step) = graphs.length + 1 + f.step := by omega
    simp [after, delay, count]
  | overflow => rfl
  | endless => rfl

end DerivationResult

namespace Grammar

variable {g : Grammar} {host seed : Graph} {n m : Nat}

/-! ### One step more -/

theorem atLimit_succ (positive : 0 < n) (taken : Nat) :
    atLimit ⟨n + 1, none⟩ (taken + 1) = atLimit ⟨n, none⟩ taken := by
  simp [atLimit, positive]

/-- A run that starts one step later and may take one step more is the same run. -/
theorem run_delay (positive : 0 < n) {fuel taken : Nat} :
    run ⟨n + 1, none⟩ fuel (taken + 1) g host =
      ((run ⟨n, none⟩ fuel taken g host).1.delay 1,
        (run ⟨n, none⟩ fuel taken g host).2) := by
  induction fuel generalizing taken g host with
  | zero => rfl
  | succ fuel ih =>
    rw [run, run, Option.map_none, Option.map_none]
    cases stepped : g.step none host with
    | mk did generator =>
      cases did with
      | noMatch => rfl
      | failed production cause =>
        have count : taken + 1 + 1 = 1 + (taken + 1) := by omega
        simp [DerivationResult.delay, count]
      | overflow => rfl
      | applied next record =>
        simp only [atLimit_succ positive]
        by_cases full : atLimit ⟨n, none⟩ (taken + 1) = true
        · simp [full, DerivationResult.delay]
        · simp only [full, ih]
          cases (run ⟨n, none⟩ fuel (taken + 1) { g with generator } next).1 with
          | finished d => rfl
          | failed f => rfl
          | overflow => rfl
          | endless => rfl

/-- A derivation with a bound above one: a step, and from where it leads the derivation with
the bound less one. -/
theorem derive_succ (positive : 0 < n) :
    g.derive host ⟨n + 1, none⟩ =
      match g.step none host with
      | (.noMatch, generator) => (.finished ⟨[], [], .haltedNoMatch⟩, { g with generator })
      | (.failed production cause, generator) =>
        (.failed ⟨1, production, cause⟩, { g with generator })
      | (.overflow, generator) => (.overflow, { g with generator })
      | (.applied next record, generator) =>
        (({ g with generator }.derive next ⟨n, none⟩).1.after [next] [record],
          ({ g with generator }.derive next ⟨n, none⟩).2) := by
  have short : ¬ atLimit ⟨n + 1, none⟩ (0 + 1) = true := by
    simp [atLimit, Nat.ne_of_gt positive]
  rw [derive, if_neg (Nat.succ_ne_zero n), run, Option.map_none]
  cases stepped : g.step none host with
  | mk did generator =>
    cases did with
    | noMatch => rfl
    | failed production cause => rfl
    | overflow => rfl
    | applied next record =>
      simp only [short, run_delay positive, DerivationResult.cons_delay]
      rw [derive, if_neg (Nat.ne_of_gt positive)]
      rfl

/-- A derivation with a bound does not go on for ever. -/
theorem derive_ends (positive : 0 < n) : (g.derive seed ⟨n, none⟩).1 ≠ .endless := by
  induction n, positive using Nat.le_induction generalizing g seed with
  | base =>
    rw [derive, if_neg Nat.one_ne_zero, run, Option.map_none]
    cases g.step none seed with
    | mk did generator => cases did <;> simp [atLimit]
  | succ n positive ih =>
    rw [derive_succ positive]
    cases g.step none seed with
    | mk did generator =>
      cases did with
      | noMatch => simp
      | failed production cause => simp
      | overflow => simp
      | applied next record =>
        intro endless
        exact ih (DerivationResult.after_eq_endless.mp endless)

/-! ### Two parts -/

/-- What becomes of a derivation from `seed` when it may take `m` steps more: if it has
stopped at its bound, the grammar it left derives on from its last graph. -/
def resume (m : Nat) (seed : Graph) :
    DerivationResult × Grammar → DerivationResult × Grammar
  | (.finished d, h) =>
    if d.state = .haltedStepLimit then
      ((h.derive (d.graphs.getLastD seed) ⟨m, none⟩).1.after d.graphs d.steps,
        (h.derive (d.graphs.getLastD seed) ⟨m, none⟩).2)
    else (.finished d, h)
  | ended => ended

/-- To resume a derivation is to resume what comes after its first step. -/
theorem resume_after {next : Graph} {record : StepRecord} (r : DerivationResult) (h : Grammar) :
    resume m seed (r.after [next] [record], h) =
      ((resume m next (r, h)).1.after [next] [record],
        (resume m next (r, h)).2) := by
  cases r with
  | finished d =>
    have last : (next :: d.graphs).getLastD seed = d.graphs.getLastD next := List.getLastD_cons ..
    rw [DerivationResult.after_finished]
    by_cases stopped : d.state = .haltedStepLimit
    · simp only [List.singleton_append, resume, stopped, if_true, last,
        DerivationResult.after_after]
    · simp only [List.singleton_append, resume, stopped, if_false,
        DerivationResult.after_finished]
  | failed f => rfl
  | overflow => rfl
  | endless => rfl

/-- A derivation with two bounds together is one with the first, resumed for the second. -/
theorem derive_add (positive : 0 < n) (more : 0 < m) :
    g.derive seed ⟨n + m, none⟩ =
      resume m seed (g.derive seed ⟨n, none⟩) := by
  induction n, positive using Nat.le_induction generalizing g seed with
  | base =>
    rw [Nat.add_comm, derive_succ more, derive, if_neg Nat.one_ne_zero, run, Option.map_none]
    cases g.step none seed with
    | mk did generator =>
      cases did with
      | noMatch => rfl
      | failed production cause => rfl
      | overflow => rfl
      | applied next record => simp [atLimit, resume]
  | succ n positive ih =>
    rw [Nat.add_right_comm, derive_succ (Nat.add_pos_left positive m), derive_succ positive]
    cases g.step none seed with
    | mk did generator =>
      cases did with
      | noMatch => rfl
      | failed production cause => rfl
      | overflow => rfl
      | applied next record =>
        simp only [ih]
        exact (resume_after _ _).symm

/-- A derivation that returns has a record for each graph, at most as many as its bound, and as
many if it has stopped there. -/
theorem derive_counts {d : Derivation} {h : Grammar} (positive : 0 < n)
    (derived : g.derive seed ⟨n, none⟩ = (.finished d, h)) :
    d.steps.length = d.graphs.length ∧ d.graphs.length ≤ n ∧
      (d.state = .haltedStepLimit → d.graphs.length = n) := by
  have accounts : Accounts g.productions g.matcher n 0 seed d := run_accounts rfl id derived
  refine ⟨accounts.trail.length_eq, ?_, fun stopped => ?_⟩
  · simpa using accounts.bounded positive
  · simpa using (accounts.limit.mp stopped).2

/-- What is resumed after at most `n` steps keeps these steps, if it was `n` of them where there
was more to do. -/
theorem resume_eq_finished {d e : Derivation} {h last : Grammar}
    (resumed : resume m seed (.finished d, h) = (.finished e, last))
    (same : d.steps.length = d.graphs.length) (few : d.graphs.length ≤ n)
    (full : d.state = .haltedStepLimit → d.graphs.length = n) :
    d.graphs = e.graphs.take n ∧ d.steps = e.steps.take n := by
  rw [resume] at resumed
  split at resumed
  · rename_i stopped
    have count := full stopped
    cases rest : h.derive (d.graphs.getLastD seed) ⟨m, none⟩ with
    | mk result final =>
      rw [rest] at resumed
      cases result with
      | failed f => cases resumed
      | overflow => cases resumed
      | endless => cases resumed
      | finished d' =>
        cases resumed
        constructor
        · exact (List.take_left' count).symm
        · exact (List.take_left' (same.trans count)).symm
  · cases resumed
    constructor
    · exact (List.take_of_length_le few).symm
    · exact (List.take_of_length_le (same ▸ few)).symm

/-- A derivation that has stopped at its bound can be resumed: what the grammar it left derives
from its last graph follows it in the derivation with both bounds together, a step that fails
there fails as much later, and one that finds no handle finds none. A derivation with a smaller
bound is the beginning of one with a greater. -/
theorem derive_resumes (positive : 0 < n) (more : 0 < m) :
    (∀ d h, g.derive seed ⟨n, none⟩ = (.finished d, h) → d.state = .haltedStepLimit →
      (∀ e last, h.derive (d.graphs.getLastD seed) ⟨m, none⟩ = (.finished e, last) →
        g.derive seed ⟨n + m, none⟩ =
          (.finished ⟨d.graphs ++ e.graphs, d.steps ++ e.steps, e.state⟩, last)) ∧
      (∀ f last, h.derive (d.graphs.getLastD seed) ⟨m, none⟩ = (.failed f, last) →
        g.derive seed ⟨n + m, none⟩ = (.failed { f with step := n + f.step }, last)) ∧
      (∀ last, h.derive (d.graphs.getLastD seed) ⟨m, none⟩ = (.overflow, last) →
        g.derive seed ⟨n + m, none⟩ = (.overflow, last)) ∧
      (h.derive (d.graphs.getLastD seed) ⟨m, none⟩).1 ≠ .endless) ∧
    ∀ e last, g.derive seed ⟨n + m, none⟩ = (.finished e, last) →
      ∃ d h, g.derive seed ⟨n, none⟩ = (.finished d, h) ∧
        d.graphs = e.graphs.take n ∧ d.steps = e.steps.take n := by
  have whole : g.derive seed ⟨n + m, none⟩ = resume m seed (g.derive seed ⟨n, none⟩) :=
    derive_add positive more
  refine ⟨fun d h derived stopped => ?_, fun e last derived => ?_⟩
  · obtain ⟨-, -, full⟩ := derive_counts positive derived
    have count := full stopped
    rw [derived, resume, if_pos stopped] at whole
    refine ⟨fun e last rest => ?_, fun f last rest => ?_, fun last rest => ?_, derive_ends more⟩
    · rw [whole, rest, DerivationResult.after_finished]
    · rw [whole, rest, ← count]
      rfl
    · rw [whole, rest]
      rfl
  · rw [derived] at whole
    cases first : g.derive seed ⟨n, none⟩ with
    | mk result h =>
      rw [first] at whole
      cases result with
      | failed f => cases whole
      | overflow => cases whole
      | endless => cases whole
      | finished d =>
        obtain ⟨same, few, full⟩ := derive_counts positive first
        exact ⟨d, h, rfl, resume_eq_finished whole.symm same few full⟩

/-- A derivation of one step, by the only match of the only production. -/
theorem derive_only {p : Production} {only : Match} {next : Graph}
    (single : g.productions = [p]) (found : matchesOf g.matcher none host p = [only])
    (applied : p.apply host only = .ok next) :
    ∃ h, g.derive host ⟨1, none⟩ =
        (.finished ⟨[next], [⟨p.name, only, 1⟩], .haltedStepLimit⟩, h) ∧
      h.productions = [p] ∧ h.matcher = g.matcher := by
  have taken : (g.step none host).1 = _ := step_only single found
  rw [applied] at taken
  exact ⟨_, derive_one (Prod.ext taken rfl), single, rfl⟩

theorem derive_resumes_regrow :
    ∃ d h e last, (make [.regrow] default).derive .arrow ⟨1, none⟩ = (.finished d, h) ∧
      d.state = .haltedStepLimit ∧
      h.derive (d.graphs.getLastD .arrow) ⟨1, none⟩ = (.finished e, last) ∧
      (make [.regrow] default).derive .arrow ⟨2, none⟩ =
        (.finished ⟨d.graphs ++ e.graphs, d.steps ++ e.steps, e.state⟩, last) ∧
      (d.graphs ++ e.graphs).map (·.vertexIds) = [[⟨0⟩, ⟨2⟩], [⟨0⟩, ⟨3⟩]] := by
  -- the end of the arrow goes with its edge, a new end comes with a new edge, and once more
  let a : Graph := [.removeVertex ⟨1⟩ .cascade, .addVertex .empty, .addEdge ⟨0⟩ ⟨2⟩ .empty].foldl
    (fun g op => (g.perform op).1) .arrow
  let b : Graph := [.removeVertex ⟨2⟩ .cascade, .addVertex .empty, .addEdge ⟨0⟩ ⟨3⟩ .empty].foldl
    (fun g op => (g.perform op).1) a
  let first : Match := ⟨⟨0⟩, .ofList [(⟨0⟩, ⟨0⟩), (⟨1⟩, ⟨1⟩)], .ofList [(⟨0⟩, ⟨0⟩)]⟩
  let second : Match := ⟨⟨0⟩, .ofList [(⟨0⟩, ⟨0⟩), (⟨1⟩, ⟨2⟩)], .ofList [(⟨0⟩, ⟨1⟩)]⟩
  have found : matchesOf .backtracking none .arrow .regrow = [first] := by decide
  have foundAgain : matchesOf .backtracking none a .regrow = [second] := by decide
  have applied : Production.regrow.apply .arrow first = .ok a := by decide +kernel
  have appliedAgain : Production.regrow.apply a second = .ok b := by decide +kernel
  have ids : [a, b].map (·.vertexIds) = [[⟨0⟩, ⟨2⟩], [⟨0⟩, ⟨3⟩]] := by decide
  obtain ⟨h, derived, single, matcher⟩ := derive_only (g := make [.regrow] default) rfl found applied
  obtain ⟨last, rest, -, -⟩ :=
    derive_only (g := h) single (matcher ▸ foundAgain) appliedAgain
  obtain ⟨resumed, -⟩ := @derive_resumes (make [.regrow] default) .arrow 1 1 Nat.one_pos Nat.one_pos
  obtain ⟨finished, -, -, -⟩ := resumed _ h derived rfl
  exact ⟨_, h, _, last, derived, rfl, rest, finished _ last rest, ids⟩

end Grammar

end GraphTransformation
