import GraphTransformation.Proofs.Derivation.Runs
import GraphTransformation.Proofs.Production.Effect
import GraphTransformation.Proofs.Search.Lawful

/-!
The matches that a derivation chooses from.

Under any deadlines those of a lawful matcher are verified matches (`matchesOf_verified`).
Without a deadline two matchers that find the same leave the same to a derivation: its steps
(`step_agrees`), its runs (`run_agrees`) and the choices that are left to its generator. Both
strategies find the same, in the same order (`derive_agrees`).
-/

namespace GraphTransformation.Grammar

variable {matcher other : Matcher} {host : Graph} {p : Production} {m : Match} {g : Grammar}

/-! ### Matches under a deadline -/

theorem matchesOf_verified (lawful : matcher.Lawful) (lhs : p.lhs.graph.Consistent)
    (cons : host.Consistent) {deadline : Option (Nat → Deadline)}
    (mem : m ∈ matchesOf matcher deadline host p) : p.verify host m = .ok () := by
  refine (Production.verify_eq_ok cons).mpr ?_
  cases deadline with
  | none => exact (lawful.mem_findMatches lhs cons).mp mem
  | some d =>
    rw [matchesOf] at mem
    cases outcome : p.findMatchesWithin host matcher d with
    | none =>
      rw [outcome] at mem
      exact absurd mem List.not_mem_nil
    | some ms =>
      rw [outcome] at mem
      exact lawful.findMatchesWithin_occurs lhs cons outcome mem

/-! ### Derivations by matchers that find the same -/

/-- Without a deadline both find the same embeddings in the same order. -/
def Agree (matcher other : Matcher) : Prop :=
  ∀ pattern host, matcher.findAll pattern host = other.findAll pattern host

theorem matchesOf_agree (agree : Agree matcher other) :
    matchesOf matcher none host p = matchesOf other none host p :=
  congrArg (List.map _) (agree p.lhs host)

theorem firstMatching_agree (agree : Agree matcher other) {ps : List (Nat × Production)} :
    firstMatching matcher none host ps = firstMatching other none host ps := by
  induction ps with
  | nil => rfl
  | cons entry rest ih =>
    rw [firstMatching, firstMatching, ih, Option.map_none, matchesOf_agree agree]

theorem step_agrees (agree : Agree matcher other) :
    { g with matcher }.step none host = { g with matcher := other }.step none host := by
  simp only [step, visited, firstMatching_agree agree]

/-- A run is the same with another matcher, and leaves the same grammar but for it. -/
theorem run_agrees (agree : Agree matcher other) {config : DerivationConfig} {fuel taken : Nat}
    (unlimited : config.deadline = none) :
    run config fuel taken { g with matcher } host =
      ((run config fuel taken { g with matcher := other } host).1,
        { (run config fuel taken { g with matcher := other } host).2 with matcher }) := by
  induction fuel generalizing taken g host with
  | zero => rfl
  | succ fuel ih =>
    rw [run, run, unlimited, Option.map_none, step_agrees agree]
    cases stepped : { g with matcher := other }.step none host with
    | mk did generator =>
      cases did with
      | noMatch => rfl
      | failed production cause => rfl
      | overflow => rfl
      | applied next record =>
        by_cases full : atLimit config (taken + 1) = true
        · simp only [full, if_true]
        · simp only [full]
          rw [ih (g := { g with generator })]
          rfl

/-- Without a deadline the parallel matcher gives what the sequential one gives, in the same
order and completely, and a derivation goes the same way with either and leaves the same
generator behind. -/
theorem derive_agrees :
    (∀ pattern host, Matcher.parallel.find (fun _ => .never) pattern host =
        Matcher.backtracking.find (fun _ => .never) pattern host ∧
      (Matcher.parallel.find (fun _ => .never) pattern host).complete = true) ∧
    ∀ (g : Grammar) (seed : Graph) (maxSteps : Nat),
      { g with matcher := .parallel }.derive seed ⟨maxSteps, none⟩ =
        (({ g with matcher := .backtracking }.derive seed ⟨maxSteps, none⟩).1,
          { ({ g with matcher := .backtracking }.derive seed ⟨maxSteps, none⟩).2 with
            matcher := .parallel }) := by
  have same : ∀ pattern host, Matcher.parallel.find (fun _ => .never) pattern host =
      Matcher.backtracking.find (fun _ => .never) pattern host := by
    intro pattern host
    exact (Strategy.parallel.find_never pattern host).trans
      (Strategy.backtracking.find_never pattern host).symm
  have agree : Agree .parallel .backtracking := fun pattern host =>
    congrArg SearchOutcome.embeddings (same pattern host)
  refine ⟨fun pattern host => ⟨same pattern host, ?_⟩,
    fun g seed maxSteps => run_agrees agree rfl⟩
  exact (Strategy.lawful .parallel).unlimited pattern host

end GraphTransformation.Grammar
