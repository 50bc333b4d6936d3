import GraphTransformation.Proofs.Derivation.Lineage
import GraphTransformation.Proofs.Derivation.Matching
import GraphTransformation.Proofs.Production.Failure

/-!
When a derivation fails.

A derivation applies productions at verified matches only, and there an application
fails for no other reason than an edge left dangling under a policy to reject. So a
failed derivation names a production with that policy, and its cause names the edges
(`derive_failed`). It ends without a report only where a counter leaves no room for what a
production creates (`derive_overflow`).
-/

namespace GraphTransformation.Grammar

open GraphTransformation.Graph

variable {g last : Grammar} {host seed : Graph}

/-- A derivation whose first step fails. -/
theorem derive_fails_first {production : String} {cause : Error}
    (failed : (g.step none host).1 = .failed production cause) :
    ∃ last, g.derive host ⟨1, none⟩ = (.failed ⟨1, production, cause⟩, last) := by
  cases stepped : g.step none host with
  | mk did generator =>
    rw [stepped] at failed
    cases failed
    exact ⟨{ g with generator }, by simp [derive, run, stepped]⟩

/-- The graph that a derivation has come to. -/
theorem Derives.consistent {deadline : Option ((step production branch : Nat) → Deadline)}
    {taken : Nat} {graphs : List Graph} (derives : Derives deadline taken g seed graphs last)
    (reach : seed.Reachable) : (graphs.getLastD seed).Consistent := by
  obtain ⟨reachable, -⟩ := follows_of_rewrites reach derives.rewrites
  exact (reachable _ List.getLastD_mem_cons).consistent

theorem derive_failed {config : DerivationConfig} {f : DerivationFailure}
    (accepted : ∀ p ∈ g.productions, p.Accepted) (lawful : g.matcher.Lawful)
    (reach : seed.Reachable) (derived : g.derive seed config = (.failed f, last)) :
    ∃ graphs h, Derives config.deadline 0 g seed graphs h ∧ f.step = graphs.length + 1 ∧
      ∃ p ∈ g.productions, ∃ m, p.name = f.production ∧
        p.Refuses (graphs.getLastD seed) m f.cause := by
  obtain ⟨graphs, h, derives, closes⟩ := run_derives derived
  obtain ⟨count, atLast⟩ := closes.failed f rfl
  have cons := derives.consistent reach
  obtain ⟨i, p, here, m, matched, name, refused⟩ := step_eq_failed atLast
  rw [derives.productions] at here
  have member := List.mem_of_getElem? here
  have whole := (accepted p member).wellFormed
  have verified := matchesOf_verified (derives.matcher ▸ lawful) whole.lhs cons matched
  exact ⟨graphs, h, derives, by simpa using count, p, member, m, name,
    whole.apply_refuses cons verified refused⟩

/-- A derivation that ends without a report has come to a graph whose counters leave no room for
what one of the productions creates. -/
theorem derive_overflow {config : DerivationConfig} (reach : seed.Reachable)
    (derived : g.derive seed config = (.overflow, last)) :
    ∃ graphs h, Derives config.deadline 0 g seed graphs h ∧
      ∃ p ∈ g.productions, ¬ p.HasRoom (graphs.getLastD seed) := by
  obtain ⟨graphs, h, derives, closes⟩ := run_derives derived
  obtain ⟨i, p, here, m, -, stopped⟩ := step_eq_overflow (closes.overflow rfl)
  rw [derives.productions] at here
  exact ⟨graphs, h, derives, p, List.mem_of_getElem? here,
    Production.apply_overflow (derives.consistent reach) stopped⟩

/-- At a verified match an application fails exactly when the policy is to reject and an edge
would be left dangling; the failure names the first deleted vertex with such edges and all of
them, and an application that succeeds removes nothing that the match preserves. Else it only
stops where the counters leave no room for what it creates. A derivation, with whatever lawful
matcher, fails in no other way. -/
theorem fails_only_dangling :
    (∀ (p : Production) (host : Graph) (m : Match), p.Accepted → host.Reachable →
      p.verify host m = .ok () →
      ((∃ e, p.apply host m = .error (.failed e)) ↔ p.dangling = .reject ∧
        ∃ l v k, p.DeletesVertex m.embedding l v ∧ p.Orphans host m.embedding v k) ∧
      (∀ e, p.apply host m = .error (.failed e) → p.Refuses host m e) ∧
      (p.apply host m = .error .overflow → ¬ p.HasRoom host) ∧
      ∀ result, p.apply host m = .ok result → p.Spares host m.embedding result) ∧
    ∀ (g : Grammar) (seed : Graph) (config : DerivationConfig) (f : DerivationFailure)
      (last : Grammar), (∀ p ∈ g.productions, p.Accepted) → g.matcher.Lawful →
      seed.Reachable → g.derive seed config = (.failed f, last) →
      ∃ graphs h, Derives config.deadline 0 g seed graphs h ∧ f.step = graphs.length + 1 ∧
        ∃ p ∈ g.productions, ∃ m, p.name = f.production ∧
          p.Refuses (graphs.getLastD seed) m f.cause := by
  refine ⟨fun p host m accepted reach verified => ?_, fun g seed config f last accepted lawful =>
    derive_failed accepted lawful⟩
  have whole := accepted.wellFormed
  have cons := reach.consistent
  exact ⟨whole.apply_fails_iff cons verified, fun e => whole.apply_refuses cons verified,
    Production.apply_overflow cons, fun result => whole.apply_spares cons⟩

theorem regrow_loop_fails :
    let g := make [.regrow] default
    let looped := (Graph.arrow.perform (.addEdge ⟨1⟩ ⟨1⟩ .empty)).1
    (∃ m, Production.regrow.verify looped m = .ok () ∧
      Production.regrow.Refuses looped m (.danglingEdges ⟨1⟩ [⟨1⟩])) ∧
    (∃ m result, Production.regrow.apply .arrow m = .ok result ∧
      Production.regrow.Spares .arrow m.embedding result) ∧
    ∃ f last, g.derive looped ⟨1, none⟩ = (.failed f, last) ∧
      ∃ p ∈ g.productions, ∃ m, p.name = f.production ∧ p.Refuses looped m f.cause := by
  intro g looped
  have regrow : Production.regrow.Accepted := Production.regrow_accepted .reject
  have accepted : ∀ p ∈ g.productions, p.Accepted := by
    intro p member
    cases List.mem_singleton.mp member
    exact regrow
  have reach : looped.Reachable := .step _ arrow_reachable
  let m : Match := ⟨⟨0⟩, .ofList [(⟨0⟩, ⟨0⟩), (⟨1⟩, ⟨1⟩)], .ofList [(⟨0⟩, ⟨0⟩)]⟩
  obtain ⟨applied, derived⟩ := fails_only_dangling
  have verified : Production.regrow.verify looped m = .ok () := by decide
  have refused : Production.regrow.apply looped m =
      .error (.failed (.danglingEdges ⟨1⟩ [⟨1⟩])) := by decide
  have found : matchesOf .backtracking none looped .regrow = [m] := by decide
  refine ⟨⟨m, verified, ?_⟩, ?_, ?_⟩
  · exact (applied _ _ _ regrow reach verified).2.1 _ refused
  · have verified : Production.regrow.verify .arrow m = .ok () := by decide
    obtain ⟨result, done⟩ : ∃ result, Production.regrow.apply .arrow m = .ok result := ⟨_, rfl⟩
    obtain ⟨-, -, -, spares⟩ := applied _ _ _ regrow arrow_reachable verified
    exact ⟨m, result, done, spares result done⟩
  · have taken : (g.step none looped).1 = _ := step_only (g := g) rfl found
    rw [refused] at taken
    obtain ⟨last, failed⟩ := derive_fails_first taken
    obtain ⟨graphs, h, -, count, named⟩ :=
      derived g looped _ _ last accepted (Strategy.lawful .backtracking) reach failed
    cases List.length_eq_zero_iff.mp (Nat.succ.inj count).symm
    exact ⟨_, last, failed, named⟩

end GraphTransformation.Grammar
