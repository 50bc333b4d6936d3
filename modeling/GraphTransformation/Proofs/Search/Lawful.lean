import GraphTransformation.Proofs.Search.Agreement
import GraphTransformation.Proofs.Search.Exactness

/-!
What is asked of a matcher.

A matcher may search as it likes, as long as it finds nothing but occurrences, each once, and
misses none unless it stops at a deadline (`Matcher.Lawful`). Both strategies do so
(`Strategy.lawful`). The matches of a production by a lawful matcher are then known without a look
at the search (`Lawful.mem_findMatches`, `Lawful.findMatchesWithin_occurs`).
-/

namespace GraphTransformation

/-- The matcher finds nothing but occurrences of the pattern, each once, and all of them if its
outcome is complete, as it is without a deadline. -/
structure Matcher.Lawful (matcher : Matcher) : Prop where
  nodup : ∀ {pattern host} deadline, pattern.graph.Consistent → host.Consistent →
    (matcher.find deadline pattern host).embeddings.Nodup
  sound : ∀ {pattern host deadline m}, pattern.graph.Consistent → host.Consistent →
    m ∈ (matcher.find deadline pattern host).embeddings → m.Occurs pattern host
  exhaustive : ∀ {pattern host deadline m}, pattern.graph.Consistent → host.Consistent →
    (matcher.find deadline pattern host).complete = true → m.Occurs pattern host →
    m ∈ (matcher.find deadline pattern host).embeddings
  unlimited : ∀ pattern host, (matcher.find (fun _ => .never) pattern host).complete = true

/-- However a search is carried out, what it finds in time are occurrences in the order of the
trace. -/
theorem Strategy.lawful (strategy : Strategy) : strategy.matcher.Lawful where
  nodup _ lhs cons := find_sublist.nodup (Search.trace_finds lhs cons).nodup
  sound lhs cons mem := ((Search.trace_finds lhs cons).mem _).mp (find_sublist.mem mem)
  exhaustive lhs cons complete occurs := by
    rw [matcher, find_complete complete]
    exact ((Search.trace_finds lhs cons).mem _).mpr occurs
  unlimited pattern host := congrArg SearchOutcome.complete (strategy.find_never pattern host)

namespace Matcher.Lawful

variable {matcher : Matcher} {p : Production} {host : Graph} {m : Match}

/-- Without a deadline the matches of a production are its occurrences. -/
theorem mem_findMatches (lawful : matcher.Lawful) (lhs : p.lhs.graph.Consistent)
    (cons : host.Consistent) : m ∈ p.findMatches host matcher ↔
      m.production = p.id ∧ m.embedding.Occurs p.lhs host := by
  rw [Production.findMatches, List.mem_map]
  constructor
  · rintro ⟨e, found, rfl⟩
    exact ⟨rfl, lawful.sound lhs cons found⟩
  · rintro ⟨own, occurs⟩
    exact ⟨m.embedding, lawful.exhaustive lhs cons (lawful.unlimited _ _) occurs, by rw [← own]⟩

/-- What is found before a deadline are matches, too. -/
theorem findMatchesWithin_occurs (lawful : matcher.Lawful) (lhs : p.lhs.graph.Consistent)
    (cons : host.Consistent) {deadline : Nat → Deadline} {ms : List Match}
    (outcome : p.findMatchesWithin host matcher deadline = some ms) (mem : m ∈ ms) :
    m.production = p.id ∧ m.embedding.Occurs p.lhs host := by
  simp only [Production.findMatchesWithin] at outcome
  split at outcome
  · cases outcome
    obtain ⟨e, found, rfl⟩ := List.mem_map.mp mem
    exact ⟨rfl, lawful.sound lhs cons found⟩
  · cases outcome

end Matcher.Lawful

end GraphTransformation
