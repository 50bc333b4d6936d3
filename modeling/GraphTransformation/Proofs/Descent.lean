import GraphTransformation.Proofs.Allocation

/-!
Graphs that a graph becomes.

`Graph.Descends g h` holds if some history leads from `g` to `h`. Of the handles that `g` has
given out, a descendant has only what was in `g`, and edges of both have the same ends in both
(`Descends.follows`).
-/

namespace GraphTransformation.Graph

/-- Some history leads from `g` to the graph. -/
inductive Descends (g : Graph) : Graph → Prop where
  | refl : Descends g g
  | step {h : Graph} (op : Operation) : Descends g h → Descends g (h.perform op).1

variable {g h k : Graph} {out : List Element}

theorem Yields.follows (yields : Yields g h out) : Follows g h where
  issued _ := yields.toAllocates.issues
  new element member := by
    by_cases before : g.contains element = true
    · exact .inl before
    · exact .inr (yields.fresh element ((yields.new element).mpr ⟨member, before⟩))
  ends := yields.ends

theorem Descends.reachable (reach : g.Reachable) (line : g.Descends h) : h.Reachable := by
  induction line with
  | refl => exact reach
  | step op _ ih => exact .step op ih

/-- Whatever happens to a graph, its elements are never exchanged for others. -/
theorem Descends.follows (reach : g.Reachable) (line : g.Descends h) : Follows g h := by
  induction line with
  | refl => exact .refl g
  | step op before ih =>
    have cons := (before.reachable reach).consistent
    exact ih.trans reach.consistent (perform_yields cons op).follows

end GraphTransformation.Graph
