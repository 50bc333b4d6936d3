import GraphTransformation.Proofs.Graph.Assembly
import GraphTransformation.Proofs.Production.Stages

/-!
Histories of a graph.

A graph is changed in place by one operation after another. `Graph.perform` says
what an operation leaves behind, also when it fails: the cascade of a removed
vertex takes out edges one by one, so a failure in its middle would leave a
half-changed graph. An addition that finds its counter at the last word stops, and the
history goes on from the graph as it was. `Graph.Reachable` holds of the graphs that some
history leads to from the empty graph or from a snapshot.

* `perform_consistent`: one operation keeps the invariant.
* `perform_stopped`: an operation that fails or stops leaves the graph as it was, cascades
  included.
* `reachable_invariant`: both hold at every point of every history.
-/

namespace GraphTransformation

/-- One change of a graph. -/
inductive Operation where
  | addVertex (attributes : Attributes)
  | addEdge (source target : VertexId) (attributes : Attributes)
  | add (new : Graph.NewElement)
  | removeEdge (id : EdgeId)
  | removeVertex (id : VertexId) (policy : DanglingPolicy)
  | remove (element : Element)
  | removeWithPolicy (policy : DanglingPolicy) (element : Element)
  /-- Replaces the attributes of a member by their image under `f`. -/
  | edit (f : Attributes → Attributes) (element : Element)
  /-- Goes on with the sub-structure of the listed elements. -/
  | subgraph (vertices : List VertexId) (edges : List EdgeId)
  /-- Goes on with the graph that is loaded from the graph's snapshot. -/
  | reload
  /-- Goes on with the result of the production at the match. -/
  | apply (p : Production) (m : Match)

namespace Graph

/-! ### Changes in place -/

/-- Takes out edges one after another, up to the first that is not a member: what is
left then, and the failure. -/
def takeOutEdges (g : Graph) : List EdgeId → Graph × Option Error
  | [] => (g, none)
  | id :: rest =>
    match g.removeEdge id with
    | .error e => (g, some e)
    | .ok (_, h) => takeOutEdges h rest

/-- Takes out a vertex with the edges that touch it: what is left, and the failure if
the operation stops early. -/
def takeOutVertex (g : Graph) (id : VertexId) (policy : DanglingPolicy) : Graph × Option Error :=
  if !g.vertexMap.contains id then (g, some (.unknownElement (.vertex id)))
  else if policy = .reject ∧ g.incidentEdges id ≠ [] then
    (g, some (.danglingEdges id (g.incidentEdges id)))
  else
    match g.takeOutEdges (g.incidentEdges id) with
    | (h, some e) => (h, some e)
    | (h, none) => (h.dropVertex id, none)

/-- The graph that replaces `g` if there is one, and `g` and the reason if not. -/
def settle {ε : Type} (g : Graph) : Except ε Graph → Graph × Option ε
  | .ok h => (h, none)
  | .error e => (g, some e)

/-- Takes out an element of either kind. -/
def takeOut (g : Graph) (policy : DanglingPolicy) : Element → Graph × Option Error
  | .vertex id => g.takeOutVertex id policy
  | .edge id => g.settle ((g.removeEdge id).map (·.2))

/-- The outcome of an operation that gives out no handle, so that all it can do is fail. -/
def failing (r : Graph × Option Error) : Graph × Option Stop := (r.1, r.2.map .failed)

/-- What the operation leaves of the graph it is performed on, and why it ended early if it
did. -/
def perform (g : Graph) : Operation → Graph × Option Stop
  | .addVertex attributes => g.settle ((g.addVertex attributes).map (·.2))
  | .addEdge source target attributes =>
    g.settle ((g.addEdge source target attributes).map (·.2))
  | .add new => g.settle ((g.add new).map (·.2))
  | .removeEdge id => failing (g.takeOut .cascade (.edge id))
  | .removeVertex id policy => failing (g.takeOutVertex id policy)
  | .remove element => failing (g.takeOut .cascade element)
  | .removeWithPolicy policy element => failing (g.takeOut policy element)
  | .edit f element => (g.modifyAttributes f element, none)
  | .subgraph vertices edges => failing (g.settle (g.subgraph vertices edges))
  | .reload => failing (g.settle g.snapshot.load)
  | .apply p m => g.settle (p.apply g m)

/-- The graphs that some history leads to. -/
inductive Reachable : Graph → Prop where
  | empty : Reachable .empty
  | loaded {s : Snapshot} {g : Graph} : s.load = .ok g → Reachable g
  | step {g : Graph} (op : Operation) : Reachable g → Reachable (g.perform op).1

variable {g h : Graph}

/-! ### Cascades in place -/

theorem settle_stopped {ε : Type} {r : Except ε Graph} {e : ε}
    (stopped : g.settle r = (h, some e)) : h = g := by
  cases r with
  | error cause =>
    cases stopped
    rfl
  | ok k => simp [settle] at stopped

theorem takeOutEdges_of_removeEdges {ids : List EdgeId} (removed : removeEdges g ids = .ok h) :
    g.takeOutEdges ids = (h, none) := by
  induction ids generalizing g with
  | nil =>
    cases removed
    rfl
  | cons id rest ih =>
    obtain ⟨⟨e, k⟩, first, others⟩ := bind_eq_ok.mp removed
    rw [takeOutEdges, first]
    exact ih others

/-- Taking out a vertex in place either changes nothing and fails as the removal does,
or leaves what the removal gives. -/
theorem Consistent.takeOutVertex_cases (cons : g.Consistent) (id : VertexId)
    (policy : DanglingPolicy) :
    (∃ e, g.takeOutVertex id policy = (g, some e) ∧ g.removeVertex id policy = .error e) ∨
      ∃ k removed, g.takeOutVertex id policy = (k, none) ∧
        g.removeVertex id policy = .ok (removed, k) := by
  rw [takeOutVertex, Graph.removeVertex]
  split
  · exact .inl ⟨_, rfl, rfl⟩
  · split
    · rename_i refused
      rw [if_pos refused]
      exact .inl ⟨_, rfl, rfl⟩
    · rename_i allowed
      obtain ⟨k, cleared⟩ := cons.cascade_total id
      rw [if_neg allowed, takeOutEdges_of_removeEdges cleared, cleared]
      exact .inr ⟨_, _, rfl, rfl⟩

theorem Consistent.takeOut_cases (cons : g.Consistent) (policy : DanglingPolicy)
    (element : Element) :
    (∃ e, g.takeOut policy element = (g, some e) ∧ g.removeWithPolicy policy element = .error e) ∨
      ∃ k removed, g.takeOut policy element = (k, none) ∧
        g.removeWithPolicy policy element = .ok (removed, k) := by
  cases element with
  | vertex id =>
    rcases cons.takeOutVertex_cases id policy with ⟨e, left, failed⟩ | ⟨k, removed, left, done⟩
    · exact .inl ⟨e, left, by rw [Graph.removeWithPolicy, failed]; rfl⟩
    · exact .inr ⟨k, _, left, by rw [Graph.removeWithPolicy, done]; rfl⟩
  | edge id =>
    cases outcome : g.removeEdge id with
    | error e =>
      refine .inl ⟨e, ?_, ?_⟩
      · rw [takeOut, outcome]; rfl
      · rw [Graph.removeWithPolicy, outcome]; rfl
    | ok r =>
      refine .inr ⟨r.2, [.edge id], ?_, ?_⟩
      · rw [takeOut, outcome]; rfl
      · rw [Graph.removeWithPolicy, outcome]; rfl

/-! ### One operation -/

theorem settle_consistent (cons : g.Consistent) {ε : Type} {r : Except ε Graph}
    (kept : ∀ k, r = .ok k → k.Consistent) : (g.settle r).1.Consistent := by
  cases r with
  | error e => exact cons
  | ok k => exact kept k rfl

theorem map_snd_eq_ok {ε α : Type} {r : Except ε (α × Graph)} :
    r.map (·.2) = .ok h ↔ ∃ a, r = .ok (a, h) := by
  cases r with
  | error e => simp [Except.map]
  | ok pair => simp [Except.map, Prod.ext_iff]

theorem Consistent.takeOut (cons : g.Consistent) (policy : DanglingPolicy) (element : Element) :
    (g.takeOut policy element).1.Consistent := by
  rcases cons.takeOut_cases policy element with ⟨e, left, -⟩ | ⟨k, removed, left, done⟩
  · rw [left]; exact cons
  · rw [left]; exact cons.removeWithPolicy done

/-- An operation keeps the invariant, whether it succeeds, fails or finds no handle left. -/
theorem perform_consistent (cons : g.Consistent) (op : Operation) :
    (g.perform op).1.Consistent := by
  cases op with
  | addVertex attributes =>
    refine settle_consistent cons fun k added => ?_
    obtain ⟨id, done⟩ := map_snd_eq_ok.mp added
    exact cons.addVertex done
  | addEdge source target attributes =>
    refine settle_consistent cons fun k added => ?_
    obtain ⟨id, done⟩ := map_snd_eq_ok.mp added
    exact cons.addEdge done
  | add new =>
    refine settle_consistent cons fun k added => ?_
    obtain ⟨element, done⟩ := map_snd_eq_ok.mp added
    exact cons.add done
  | removeEdge id => exact cons.takeOut .cascade (.edge id)
  | removeVertex id policy => exact cons.takeOut policy (.vertex id)
  | remove element => exact cons.takeOut .cascade element
  | removeWithPolicy policy element => exact cons.takeOut policy element
  | edit f element => exact cons.modifyAttributes f element
  | subgraph vertices edges => exact settle_consistent cons fun k taken => cons.subgraph taken
  | reload => exact settle_consistent cons fun k loaded => Snapshot.load_consistent loaded
  | apply p m =>
    exact settle_consistent cons fun k applied => Production.apply_consistent cons applied

theorem failing_eq {r : Graph × Option Error} {s : Stop} (stopped : failing r = (h, some s)) :
    ∃ e, r = (h, some e) := by
  obtain ⟨k, outcome⟩ := r
  cases outcome with
  | none => simp [failing] at stopped
  | some e =>
    cases stopped
    exact ⟨e, rfl⟩

/-- An operation that ends early leaves the graph as it was: a removal that passes its
checks is never stopped in the middle of its cascade, and an addition looks at its counter
before it puts anything in. -/
theorem perform_stopped (cons : g.Consistent) {op : Operation} {s : Stop}
    (stopped : g.perform op = (h, some s)) : h = g := by
  have takenOut : ∀ policy element,
      failing (g.takeOut policy element) = (h, some s) → h = g := by
    intro policy element stopped
    obtain ⟨e, left⟩ := failing_eq stopped
    rcases cons.takeOut_cases policy element with ⟨_, same, -⟩ | ⟨k, removed, done, -⟩
    · exact (congrArg Prod.fst (same.symm.trans left)).symm
    · exact absurd (congrArg Prod.snd (done.symm.trans left)) (by simp)
  have settled : ∀ r : Except Error Graph, failing (g.settle r) = (h, some s) → h = g := by
    intro r stopped
    obtain ⟨e, left⟩ := failing_eq stopped
    exact settle_stopped left
  cases op with
  | addVertex attributes => exact settle_stopped stopped
  | addEdge source target attributes => exact settle_stopped stopped
  | add new => exact settle_stopped stopped
  | removeEdge id => exact takenOut .cascade (.edge id) stopped
  | removeVertex id policy => exact takenOut policy (.vertex id) stopped
  | remove element => exact takenOut .cascade element stopped
  | removeWithPolicy policy element => exact takenOut policy element stopped
  | edit f element => simp [perform] at stopped
  | subgraph vertices edges => exact settled _ stopped
  | reload => exact settled _ stopped
  | apply p m => exact settle_stopped stopped

/-! ### Whole histories -/

theorem Reachable.consistent (reach : g.Reachable) : g.Consistent := by
  induction reach with
  | empty => exact blank_consistent 0 0
  | loaded loaded => exact Snapshot.load_consistent loaded
  | step op _ ih => exact perform_consistent ih op

/-- Two vertices and an edge from the first to the second. -/
def arrow : Graph :=
  [.addVertex .empty, .addVertex .empty, .addEdge ⟨0⟩ ⟨1⟩ .empty].foldl
    (fun g op => (g.perform op).1) .empty

theorem arrow_reachable : arrow.Reachable := .step _ (.step _ (.step _ .empty))

/-- At every point of every history the graph is consistent, and an operation that
fails there, or finds no handle left, changes nothing. -/
theorem reachable_invariant (reach : g.Reachable) :
    g.Consistent ∧ ∀ op h s, g.perform op = (h, some s) → h = g :=
  ⟨reach.consistent, fun _ _ _ stopped => perform_stopped reach.consistent stopped⟩

theorem arrow_rejects_removal :
    arrow.Reachable ∧ arrow.Consistent ∧
      ∃ h s, arrow.perform (.removeVertex ⟨0⟩ .reject) = (h, some s) ∧ h = arrow := by
  obtain ⟨cons, unchanged⟩ := reachable_invariant arrow_reachable
  have refused : arrow.perform (.removeVertex ⟨0⟩ .reject) =
      (arrow, some (.failed (.danglingEdges ⟨0⟩ [⟨0⟩]))) := by rfl
  exact ⟨arrow_reachable, cons, _, _, refused, unchanged _ _ _ refused⟩

end Graph

end GraphTransformation
