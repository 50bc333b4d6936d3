import GraphTransformation.Proofs.Graph.Removal
import GraphTransformation.Proofs.Search.Exactness
import Mathlib.Logic.Relation

/-!
The order in which a search places the vertices of a pattern.

The loop that makes a plan has no bound on its rounds (`Plan.Rounds`); it ends,
with the steps of `searchPlan`, when no vertex remains. A vertex that has no link
to the placed ones is only taken when none of the remaining has one, so what is
placed is then closed under the edges of the pattern, and a new component begins
(`no_path_of_unlinked`).

* `Rounds.step_follows`: what a step is, by the steps before it.
* `searchPlan_places`: the plan places every vertex and covers every edge once, and
  begins a component only when those before are finished.
-/

namespace GraphTransformation

/-! ### Components -/

namespace Graph

/-- An edge joins the two vertices, in either direction. -/
def Adjacent (g : Graph) (v w : VertexId) : Prop :=
  ∃ e x, g.edge? e = some x ∧ x.Joins .undirected v w

/-- The two vertices are in one component. -/
def Connected (g : Graph) : VertexId → VertexId → Prop := Relation.ReflTransGen g.Adjacent

variable {g : Graph} {v w : VertexId}

/-- A path does not leave a list of vertices that holds the neighbours of its members. -/
theorem Connected.mem {vs : List VertexId} (path : g.Connected v w)
    (closed : ∀ u ∈ vs, ∀ w, g.Adjacent u w → w ∈ vs) (start : v ∈ vs) : w ∈ vs := by
  induction path with
  | refl => exact start
  | tail _ step ih => exact closed _ ih _ step

end Graph

/-- Where a plan step stands after the earlier vertices have been placed. -/
structure PlanStep.Follows (g : Graph) (earlier : List VertexId) (step : PlanStep) : Prop where
  /-- The step covers the edges of which its vertex is the end that is placed last. -/
  covered : ∀ e, e ∈ step.covered ↔ ∃ x w, g.edge? e = some x ∧
    x.Joins .undirected step.vertex w ∧ w ∈ step.vertex :: earlier
  /-- An anchor is an earlier vertex, and a covered edge that is no loop joins the two in the
  direction of the anchor. -/
  anchored : ∀ a, step.anchor = some a → a.vertex ∈ earlier ∧
    ∃ e ∈ step.covered, ∃ x, g.edge? e = some x ∧ x.isLoop = false ∧
      if a.outgoing then x.source = a.vertex ∧ x.target = step.vertex
      else x.source = step.vertex ∧ x.target = a.vertex
  /-- A step without anchor is the first of its component. -/
  unanchored : step.anchor = none ↔ ∀ v ∈ earlier, ¬ g.Connected v step.vertex

/-- Only the members of the list count. -/
theorem PlanStep.Follows.congr {g : Graph} {earlier earlier' : List VertexId} {step : PlanStep}
    (follows : step.Follows g earlier) (same : ∀ w, w ∈ earlier ↔ w ∈ earlier') :
    step.Follows g earlier' := by
  obtain ⟨covered, anchored, unanchored⟩ := follows
  simp only [List.mem_cons, same] at covered anchored unanchored
  exact ⟨by simpa only [List.mem_cons] using covered, anchored, unanchored⟩

namespace Plan

variable {pattern : Pattern} {host : Graph} {g : Graph} {placed remaining : List VertexId}
  {v w : VertexId} {e : EdgeId} {plan : List PlanStep}

/-! ### The next vertex -/

theorem nextVertex_eq_none : nextVertex g placed remaining = none ↔ remaining = [] := by
  cases remaining with
  | nil => simp [nextVertex]
  | cons v rest => simp [nextVertex]

/-- A vertex is given up only for one that has at least as many links. -/
theorem links_le_foldl {rest : List VertexId} {first : VertexId} (mem : w ∈ first :: rest) :
    links g placed w ≤ links g placed
      (rest.foldl (fun best u => if outranks g placed u best then u else best) first) := by
  induction rest generalizing first w with
  | nil =>
    cases List.mem_singleton.mp mem
    exact Nat.le_refl _
  | cons u rest ih =>
    rw [List.foldl_cons]
    have better : links g placed first ≤
          links g placed (if outranks g placed u first then u else first) ∧
        links g placed u ≤ links g placed (if outranks g placed u first then u else first) := by
      split
      · rename_i higher
        simp only [outranks, Bool.or_eq_true, Bool.and_eq_true, decide_eq_true_eq,
          beq_iff_eq] at higher
        omega
      · rename_i lower
        simp only [outranks, Bool.or_eq_true, decide_eq_true_eq, not_or] at lower
        omega
    rcases List.mem_cons.mp mem with rfl | mem
    · exact Nat.le_trans better.1 (ih List.mem_cons_self)
    · rcases List.mem_cons.mp mem with rfl | mem
      · exact Nat.le_trans better.2 (ih List.mem_cons_self)
      · exact ih (List.mem_cons_of_mem _ mem)

/-- No remaining vertex has more links than the next one. -/
theorem links_le_nextVertex (next : nextVertex g placed remaining = some v) (mem : w ∈ remaining) :
    links g placed w ≤ links g placed v := by
  cases remaining with
  | nil => cases mem
  | cons first rest =>
    cases next
    exact links_le_foldl mem

/-! ### Links -/

theorem opposite_iff_joins {x : Edge} :
    x.opposite v = some w ↔ x.Joins .undirected v w := by
  rw [Search.opposite_eq_some, Edge.Joins]
  constructor
  · rintro (straight | ⟨-, target, source⟩)
    · exact .inl straight
    · exact .inr ⟨rfl, source, target⟩
  · rintro (straight | ⟨-, source, target⟩)
    · exact .inl straight
    · by_cases loop : x.source = v
      · exact .inl ⟨loop, by rw [target, ← source, loop]⟩
      · exact .inr ⟨loop, target, source⟩

/-- An edge is a loop when its other end is the same. -/
theorem isLoop_iff {x : Edge} (opposite : x.opposite v = some w) : x.isLoop = true ↔ w = v := by
  rw [Edge.isLoop, beq_iff_eq]
  rcases Search.opposite_eq_some.mp opposite with ⟨rfl, rfl⟩ | ⟨-, rfl, rfl⟩
  · exact eq_comm
  · exact .rfl

/-- A vertex has a link when an edge joins it to a placed one. -/
theorem links_pos (cons : g.Consistent) (mem : v ∈ placed) (adjacent : g.Adjacent v w) :
    0 < links g placed w := by
  obtain ⟨e, x, stored, joins⟩ := adjacent
  have back : x.opposite w = some v := by
    rw [opposite_iff_joins]
    rcases joins with ⟨source, target⟩ | ⟨-, source, target⟩
    · exact .inr ⟨rfl, source, target⟩
    · exact .inl ⟨source, target⟩
  have covered : e ∈ coveredEdges g placed w :=
    (Search.mem_coveredEdges cons).mpr ⟨x, v, stored, back, mem⟩
  exact List.countP_pos_iff.mpr ⟨e, List.mem_filter.mp covered⟩

/-- Once the next vertex has no link, no edge leads from the placed vertices to others, so no
path does. -/
theorem no_path_of_unlinked (cons : g.Consistent)
    (all : ∀ w ∈ g.vertexIds, w ∈ placed ∨ w ∈ remaining)
    (next : nextVertex g placed remaining = some v) (unlinked : links g placed v = 0)
    (new : v ∉ placed) (mem : w ∈ placed) : ¬ g.Connected w v := by
  intro path
  refine new (path.mem (fun u placedU w adjacent => ?_) mem)
  have member : w ∈ g.vertexIds := by
    obtain ⟨e, x, stored, ⟨-, rfl⟩ | ⟨-, rfl, -⟩⟩ := adjacent
    · exact cons.target_mem stored
    · exact cons.source_mem stored
  rcases all w member with inside | left
  · exact inside
  · have most := links_le_nextVertex next left
    have some := links_pos cons placedU adjacent
    omega

/-! ### Anchors -/

/-- There is no anchor when every covered edge is a loop. -/
theorem anchor?_eq_none {es : List EdgeId}
    (touching : ∀ e ∈ es, ∃ x w, g.edge? e = some x ∧ x.opposite v = some w) :
    anchor? g v es = none ↔ ∀ e ∈ es, ∀ x, g.edge? e = some x → x.isLoop = true := by
  rw [anchor?]
  constructor
  · intro none e mem x stored
    by_contra straight
    have among : x ∈ es.filterMap g.edge? := List.mem_filterMap.mpr ⟨e, mem, stored⟩
    obtain ⟨y, found⟩ : ∃ y, (es.filterMap g.edge?).find? (!·.isLoop) = some y :=
      Option.isSome_iff_exists.mp (List.find?_isSome.mpr ⟨x, among, by simpa using straight⟩)
    obtain ⟨k, listed, storedY⟩ := List.mem_filterMap.mp (List.mem_of_find?_eq_some found)
    obtain ⟨z, w, storedZ, opposite⟩ := touching k listed
    cases storedY.symm.trans storedZ
    rw [found, Option.bind_some, anchorAlong, opposite] at none
    cases none
  · intro loops
    have nothing : (es.filterMap g.edge?).find? (!·.isLoop) = none := by
      refine List.find?_eq_none.mpr fun x among => ?_
      obtain ⟨e, mem, stored⟩ := List.mem_filterMap.mp among
      simp [loops e mem x stored]
    rw [nothing]
    rfl

/-- A vertex has no anchor when it has no link to the placed ones. -/
theorem anchor?_covered_eq_none (cons : g.Consistent) (new : v ∉ placed) :
    anchor? g v (coveredEdges g (v :: placed) v) = none ↔ links g placed v = 0 := by
  have covers : ∀ e, e ∈ coveredEdges g (v :: placed) v ↔
      ∃ x w, g.edge? e = some x ∧ x.opposite v = some w ∧ w ∈ v :: placed :=
    fun e => Search.mem_coveredEdges cons
  rw [anchor?_eq_none fun e mem => ?touching, links, List.countP_eq_zero]
  case touching =>
    obtain ⟨x, w, stored, opposite, -⟩ := (covers e).mp mem
    exact ⟨x, w, stored, opposite⟩
  constructor
  · intro loops e _ joined
    obtain ⟨x, w, stored, opposite, mem⟩ := Search.joinsPlaced_iff.mp joined
    have covered := (covers e).mpr ⟨x, w, stored, opposite, List.mem_cons_of_mem _ mem⟩
    have here : w = v := (isLoop_iff opposite).mp (loops e covered x stored)
    exact new (here ▸ mem)
  · intro unlinked e mem x stored
    obtain ⟨y, w, storedY, opposite, among⟩ := (covers e).mp mem
    cases stored.symm.trans storedY
    refine (isLoop_iff opposite).mpr ((List.mem_cons.mp among).resolve_right fun inside => ?_)
    exact unlinked e (List.mem_filter.mp mem).1
      (Search.joinsPlaced_iff.mpr ⟨x, w, stored, opposite, inside⟩)

/-! ### One step -/

/-- The step made for the next vertex stands where the placed ones have left it. -/
theorem step_follows (lhs : pattern.graph.Consistent)
    (all : ∀ w ∈ pattern.graph.vertexIds, w ∈ placed ∨ w ∈ remaining) (new : v ∉ placed)
    (next : nextVertex pattern.graph placed remaining = some v) :
    (step pattern host (v :: placed) v).Follows pattern.graph placed := by
  have covered : ∀ e, e ∈ (step pattern host (v :: placed) v).covered ↔
      ∃ x w, pattern.graph.edge? e = some x ∧ x.opposite v = some w ∧ w ∈ v :: placed :=
    fun e => Search.mem_coveredEdges lhs
  have anchored : ∀ a, (step pattern host (v :: placed) v).anchor = some a → a.vertex ∈ placed ∧
      ∃ e ∈ (step pattern host (v :: placed) v).covered, ∃ x, pattern.graph.edge? e = some x ∧
        x.isLoop = false ∧ if a.outgoing then x.source = a.vertex ∧ x.target = v
          else x.source = v ∧ x.target = a.vertex := by
    intro a found
    obtain ⟨e, mem, x, stored, noLoop, ends⟩ := Search.anchor_joined found
    refine ⟨?_, e, mem, x, stored, noLoop, ends⟩
    have opposite : x.opposite v = some a.vertex := by
      rw [opposite_iff_joins]
      split at ends
      · exact .inr ⟨rfl, ends⟩
      · exact .inl ends
    obtain ⟨y, w, storedY, oppositeY, among⟩ := (covered e).mp mem
    cases stored.symm.trans storedY
    cases opposite.symm.trans oppositeY
    refine (List.mem_cons.mp among).resolve_left fun here => ?_
    simp [(isLoop_iff opposite).mpr here] at noLoop
  constructor
  case covered =>
    intro e
    simp only [covered, opposite_iff_joins]
    rfl
  case anchored => exact anchored
  case unanchored =>
    constructor
    · intro none w mem
      exact no_path_of_unlinked lhs all next ((anchor?_covered_eq_none lhs new).mp none) new mem
    · intro apart
      by_contra some
      obtain ⟨a, found⟩ := Option.ne_none_iff_exists'.mp some
      obtain ⟨mem, e, -, x, stored, -, ends⟩ := anchored a found
      refine apart a.vertex mem (.single ⟨e, x, stored, ?_⟩)
      split at ends
      · exact .inl ends
      · exact .inr ⟨rfl, ends⟩

/-! ### The loop -/

/-- The loop that makes the steps, however many rounds it takes: it places the next of the
remaining vertices, round after round, and ends when there is none. -/
inductive Rounds (pattern : Pattern) (host : Graph) :
    (placed remaining : List VertexId) → List PlanStep → Prop where
  | done {placed remaining : List VertexId} :
    nextVertex pattern.graph placed remaining = none → Rounds pattern host placed remaining []
  | round {placed remaining : List VertexId} {v : VertexId} {rest : List PlanStep} :
    nextVertex pattern.graph placed remaining = some v →
    Rounds pattern host (v :: placed) (remaining.erase v) rest →
    Rounds pattern host placed remaining (step pattern host (v :: placed) v :: rest)

/-- With as many rounds as vertices the loop is at its end. -/
theorem steps_rounds {count : Nat} (size : remaining.length = count) :
    Rounds pattern host placed remaining (steps pattern host count placed remaining) := by
  induction count generalizing placed remaining with
  | zero => exact .done (nextVertex_eq_none.mpr (List.eq_nil_of_length_eq_zero size))
  | succ count ih =>
    rw [steps]
    split
    · rename_i none
      exact .done none
    · rename_i v next
      refine .round next (ih ?_)
      rw [List.length_erase_of_mem (Search.nextVertex_mem next), size]
      rfl

theorem searchPlan_rounds :
    Rounds pattern host [] pattern.graph.vertexIds (searchPlan pattern host) :=
  steps_rounds Graph.length_vertexIds

theorem Rounds.vertices_perm (rounds : Rounds pattern host placed remaining plan) :
    (plan.map (·.vertex)).Perm remaining := by
  induction rounds with
  | done none =>
    rw [nextVertex_eq_none.mp none]
    exact .nil
  | @round placed remaining v rest next _ ih =>
    have mem := Search.nextVertex_mem next
    exact (ih.cons v).trans (List.perm_cons_erase mem).symm

/-- A step in the middle is the one made when the vertices before it are placed. -/
theorem Rounds.at_step {before after : List PlanStep} {s : PlanStep}
    (rounds : Rounds pattern host placed remaining (before ++ s :: after)) :
    ∃ placed' remaining', (∀ w, w ∈ placed' ↔ w ∈ before.map (·.vertex) ∨ w ∈ placed) ∧
      (∀ w ∈ remaining, w ∈ placed' ∨ w ∈ remaining') ∧
      nextVertex pattern.graph placed' remaining' = some s.vertex ∧
      s = step pattern host (s.vertex :: placed') s.vertex := by
  induction before generalizing placed remaining with
  | nil =>
    cases rounds with
    | round next _ => exact ⟨placed, remaining, by simp, fun w mem => .inr mem, next, rfl⟩
  | cons first before ih =>
    cases rounds with
    | @round _ _ v _ next rest =>
      obtain ⟨placed', remaining', members, all, nextS, made⟩ := ih rest
      refine ⟨placed', remaining', fun w => ?_, fun w mem => ?_, nextS, made⟩
      · rw [members, List.mem_cons, List.map_cons, List.mem_cons, or_left_comm, or_assoc]
        rfl
      · by_cases here : w = v
        · exact .inl ((members w).mpr (.inr (here ▸ List.mem_cons_self)))
        · exact all w ((List.mem_erase_of_ne here).mpr mem)

/-- Each step of the plan stands where the steps before it have left it. -/
theorem Rounds.step_follows (lhs : pattern.graph.Consistent)
    (rounds : Rounds pattern host [] pattern.graph.vertexIds plan) {before after : List PlanStep}
    {s : PlanStep} (split : plan = before ++ s :: after) :
    s.Follows pattern.graph (before.map (·.vertex)) := by
  have distinct : (plan.map (·.vertex)).Nodup :=
    rounds.vertices_perm.nodup_iff.mpr pattern.graph.vertexIds_nodup
  rw [split] at rounds distinct
  obtain ⟨placed, remaining, members, all, next, made⟩ := rounds.at_step
  simp only [List.not_mem_nil, or_false] at members
  have new : s.vertex ∉ placed := by
    intro early
    rw [List.map_append, List.map_cons] at distinct
    have apart := (List.nodup_append.mp distinct).2.2
    exact apart _ ((members _).mp early) _ List.mem_cons_self rfl
  rw [made]
  exact (Plan.step_follows lhs all new next).congr members

/-! ### All edges -/

theorem joins_of_mem_coveredEdges (mem : e ∈ coveredEdges g placed v) :
    ∃ x w, g.edge? e = some x ∧ x.Joins .undirected v w ∧ w ∈ placed := by
  obtain ⟨x, w, stored, opposite, among⟩ := Search.joinsPlaced_iff.mp (List.mem_filter.mp mem).2
  exact ⟨x, w, stored, opposite_iff_joins.mp opposite, among⟩

/-- The edges that are still to be covered do not have both ends placed. -/
theorem Rounds.open_of_mem_covered (rounds : Rounds pattern host placed remaining plan)
    (distinct : remaining.Nodup) (apart : ∀ w ∈ remaining, w ∉ placed)
    (mem : e ∈ plan.flatMap (·.covered)) :
    ∃ x, pattern.graph.edge? e = some x ∧ ¬ (x.source ∈ placed ∧ x.target ∈ placed) := by
  induction rounds with
  | done _ => cases mem
  | @round placed remaining v rest next _ ih =>
    have new := apart v (Search.nextVertex_mem next)
    rcases List.mem_append.mp mem with here | later
    · obtain ⟨x, w, stored, ⟨rfl, -⟩ | ⟨-, -, rfl⟩, -⟩ := joins_of_mem_coveredEdges here
      · exact ⟨x, stored, fun both => new both.1⟩
      · exact ⟨x, stored, fun both => new both.2⟩
    · obtain ⟨x, stored, still⟩ := ih (distinct.erase v) (Search.apart_of_erase distinct apart) later
      exact ⟨x, stored, fun both =>
        still ⟨List.mem_cons_of_mem _ both.1, List.mem_cons_of_mem _ both.2⟩⟩

theorem Rounds.covered_nodup (rounds : Rounds pattern host placed remaining plan)
    (distinct : remaining.Nodup) (apart : ∀ w ∈ remaining, w ∉ placed) :
    (plan.flatMap (·.covered)).Nodup := by
  induction rounds with
  | done _ => exact List.nodup_nil
  | @round placed remaining v rest next others ih =>
    have onward := Search.apart_of_erase (v := v) distinct apart
    refine List.nodup_append.mpr ⟨Search.coveredEdges_nodup, ih (distinct.erase v) onward, ?_⟩
    rintro e here _ later rfl
    obtain ⟨x, stored, still⟩ := others.open_of_mem_covered (distinct.erase v) onward later
    obtain ⟨y, w, storedY, joins, among⟩ := joins_of_mem_coveredEdges here
    cases stored.symm.trans storedY
    rcases joins with ⟨rfl, rfl⟩ | ⟨-, rfl, rfl⟩
    · exact still ⟨List.mem_cons_self, among⟩
    · exact still ⟨among, List.mem_cons_self⟩

/-- An edge is covered in the round that places the last of its ends. -/
theorem Rounds.covers (lhs : pattern.graph.Consistent)
    (rounds : Rounds pattern host placed remaining plan) {x : Edge}
    (stored : pattern.graph.edge? e = some x)
    (source : x.source ∈ placed ∨ x.source ∈ remaining)
    (target : x.target ∈ placed ∨ x.target ∈ remaining)
    (still : ¬ (x.source ∈ placed ∧ x.target ∈ placed)) : e ∈ plan.flatMap (·.covered) := by
  induction rounds with
  | done none =>
    rw [nextVertex_eq_none.mp none] at source target
    simp only [List.not_mem_nil, or_false] at source target
    exact absurd ⟨source, target⟩ still
  | @round placed remaining v rest next _ ih =>
    rw [List.flatMap_cons, List.mem_append]
    by_cases inside : x.source ∈ v :: placed ∧ x.target ∈ v :: placed
    · exact .inl (Search.mem_coveredEdges_of_placed lhs stored inside.1 inside.2 still)
    · right
      have onward : ∀ w, w ∈ placed ∨ w ∈ remaining → w ∈ v :: placed ∨ w ∈ remaining.erase v := by
        intro w among
        by_cases here : w = v
        · exact .inl (here ▸ List.mem_cons_self)
        · exact among.imp (List.mem_cons_of_mem _) (List.mem_erase_of_ne here).mpr
      exact ih (onward _ source) (onward _ target) inside

/-- Each edge of the pattern is covered by one step, and once by it. -/
theorem Rounds.covered_perm (lhs : pattern.graph.Consistent)
    (rounds : Rounds pattern host [] pattern.graph.vertexIds plan) :
    (plan.flatMap (·.covered)).Perm pattern.graph.edgeIds := by
  have distinct := pattern.graph.vertexIds_nodup
  have apart : ∀ w ∈ pattern.graph.vertexIds, w ∉ ([] : List VertexId) :=
    fun w _ => List.not_mem_nil
  refine (List.perm_ext_iff_of_nodup (rounds.covered_nodup distinct apart)
    (SortedMap.keys_nodup _)).mpr fun e => ?_
  constructor
  · intro mem
    obtain ⟨x, stored, -⟩ := rounds.open_of_mem_covered distinct apart mem
    exact SortedMap.mem_keys.mpr (SortedMap.contains_of_get? stored)
  · intro mem
    obtain ⟨x, stored⟩ := SortedMap.contains_iff.mp (SortedMap.mem_keys.mp mem)
    exact rounds.covers lhs stored (.inr (lhs.source_mem stored)) (.inr (lhs.target_mem stored))
      (by simp)

end Plan

/-! ### The plan of a search -/

namespace Search

variable {pattern : Pattern} {host : Graph} {s : PlanStep} {m : Embedding}

theorem stepCandidates_unanchored (unanchored : s.anchor = none) :
    stepCandidates pattern host s m = s.candidates := by
  rw [stepCandidates, unanchored]

theorem stepCandidates_anchored {a : Anchor} {image : VertexId} (anchored : s.anchor = some a)
    (found : m.vertex? a.vertex = some image) : stepCandidates pattern host s m =
      (neighbours pattern host image a.outgoing).filter s.candidates.contains := by
  simp only [stepCandidates, anchored, found]

end Search

/-- The loop that makes the steps ends, for the graph of any history and any host. Each vertex of
the pattern then has one step and each edge is covered by one, that of its end placed last; each
anchor is an earlier vertex that a covered edge joins to the vertex of its step, and the steps
without anchor are those that begin a component, in a connected pattern only the first. A step
without anchor tries host vertices anywhere. Any other tries only those next to the image of its
anchor, which has one by then. -/
theorem searchPlan_places {pattern : Pattern} (lhs : pattern.graph.Reachable) (host : Graph) :
    let plan := searchPlan pattern host
    Plan.Rounds pattern host [] pattern.graph.vertexIds plan ∧
      (plan.map (·.vertex)).Perm pattern.graph.vertexIds ∧
      (plan.flatMap (·.covered)).Perm pattern.graph.edgeIds ∧
      ∀ before step after, plan = before ++ step :: after →
        step.Follows pattern.graph (before.map (·.vertex)) ∧
        ((∀ v ∈ pattern.graph.vertexIds, ∀ w ∈ pattern.graph.vertexIds,
          pattern.graph.Connected v w) → (step.anchor = none ↔ before = [])) ∧
        (step.anchor = none → ∀ m, Search.stepCandidates pattern host step m = step.candidates) ∧
        ∀ a, step.anchor = some a → ∀ m : Embedding,
          (∀ s ∈ before, ∃ h, m.vertex? s.vertex = some h) →
            ∃ image, m.vertex? a.vertex = some image ∧ Search.stepCandidates pattern host step m =
              (Search.neighbours pattern host image a.outgoing).filter step.candidates.contains := by
  intro plan
  have rounds : Plan.Rounds pattern host [] pattern.graph.vertexIds plan := Plan.searchPlan_rounds
  have vertices := rounds.vertices_perm
  refine ⟨rounds, vertices, rounds.covered_perm lhs.consistent, fun before step after split => ?_⟩
  have follows := rounds.step_follows lhs.consistent split
  refine ⟨follows, fun whole => ?_, fun unanchored m => Search.stepCandidates_unanchored unanchored,
    fun a anchored m placed => ?_⟩
  · rw [follows.unanchored]
    constructor
    · intro apart
      cases before with
      | nil => rfl
      | cons root rest =>
        have first : root.vertex ∈ pattern.graph.vertexIds := vertices.mem_iff.mp (by simp [split])
        have here : step.vertex ∈ pattern.graph.vertexIds := vertices.mem_iff.mp (by simp [split])
        exact absurd (whole _ first _ here) (apart _ List.mem_cons_self)
    · rintro rfl
      exact fun v mem => absurd mem List.not_mem_nil
  · obtain ⟨early, -⟩ := follows.anchored a anchored
    obtain ⟨s, mem, same⟩ := List.mem_map.mp early
    obtain ⟨image, found⟩ := placed s mem
    rw [same] at found
    exact ⟨image, found, Search.stepCandidates_anchored anchored found⟩

/-- A vertex apart from the knot begins a component of its own. The loop and the edges in both
directions are covered where their later ends are placed, and the last step has no anchor. -/
theorem knot_places :
    let g := (Graph.knot.perform (.addVertex .empty)).1
    let plan := searchPlan (.ofGraph g .directed) .arrow
    g.Reachable ∧
      plan.map (fun s => (s.vertex, s.covered)) =
        [(⟨0⟩, [⟨1⟩]), (⟨1⟩, [⟨0⟩, ⟨2⟩]), (⟨2⟩, [⟨3⟩]), (⟨3⟩, [])] ∧
      plan.map (·.anchor) = [none, some ⟨⟨0⟩, true⟩, some ⟨⟨1⟩, true⟩, none] ∧
      ∀ v ∈ [⟨0⟩, ⟨1⟩, ⟨2⟩], ¬ g.Connected v ⟨3⟩ := by
  intro g plan
  have reach : g.Reachable := .step _ Graph.knot_reachable
  have anchors : plan.map (fun s => (s.vertex, s.anchor)) =
      [(⟨0⟩, none), (⟨1⟩, some ⟨⟨0⟩, true⟩), (⟨2⟩, some ⟨⟨1⟩, true⟩)] ++ [(⟨3⟩, none)] := by decide
  obtain ⟨before, ends, split, early, last⟩ := List.map_eq_append_iff.mp anchors
  obtain ⟨step, rfl, final⟩ := List.map_eq_singleton_iff.mp last
  obtain ⟨-, -, -, each⟩ := @searchPlan_places (.ofGraph g .directed) reach .arrow
  obtain ⟨vertex, unanchored⟩ := Prod.mk.inj final
  have apart := (each before step [] split).1.unanchored.mp unanchored
  have earlier : before.map (·.vertex) = [⟨0⟩, ⟨1⟩, ⟨2⟩] :=
    calc before.map (·.vertex)
        = (before.map fun s => (s.vertex, s.anchor)).map (·.1) := by
          rw [List.map_map]
          rfl
      _ = [⟨0⟩, ⟨1⟩, ⟨2⟩] := congrArg (List.map (·.1)) early
  rw [earlier, vertex] at apart
  exact ⟨reach, by decide, by decide, apart⟩

end GraphTransformation
