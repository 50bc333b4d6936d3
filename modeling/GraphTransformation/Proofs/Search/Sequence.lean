import GraphTransformation.Proofs.Graph.Removal
import GraphTransformation.Proofs.Search.Agreement
import GraphTransformation.Proofs.Search.Placement

/-!
The order in which a search finds the embeddings.

A plan lists the elements of its pattern, the vertex of each step before the edges that
the step covers (`Plan.elements`), and embeddings are compared by the images of these
elements, the first difference being what counts. For each element a search tries the
candidates in the order of their handles, and it goes on from one before it tries the
next. So what it finds ascends (`Search.Ascends`), by one lemma for the choice of an
image (`Ascends.choose`), be it of a vertex or of an edge.

* `Strategy.findAll_increasing`: the embeddings ascend strictly, so that their order only
  depends on which they are.
-/

namespace GraphTransformation

/-! ### Sequences of images -/

/-- The word of the element's handle. -/
def Element.word : Element → UInt64
  | .vertex v => v.word
  | .edge e => e.word

/-- The pattern elements in the order in which a search by the plan assigns them: step by step
the vertex, and then the edges that are covered. -/
def Plan.elements (plan : List PlanStep) : List Element :=
  plan.flatMap fun step => .vertex step.vertex :: step.covered.map .edge

namespace Embedding

/-- The words of the images of the elements, one after another. -/
def images (m : Embedding) (order : List Element) : List UInt64 :=
  order.filterMap fun e => (m.image? e).map (·.word)

variable {m : Embedding} {e f : Element} {order : List Element}

theorem images_cons (found : m.image? e = some f) :
    m.images (e :: order) = f.word :: m.images order :=
  List.filterMap_cons_some (by rw [found, Option.map_some])

theorem image?_mapVertex {p h : VertexId} : (Search.mapVertex m p h).image? e =
    if e = .vertex p then some (.vertex h) else m.image? e := by
  cases e with
  | vertex q =>
    simp only [image?, vertex?_mapVertex, Element.vertex.injEq]
    split
    · rfl
    · rfl
  | edge q => rfl

theorem image?_mapEdge {p h : EdgeId} : (Search.mapEdge m p h).image? e =
    if e = .edge p then some (.edge h) else m.image? e := by
  cases e with
  | vertex q => rfl
  | edge q =>
    simp only [image?, edge?_mapEdge, Element.edge.injEq]
    split
    · rfl
    · rfl

end Embedding

/-! ### Elements of a plan -/

namespace Plan

variable {pattern : Pattern} {host other : Graph} {placed remaining : List VertexId}
  {plan : List PlanStep}

theorem elements_cons {step : PlanStep} : elements (step :: plan) =
    .vertex step.vertex :: (step.covered.map .edge ++ elements plan) := rfl

theorem elements_perm : (elements plan).Perm
    ((plan.map (·.vertex)).map .vertex ++ (plan.flatMap (·.covered)).map .edge) := by
  induction plan with
  | nil => exact .nil
  | cons step rest ih =>
    rw [elements_cons, List.flatMap_cons, List.map_append]
    exact ((ih.append_left _).trans (List.perm_append_comm_assoc _ _ _)).cons _

/-- No element of the pattern comes twice. -/
theorem searchPlan_elements_nodup : (elements (searchPlan pattern host)).Nodup := by
  have rounds : Rounds pattern host [] pattern.graph.vertexIds (searchPlan pattern host) :=
    searchPlan_rounds
  have distinct := pattern.graph.vertexIds_nodup
  have vertices := rounds.vertices_perm.nodup_iff.mpr distinct
  have covered := rounds.covered_nodup distinct fun _ _ => List.not_mem_nil
  refine elements_perm.nodup_iff.mpr (List.nodup_append.mpr ⟨?_, ?_, ?_⟩)
  · exact vertices.map fun _ _ same => Element.vertex.inj same
  · exact covered.map fun _ _ same => Element.edge.inj same
  · rintro _ left _ right rfl
    obtain ⟨v, -, rfl⟩ := List.mem_map.mp left
    obtain ⟨e, -, same⟩ := List.mem_map.mp right
    cases same

/-- The host decides about candidates only. -/
theorem elements_steps {count : Nat} : elements (steps pattern host count placed remaining) =
    elements (steps pattern other count placed remaining) := by
  induction count generalizing placed remaining with
  | zero => rfl
  | succ count ih =>
    rw [steps, steps]
    split
    · rfl
    · rw [elements_cons, elements_cons, ih]
      rfl

theorem Rounds.candidates_eq (rounds : Rounds pattern host placed remaining plan) :
    ∀ s ∈ plan, s.candidates = candidates pattern host s.vertex := by
  induction rounds with
  | done _ => exact fun s mem => absurd mem List.not_mem_nil
  | round _ _ ih => exact List.forall_mem_cons.mpr ⟨rfl, ih⟩

end Plan

/-! ### Searches that ascend -/

namespace Search

variable {pattern : Pattern} {host : Graph} {m : Embedding} {ns : List Embedding}
  {order : List Element}

/-- The embeddings go on from `m` with images of the elements of `order`, and ascend by these. -/
structure Ascends (order : List Element) (m : Embedding) (ns : List Embedding) : Prop where
  /-- All other images are those of `m`. -/
  kept : ∀ n ∈ ns, ∀ e, e ∉ order → n.image? e = m.image? e
  total : ∀ n ∈ ns, ∀ e ∈ order, ∃ image, n.image? e = some image
  increasing : ns.Pairwise fun a b => a.images order < b.images order

theorem Ascends.none : Ascends order m [] where
  kept _ mem := absurd mem List.not_mem_nil
  total _ mem := absurd mem List.not_mem_nil
  increasing := .nil

theorem Ascends.self (m : Embedding) : Ascends [] m [m] where
  kept := by simp
  total := by simp
  increasing := List.pairwise_singleton _ _

/-- One image is chosen after another for the same element, and searched from. Two embeddings
from one choice agree there and differ later on; of two from different choices the one from
the earlier is less at once. -/
theorem Ascends.choose {α : Type} {e : Element} (new : e ∉ order) {choices : List α}
    (image : α → Element)
    (inc : choices.Pairwise fun a b => (image a).word < (image b).word) {start : α → Embedding}
    (starts : ∀ a f, (start a).image? f = if f = e then some (image a) else m.image? f)
    {search : α → List Embedding} (each : ∀ a ∈ choices, Ascends order (start a) (search a)) :
    Ascends (e :: order) m (choices.flatMap search) := by
  have chosen : ∀ a ∈ choices, ∀ n ∈ search a, n.image? e = some (image a) := by
    intro a mem n found
    rw [(each a mem).kept n found e new, starts, if_pos rfl]
  have sequence : ∀ a ∈ choices, ∀ n ∈ search a,
      n.images (e :: order) = (image a).word :: n.images order :=
    fun a mem n found => Embedding.images_cons (chosen a mem n found)
  constructor
  case kept =>
    intro n mem f off
    obtain ⟨a, mem, found⟩ := List.mem_flatMap.mp mem
    obtain ⟨apart, off⟩ := not_or.mp (mt List.mem_cons.mpr off)
    rw [(each a mem).kept n found f off, starts, if_neg apart]
  case total =>
    intro n mem f among
    obtain ⟨a, mem, found⟩ := List.mem_flatMap.mp mem
    rcases List.mem_cons.mp among with rfl | later
    · exact ⟨_, chosen a mem n found⟩
    · exact (each a mem).total n found f later
  case increasing =>
    refine List.pairwise_flatMap.mpr ⟨fun a mem => ?_, inc.imp_of_mem ?_⟩
    · refine (each a mem).increasing.imp_of_mem fun {n k} memN memK lt => ?_
      rw [sequence a mem n memN, sequence a mem k memK]
      exact List.cons_lt_cons_iff.mpr (.inr ⟨rfl, lt⟩)
    · intro a b memA memB lt n memN k memK
      rw [sequence a memA n memN, sequence b memB k memK]
      exact List.cons_lt_cons_iff.mpr (.inl lt)

theorem assignEdges_ascends {next : Embedding → List SearchEvent} {es : List EdgeId}
    (onward : ∀ m, Ascends order m (found (next m)))
    (distinct : (es.map Element.edge ++ order).Nodup) (m : Embedding) :
    Ascends (es.map .edge ++ order) m (found (assignEdges pattern host next es m)) := by
  induction es generalizing m with
  | nil => exact onward m
  | cons p rest ih =>
    obtain ⟨new, distinct⟩ := List.nodup_cons.mp distinct
    rw [assignEdges, found_flatMap]
    refine .choose new .edge ?_ (fun h f => Embedding.image?_mapEdge)
      fun h _ => ih distinct _
    exact edgeCandidates_increasing.imp Handle.compare_eq_lt.mp

theorem extend_ascends {plan : List PlanStep}
    (sources : ∀ step ∈ plan, SortedMap.Increasing step.candidates)
    (distinct : (Plan.elements plan).Nodup) (m : Embedding) :
    Ascends (Plan.elements plan) m (found (extend pattern host plan m)) := by
  induction plan generalizing m with
  | nil => exact .self m
  | cons step rest ih =>
    obtain ⟨source, sources⟩ := List.forall_mem_cons.mp sources
    rw [Plan.elements_cons] at distinct ⊢
    obtain ⟨new, distinct⟩ := List.nodup_cons.mp distinct
    have later := ih sources (List.nodup_append.mp distinct).2.1
    have choices : found (extend pattern host (step :: rest) m) =
        (stepCandidates pattern host step m).flatMap fun h =>
          found (tryVertex pattern host (extend pattern host rest) step m h) := found_flatMap
    rw [choices]
    refine .choose new .vertex ?_ (fun h f => Embedding.image?_mapVertex) fun h _ => ?_
    · exact (stepCandidates_increasing source).imp Handle.compare_eq_lt.mp
    · rw [tryVertex]
      split
      · -- the candidate is an image already, and is passed over
        exact .none
      · exact assignEdges_ascends later distinct _

/-- What the whole search finds ascends by the images of all elements. -/
theorem trace_ascends (cons : host.Consistent) :
    Ascends (Plan.elements (searchPlan pattern host)) .empty (found (trace pattern host)) := by
  refine extend_ascends (fun step mem => ?_) Plan.searchPlan_elements_nodup _
  rw [Plan.searchPlan_rounds.candidates_eq step mem]
  exact candidates_increasing cons

/-! ### Order and members -/

theorem Ascends.nodup (ascends : Ascends order m ns) : ns.Nodup := by
  refine ascends.increasing.imp fun {a b} lt => ?_
  rintro rfl
  exact List.lt_irrefl _ lt

/-- Embeddings that ascend by the same elements are in the same order. -/
theorem Ascends.eq_of_mem_iff {ns' : List Embedding} (ascends : Ascends order m ns)
    (ascends' : Ascends order m ns') (same : ∀ n, n ∈ ns ↔ n ∈ ns') : ns = ns' := by
  have perm : ns.Perm ns' := (List.perm_ext_iff_of_nodup ascends.nodup ascends'.nodup).mpr same
  refine perm.eq_of_pairwise (fun a b _ _ lt gt => ?_) ascends.increasing ascends'.increasing
  exact absurd gt (List.lt_asymm lt)

end Search

/-- Without a deadline the embeddings of any pattern ascend strictly by the images of the pattern's
elements in the order of the plan, so none repeats. The host has no say in that order, and two
hosts with the same embeddings have them in the same order, however they are searched. -/
theorem Strategy.findAll_increasing {host : Graph} (reach : host.Reachable) (pattern : Pattern)
    (strategy : Strategy) :
    let order := Plan.elements (searchPlan pattern host)
    let all := strategy.matcher.findAll pattern host
    (∀ m ∈ all, ∀ e ∈ order, ∃ image, m.image? e = some image) ∧
      all.Pairwise (fun a b => a.images order < b.images order) ∧ all.Nodup ∧
      ∀ other : Graph, other.Reachable → Plan.elements (searchPlan pattern other) = order ∧
        ∀ strategy' : Strategy,
          (∀ m, m ∈ strategy'.matcher.findAll pattern other ↔ m ∈ all) →
            strategy'.matcher.findAll pattern other = all := by
  intro order all
  have ascends : ∀ (g : Graph) (strategy : Strategy), g.Reachable →
      Search.Ascends order .empty (strategy.matcher.findAll pattern g) := by
    intro g strategy reach
    have same : Plan.elements (searchPlan pattern g) = order := Plan.elements_steps
    rw [findAll_eq, ← same]
    exact Search.trace_ascends reach.consistent
  have here := ascends host strategy reach
  refine ⟨here.total, here.increasing, here.nodup, fun other reach' => ⟨Plan.elements_steps, ?_⟩⟩
  exact fun strategy' same => (ascends other strategy' reach').eq_of_mem_iff here same

/-- Either direction of the arrow in the knot, along each of its edges that are no loops; one more
vertex of the host changes nothing. -/
theorem Strategy.findAll_arrow_knot :
    let pattern : Pattern := .ofGraph .arrow .undirected
    let order := Plan.elements (searchPlan pattern .knot)
    let all := parallel.matcher.findAll pattern .knot
    let other := (Graph.knot.perform (.addVertex .empty)).1
    Graph.knot.Reachable ∧ other.Reachable ∧ order = [.vertex ⟨0⟩, .vertex ⟨1⟩, .edge ⟨0⟩] ∧
      all.map (·.images order) =
        [[0, 1, 0], [0, 1, 2], [1, 0, 0], [1, 0, 2], [1, 2, 3], [2, 1, 3]] ∧
      all.Pairwise (fun a b => a.images order < b.images order) ∧
      backtracking.matcher.findAll pattern other = all := by
  intro pattern order all other
  have reach : other.Reachable := .step _ Graph.knot_reachable
  obtain ⟨-, increasing, -, determined⟩ := findAll_increasing Graph.knot_reachable pattern parallel
  have members : (backtracking.matcher.findAll pattern other).Perm all := by decide
  exact ⟨Graph.knot_reachable, reach, by decide, by decide, increasing,
    (determined other reach).2 backtracking fun _ => members.mem_iff⟩

end GraphTransformation
