import GraphTransformation.Proofs.Derivation.Runs
import GraphTransformation.Proofs.Graph.Succession
import GraphTransformation.Proofs.History
import GraphTransformation.Proofs.Production.Validity
import Mathlib.Data.List.Chain

/-!
Handles along a derivation.

`Grammar.Derives` lists the graphs that a grammar goes through while its steps are
applied, and a derivation is one of these lists (`run_derives`). Whatever is chosen,
each graph is a rewrite of the one before (`Derives.rewrites`), so all graphs follow
one another (`follows_of_rewrites`). `Graph.Lineage` says what this means for the
handles: none comes back, none is given out twice, and no edge moves.
-/

namespace GraphTransformation

namespace Graph

/-- What handles do along a sequence of graphs: one that goes does not come back, one that
is new had not been given out and is in no earlier graph, and an edge keeps its ends. -/
structure Lineage (graphs : List Graph) : Prop where
  gone : ∀ {i j : Nat} {g h k : Graph} {element : Element}, graphs[i]? = some g →
    graphs[i + 1]? = some h → graphs[j]? = some k → i < j →
    g.contains element = true → ¬ h.contains element = true → ¬ k.contains element = true
  new : ∀ {i : Nat} {g h : Graph} {element : Element}, graphs[i]? = some g →
    graphs[i + 1]? = some h → h.contains element = true → ¬ g.contains element = true →
    ¬ g.Issued element ∧
      ∀ (j : Nat) (k : Graph), j ≤ i → graphs[j]? = some k → ¬ k.contains element = true
  ends : ∀ {i j : Nat} {g h : Graph} {k : EdgeId} {x y : Edge}, graphs[i]? = some g →
    graphs[j]? = some h → g.edge? k = some x → h.edge? k = some y → y.ends = x.ends

/-- Graphs that follow one another have a lineage. -/
theorem lineage_of_follows {graphs : List Graph} (cons : ∀ g ∈ graphs, g.Consistent)
    (follows : graphs.Pairwise Follows) : Lineage graphs := by
  have later : ∀ {i j : Nat} {g k : Graph}, graphs[i]? = some g → graphs[j]? = some k → i ≤ j →
      Follows g k := by
    intro i j g k atI atJ le
    rcases Nat.lt_or_eq_of_le le with lt | rfl
    · obtain ⟨_, rfl⟩ := List.getElem?_eq_some_iff.mp atI
      obtain ⟨_, rfl⟩ := List.getElem?_eq_some_iff.mp atJ
      exact List.pairwise_iff_getElem.mp follows i j _ _ lt
    · cases atI.symm.trans atJ
      exact .refl g
  constructor
  case gone =>
    intro i j g h k element atI atNext atJ lt before left back
    have issued := (cons g (List.mem_of_getElem? atI)).issued before
    rcases (later atNext atJ lt).new element back with between | fresh
    · exact left between
    · exact fresh ((later atI atNext (Nat.le_succ i)).issued element issued)
  case new =>
    intro i g h element atI atNext after absent
    have fresh : ¬ g.Issued element :=
      ((later atI atNext (Nat.le_succ i)).new element after).resolve_left absent
    refine ⟨fresh, fun j k le atJ before => fresh ?_⟩
    have issued := (cons k (List.mem_of_getElem? atJ)).issued before
    exact (later atJ atI le).issued element issued
  case ends =>
    intro i j g h k x y atI atJ stored stored'
    rcases Nat.le_total i j with le | le
    · exact (later atI atJ le).ends stored stored'
    · exact ((later atJ atI le).ends stored' stored).symm

theorem Reachable.apply {p : Production} {m : Match} {host result : Graph}
    (reach : host.Reachable) (applied : p.apply host m = .ok result) : result.Reachable := by
  have next := Reachable.step (.apply p m) reach
  rwa [perform, applied] at next

end Graph

namespace Grammar

open GraphTransformation.Graph

variable {ps : List Production} {g last : Grammar} {taken : Nat}
  {deadline : Option ((step production branch : Nat) → Deadline)}
  {host seed : Graph} {graphs : List Graph}

/-! ### Rewriting in any way -/

/-- One of the productions rewrites the one graph into the other at some match. -/
def Rewrites (ps : List Production) (prev next : Graph) : Prop :=
  ∃ p ∈ ps, ∃ m, p.apply prev m = .ok next

/-- Repeated rewriting leads from a reachable graph to reachable graphs, and all of them follow
one another. -/
theorem follows_of_rewrites (reach : seed.Reachable)
    (chain : (seed :: graphs).IsChain (Rewrites ps)) :
    (∀ h ∈ seed :: graphs, h.Reachable) ∧ (seed :: graphs).Pairwise Follows := by
  induction graphs generalizing seed with
  | nil => exact ⟨by simpa using reach, List.pairwise_singleton _ _⟩
  | cons next rest ih =>
    obtain ⟨⟨p, mem, m, applied⟩, chain⟩ := List.isChain_cons_cons.mp chain
    obtain ⟨reachable, follows⟩ := ih (reach.apply applied) chain
    have first : Follows seed next := Production.apply_follows reach.consistent applied
    refine ⟨List.forall_mem_cons.mpr ⟨reach, reachable⟩, List.pairwise_cons.mpr ⟨?_, follows⟩⟩
    intro k mem
    rcases List.mem_cons.mp mem with rfl | mem
    · exact first
    · exact first.trans reach.consistent (List.rel_of_pairwise_cons follows mem)

/-! ### Derivations -/

/-- After `taken` steps, the grammar goes from `host` through the listed graphs, and is `last`
after them. -/
inductive Derives (deadline : Option ((step production branch : Nat) → Deadline)) :
    Nat → Grammar → Graph → List Graph → Grammar → Prop where
  | start (taken : Nat) (g : Grammar) (host : Graph) : Derives deadline taken g host [] g
  | step {taken : Nat} {g last : Grammar} {host next : Graph} {graphs : List Graph}
    {record : StepRecord} {generator : Random.Generator} :
    g.step (deadline.map (· taken)) host = (.applied next record, generator) →
    Derives deadline (taken + 1) { g with generator } next graphs last →
    Derives deadline taken g host (next :: graphs) last

theorem Derives.productions (derives : Derives deadline taken g host graphs last) :
    last.productions = g.productions := by
  induction derives with
  | start => rfl
  | step _ _ ih => exact ih

theorem Derives.matcher (derives : Derives deadline taken g host graphs last) :
    last.matcher = g.matcher := by
  induction derives with
  | start => rfl
  | step _ _ ih => exact ih

/-- The only match of the only production is taken. -/
theorem step_only {limits : Option ((production branch : Nat) → Deadline)} {p : Production}
    {m : Match} (single : g.productions = [p])
    (found : matchesOf g.matcher (limits.map (· 0)) host p = [m]) :
    (g.step limits host).1 = .ofResult p.name m 1 (p.apply host m) := by
  rcases step_cases g limits host with ⟨-, none⟩ | ⟨i, q, here, n, matched, done⟩
  · cases found.symm.trans (none 0 p (by simp [single]))
  · rw [single, List.getElem?_singleton] at here
    split at here
    · rename_i first
      cases here
      rw [first, found] at matched done
      cases List.mem_singleton.mp matched
      exact done
    · cases here

theorem Derives.rewrites (derives : Derives deadline taken g host graphs last) :
    (host :: graphs).IsChain (Rewrites g.productions) := by
  induction derives with
  | start => exact .singleton _
  | step stepped _ ih =>
    obtain ⟨i, p, here, m, -, result, -⟩ := step_eq_applied (congrArg Prod.fst stepped)
    exact List.isChain_cons_cons.mpr ⟨⟨p, List.mem_of_getElem? here, m, result⟩, ih⟩

/-- The result is what a run gives that goes through these graphs, after `taken` steps, and
stops with the grammar `h`. -/
structure Closes (deadline : Option ((step production branch : Nat) → Deadline)) (taken : Nat)
    (host : Graph) (graphs : List Graph) (h : Grammar) (result : DerivationResult) : Prop where
  finished : ∀ d, result = .finished d → d.graphs = graphs
  failed : ∀ f, result = .failed f → f.step = taken + graphs.length + 1 ∧
    (h.step (deadline.map (· (taken + graphs.length))) (graphs.getLastD host)).1 =
      .failed f.production f.cause
  overflow : result = .overflow →
    (h.step (deadline.map (· (taken + graphs.length))) (graphs.getLastD host)).1 = .overflow

theorem Closes.cons {next : Graph} {record : StepRecord} {h : Grammar}
    {result : DerivationResult} (closes : Closes deadline (taken + 1) next graphs h result) :
    Closes deadline taken host (next :: graphs) h (result.cons next record) := by
  have last : (next :: graphs).getLastD host = graphs.getLastD next := List.getLastD_cons
  have count : taken + (next :: graphs).length = taken + 1 + graphs.length := by
    rw [List.length_cons]
    omega
  cases result with
  | finished d =>
    refine ⟨fun d' done => ?_, by simp [DerivationResult.cons], by simp [DerivationResult.cons]⟩
    cases done
    exact congrArg (next :: ·) (closes.finished d rfl)
  | failed f =>
    refine ⟨by simp [DerivationResult.cons], fun f' failed => ?_, by simp [DerivationResult.cons]⟩
    cases failed
    rw [last, count]
    exact closes.failed f rfl
  | overflow =>
    refine ⟨by simp [DerivationResult.cons], by simp [DerivationResult.cons], fun _ => ?_⟩
    rw [last, count]
    exact closes.overflow rfl
  | endless => constructor <;> simp [DerivationResult.cons]

/-- A run goes through its graphs; if it fails or finds no handle, it does so in the step after
them. -/
theorem run_derives {config : DerivationConfig} {fuel : Nat} {result : DerivationResult}
    (ran : run config fuel taken g host = (result, last)) :
    ∃ graphs h, Derives config.deadline taken g host graphs h ∧
      Closes config.deadline taken host graphs h result := by
  induction fuel generalizing taken g host result with
  | zero =>
    cases ran
    exact ⟨[], last, .start taken last host, by simp, by simp, by simp⟩
  | succ fuel ih =>
    rw [run] at ran
    split at ran
    rename_i did generator stepped
    have outcome : (g.step (config.deadline.map (· taken)) host).1 = did :=
      congrArg Prod.fst stepped
    cases did with
    | noMatch =>
      cases ran
      refine ⟨[], g, .start taken g host, fun d done => ?_, by simp, by simp⟩
      cases done
      rfl
    | failed production cause =>
      cases ran
      refine ⟨[], g, .start taken g host, by simp, fun f failed => ?_, by simp⟩
      cases failed
      exact ⟨rfl, outcome⟩
    | overflow =>
      cases ran
      exact ⟨[], g, .start taken g host, by simp, by simp, fun _ => outcome⟩
    | applied next record =>
      simp only at ran
      split at ran
      · cases ran
        refine ⟨[next], _, .step stepped (.start _ _ next), fun d done => ?_, by simp, by simp⟩
        cases done
        rfl
      · cases rest : run config fuel (taken + 1) { g with generator } next with
        | mk inner final =>
          rw [rest] at ran
          cases ran
          obtain ⟨graphs, h, derives, closes⟩ := ih rest
          exact ⟨next :: graphs, h, .step stepped derives, closes.cons⟩

/-- The graphs of a derivation that returns have a lineage, as have those of every other
way to rewrite a reachable graph by the grammar's productions. -/
theorem derive_lineage (reach : seed.Reachable) :
    (∀ config d last, g.derive seed config = (.finished d, last) → Lineage (seed :: d.graphs)) ∧
    ∀ graphs : List Graph, (seed :: graphs).IsChain (Rewrites g.productions) →
      Lineage (seed :: graphs) := by
  have rewriting : ∀ graphs : List Graph, (seed :: graphs).IsChain (Rewrites g.productions) →
      Lineage (seed :: graphs) := by
    intro graphs chain
    obtain ⟨reachable, follows⟩ := follows_of_rewrites reach chain
    exact lineage_of_follows (fun h mem => (reachable h mem).consistent) follows
  refine ⟨fun config d last derived => rewriting _ ?_, rewriting⟩
  obtain ⟨graphs, h, derives, closes⟩ := run_derives derived
  rw [closes.finished d rfl]
  exact derives.rewrites

theorem derive_lineage_regrow :
    let g := make [.regrow] default
    (∃ d last, g.derive .arrow ⟨1, none⟩ = (.finished d, last) ∧ d.graphs.length = 1 ∧
      Lineage (.arrow :: d.graphs)) ∧
    ∃ a b : Graph, a.edgeIds = [⟨1⟩] ∧ b.vertexIds = [⟨0⟩, ⟨3⟩] ∧ Lineage [.arrow, a, b] := by
  intro g
  obtain ⟨derived, rewritten⟩ := derive_lineage (g := g) arrow_reachable
  -- the same changes one by one: the second end goes with the edge, a new end comes with a new one
  let a : Graph := [.removeVertex ⟨1⟩ .cascade, .addVertex .empty, .addEdge ⟨0⟩ ⟨2⟩ .empty].foldl
    (fun g op => (g.perform op).1) .arrow
  let b : Graph := [.removeVertex ⟨2⟩ .cascade, .addVertex .empty, .addEdge ⟨0⟩ ⟨3⟩ .empty].foldl
    (fun g op => (g.perform op).1) a
  let first : Match := ⟨⟨0⟩, .ofList [(⟨0⟩, ⟨0⟩), (⟨1⟩, ⟨1⟩)], .ofList [(⟨0⟩, ⟨0⟩)]⟩
  let second : Match := ⟨⟨0⟩, .ofList [(⟨0⟩, ⟨0⟩), (⟨1⟩, ⟨2⟩)], .ofList [(⟨0⟩, ⟨1⟩)]⟩
  have found : matchesOf .backtracking none .arrow .regrow = [first] := by decide
  have applied : Production.regrow.apply .arrow first = .ok a := by decide +kernel
  have appliedAgain : Production.regrow.apply a second = .ok b := by decide +kernel
  constructor
  · have taken : (g.step none .arrow).1 = _ := step_only (g := g) rfl found
    rw [applied] at taken
    have finished := derive_one (Prod.ext taken rfl)
    exact ⟨_, _, finished, rfl, derived _ _ _ finished⟩
  · have rewrites : Rewrites g.productions .arrow a := ⟨_, List.mem_cons_self, _, applied⟩
    have rewritesAgain : Rewrites g.productions a b := ⟨_, List.mem_cons_self, _, appliedAgain⟩
    exact ⟨a, b, by decide, by decide, rewritten [a, b]
      (.cons_cons rewrites (.cons_cons rewritesAgain (.singleton _)))⟩

end Grammar

end GraphTransformation
