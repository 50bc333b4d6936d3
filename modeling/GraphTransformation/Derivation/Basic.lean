import GraphTransformation.Production.Apply
import GraphTransformation.Random.Choice

/-!
Grammars and derivations.

A grammar changes a graph step by step. Each step visits the productions in
a random order, takes the first that has a match and applies it at a random one
of its matches. A derivation ends when no production matches or when it has
taken as many steps as it may. All choices come from the grammar's generator,
which goes on from one derivation to the next. A step that fails ends the derivation
with a report; one that carries a counter past the last word ends it without.
-/

namespace GraphTransformation

/-- How far a derivation goes and how long it looks for matches. -/
structure DerivationConfig where
  /-- The number of steps after which the derivation stops; zero means unbounded. -/
  maxSteps : Nat
  /-- The deadline of each search for matches, if there is one: that of a step's search
  for a production, in a branch. A production whose search is incomplete counts as having
  no match in that step. -/
  deadline : Option ((step production branch : Nat) → Deadline)

/-- Where a derivation stands. -/
inductive DerivationState where
  | running
  | haltedNoMatch
  | haltedStepLimit
  deriving DecidableEq, Repr

/-- The state as it is shown. -/
def DerivationState.text : DerivationState → String
  | .running => "running"
  | .haltedNoMatch => "no production matches"
  | .haltedStepLimit => "step limit reached"

/-- One step of a derivation. -/
structure StepRecord where
  production : String
  matched : Match
  /-- The number of matches the production had. -/
  candidates : Nat
  deriving DecidableEq

/-- The graphs of a derivation, without the one it starts from. -/
structure Derivation where
  graphs : List Graph
  steps : List StepRecord
  state : DerivationState
  deriving DecidableEq

/-- A derivation with a step that failed. -/
structure DerivationFailure where
  step : Nat
  production : String
  cause : Error
  deriving DecidableEq

/-- The wording of the failure, without its cause. -/
def DerivationFailure.message (f : DerivationFailure) : String :=
  s!"derivation step {f.step} failed in production `{f.production}`"

/-- How a derivation ends. -/
inductive DerivationResult where
  | finished (d : Derivation)
  | failed (f : DerivationFailure)
  /-- A step carried a counter past the last word. -/
  | overflow
  /-- An unbounded derivation went on for more steps than can be counted. -/
  | endless

/-- The result with one more step before it. -/
def DerivationResult.cons (g : Graph) (r : StepRecord) : DerivationResult → DerivationResult
  | .finished d => .finished { d with graphs := g :: d.graphs, steps := r :: d.steps }
  | other => other

/-- Productions that are applied repeatedly to a graph. -/
structure Grammar where
  productions : List Production
  matcher : Matcher
  generator : Random.Generator
  config : DerivationConfig

namespace Grammar

/-- A grammar with sequential search, no deadline and no bound. -/
def make (productions : List Production) (generator : Random.Generator) : Grammar :=
  ⟨productions, .backtracking, generator, ⟨0, none⟩⟩

/-! ### One step -/

/-- The matches of a production in `host`, of which each branch of the search has its own
deadline; none if the search is incomplete. -/
def matchesOf (matcher : Matcher) (deadline : Option (Nat → Deadline)) (host : Graph)
    (p : Production) : List Match :=
  match deadline with
  | none => p.findMatches host matcher
  | some d => (p.findMatchesWithin host matcher d).getD []

/-- The first of the numbered productions that has a match, with its matches. -/
def firstMatching (matcher : Matcher) (deadline : Option ((production branch : Nat) → Deadline))
    (host : Graph) : List (Nat × Production) → Option (Production × List Match)
  | [] => none
  | (i, p) :: rest =>
    match matchesOf matcher (deadline.map (· i)) host p with
    | [] => firstMatching matcher deadline host rest
    | found => some (p, found)

/-- What a step does. -/
inductive Step where
  | noMatch
  | failed (production : String) (cause : Error)
  | overflow
  | applied (graph : Graph) (record : StepRecord)

/-- The productions with their positions, in the order of the given positions. -/
def visited (g : Grammar) (order : List Nat) : List (Nat × Production) :=
  order.filterMap fun i => (g.productions[i]?).map (i, ·)

/-- One step from `host`: the productions in random order, then a random match. -/
def step (g : Grammar) (deadline : Option ((production branch : Nat) → Deadline))
    (host : Graph) : Step × Random.Generator :=
  let (order, afterOrder) := g.generator.order g.productions.length
  match firstMatching g.matcher deadline host (g.visited order) with
  | none => (.noMatch, afterOrder)
  | some (p, found) =>
    let (choice, afterChoice) := afterOrder.select found.length
    match choice.bind (found[·]?) with
    | none => (.noMatch, afterChoice)
    | some m =>
      match p.apply host m with
      | .error (.failed cause) => (.failed p.name cause, afterChoice)
      | .error .overflow => (.overflow, afterChoice)
      | .ok next => (.applied next ⟨p.name, m, found.length⟩, afterChoice)

/-! ### Derivations -/

/-- Whether a derivation of this many steps has reached its bound. -/
def atLimit (config : DerivationConfig) (taken : Nat) : Bool :=
  0 < config.maxSteps && config.maxSteps ≤ taken

/-- Goes on from `host`, after `taken` steps, for at most `fuel` steps. -/
def run (config : DerivationConfig) :
    (fuel taken : Nat) → Grammar → Graph → DerivationResult × Grammar
  | 0, _, g, _ => (.endless, g)
  | fuel + 1, taken, g, host =>
    let (did, generator) := g.step (config.deadline.map (· taken)) host
    let h := { g with generator }
    match did with
    | .noMatch => (.finished ⟨[], [], .haltedNoMatch⟩, h)
    | .failed production cause => (.failed ⟨taken + 1, production, cause⟩, h)
    | .overflow => (.overflow, h)
    | .applied next record =>
      if atLimit config (taken + 1) then
        (.finished ⟨[next], [record], .haltedStepLimit⟩, h)
      else
        let (rest, last) := run config fuel (taken + 1) h next
        (rest.cons next record, last)

/-- More steps than a derivation can hold graphs. -/
def stepCapacity : Nat := UInt64.size

/-- Derives from `host` under a configuration. The grammar comes back with its
generator after the last choice, however the derivation ends. -/
def derive (g : Grammar) (host : Graph) (config : DerivationConfig) :
    DerivationResult × Grammar :=
  run config (if config.maxSteps = 0 then stepCapacity else config.maxSteps) 0 g host

/-- Derives from `host` for at most `maxSteps` steps under the grammar's own configuration. -/
def apply (g : Grammar) (host : Graph) (maxSteps : Nat) : DerivationResult × Grammar :=
  g.derive host { g.config with maxSteps }

end Grammar

end GraphTransformation
