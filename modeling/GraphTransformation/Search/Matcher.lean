import GraphTransformation.Search.Trace

/-!
Matchers: searches for all embeddings of a pattern under a deadline.

A matcher is any function that searches. Two strategies are given: the sequential one
makes one search; the parallel one makes one search for each candidate of the first
planned vertex, each with a deadline of its own, and joins the outcomes in candidate
order.

A deadline is modelled by the number of looks at it before it has passed. A search
stops at the first look after that, and its outcome says whether it was complete.
-/

namespace GraphTransformation

/-- When a search has to stop. -/
inductive Deadline where
  | never
  /-- The deadline has passed once it was looked at `checks` times. -/
  | after (checks : Nat)
  deriving DecidableEq, Repr

/-- A deadline that has passed from the start. -/
def Deadline.past : Deadline := .after 0

/-- The embeddings found by a search. -/
structure SearchOutcome where
  embeddings : List Embedding
  /-- False when the search stopped at its deadline and may have missed embeddings. -/
  complete : Bool
  deriving DecidableEq

namespace SearchOutcome

/-- The outcome with nothing found in a space that was searched. -/
def nothing : SearchOutcome := ⟨[], true⟩

/-- The outcome with one embedding found before the others. -/
def cons (m : Embedding) (o : SearchOutcome) : SearchOutcome :=
  { o with embeddings := m :: o.embeddings }

/-- The embeddings of both outcomes; complete if both are. -/
def append (a b : SearchOutcome) : SearchOutcome :=
  ⟨a.embeddings ++ b.embeddings, a.complete && b.complete⟩

/-- The embeddings of all outcomes in order; complete if all are. -/
def merge (outcomes : List SearchOutcome) : SearchOutcome := outcomes.foldl append nothing

end SearchOutcome

/-- The embedding of an event that finds one. -/
def SearchEvent.embedding? : SearchEvent → Option Embedding
  | .check => none
  | .found m => some m

/-- What is found before the deadline's `checks + 1`st look. -/
def outcomeAfter : (checks : Nat) → List SearchEvent → SearchOutcome
  | _, [] => .nothing
  | checks, .found m :: rest => (outcomeAfter checks rest).cons m
  | 0, .check :: _ => ⟨[], false⟩
  | checks + 1, .check :: rest => outcomeAfter checks rest

/-- What a search finds under a deadline. -/
def Deadline.outcome : Deadline → List SearchEvent → SearchOutcome
  | .never, events => ⟨events.filterMap (·.embedding?), true⟩
  | .after checks, events => outcomeAfter checks events

/-- Searches for the embeddings of a pattern in a host graph. Each branch of a search has
its own deadline. -/
structure Matcher where
  find : (deadline : Nat → Deadline) → Pattern → Graph → SearchOutcome

/-- How a search is carried out. -/
inductive Strategy where
  | backtracking
  | parallel
  deriving DecidableEq, Repr, Inhabited

/-- Searches for the embeddings of `pattern` in `host`. Branch `i` of a parallel
search has the deadline `deadline i`, the sequential search the deadline `deadline 0`. -/
def Strategy.find (deadline : Nat → Deadline) (pattern : Pattern) (host : Graph) :
    Strategy → SearchOutcome
  | .backtracking => (deadline 0).outcome (Search.trace pattern host)
  | .parallel =>
    .merge ((Search.branches pattern host).mapIdx fun i events => (deadline i).outcome events)

/-- The matcher that searches in this way. -/
def Strategy.matcher (strategy : Strategy) : Matcher :=
  ⟨fun deadline pattern host => strategy.find deadline pattern host⟩

instance : Coe Strategy Matcher := ⟨Strategy.matcher⟩

namespace Matcher

/-- Sequential search. -/
def backtracking : Matcher := Strategy.backtracking

/-- Search by one branch for each candidate of the first planned vertex. -/
def parallel : Matcher := Strategy.parallel

instance : Inhabited Matcher := ⟨backtracking⟩

/-- Every embedding of `pattern` in `host`. -/
def findAll (matcher : Matcher) (pattern : Pattern) (host : Graph) : List Embedding :=
  (matcher.find (fun _ => .never) pattern host).embeddings

end Matcher

end GraphTransformation
