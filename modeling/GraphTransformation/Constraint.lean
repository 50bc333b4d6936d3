import GraphTransformation.Value

/-!
Conditions on attributes.

A predicate is a condition on one attribute, which may be missing: one of a
fixed set of conditions, which can be stored, or a test given by a function,
which cannot. A constraint is a conjunction of predicates on named attributes;
several clauses may concern one name.
-/

namespace GraphTransformation

/-- A condition on one attribute of a host element. -/
inductive Condition where
  | equals (value : Value)
  | notEquals (value : Value)
  /-- A number within both bounds, the bounds included; a missing bound is open. -/
  | range (min max : Option Float)
  | oneOf (values : List Value)
  | present
  | absent
  deriving DecidableEq, Repr

namespace Condition

/-- Whether a number lies within the bounds that are given. -/
def within (min max : Option Float) (x : Float) : Bool :=
  min.all (fun bound => bound ≤ x) && max.all (fun bound => x ≤ bound)

/-- Whether the possibly missing attribute satisfies the condition. -/
def holds : Condition → Option Value → Bool
  | .equals expected, value => value.any (·.sameAs expected)
  | .notEquals expected, value => !value.any (·.sameAs expected)
  | .range min max, value => (value.bind (·.asFloat)).any (within min max)
  | .oneOf options, value => value.any fun v => options.any (v.sameAs ·)
  | .present, value => value.isSome
  | .absent, value => value.isNone

end Condition

/-- A condition, or a test under a name. -/
inductive Predicate where
  | condition (c : Condition)
  | custom (name : String) (test : Option Value → Bool)

/-- Whether the possibly missing attribute satisfies the predicate. -/
def Predicate.holds : Predicate → Option Value → Bool
  | .condition c, value => c.holds value
  | .custom _ test, value => test value

instance : Coe Condition Predicate := ⟨.condition⟩

/-- A conjunction of predicates on named attributes. -/
structure Constraint where
  clauses : List (String × Predicate)

namespace Constraint

/-- The constraint that every element satisfies. -/
def empty : Constraint := ⟨[]⟩

/-- Requires every attribute of the map to be present with the same value. -/
def ofAttributes (attributes : Attributes) : Constraint :=
  ⟨attributes.toList.map fun (name, value) => (name, .condition (.equals value))⟩

/-- Adds a clause at the end. -/
def push (c : Constraint) (name : String) (predicate : Predicate) : Constraint :=
  ⟨c.clauses ++ [(name, predicate)]⟩

/-- The clauses of both constraints. -/
def append (c d : Constraint) : Constraint := ⟨c.clauses ++ d.clauses⟩

instance : Append Constraint := ⟨append⟩

/-- Whether the attributes satisfy every clause. -/
def holds (c : Constraint) (attributes : Attributes) : Bool :=
  c.clauses.all fun (name, predicate) => predicate.holds (attributes.get? name)

end Constraint

end GraphTransformation
