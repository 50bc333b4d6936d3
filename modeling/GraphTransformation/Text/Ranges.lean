/-!
Sets of characters as ranges of code points.

A property of the Unicode character database is kept as the increasing list of
the ranges that have it, both ends included.
-/

namespace GraphTransformation.Text

/-- Increasing ranges of code points, both ends included. -/
abbrev Ranges := List (Nat × Nat)

/-- Whether the number lies in one of the ranges. -/
def Ranges.holds : Ranges → Nat → Bool
  | [], _ => false
  | (low, high) :: rest, n => low ≤ n && (n ≤ high || holds rest n)

/-- Whether the character lies in one of the ranges. -/
def isIn (ranges : Ranges) (c : Char) : Bool := ranges.holds c.toNat

/-- Whether the character lies between two code points, both included. -/
def isBetween (low high : Nat) (c : Char) : Bool := low ≤ c.toNat && c.toNat ≤ high

end GraphTransformation.Text
