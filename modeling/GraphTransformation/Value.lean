import GraphTransformation.SortedMap
import GraphTransformation.Decimal.Layout

/-!
Attribute values and attribute maps.

Integers and floating-point numbers are different values, and `Value.equal`
keeps them apart; `Value.sameAs` compares all numbers by their floating-point
view. A NaN equals nothing under either, itself included. Attribute maps are
ordered by name, which for text is the order of code points.
-/

namespace GraphTransformation

/-- A single attribute value. -/
inductive Value where
  | bool (b : Bool)
  | int (n : Int64)
  | float (x : Float)
  | string (s : String)
  deriving DecidableEq, Repr

/-- The attributes of a graph element by name. -/
abbrev Attributes := SortedMap String Value

namespace Value

/-! ### Numbers of other widths -/

/-- A signed 32-bit number as an integer. -/
def ofInt32 (n : Int32) : Value := .int n.toInt64

/-- An unsigned 32-bit number as an integer. -/
def ofUInt32 (n : UInt32) : Value := .int (Int64.ofNat n.toNat)

/-! ### Comparison -/

/-- The floating-point view of a number; an integer is rounded to the nearest one. -/
def asFloat : Value → Option Float
  | .int n => some (Float.ofInt n.toInt)
  | .float x => some x
  | .bool _ | .string _ => none

/-- Equality of values of one kind. -/
def equal : Value → Value → Bool
  | .bool a, .bool b => a == b
  | .int m, .int n => m == n
  | .float x, .float y => x == y
  | .string s, .string t => s == t
  | _, _ => false

/-- Equality that takes an integer and a floating-point number with the same
view as the same number. -/
def sameAs (a b : Value) : Bool :=
  match a.asFloat, b.asFloat with
  | some x, some y => x == y
  | _, _ => a.equal b

/-! ### Text -/

/-- The value as it is shown in labels. A text stands between single quotes, as it is. -/
def text : Value → String
  | .bool b => if b then "true" else "false"
  | .int n => n.toInt.repr
  | .float x => Decimal.Layout.plain.text x
  | .string s => "'" ++ s ++ "'"

end Value

namespace Attributes

/-- The attributes as lines `name: value`, in the order of their names. -/
def describe (attributes : Attributes) : String :=
  "\n".intercalate (attributes.toList.map fun (name, value) => name ++ ": " ++ value.text)

/-- Whether both maps bind the same names to equal values. -/
def equal (a b : Attributes) : Bool :=
  a.size == b.size &&
    (a.toList.zip b.toList).all fun (x, y) => x.1 == y.1 && x.2.equal y.2

/-- The attributes with every binding of `literals` put over them. -/
def override (attributes literals : Attributes) : Attributes :=
  attributes.insertAll literals.toList

end Attributes

end GraphTransformation
