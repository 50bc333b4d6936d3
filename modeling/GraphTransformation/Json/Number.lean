import GraphTransformation.Decimal.Reading
import GraphTransformation.Json.Draft
import GraphTransformation.Text.Symbol

/-!
Number literals of JSON.

A literal without fraction and exponent is an integer if it fits in 64 bits,
signed or unsigned, and is not a negative zero. Every other literal is a
floating-point number: its leading digits as far as they fit in 64 bits, rounded
to the nearest floating-point number and then multiplied or divided by a power
of ten. A literal too large for that is infinite.
-/

namespace GraphTransformation.Json

/-- A number literal in its parts. -/
structure NumberLiteral where
  negative : Bool
  whole : List Char
  fraction : List Char
  exponent : Int
  /-- Whether there is neither a fraction nor an exponent. -/
  integral : Bool

/-! ### Scanning -/

/-- The digits at the front, and what follows them. -/
def spanDigits : List Text.Symbol → List Char × List Text.Symbol
  | some c :: rest =>
    if c.isDigit then
      let (digits, rest) := spanDigits rest
      (c :: digits, rest)
    else ([], some c :: rest)
  | cs => ([], cs)

/-- The digits at the front, of which there must be at least one. -/
def scanDigits (cs : List Text.Symbol) : Option (List Char × List Text.Symbol) :=
  let (digits, rest) := spanDigits cs
  if digits.isEmpty then none else some (digits, rest)

/-- The digits before the point: a zero stands alone. -/
def scanWhole (cs : List Text.Symbol) : Option (List Char × List Text.Symbol) := do
  let (digits, rest) ← scanDigits cs
  if digits.head? == some '0' && digits.length != 1 then none else return (digits, rest)

/-- The point and the digits after it, if there is a point. -/
def scanFraction : List Text.Symbol → Option (Option (List Char) × List Text.Symbol)
  | some '.' :: rest => (scanDigits rest).map fun (digits, rest) => (some digits, rest)
  | cs => some (none, cs)

/-- The power of ten after its mark. -/
def scanPower : List Text.Symbol → Option (Int × List Text.Symbol)
  | some '-' :: rest =>
    (scanDigits rest).map fun (digits, rest) => (-(Decimal.natOfDigits digits : Int), rest)
  | some '+' :: rest =>
    (scanDigits rest).map fun (digits, rest) => ((Decimal.natOfDigits digits : Int), rest)
  | cs => (scanDigits cs).map fun (digits, rest) => ((Decimal.natOfDigits digits : Int), rest)

/-- The power of ten, if there is a mark for one. -/
def scanExponent : List Text.Symbol → Option (Option Int × List Text.Symbol)
  | some 'e' :: rest => (scanPower rest).map fun (power, rest) => (some power, rest)
  | some 'E' :: rest => (scanPower rest).map fun (power, rest) => (some power, rest)
  | cs => some (none, cs)

/-- The number literal at the front. -/
def scanNumber (cs : List Text.Symbol) : Option (NumberLiteral × List Text.Symbol) := do
  let (negative, cs) := match cs with
    | some '-' :: rest => (true, rest)
    | _ => (false, cs)
  let (whole, cs) ← scanWhole cs
  let (fraction, cs) ← scanFraction cs
  let (exponent, cs) ← scanExponent cs
  return ({ negative, whole, fraction := fraction.getD [], exponent := exponent.getD 0,
            integral := fraction.isNone && exponent.isNone }, cs)

/-! ### Value -/

/-- Leading digits with the power of ten they are short of. -/
structure Leading where
  digits : Nat
  power : Int
  /-- Whether a digit was left out, so that all later ones are left out too. -/
  full : Bool

/-- One more digit before the point. -/
def Leading.pushWhole (l : Leading) (c : Char) : Leading :=
  let next := l.digits * 10 + Decimal.digit c
  if !l.full && next < UInt64.size then { l with digits := next }
  else { l with power := l.power + 1, full := true }

/-- One more digit after the point. -/
def Leading.pushFraction (l : Leading) (c : Char) : Leading :=
  let next := l.digits * 10 + Decimal.digit c
  if !l.full && next < UInt64.size then { l with digits := next, power := l.power - 1 }
  else { l with full := true }

/-- The leading digits of a literal. -/
def NumberLiteral.leading (n : NumberLiteral) : Leading :=
  let whole := n.whole.foldl Leading.pushWhole ⟨0, n.exponent, false⟩
  n.fraction.foldl Leading.pushFraction { whole with full := false }

/-- The power of ten with a non-negative exponent, to nearest. -/
def powerOfTen (n : Nat) : Float := Float.ofScientific 1 false n

/-- The number times a power of ten. -/
def scale (x : Float) (power : Int) : Float :=
  if 0 ≤ power then
    if power ≤ 308 then x * powerOfTen power.toNat
    else if x == 0 then x
    else powerOfTen 309
  else if -308 ≤ power then x / powerOfTen (-power).toNat
  else if x == 0 then x
  else scale (x / powerOfTen 308) (power + 308)
termination_by power.natAbs

/-- The literal as a floating-point number. -/
def NumberLiteral.toFloat (n : NumberLiteral) : Float :=
  let leading := n.leading
  let x := scale (Float.ofNat leading.digits) leading.power
  if n.negative then -x else x

/-- The literal as a draft. -/
def NumberLiteral.draft (n : NumberLiteral) : Draft :=
  let magnitude := Decimal.natOfDigits n.whole
  if n.integral && !n.negative && magnitude < UInt64.size then .int magnitude
  else if n.integral && n.negative && magnitude != 0 && 2 * magnitude ≤ UInt64.size then
    .int (-magnitude)
  else .float n.toFloat

end GraphTransformation.Json
