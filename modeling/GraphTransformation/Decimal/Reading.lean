/-!
Floating-point numbers from decimal text.

A decimal is digits with an optional point and an optional power of ten, of
which the value is the nearest floating-point number. The special values have
the names that they are written with.
-/

namespace GraphTransformation.Decimal

/-- The value of a decimal digit. -/
def digit (c : Char) : Nat := c.toNat - '0'.toNat

/-- The value of decimal digits. -/
def natOfDigits (digits : List Char) : Nat := digits.foldl (fun n c => n * 10 + digit c) 0

/-- The power of ten at the end of a decimal, after its mark. -/
def readPower (cs : List Char) : Option Int :=
  let (negative, digits) := match cs with
    | '-' :: rest => (true, rest)
    | '+' :: rest => (false, rest)
    | _ => (false, cs)
  if digits.isEmpty || !digits.all Char.isDigit then none
  else
    let n : Int := natOfDigits digits
    some (if negative then -n else n)

/-- The nearest floating-point number to `coefficient · 10 ^ power`. -/
def nearest (coefficient : Nat) (power : Int) : Float :=
  if coefficient = 0 then 0
  else if power + coefficient.repr.length > 400 then Float.ofScientific 1 false 400
  else if power + coefficient.repr.length < -400 then 0
  else if 0 ≤ power then Float.ofScientific coefficient false power.toNat
  else Float.ofScientific coefficient true (-power).toNat

/-- A decimal without its sign. -/
def readMagnitude (cs : List Char) : Option Float := do
  let isMark := fun c => c == 'e' || c == 'E'
  let mantissa := cs.takeWhile (!isMark ·)
  let power ← match cs.dropWhile (!isMark ·) with
    | _ :: rest => readPower rest
    | [] => some 0
  let whole := mantissa.takeWhile Char.isDigit
  let fraction ← match mantissa.dropWhile Char.isDigit with
    | [] => some []
    | '.' :: rest => if rest.all Char.isDigit then some rest else none
    | _ => none
  if whole.isEmpty && fraction.isEmpty then none
  else return nearest (natOfDigits (whole ++ fraction)) (power - fraction.length)

/-- The number in a text, if it is one. -/
def read? (text : String) : Option Float :=
  let (negative, cs) := match text.toList with
    | '-' :: rest => (true, rest)
    | '+' :: rest => (false, rest)
    | cs => (false, cs)
  let magnitude := match (String.ofList cs).toLower with
    | "nan" => some (Float.ofBits 0x7FF8000000000000)
    | "inf" | "infinity" => some (Float.ofBits 0x7FF0000000000000)
    | _ => readMagnitude cs
  magnitude.map fun x => if negative then -x else x

end GraphTransformation.Decimal
