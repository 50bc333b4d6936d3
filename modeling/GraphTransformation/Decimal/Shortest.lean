/-!
The fewest decimal digits that identify a floating-point number.

A positive finite number is `mantissa · 2 ^ exponent`. The reals that round to
it form an interval around it, whose ends belong to it when the mantissa is
even. On the grid of decimals with one, two, … significant digits the two
neighbours of the number are tried; the first grid with a neighbour in the
interval gives the digits, and of two such neighbours the nearer is taken; a `Tie`
says which one of two at the same distance. All arithmetic is exact.
-/

namespace GraphTransformation.Decimal

/-- The positive number `mantissa · 2 ^ exponent`. `narrow` says that the next
smaller number is half as far away as the next larger one. -/
structure Binary where
  mantissa : Nat
  exponent : Int
  narrow : Bool
  deriving DecidableEq, Repr

/-- The finite number, without its sign, in the 64 bits of its encoding. -/
def Binary.ofBits (bits : UInt64) : Binary :=
  let fraction := (bits &&& 0xFFFFFFFFFFFFF).toNat
  let exponent := ((bits >>> 52) &&& 0x7FF).toNat
  if exponent = 0 then
    ⟨fraction, -1074, false⟩
  else
    ⟨0x10000000000000 + fraction, Int.ofNat exponent - 1075, fraction == 0 && exponent > 1⟩

/-- The number `coefficient · 10 ^ exponent`. -/
structure Digits where
  coefficient : Nat
  exponent : Int
  deriving DecidableEq, Repr

/-- A number as a quotient, with the ends of the interval of reals that round to
it over the same denominator. -/
structure Interval where
  low : Nat
  value : Nat
  high : Nat
  denominator : Nat
  closed : Bool

/-- The interval of the reals that round to `b`. -/
def Binary.interval (b : Binary) : Interval :=
  let scale := Nat.pow 2 (b.exponent - 2).toNat
  let below := if b.narrow then 1 else 2
  { low := (4 * b.mantissa - below) * scale
    value := 4 * b.mantissa * scale
    high := (4 * b.mantissa + 2) * scale
    denominator := Nat.pow 2 (2 - b.exponent).toNat
    closed := b.mantissa % 2 == 0 }

/-- Whether `d · 10 ^ e` lies in the interval. -/
def Interval.holds (i : Interval) (d : Nat) (e : Int) : Bool :=
  let point := d * i.denominator * Nat.pow 10 e.toNat
  let scale := Nat.pow 10 (-e).toNat
  if i.closed then i.low * scale ≤ point && point ≤ i.high * scale
  else i.low * scale < point && point < i.high * scale

/-- The greatest `d` with `d · 10 ^ e` at most the value. -/
def Interval.floor (i : Interval) (e : Int) : Nat :=
  i.value * Nat.pow 10 (-e).toNat / (i.denominator * Nat.pow 10 e.toNat)

/-- Which of two decimals at the same distance is taken. -/
inductive Tie where
  /-- The one with an even last digit. -/
  | even
  /-- The greater one. -/
  | up
  deriving DecidableEq, Repr

/-- Whether `d + 1` is taken of `d` and `d + 1` at the same distance. -/
def Tie.upper (tie : Tie) (d : Nat) : Bool :=
  match tie with
  | .even => d % 2 == 1
  | .up => true

/-- Whether `d + 1` is nearer to the value than `d` on the grid of `10 ^ e`. -/
def Interval.upper (i : Interval) (tie : Tie) (d : Nat) (e : Int) : Bool :=
  let twice := 2 * i.value * Nat.pow 10 (-e).toNat
  let middle := (2 * d + 1) * (i.denominator * Nat.pow 10 e.toNat)
  middle < twice || (middle == twice && tie.upper d)

/-- The neighbour of the value on the grid of `10 ^ e` that rounds to it, if any. -/
def Interval.onGrid (i : Interval) (tie : Tie) (e : Int) : Option Nat :=
  let d := i.floor e
  match i.holds d e, i.holds (d + 1) e with
  | true, true => some (if i.upper tie d e then d + 1 else d)
  | true, false => some d
  | false, true => some (d + 1)
  | false, false => none

/-- The least `k` from `start` on, among the next `fuel` ones, with
`value · 10 ^ k` at least one. -/
def Interval.leadingZeros (i : Interval) : Nat → Nat → Nat
  | 0, start => start
  | fuel + 1, start =>
    if i.denominator ≤ i.value * Nat.pow 10 start then start else i.leadingZeros fuel (start + 1)

/-- The exponent of the value's first significant digit. -/
def Interval.magnitude (i : Interval) : Int :=
  let whole := i.value / i.denominator
  if whole = 0 then -(i.leadingZeros 400 1 : Int) else (whole.repr.length : Int) - 1

/-- Drops trailing zeros of the coefficient, at most `fuel` of them. -/
def Digits.trim : Nat → Digits → Digits
  | 0, d => d
  | fuel + 1, d =>
    if d.coefficient ≠ 0 ∧ d.coefficient % 10 = 0 then
      trim fuel ⟨d.coefficient / 10, d.exponent + 1⟩
    else d

/-- The first grid, from `precision` significant digits on, that has a point in
the interval. -/
def Interval.search (i : Interval) (tie : Tie) : Nat → Int → Digits
  | 0, e => ⟨i.floor e, e⟩
  | fuel + 1, e =>
    match i.onGrid tie e with
    | some d => ⟨d, e⟩
    | none => i.search tie fuel (e - 1)

/-- The digits of the nearest of the shortest decimals that round to `b`; seventeen
digits always suffice. -/
def Binary.shortest (b : Binary) (tie : Tie) : Digits :=
  if b.mantissa = 0 then ⟨0, 0⟩
  else
    let i := b.interval
    (i.search tie 17 i.magnitude).trim 400

end GraphTransformation.Decimal
