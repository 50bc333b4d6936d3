import GraphTransformation.Decimal.Shortest

/-!
How a floating-point number is written.

The digits are always the shortest that read back. A `Layout` says which numbers
are written out positionally and whether a whole number keeps a fraction; all
other numbers have one digit before the point and a signed power of ten.
-/

namespace GraphTransformation.Decimal

/-- The choices of a decimal notation. -/
structure Layout where
  /-- Whether a number whose first digit stands for this power of ten is written out. -/
  positional : Int → Bool
  /-- What follows a whole number that is written out. -/
  wholeSuffix : String
  /-- Which of two shortest decimals at the same distance is written. -/
  tie : Tie

/-- Every number is written out, and a whole number has no fraction. Ties go up. -/
def Layout.plain : Layout := ⟨fun _ => true, "", .up⟩

/-- Numbers from `0.00001` to below `10 ^ 16` are written out, whole ones with `.0`.
Ties go to the even digit. -/
def Layout.json : Layout := ⟨fun x => -5 ≤ x && x ≤ 15, ".0", .even⟩

/-- `n` zeros. -/
def zeros (n : Nat) : String := String.ofList (List.replicate n '0')

/-- The digits written out. -/
def Digits.positional (suffix : String) (d : Digits) : String :=
  let text := d.coefficient.repr
  if 0 ≤ d.exponent then
    text ++ zeros d.exponent.toNat ++ suffix
  else
    let places := (-d.exponent).toNat
    if places < text.length then
      let (whole, fraction) := text.toList.splitAt (text.length - places)
      String.ofList whole ++ "." ++ String.ofList fraction
    else
      "0." ++ zeros (places - text.length) ++ text

/-- The digits with one of them before the point and a power of ten. -/
def Digits.scientific (d : Digits) : String :=
  let text := d.coefficient.repr.toList
  let power := d.exponent + text.length - 1
  let fraction := if text.length ≤ 1 then "" else "." ++ String.ofList (text.drop 1)
  String.ofList (text.take 1) ++ fraction ++ "e" ++ (if power < 0 then "-" else "+") ++
    power.natAbs.repr

/-- The power of ten of the first digit. -/
def Digits.power (d : Digits) : Int := d.exponent + d.coefficient.repr.length - 1

/-- The digits in the notation of the layout. -/
def Layout.render (layout : Layout) (d : Digits) : String :=
  if layout.positional d.power then d.positional layout.wholeSuffix else d.scientific

/-- The text of a floating-point number; a negative zero keeps its sign. -/
def Layout.text (layout : Layout) (x : Float) : String :=
  let bits := x.toBits
  if x.isNaN then "NaN"
  else
    let sign := if bits >>> 63 = 1 then "-" else ""
    if x.isInf then sign ++ "inf"
    else sign ++ layout.render ((Binary.ofBits bits).shortest layout.tie)

end GraphTransformation.Decimal
