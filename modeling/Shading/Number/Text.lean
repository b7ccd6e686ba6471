import Shading.Number.Shortest

/-!
# Float literals

How the absolute value of a float is written in shader code.  Both target languages read every such
text of a finite number back as a float: it has a fractional part or an exponent.

* Zero is `0.0`.
* From `10 ^ (-6)` up to `10 ^ 15` integers are written in full with `.0`, other numbers with their
  shortest digits and a point.
* All other numbers have an exponent mark after their shortest digits.
-/

namespace Shading.Binary32

/-- The number nearest to `10 ^ (-6)`, from which on positional writing starts. -/
def positionalFrom : Binary32 := ⟨0x358637BD⟩

/-- The number nearest to `10 ^ 15`, before which positional writing ends. -/
def positionalBefore : Binary32 := ⟨0x58635FA9⟩

def isPositional (x : Binary32) : Bool :=
  positionalFrom.magnitude ≤ x.magnitude && x.magnitude < positionalBefore.magnitude

end Shading.Binary32

namespace Shading.Decimal

/-- The digits with a point in front of the last `-exponent` of them. -/
def positional (d : Decimal) : String :=
  let digits := toString d.digits
  let places := (-d.exponent).toNat
  let whole := digits ++ String.ofList (List.replicate d.exponent.toNat '0')
  if places = 0 then whole
  else
    let padded := List.replicate (places + 1 - digits.length) '0' ++ digits.toList
    let split := padded.length - places
    String.ofList (padded.take split) ++ "." ++ String.ofList (padded.drop split)

/-- One digit, a point and the other digits if there are any, and the exponent of the first digit.
-/
def scientific (d : Decimal) : String :=
  let digits := (toString d.digits).toList
  let exponent := d.exponent + (digits.length : Int) - 1
  let mantissa := match digits with
    | [] => ""
    | [c] => String.ofList [c]
    | c :: rest => String.ofList (c :: '.' :: rest)
  mantissa ++ "e" ++ toString exponent

end Shading.Decimal

namespace Shading.Binary32

/-- The text of the absolute value. -/
def text (x : Binary32) : String :=
  if x.isNaN then "NaN"
  else if x.isInfinite then "inf"
  else if x.isZero then "0.0"
  else if !x.isPositional then x.shortest.scientific
  else if x.isIntegral then toString x.integerPart ++ ".0"
  else x.shortest.positional

end Shading.Binary32
