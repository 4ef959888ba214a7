import StepPlan.Binary64.Decimal
import StepPlan.Json.Value

/-! Doubles as JSON numerals. A double is written with the fewest digits that determine it. A
numeral is read by rounding its leading digits to a double and scaling that by one power of
ten, so long numerals may be read as a neighbour of the nearest double.
-/

namespace StepPlan

/-- When the digits of a number are written around the point instead of with a power of ten. The
point stands behind as many digits as its position says, before them if that is not positive.
-/
structure PointRange where
  lowest : Int
  highest : Int

namespace Numeral

/-- Numbers from `0.00001` to below `10 ^ 16` are written without a power of ten. -/
def pointRange : PointRange :=
  ⟨-4, 16⟩

/-- The numeral with the given digits and position of the point, within the range. At least one
digit stands on either side of the point.
-/
def positional (negative : Bool) (digits : List Nat) (point : Int) : Numeral :=
  if point ≤ 0 then
    ⟨negative, [0], some (List.replicate (-point).toNat 0 ++ digits), none⟩
  else
    let place := point.toNat
    let padded := digits ++ List.replicate (place - digits.length) 0
    let fraction := padded.drop place
    ⟨negative, padded.take place, some (if fraction.isEmpty then [0] else fraction), none⟩

/-- The numeral with one digit before the point and a power of ten. -/
def scientific (negative : Bool) (digits : List Nat) (point : Int) : Numeral :=
  let fraction := digits.drop 1
  ⟨negative, digits.take 1, if fraction.isEmpty then none else some fraction, some (point - 1)⟩

/-- The numeral of a finite double. -/
def ofBinary64 (x : Binary64) : Numeral :=
  let decimal := x.shortest
  let digits := Json.digitsOf decimal.digits
  let point := (digits.length : Int) + decimal.power
  if pointRange.lowest ≤ point ∧ point ≤ pointRange.highest then
    positional x.isNegative digits point
  else scientific x.isNegative digits point

/-- Whether a numeral has neither point nor exponent. -/
def isInteger (number : Numeral) : Bool :=
  number.fraction.isNone && number.exponent.isNone

/-- The natural number that a numeral writes. A sign is refused even before a zero. -/
def toNat? (number : Numeral) : Option Nat :=
  if number.isInteger && !number.negative then some (Json.valueOf number.whole) else none

/-- Appends digits to a number while it stays below `2 ^ 64`: the number and the digits that
are left.
-/
def absorb (number : Nat) : List Nat → Nat × List Nat
  | [] => (number, [])
  | digit :: rest =>
      if number * 10 + digit < 0x10000000000000000 then absorb (number * 10 + digit) rest
      else (number, digit :: rest)

/-- A power of ten as a double. -/
def powerOfTen (n : Nat) : Float :=
  Float.ofScientific 1 false n

/-- Scales a double by a power of ten. Powers beyond `308` are no doubles: a zero stays, a
positive power overflows, and a negative one is divided by in parts. Infinite results fail.
-/
def scaleByTen (x : Float) (power : Int) : Option Float :=
  if 0 ≤ power then
    if power ≤ 308 then
      let scaled := x * powerOfTen power.toNat
      if (Binary64.ofFloat scaled).isInfinite then none else some scaled
    else if x == 0 then some x else none
  else if -308 ≤ power then some (x / powerOfTen (-power).toNat)
  else if x == 0 then some x
  else scaleByTen (x / powerOfTen 308) (power + 308)
termination_by (-power).toNat
decreasing_by omega

/-- The magnitude that a numeral with a point or a power of ten is read as. The digits before the
point are taken in as long as they fit 64 bits, those left over count as zeros, and then the
digits behind the point are taken in as long as they fit.
-/
def magnitude? (number : Numeral) : Option Float :=
  let (leading, zeros) := absorb 0 number.whole
  let fraction := number.fraction.getD []
  let (digits, ignored) := absorb leading fraction
  let power := (zeros.length : Int) - ((fraction.length - ignored.length : Nat) : Int)
    + number.exponent.getD 0
  scaleByTen (Float.ofNat digits) power

/-- The double that a numeral is read as, if it is finite. -/
def toBinary64? (number : Numeral) : Option Binary64 :=
  number.magnitude?.map fun x => .ofFloat (if number.negative then -x else x)

end Numeral

end StepPlan
