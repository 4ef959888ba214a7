import StepPlan.Binary64

/-! The length of a hypotenuse in floating point. The root of the sum of squares is improved by one
correction step. Sides whose squares would leave the range of doubles are scaled by a power of two
before and scaled back after. The result is within one unit in the last place; it is not always
the nearest double.
-/

namespace StepPlan.Binary64

/-- A power of two as a floating point number. -/
def floatPower (e : Int) : Float :=
  (ofScaled false 1 e).toFloat

/-- By how much the square of an approximate hypotenuse exceeds the sum of the squared sides. It
is put together from differences of numbers that lie close to each other, so that little is lost
to rounding.
-/
def squareExcess (long short root : Float) : Float :=
  if root ≤ 2 * short then
    let rise := root - short
    long * (2 * rise - long) + (rise - 2 * (long - short)) * rise
  else
    let rise := root - long
    2 * rise * (long - 2 * short) + ((4 * rise - short) * short + rise * rise)

/-- The root of the sum of two squares, improved by one correction step. The squares must stay
within the range of doubles.
-/
def correctedRoot (long short : Float) : Float :=
  let root := (long * long + short * short).sqrt
  root - squareExcess long short root / (2 * root)

/-- The exponent of the power of two by which the sides are scaled before they are squared. -/
def sideScale (long short : Float) : Int :=
  if floatPower 511 < long then -600 else if short < floatPower (-459) then 600 else 0

/-- The hypotenuse of two finite sides that are not negative. A side that is `2 ^ 54` times as long
as the other is as good as the hypotenuse.
-/
def hypotenuseOfSides (long short : Float) : Float :=
  if short * floatPower 54 ≤ long then long + short
  else
    let scale := sideScale long short
    correctedRoot (long * floatPower scale) (short * floatPower scale) * floatPower (-scale)

/-- The length of the hypotenuse. An infinite side outweighs a quiet NaN but not a signaling
one.
-/
def hypotenuse (x y : Binary64) : Binary64 :=
  if x.isSignaling || y.isSignaling then nan
  else if x.isInfinite || y.isInfinite then infinity false
  else if x.isNaN || y.isNaN then nan
  else
    let a := x.toFloat.abs
    let b := y.toFloat.abs
    ofFloat (if a < b then hypotenuseOfSides b a else hypotenuseOfSides a b)

end StepPlan.Binary64
