/-! Double precision numbers, held as their 64 bits. Two literals are the same when their
bits are the same, which keeps `0` apart from `-0` and one NaN apart from another, while
comparisons of the values go through floating point. Floating point itself knows a single NaN,
so what depends on the kind of a NaN is decided on the bits. Remainders are computed exactly on
integers.
-/

namespace StepPlan

/-- A binary64 number, given by its bits. -/
structure Binary64 where
  bits : UInt64
  deriving DecidableEq

namespace Binary64

/-- The floating point value that the bits encode. -/
def toFloat (x : Binary64) : Float :=
  Float.ofBits x.bits

/-- The bits of a floating point value. -/
def ofFloat (x : Float) : Binary64 :=
  ⟨x.toBits⟩

/-- The nearest double to a natural number, ties to even. -/
def ofNat (n : Nat) : Binary64 :=
  ofFloat (Float.ofNat n)

/-- A power of two. -/
def powerOfTwo (n : Nat) : Nat :=
  Nat.pow 2 n

/-- One more than the largest value of the fifty-two fraction bits. -/
def fractionLimit : Nat := 0x10000000000000

/-- The weight of the sign bit. -/
def signWeight : Nat := 0x8000000000000000

/-- The eleven exponent bits. -/
def exponentField (x : Binary64) : Nat :=
  x.bits.toNat / fractionLimit % 2048

/-- The fifty-two fraction bits. -/
def fraction (x : Binary64) : Nat :=
  x.bits.toNat % fractionLimit

/-- The sign bit, which zeros and NaNs have too. -/
def isNegative (x : Binary64) : Bool :=
  decide (signWeight ≤ x.bits.toNat)

/-- Neither an infinity nor a NaN: the exponent bits are not all ones. -/
def isFinite (x : Binary64) : Bool :=
  decide (x.exponentField ≠ 2047)

/-- The exponent bits are all ones and the fraction bits are not all zeros. -/
def isNaN (x : Binary64) : Bool :=
  decide (x.exponentField = 2047 ∧ x.fraction ≠ 0)

/-- A NaN whose highest fraction bit is clear. Powers and hypotenuses that have a value in spite of
a quiet NaN have none in spite of a signaling one.
-/
def isSignaling (x : Binary64) : Bool :=
  x.isNaN && decide (x.fraction < 0x8000000000000)

/-- The exponent bits are all ones and the fraction bits are all zeros. -/
def isInfinite (x : Binary64) : Bool :=
  decide (x.exponentField = 2047 ∧ x.fraction = 0)

/-- The integer `m` of a finite magnitude `m * 2 ^ e`, with its leading bit made explicit
for normal numbers.
-/
def significand (x : Binary64) : Nat :=
  if x.exponentField = 0 then x.fraction else fractionLimit + x.fraction

/-- The exponent `e` of a finite magnitude `m * 2 ^ e`. Subnormal numbers share the exponent
of the smallest normal ones.
-/
def exponent (x : Binary64) : Int :=
  if x.exponentField = 0 then -1074 else (x.exponentField : Int) - 1075

/-- The positive quiet NaN. -/
def nan : Binary64 :=
  ⟨0x7ff8000000000000⟩

/-- The infinity of the given sign. -/
def infinity (negative : Bool) : Binary64 :=
  ⟨if negative then 0xfff0000000000000 else 0x7ff0000000000000⟩

/-- The zero of the given sign. -/
def zero (negative : Bool) : Binary64 :=
  ⟨if negative then 0x8000000000000000 else 0⟩

/-- `1` for true and `0` for false. -/
def ofBool (truth : Bool) : Binary64 :=
  if truth then ⟨0x3ff0000000000000⟩ else zero false

/-- `n * 2 ^ e` as a natural number, rounded toward zero. -/
def scale (n : Nat) (e : Int) : Nat :=
  if 0 ≤ e then n * powerOfTwo e.toNat else n / powerOfTwo (-e).toNat

/-- Whether rounding the quotient `n / 2 ^ shift` to nearest goes up. An exact half goes to the
even neighbour.
-/
def roundsUp (n shift : Nat) : Bool :=
  let kept := n / powerOfTwo shift
  let lost := n % powerOfTwo shift
  let half := powerOfTwo shift / 2
  decide (shift ≠ 0) && (decide (half < lost) || (decide (lost = half) && decide (kept % 2 = 1)))

/-- The double nearest to `n * 2 ^ e` with the given sign, ties to even. -/
def ofScaled (negative : Bool) (n : Nat) (e : Int) : Binary64 :=
  if n = 0 then zero negative
  else
    let normal := e + (n.log2 : Int) - 52
    let quantum := if normal < -1074 then -1074 else normal
    let shift := (quantum - e).toNat
    let rounded :=
      if quantum ≤ e then scale n (e - quantum)
      else n / powerOfTwo shift + (roundsUp n shift).toNat
    let magnitude := (quantum + 1074).toNat * fractionLimit + rounded
    if 2047 * fractionLimit ≤ magnitude then infinity negative
    else ⟨UInt64.ofNat (magnitude + negative.toNat * signWeight)⟩

/-- The smaller of two exponents, at which both significands can be written exactly. -/
def lowerExponent (x y : Binary64) : Int :=
  if x.exponent ≤ y.exponent then x.exponent else y.exponent

/-- The remainder of a division that is truncated toward zero. It is exact and takes the sign
of the dividend. There is none of an infinite dividend or a zero divisor.
-/
def remainder (x y : Binary64) : Binary64 :=
  if x.isNaN || y.isNaN || x.isInfinite || (y.isFinite && y.significand == 0) then nan
  else if y.isInfinite || x.significand == 0 then x
  else
    let least := lowerExponent x y
    let dividend := scale x.significand (x.exponent - least)
    let divisor := scale y.significand (y.exponent - least)
    ofScaled x.isNegative (dividend % divisor) least

/-- The first number to the power of the second. A power with exponent zero or basis one is one,
also if the other number is a quiet NaN.
-/
def power (x y : Binary64) : Binary64 :=
  if x.isSignaling || y.isSignaling then nan else ofFloat (x.toFloat.pow y.toFloat)

/-- The smaller value. A NaN is ignored, and of two equal values, such as zeros of either sign,
the second is kept.
-/
def least (x y : Binary64) : Binary64 :=
  if y.isNaN then x else if x.toFloat < y.toFloat then x else y

/-- The larger value. A NaN is ignored, and of two equal values, such as zeros of either sign,
the second is kept.
-/
def greatest (x y : Binary64) : Binary64 :=
  if y.isNaN then x else if y.toFloat < x.toFloat then x else y

/-- Equality of the values: a NaN differs from everything, and both zeros are equal. -/
def sameValue (x y : Binary64) : Bool :=
  x.toFloat == y.toFloat

/-- Everything but the two zeros counts as true. -/
def isTrue (x : Binary64) : Bool :=
  !x.sameValue (zero false)

end Binary64

end StepPlan
