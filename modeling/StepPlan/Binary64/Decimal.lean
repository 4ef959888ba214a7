import StepPlan.Binary64

/-! Decimal forms of double precision numbers, computed in exact integer arithmetic: the
fewest digits that determine a number, and a magnitude rounded to tenths.
-/

namespace StepPlan

/-- A positive decimal `digits * 10 ^ power`. -/
structure Decimal where
  digits : Nat
  power : Int
  deriving DecidableEq

namespace Binary64

/-- `10 ^ e` for a natural exponent and `1` below. -/
def tens (e : Int) : Nat :=
  Nat.pow 10 e.toNat

/-- `2 ^ e` for a natural exponent and `1` below. -/
def twos (e : Int) : Nat :=
  powerOfTwo e.toNat

/-- The values that round to a number: those between `low` and `high`, measured in quarters
of its unit in the last place. The gap below a power of two is half as wide as the gap above.
The ends belong to it when the significand is even.
-/
structure RoundingInterval where
  low : Nat
  value : Nat
  high : Nat
  unit : Int
  closed : Bool

/-- The rounding interval of a finite magnitude. -/
def roundingInterval (x : Binary64) : RoundingInterval :=
  let m := x.significand
  { low := if x.fraction = 0 ∧ 1 < x.exponentField then 4 * m - 1 else 4 * m - 2
    value := 4 * m
    high := 4 * m + 2
    unit := x.exponent - 2
    closed := decide (m % 2 = 0) }

/-- The point of the grid of multiples of `10 ^ power` that is nearest to the value and lies in
its rounding interval, an exact tie going to the even multiple.
-/
def RoundingInterval.gridPoint? (interval : RoundingInterval) (power : Int) : Option Nat :=
  let up := twos interval.unit * tens (-power)
  let down := twos (-interval.unit) * tens power
  let value := interval.value * up
  let below := value / down
  let inside (n : Nat) : Bool :=
    let point := n * down
    if interval.closed then
      decide (interval.low * up ≤ point) && decide (point ≤ interval.high * up)
    else decide (interval.low * up < point) && decide (point < interval.high * up)
  let gapBelow := value - below * down
  let gapAbove := (below + 1) * down - value
  let preferBelow := decide (gapBelow < gapAbove)
    || (decide (gapBelow = gapAbove) && decide (below % 2 = 0))
  match inside below, inside (below + 1) with
  | true, true => some (if preferBelow then below else below + 1)
  | true, false => some below
  | false, true => some (below + 1)
  | false, false => none

/-- Searches the grids from `10 ^ power` downward for the first one with a point in the rounding
interval. The coarsest such grid gives the fewest digits.
-/
def RoundingInterval.coarsest (interval : RoundingInterval) : Nat → Int → Decimal
  | 0, power => ⟨0, power⟩
  | steps + 1, power =>
      match interval.gridPoint? power with
      | some digits => ⟨digits, power⟩
      | none => interval.coarsest steps (power - 1)

/-- The shortest decimal that reads back as the given finite magnitude, and the nearest of
those. The search starts above the magnitude, since `30103 / 100000` exceeds the logarithm of
two, and seventeen digits always suffice.
-/
def shortest (x : Binary64) : Decimal :=
  if x.significand = 0 then ⟨0, 0⟩
  else
    let bits := x.exponent + (x.significand.log2 : Int) + 1
    x.roundingInterval.coarsest 24 (bits * 30103 / 100000 + 1)

/-- A finite magnitude in tenths, rounded to nearest with ties to even. -/
def tenths (x : Binary64) : Nat :=
  let scaled := 10 * x.significand
  if 0 ≤ x.exponent then scaled * twos x.exponent
  else
    let shift := (-x.exponent).toNat
    scaled / powerOfTwo shift + (roundsUp scaled shift).toNat

end Binary64

end StepPlan
