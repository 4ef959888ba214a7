import Mathlib.Algebra.Order.Ring.Nat
import StepPlan.Binary64.Decimal

/-! Every magnitude other than zero has a shortest decimal other than zero. The search for it goes
from coarse grids to fine ones, and the last of them is finer than the unit in which the rounding
interval is measured, so it has a point in the interval.
-/

namespace StepPlan.Binary64

-----------------------------------------------------------------------------------------
-- Powers of two and ten
-----------------------------------------------------------------------------------------

/-- A power of ten is at most a power of two, because `10 ^ 3` is at most `2 ^ 10`. -/
theorem ten_pow_le_two_pow {n m : Nat} (exponents : 10 * n ≤ 3 * m) : 10 ^ n ≤ 2 ^ m := by
  refine (Nat.pow_le_pow_iff_left (n := 3) (by decide)).mp ?_
  calc (10 ^ n) ^ 3
      = (10 ^ 3) ^ n := by rw [← pow_mul, ← pow_mul, Nat.mul_comm]
    _ ≤ (2 ^ 10) ^ n := Nat.pow_le_pow_left (by decide) n
    _ = 2 ^ (10 * n) := (pow_mul 2 10 n).symm
    _ ≤ 2 ^ (3 * m) := Nat.pow_le_pow_right (by decide) exponents
    _ = (2 ^ m) ^ 3 := by rw [← pow_mul, Nat.mul_comm]

/-- A power of two is at most a power of ten, because `2 ^ 23` is at most `10 ^ 7`. -/
theorem two_pow_le_ten_pow {n m : Nat} (exponents : 7 * n ≤ 23 * m) : 2 ^ n ≤ 10 ^ m := by
  refine (Nat.pow_le_pow_iff_left (n := 7) (by decide)).mp ?_
  calc (2 ^ n) ^ 7
      = 2 ^ (7 * n) := by rw [← pow_mul, Nat.mul_comm]
    _ ≤ 2 ^ (23 * m) := Nat.pow_le_pow_right (by decide) exponents
    _ = (2 ^ 23) ^ m := pow_mul 2 23 m
    _ ≤ (10 ^ 7) ^ m := Nat.pow_le_pow_left (by decide) m
    _ = (10 ^ m) ^ 7 := by rw [← pow_mul, ← pow_mul, Nat.mul_comm]

theorem twos_pos (e : Int) : 0 < twos e :=
  Nat.pow_pos (by decide)

theorem tens_pos (e : Int) : 0 < tens e :=
  Nat.pow_pos (by decide)

-----------------------------------------------------------------------------------------
-- Points of a grid
-----------------------------------------------------------------------------------------

namespace RoundingInterval

variable {interval : RoundingInterval}

/-- Whether a multiple of `10 ^ power` lies in the interval. -/
def contains (interval : RoundingInterval) (power : Int) (n : Nat) : Bool :=
  let up := twos interval.unit * tens (-power)
  let point := n * (twos (-interval.unit) * tens power)
  if interval.closed then
    decide (interval.low * up ≤ point) && decide (point ≤ interval.high * up)
  else decide (interval.low * up < point) && decide (point < interval.high * up)

/-- The multiple of `10 ^ power` right above the value. -/
def next (interval : RoundingInterval) (power : Int) : Nat :=
  interval.value * (twos interval.unit * tens (-power)) / (twos (-interval.unit) * tens power) + 1

/-- What a grid is searched for lies in the interval, and the point right above the value is not
overlooked.
-/
theorem gridPoint?_cases (interval : RoundingInterval) (power : Int)
    : (interval.gridPoint? power = none ∧ interval.contains power (interval.next power) = false)
      ∨ ∃ point, interval.gridPoint? power = some point ∧ interval.contains power point = true := by
  generalize result : interval.gridPoint? power = found
  unfold gridPoint? at result
  dsimp only at result
  split at result <;> rename_i below above <;> subst result
  · refine Or.inr ⟨_, rfl, ?_⟩
    split
    · exact below
    · exact above
  · exact Or.inr ⟨_, rfl, below⟩
  · exact Or.inr ⟨_, rfl, above⟩
  · exact Or.inl ⟨rfl, above⟩

/-- An interval above zero holds no zero. -/
theorem pos_of_gridPoint? (positive : 0 < interval.low) {power : Int} {point : Nat}
    (found : interval.gridPoint? power = some point)
    : 0 < point := by
  have scaled : 0 < interval.low * (twos interval.unit * tens (-power)) :=
    Nat.mul_pos positive (Nat.mul_pos (twos_pos _) (tens_pos _))
  rcases interval.gridPoint?_cases power with ⟨missing, _⟩ | ⟨same, sameFound, inside⟩
  · cases found.symm.trans missing
  · cases found.symm.trans sameFound
    refine Nat.pos_of_ne_zero fun zero => ?_
    simp only [contains, zero, Nat.zero_mul] at inside
    split at inside <;> simp [scaled.ne'] at inside

/-- (interval.Fine power) means that the multiples of `10 ^ power` are no further apart than the
unit in which the interval is measured.
-/
def Fine (interval : RoundingInterval) (power : Int) : Prop :=
  twos (-interval.unit) * tens power ≤ twos interval.unit * tens (-power)

/-- On a fine grid the point right above the value lies in the interval. -/
theorem contains_next (below : interval.low ≤ interval.value)
    (above : interval.value + 1 < interval.high) {power : Int} (fine : interval.Fine power)
    : interval.contains power (interval.next power) = true := by
  have positive : 0 < twos (-interval.unit) * tens power := Nat.mul_pos (twos_pos _) (tens_pos _)
  unfold Fine at fine
  unfold contains next
  dsimp only
  generalize twos interval.unit * tens (-power) = up at *
  generalize twos (-interval.unit) * tens power = down at *
  have lower : interval.low * up < (interval.value * up / down + 1) * down := by
    rw [Nat.mul_comm _ down]
    exact (Nat.mul_le_mul_right up below).trans_lt (Nat.lt_mul_div_succ _ positive)
  have upper : (interval.value * up / down + 1) * down < interval.high * up := by
    calc (interval.value * up / down + 1) * down
        = interval.value * up / down * down + down := Nat.succ_mul _ _
      _ ≤ interval.value * up + up := Nat.add_le_add (Nat.div_mul_le_self _ _) fine
      _ = (interval.value + 1) * up := (Nat.succ_mul _ _).symm
      _ < interval.high * up := Nat.mul_lt_mul_of_pos_right above (positive.trans_le fine)
  simp [lower, lower.le, upper, upper.le]

/-- A search that ends at a fine grid finds a point above zero, by induction on its steps. -/
theorem digits_coarsest_pos (positive : 0 < interval.low) (below : interval.low ≤ interval.value)
    (above : interval.value + 1 < interval.high) (steps : Nat) {power : Int}
    (fine : interval.Fine (power - steps))
    : 0 < (interval.coarsest (steps + 1) power).digits := by
  induction steps generalizing power with
  | zero =>
      have inside := contains_next below above (by simpa using fine)
      rcases interval.gridPoint?_cases power with ⟨_, outside⟩ | ⟨point, found, _⟩
      · cases inside.symm.trans outside
      · simpa only [coarsest, found] using pos_of_gridPoint? positive found
  | succ steps ih =>
      unfold coarsest
      cases found : interval.gridPoint? power with
      | some point => exact pos_of_gridPoint? positive found
      | none =>
          apply ih
          rwa [Int.sub_sub, Int.add_comm 1]

end RoundingInterval

-----------------------------------------------------------------------------------------
-- The whole search
-----------------------------------------------------------------------------------------

theorem significand_lt (x : Binary64) : x.significand < 2 ^ 53 := by
  have fraction : x.fraction < fractionLimit := Nat.mod_lt _ (by decide)
  unfold significand fractionLimit at *
  split <;> omega

theorem exponent_bounds (x : Binary64) : -1074 ≤ x.exponent ∧ x.exponent ≤ 972 := by
  have field : x.exponentField < 2048 := Nat.mod_lt _ (by decide)
  unfold exponent
  split <;> omega

/-- The last grid of the search is fine: it starts less than fifty-five bits above the unit and goes
down by twenty-three digits.
-/
theorem fine_last (x : Binary64) {bits : Int} (bound : bits ≤ x.exponent + 53)
    : x.roundingInterval.Fine (bits * 30103 / 100000 + 1 - (23 : Nat)) := by
  have range := x.exponent_bounds
  generalize power : bits * 30103 / 100000 + 1 - ((23 : Nat) : Int) = last
  change twos (-(x.exponent - 2)) * tens last ≤ twos (x.exponent - 2) * tens (-last)
  by_cases large : 0 ≤ x.exponent - 2
  · -- The unit is a whole number, and the grid may be one of fractions.
    have small : twos (-(x.exponent - 2)) = 1 := by
      rw [twos, Int.toNat_of_nonpos (by omega)]
      rfl
    rw [small, Nat.one_mul]
    calc tens last
        ≤ twos (x.exponent - 2) := ten_pow_le_two_pow (by omega)
      _ ≤ twos (x.exponent - 2) * tens (-last) := Nat.le_mul_of_pos_right _ (tens_pos _)
  · -- The unit is a fraction, and so small a grid is one of fractions as well.
    have small : tens last = 1 := by
      rw [tens, Int.toNat_of_nonpos (by omega)]
    rw [small, Nat.mul_one]
    calc twos (-(x.exponent - 2))
        ≤ tens (-last) := two_pow_le_ten_pow (by omega)
      _ ≤ twos (x.exponent - 2) * tens (-last) := Nat.le_mul_of_pos_left _ (twos_pos _)

/-- A magnitude other than zero is written with digits other than zero. -/
theorem digits_shortest_pos {x : Binary64} (nonzero : x.significand ≠ 0)
    : 0 < x.shortest.digits := by
  have log : x.significand.log2 < 53 := (Nat.log2_lt nonzero).mpr x.significand_lt
  unfold shortest
  rw [if_neg nonzero]
  apply RoundingInterval.digits_coarsest_pos
  · unfold roundingInterval
    dsimp only
    split <;> omega
  · unfold roundingInterval
    dsimp only
    split <;> omega
  · exact Nat.lt_succ_self _
  · exact x.fine_last (by omega)

end StepPlan.Binary64
